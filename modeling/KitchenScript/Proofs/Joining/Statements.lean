import KitchenScript.Proofs.Grammar.Programs
import KitchenScript.Proofs.Joining.Expressions

/-!
# Statements in a file that goes on

A statement at the end of a file ends there, and in the longer file it ends at the line end that
follows.  In both the line ends behind it are skipped before the next statement is read, and this
may lead past the place where the shorter file ended.  So the loop over the statements of the
longer file first gives the statements of the shorter one, and then goes on with the new lines.
-/

namespace KitchenScript.Parser

open Grammar Cursor

variable {u : List Token} {c d : Cursor}

/-! ## Names and parameters -/

theorem ident_takes {x : Ident} (h : ident c = (some x, d)) : c.kind ≠ .fileEnd := by
  rw [kind_of_kinds_cons (ident_eq_some h).1]
  simp

theorem carries_ident : Carries u ident where
  takes := ident_takes
  carry {c d x} hc h := by
    have hne := ident_takes h
    have hkinds := (ident_eq_some h).1
    have hadvance : ident c = (some ⟨x.name, c.span⟩, c.advance) := ident_of_kinds hkinds
    rw [h, Prod.mk.injEq, Option.some.injEq] at hadvance
    obtain ⟨hx, rfl⟩ := hadvance
    refine ⟨hc.advance hne, Nat.le_of_lt (length_advance_lt hne), ?_⟩
    rw [ident, hc.kind_goOn hne, kind_of_kinds_cons hkinds, hc.span_goOn hne, hc.advance_goOn hne]
    exact congrArg (fun y => (some y, c.advance.goOn u)) hx.symm

theorem Carries.after_lineEnds {p : Parser α} (hp : Carries u p) {a : α} (hc : c.InFile)
    (h : p c.skipLineEnds = (some a, d)) : Carried u c d a (p (c.goOn u).skipLineEnds) := by
  have hcarried := hp.carry hc.skipLineEnds h
  refine hcarried.after c.length_skipLineEnds_le ?_
  rw [hc.skipLineEnds_goOn (hp.takes h)]

theorem rest_afterParam (seen : List Ident) (param : Ident) (c : Cursor) :
    (afterParam seen param c).rest = c.rest := by
  unfold afterParam
  split <;> rfl

theorem afterParam_goOn (seen : List Ident) (param : Ident) (c : Cursor) :
    afterParam seen param (c.goOn u) = (afterParam seen param c).goOn u := by
  unfold afterParam
  split <;> rfl

theorem inFile_afterParam (h : c.InFile) (seen : List Ident) (param : Ident) :
    (afterParam seen param c).InFile := by
  obtain ⟨w, t, hrest, ht, hw⟩ := h
  exact ⟨w, t, by rw [rest_afterParam, hrest], ht, hw⟩

theorem paramList_takes {bound : List Token} {seen found : List Ident} (hc : c.InFile)
    (hbound : c.rest.length ≤ bound.length)
    (h : paramList bound seen c = (some found, d)) : c.skipLineEnds.kind ≠ .fileEnd := by
  cases bound with
  | nil => exact absurd hbound (Nat.not_le_of_lt hc.length_pos)
  | cons t bound =>
      rw [paramList, skipLineEnds_bind_apply] at h
      obtain ⟨param, c₁, hparam, -⟩ := bind_eq_some.mp h
      exact ident_takes hparam

theorem carried_paramList {bound bound' : List Token} {seen found : List Ident} (hc : c.InFile)
    (hbound : c.rest.length ≤ bound.length) (hbound' : c.rest.length ≤ bound'.length)
    (h : paramList bound seen c = (some found, d)) (hd : d.kind ≠ .fileEnd) :
    Carried u c d found (paramList bound' seen (c.goOn u)) := by
  have hpos := hc.length_pos
  induction bound generalizing bound' c seen with
  | nil => exact absurd hbound (Nat.not_le_of_lt hpos)
  | cons t bound ih =>
      obtain ⟨t', bound', rfl⟩ := List.exists_cons_of_length_pos (l := bound') (by omega)
      have hident := h
      rw [paramList, skipLineEnds_bind_apply] at hident
      obtain ⟨param, c₁, hparam, -⟩ := bind_eq_some.mp hident
      have hfirst := carries_ident.after_lineEnds (u := u) hc hparam
      rw [paramList_cons hparam] at h
      rw [paramList_cons hfirst.eq, afterParam_goOn]
      have hfile := inFile_afterParam hfirst.inFile seen param
      have hlength : (afterParam seen param c₁).rest.length ≤ c.rest.length := by
        rw [rest_afterParam]
        exact hfirst.length_le
      generalize afterParam seen param c₁ = c₂ at h hfile hlength
      have hle := c₂.length_skipLineEnds_le
      by_cases hcomma : c₂.skipLineEnds.kind = .symbol .comma
      · have hne : c₂.skipLineEnds.kind ≠ .fileEnd := by simp [hcomma]
        have hlt := length_advance_lt hne
        have hnext := hfile.skipLineEnds.advance hne
        rw [if_pos hcomma] at h
        simp only [List.length_cons] at hbound hbound'
        have hroom : c₂.skipLineEnds.advance.rest.length ≤ bound'.length := by omega
        refine (ih hnext (by omega) hroom h hnext.length_pos).after (by omega) ?_
        rw [hfile.skipLineEnds_goOn hne, hfile.skipLineEnds.kind_goOn hne, if_pos hcomma,
          hfile.skipLineEnds.advance_goOn hne]
      · rw [if_neg hcomma] at h
        cases h
        refine ⟨hfile.skipLineEnds, by omega, ?_⟩
        rw [hfile.skipLineEnds_goOn hd, hfile.skipLineEnds.kind_goOn hd, if_neg hcomma]

theorem carried_params (hu : GoesOn u) {found : List Ident} (hc : c.InFile)
    (h : params c = (some found, d)) : Carried u c d found (params (c.goOn u)) := by
  obtain ⟨hopen, h⟩ := expect_bind_eq_some.mp h
  rw [skipLineEnds_bind_apply, kind_bind_apply] at h
  have hfile := hc.advance (by simp [hopen])
  apply carried_expect_bind hc hopen (by simp)
  by_cases hclose : c.advance.skipLineEnds.kind = .symbol .rightParen
  · have hne : c.advance.skipLineEnds.kind ≠ .fileEnd := by simp [hclose]
    rw [if_pos hclose] at h
    obtain ⟨-, h⟩ := expect_bind_eq_some.mp h
    cases h
    apply carried_skipLineEnds_bind hfile hne
    rw [kind_bind_apply, hfile.skipLineEnds.kind_goOn hne, if_pos hclose]
    exact carried_expect_bind hfile.skipLineEnds hclose (by simp)
      (carried_pure (hfile.skipLineEnds.advance hne) [])
  · rw [if_neg hclose] at h
    obtain ⟨names, c₁, hnames, h⟩ := bind_eq_some.mp h
    obtain ⟨hclose₁, h⟩ := expect_bind_eq_some.mp h
    cases h
    have hne₁ : c₁.kind ≠ .fileEnd := by simp [hclose₁]
    have hne : c.advance.skipLineEnds.kind ≠ .fileEnd := by
      have htakes := paramList_takes hfile.skipLineEnds (Nat.le_refl _) hnames
      rwa [skipLineEnds_skipLineEnds] at htakes
    have hcarried := carried_paramList (u := u) hfile.skipLineEnds (Nat.le_refl _)
      (hfile.skipLineEnds.length_le_goOn hu) hnames hne₁
    apply carried_skipLineEnds_bind hfile hne
    rw [kind_bind_apply, hfile.skipLineEnds.kind_goOn hne, if_neg hclose]
    exact hcarried.bind (carried_expect_bind hcarried.inFile hclose₁ (by simp)
      (carried_pure (hcarried.inFile.advance hne₁) _))

/-! ## Simple statements -/

/-- A reading gave `a` and left `d`, and in the file that goes on it gives the same; the cursors
it leaves there and here are the same once line ends are skipped. -/
def Ends (u : List Token) (d : Cursor) (a : α) (x : Option α × Cursor) : Prop :=
  d.InFile ∧ ∃ d', x = (some a, d') ∧ d'.skipLineEnds = (d.goOn u).skipLineEnds

theorem Carried.ends {a : α} {x : Option α × Cursor} (h : Carried u c d a x) : Ends u d a x :=
  ⟨h.inFile, d.goOn u, h.eq, rfl⟩

theorem Carried.bind_ends {c₁ : Cursor} {p : Parser α} {f : α → Parser β} {a : α} {b : β}
    (h : Carried u c c₁ a (p (c.goOn u))) (hf : Ends u d b (f a (c₁.goOn u))) :
    Ends u d b ((p >>= f) (c.goOn u)) := by
  rwa [bind_of_eq_some h.eq]

theorem ends_statementEnd (hu : GoesOn u) {inBlock : Bool} {a : Unit} (hc : c.InFile)
    (h : statementEnd inBlock c = (some a, d)) (hfindings : d.findings = []) :
    Ends u d a (statementEnd inBlock (c.goOn u)) := by
  unfold statementEnd at h ⊢
  split at h
  · rename_i hk
    cases h
    rw [hc.kind_goOn_of_end hk hu]
    exact ⟨hc, _, rfl, skipLineEnds_skipLineEnds _⟩
  · rename_i hk
    cases h
    rw [hc.kind_goOn (by simp [hk]), hk]
    exact ⟨hc, _, rfl, rfl⟩
  · rename_i hk
    cases h
    rw [hc.kind_goOn (by simp [hk]), hk]
    refine ⟨hc.skipLineEnds, _, rfl, ?_⟩
    rw [skipLineEnds_skipLineEnds, hc.skipLineEnds_both.2]
  · cases h
    simp at hfindings

theorem ends_statementEnd_bind (hu : GoesOn u) {inBlock : Bool} {f : Unit → Parser α} {a b : α}
    (hf : ∀ c, f () c = (some a, c)) (hc : c.InFile)
    (h : (statementEnd inBlock >>= f) c = (some b, d)) (hfindings : d.findings = []) :
    Ends u d b ((statementEnd inBlock >>= f) (c.goOn u)) := by
  obtain ⟨_, c₁, hend, h⟩ := bind_eq_some.mp h
  rw [hf] at h
  cases h
  obtain ⟨hfile, d', hend', hskip⟩ := ends_statementEnd hu hc hend hfindings
  exact ⟨hfile, d', by rw [bind_of_eq_some hend', hf], hskip⟩

theorem ends_expressionLine (hu : GoesOn u) {inBlock : Bool} {f : Expr → Stmt} {s : Stmt}
    (hc : c.InFile) (h : expressionLine inBlock f c = (some s, d)) (hfindings : d.findings = []) :
    Ends u d s (expressionLine inBlock f (c.goOn u)) := by
  obtain ⟨e, c₁, he, h⟩ := bind_eq_some.mp h
  have hexpr := (carries_expression hu).carry hc he
  exact hexpr.bind_ends (ends_statementEnd_bind hu (fun _ => rfl) hexpr.inFile h hfindings)

section Statement

variable {inBlock : Bool} {s : Stmt}

theorem ends_varStmt (hu : GoesOn u) (hc : c.InFile) (hne : c.kind ≠ .fileEnd)
    (h : varStmt inBlock c = (some s, d)) (hfindings : d.findings = []) :
    Ends u d s (varStmt inBlock (c.goOn u)) := by
  rw [varStmt, advance_bind_apply] at h
  obtain ⟨x, c₁, hx, h⟩ := bind_eq_some.mp h
  obtain ⟨hassign, h⟩ := expect_bind_eq_some.mp h
  have hname := carries_ident.carry (u := u) (hc.advance hne) hx
  rw [varStmt, advance_bind_goOn hc hne]
  apply hname.bind_ends
  rw [expect_bind_goOn hname.inFile hassign (by simp)]
  exact ends_expressionLine hu (hname.inFile.advance (by simp [hassign])) h hfindings

theorem startsAssignment_iff_kinds : startsAssignment c = true ↔
    (∃ x, c.kind = .identifier x) ∧ c.advance.kind = .symbol .assign := by
  rw [startsAssignment_iff]
  constructor
  · rintro ⟨x, v, h⟩
    refine ⟨⟨x, kind_of_kinds_cons h⟩, kind_of_kinds_cons (v := v) ?_⟩
    rw [kinds_advance, h, List.tail_cons]
  · rintro ⟨⟨x, hx⟩, hassign⟩
    refine ⟨x, c.advance.advance.kinds, ?_⟩
    rw [kinds_eq_cons hx (by simp), kinds_eq_cons hassign (by simp)]

theorem startsAssignment_goOn (hu : GoesOn u) (hc : c.InFile) :
    startsAssignment (c.goOn u) = startsAssignment c := by
  have hname : (∃ x, (c.goOn u).kind = .identifier x) ↔ ∃ x, c.kind = .identifier x :=
    exists_congr fun x => hc.kind_goOn_eq_iff hu (by simp) (by simp)
  rw [Bool.eq_iff_iff, startsAssignment_iff_kinds, startsAssignment_iff_kinds, hname]
  apply and_congr_right
  rintro ⟨x, hx⟩
  have hne : c.kind ≠ .fileEnd := by simp [hx]
  rw [hc.advance_goOn hne]
  exact (hc.advance hne).kind_goOn_eq_iff hu (by simp) (by simp)

theorem ends_assignStmt (hu : GoesOn u) (hc : c.InFile) (hstarts : startsAssignment c = true)
    (h : assignStmt inBlock c = (some s, d)) (hfindings : d.findings = []) :
    Ends u d s (assignStmt inBlock (c.goOn u)) := by
  obtain ⟨⟨x, hx⟩, hassign⟩ := startsAssignment_iff_kinds.mp hstarts
  have hident := ident_of_kinds (kinds_eq_cons hx (by simp))
  have hname := carries_ident.carry (u := u) hc hident
  have hne : c.advance.kind ≠ .fileEnd := by simp [hassign]
  rw [assignStmt, bind_of_eq_some hident, advance_bind_apply] at h
  rw [assignStmt, bind_of_eq_some hname.eq, advance_bind_goOn hname.inFile hne]
  exact ends_expressionLine hu (hname.inFile.advance hne) h hfindings

theorem returnValue_of_not_ends (h : ¬ EndsStmt c.kind) :
    returnValue c = (expression >>= fun value => pure (some value)) c := by
  rw [returnValue, kind_bind_apply]
  cases hk : c.kind with
  | lineEnd => exact absurd (.inl hk) h
  | fileEnd => exact absurd (.inr (.inl hk)) h
  | symbol mark =>
      cases mark with
      | rightBrace => exact absurd (.inr (.inr hk)) h
      | _ => rfl
  | _ => rfl

theorem carried_returnValue (hu : GoesOn u) {value : Option Expr} (hc : c.InFile)
    (h : returnValue c = (some value, d)) : Carried u c d value (returnValue (c.goOn u)) := by
  by_cases hends : EndsStmt c.kind
  · have hboth : EndsStmt (c.goOn u).kind = EndsStmt c.kind :=
      hc.apply_kind_goOn hu (propext (iff_of_true (.inl rfl) (.inr (.inl rfl))))
    rw [returnValue_of_ends hends] at h
    cases h
    exact ⟨hc, Nat.le_refl _, returnValue_of_ends (hboth ▸ hends)⟩
  · have hne : c.kind ≠ .fileEnd := fun hk => hends (.inr (.inl hk))
    have hends' : ¬ EndsStmt (c.goOn u).kind := by rwa [hc.kind_goOn hne]
    rw [returnValue_of_not_ends hends] at h
    obtain ⟨e, c₁, he, h⟩ := bind_eq_some.mp h
    cases h
    have hexpr := (carries_expression hu).carry hc he
    rw [returnValue_of_not_ends hends']
    exact hexpr.bind (carried_pure hexpr.inFile _)

theorem ends_returnStmt (hu : GoesOn u) (hc : c.InFile) (hne : c.kind ≠ .fileEnd)
    (h : returnStmt inBlock c = (some s, d)) (hfindings : d.findings = []) :
    Ends u d s (returnStmt inBlock (c.goOn u)) := by
  rw [returnStmt, advance_bind_apply] at h
  obtain ⟨value, c₁, hvalue, h⟩ := bind_eq_some.mp h
  have hcarried := carried_returnValue hu (hc.advance hne) hvalue
  rw [returnStmt, advance_bind_goOn hc hne]
  apply hcarried.bind_ends
  exact ends_statementEnd_bind hu (fun _ => rfl) hcarried.inFile h hfindings

/-! ## Compound statements -/

/-- Blocks that are read without findings are read alike in a file that goes on. -/
structure CarriesBlocks (u : List Token) (block : Parser Block) : Prop where
  carry : ∀ {c d b}, c.InFile → block c = (some b, d) → d.findings = [] →
    Carried u c d b (block (c.goOn u))
  honest : Honest block

variable {block : Parser Block}

theorem carried_funcStmt (hu : GoesOn u) (hblock : CarriesBlocks u block) (hc : c.InFile)
    (hne : c.kind ≠ .fileEnd) (h : funcStmt block c = (some s, d)) (hfindings : d.findings = []) :
    Carried u c d s (funcStmt block (c.goOn u)) := by
  rw [funcStmt, advance_bind_apply] at h
  obtain ⟨x, c₁, hx, h⟩ := bind_eq_some.mp h
  obtain ⟨found, c₂, hfound, h⟩ := bind_eq_some.mp h
  obtain ⟨body, c₃, hbody, h⟩ := bind_eq_some.mp h
  cases h
  have hname := carries_ident.carry (u := u) (hc.advance hne) hx
  have hparams := carried_params hu hname.inFile hfound
  have hcarried := hblock.carry hparams.inFile hbody hfindings
  apply carried_advance_bind hc hne
  exact hname.bind (hparams.bind (hcarried.bind (carried_pure hcarried.inFile _)))

theorem carried_whileStmt (hu : GoesOn u) (hblock : CarriesBlocks u block) (hc : c.InFile)
    (hne : c.kind ≠ .fileEnd) (h : whileStmt block c = (some s, d)) (hfindings : d.findings = []) :
    Carried u c d s (whileStmt block (c.goOn u)) := by
  rw [whileStmt, advance_bind_apply] at h
  obtain ⟨e, c₁, he, h⟩ := bind_eq_some.mp h
  obtain ⟨body, c₂, hbody, h⟩ := bind_eq_some.mp h
  cases h
  have hexpr := (carries_expression hu).carry (hc.advance hne) he
  have hcarried := hblock.carry hexpr.inFile hbody hfindings
  apply carried_advance_bind hc hne
  exact hexpr.bind (hcarried.bind (carried_pure hcarried.inFile _))

theorem kindPastLineEnds_eq_kind (c : Cursor) : c.kindPastLineEnds = c.skipLineEnds.kind := by
  rw [kindPastLineEnds_eq, kind_eq_headD, kinds_skipLineEnds]

/-- The lines with which the file goes on have no `else` for an `if` at its end. -/
theorem kindPastLineEnds_goOn_eq_else_iff (hu : GoesOn u) (hc : c.InFile) :
    (c.goOn u).kindPastLineEnds = .keyword .elseWord ↔ c.kindPastLineEnds = .keyword .elseWord := by
  rw [kindPastLineEnds_eq_kind, kindPastLineEnds_eq_kind c]
  by_cases hk : c.skipLineEnds.kind = .fileEnd
  · have hrest := hc.skipLineEnds.rest_goOn_of_end (u := u) hk
    have hne : (c.goOn u).skipLineEnds.kind ≠ .keyword .elseWord := by
      rw [hc.skipLineEnds_both.2, kind_eq_headD, kinds_skipLineEnds, kinds, hrest]
      exact hu.ne_else
    simp [hne, hk]
  · rw [hc.skipLineEnds_goOn hk, hc.skipLineEnds.kind_goOn hk]

theorem kindPastLineEnds_bind_apply (f : TokenKind → Parser α) (c : Cursor) :
    ((fun c => (some c.kindPastLineEnds, c) : Parser TokenKind) >>= f) c = f c.kindPastLineEnds c :=
  rfl

/-- After a block, up to and including an `else`. -/
theorem carried_else_bind (hu : GoesOn u) {f : Token → Parser α} {g : Parser α} {a : α}
    (hc : c.InFile) (helse : c.kindPastLineEnds = .keyword .elseWord)
    (h : Carried u c.skipLineEnds.advance d a
      (f c.skipLineEnds.peek (c.skipLineEnds.advance.goOn u))) :
    Carried u c d a (((fun c => (some c.kindPastLineEnds, c) : Parser TokenKind) >>= fun next =>
      if next = .keyword .elseWord then Parser.skipLineEnds >>= fun _ => Parser.advance >>= f
      else g) (c.goOn u)) := by
  have hne : c.skipLineEnds.kind ≠ .fileEnd := by
    rw [← kindPastLineEnds_eq_kind, helse]
    simp
  rw [kindPastLineEnds_bind_apply,
    if_pos ((kindPastLineEnds_goOn_eq_else_iff hu hc).mpr helse)]
  exact carried_skipLineEnds_bind hc hne (carried_advance_bind hc.skipLineEnds hne h)

theorem carried_branches (hu : GoesOn u) (hblock : CarriesBlocks u block)
    {bound bound' : List Token} {found : Branches} (hc : c.InFile)
    (hbound : c.rest.length ≤ bound.length) (hbound' : c.rest.length ≤ bound'.length)
    (h : branches block bound c = (some found, d)) (hfindings : d.findings = []) :
    Carried u c d found (branches block bound' (c.goOn u)) := by
  have hpos := hc.length_pos
  induction bound generalizing bound' c found with
  | nil => exact absurd hbound (Nat.not_le_of_lt hpos)
  | cons t bound ih =>
      obtain ⟨t', bound', rfl⟩ := List.exists_cons_of_length_pos (l := bound') (by omega)
      rw [branches] at h
      obtain ⟨e, c₁, he, h⟩ := bind_eq_some.mp h
      obtain ⟨body, c₂, hbody, h⟩ := bind_eq_some.mp h
      rw [kindPastLineEnds_bind_apply] at h
      have hexpr := (carries_expression hu).carry hc he
      apply hexpr.bind
      by_cases helse : c₂.kindPastLineEnds = .keyword .elseWord
      · have hkind : c₂.skipLineEnds.kind = .keyword .elseWord := by
          rw [← kindPastLineEnds_eq_kind, helse]
        have hne : c₂.skipLineEnds.kind ≠ .fileEnd := by simp [hkind]
        rw [if_pos helse, skipLineEnds_bind_apply, advance_bind_apply, eat_bind_apply] at h
        by_cases hif : c₂.skipLineEnds.advance.kind = .keyword .ifWord
        · have hneif : c₂.skipLineEnds.advance.kind ≠ .fileEnd := by simp [hif]
          rw [if_pos hif] at h
          obtain ⟨rest, c₃, hrest, h⟩ := bind_eq_some.mp h
          cases h
          have hfindings₂ : c₂.findings = [] := by
            simpa using (honest_branches hblock.honest bound).findings_eq_nil hrest hfindings
          have hcarried := hblock.carry hexpr.inFile hbody hfindings₂
          have hfile := hcarried.inFile.skipLineEnds.advance hne
          have hnext := hfile.advance hneif
          have hlt : c₂.skipLineEnds.advance.advance.rest.length < c.rest.length :=
            calc c₂.skipLineEnds.advance.advance.rest.length
              _ < c₂.skipLineEnds.advance.rest.length := length_advance_lt hneif
              _ ≤ c₂.skipLineEnds.rest.length := Nat.le_of_lt (length_advance_lt hne)
              _ ≤ c₂.rest.length := c₂.length_skipLineEnds_le
              _ ≤ c₁.rest.length := hcarried.length_le
              _ ≤ c.rest.length := hexpr.length_le
          simp only [List.length_cons] at hbound hbound'
          have hroom : c₂.skipLineEnds.advance.advance.rest.length ≤ bound'.length := by omega
          have hothers := ih hnext (by omega) hroom hrest hnext.length_pos
          refine hcarried.bind (carried_else_bind hu hcarried.inFile helse ?_)
          exact carried_eat_bind hfile hif (by simp) (hothers.bind (carried_pure hothers.inFile _))
        · rw [if_neg hif] at h
          obtain ⟨last, c₃, hlast, h⟩ := bind_eq_some.mp h
          cases h
          have hfindings₂ : c₂.findings = [] := by
            simpa using hblock.honest.findings_eq_nil hlast hfindings
          have hcarried := hblock.carry hexpr.inFile hbody hfindings₂
          have hfile := hcarried.inFile.skipLineEnds.advance hne
          have hlast := hblock.carry hfile hlast hfindings
          refine hcarried.bind (carried_else_bind hu hcarried.inFile helse ?_)
          exact carried_eat_bind_of_ne hu hfile hif (by simp) (by simp)
            (hlast.bind (carried_pure hlast.inFile _))
      · rw [if_neg helse] at h
        cases h
        have hcarried := hblock.carry hexpr.inFile hbody hfindings
        apply hcarried.bind
        rw [kindPastLineEnds_bind_apply,
          if_neg (mt (kindPastLineEnds_goOn_eq_else_iff hu hcarried.inFile).mp helse)]
        exact carried_pure hcarried.inFile _

theorem carried_ifStmt (hu : GoesOn u) (hblock : CarriesBlocks u block) (hc : c.InFile)
    (hne : c.kind ≠ .fileEnd) (h : ifStmt block c = (some s, d)) (hfindings : d.findings = []) :
    Carried u c d s (ifStmt block (c.goOn u)) := by
  rw [ifStmt, advance_bind_apply] at h
  obtain ⟨found, c₁, hfound, h⟩ := bind_eq_some.mp h
  cases h
  have hfile := hc.advance hne
  have hcarried := carried_branches hu hblock hfile (Nat.le_refl _) (hfile.length_le_goOn hu)
    hfound hfindings
  apply carried_advance_bind hc hne
  exact hcarried.bind (carried_pure hcarried.inFile _)

theorem statement_takes (hu : GoesOn u) (h : statement inBlock block c = (some s, d)) :
    c.kind ≠ .fileEnd := by
  intro hk
  unfold statement at h
  rw [hk] at h
  by_cases hassign : startsAssignment c = true
  · obtain ⟨⟨x, hx⟩, -⟩ := startsAssignment_iff_kinds.mp hassign
    rw [hk] at hx
    cases hx
  · simp only [if_neg hassign] at h
    obtain ⟨e, c₁, he, -⟩ := bind_eq_some.mp h
    exact (carries_expression hu).takes he hk

theorem ends_statement (hu : GoesOn u) (hblock : CarriesBlocks u block) (hc : c.InFile)
    (h : statement inBlock block c = (some s, d)) (hfindings : d.findings = []) :
    Ends u d s (statement inBlock block (c.goOn u)) := by
  have hne := statement_takes hu h
  have hother : (if startsAssignment c then assignStmt inBlock c else exprStmt inBlock c) =
        (some s, d) →
      Ends u d s (if startsAssignment c then assignStmt inBlock (c.goOn u)
        else exprStmt inBlock (c.goOn u)) := by
    intro h
    by_cases hassign : startsAssignment c = true
    · rw [if_pos hassign] at h ⊢
      exact ends_assignStmt hu hc hassign h hfindings
    · rw [if_neg hassign] at h ⊢
      exact ends_expressionLine hu hc h hfindings
  unfold statement at h ⊢
  rw [hc.kind_goOn hne, startsAssignment_goOn hu hc]
  cases hk : c.kind with
  | keyword word =>
      rw [hk] at h
      cases word with
      | varWord => exact ends_varStmt hu hc hne h hfindings
      | funcWord => exact (carried_funcStmt hu hblock hc hne h hfindings).ends
      | ifWord => exact (carried_ifStmt hu hblock hc hne h hfindings).ends
      | whileWord => exact (carried_whileStmt hu hblock hc hne h hfindings).ends
      | returnWord => exact ends_returnStmt hu hc hne h hfindings
      | elseWord => cases h
      | _ => exact hother h
  | _ =>
      rw [hk] at h
      exact hother h

end Statement

/-! ## The loop over statements -/

section Loop

variable {block : Parser Block} {n : Nat} {inBlock : Bool}

/-- What a statement read without findings has taken. -/
theorem statement_opens (hread : ReadsBlocks block n) {s : Stmt}
    (h : statement inBlock block c = (some s, d)) (hfindings : d.findings = []) :
    opensStmt c.kind = true ∧ d.rest.length < c.rest.length := by
  rw [← kinds_length, ← kinds_length]
  rcases statement_sound hread h hfindings with
    ⟨w, t, c₁, m, hw, hended, ht, -⟩ | ⟨w, t, hw, ht, -, -⟩
  · obtain ⟨k, w, rfl, hk⟩ := ht.exists_head
    rw [hended.1] at hw
    have hlength := congrArg List.length hw
    simp only [List.length_append, List.length_cons] at hlength
    exact ⟨by rwa [kind_of_kinds_cons hw], by omega⟩
  · obtain ⟨k, w, rfl, hk⟩ := ht.exists_head
    have hlength := congrArg List.length hw
    simp only [List.length_append, List.length_cons] at hlength
    exact ⟨by rwa [kind_of_kinds_cons hw], by omega⟩

theorem statements_round {stmt : Parser Stmt} {t : Token} {bound : List Token} {c₁ : Cursor}
    {s : Stmt} (hk : opensStmt c.kind = true) (hfindings : c.findings = [])
    (hs : stmt c = (some s, c₁)) :
    statements inBlock stmt (t :: bound) c =
      (s :: (statements inBlock stmt bound c₁.skipLineEnds).1,
        (statements inBlock stmt bound c₁.skipLineEnds).2) := by
  have hclose : c.kind ≠ .symbol .rightBrace := by
    intro hclose
    rw [hclose] at hk
    cases hk
  have hstop : ¬(c.kind = .fileEnd ∨ (inBlock = true ∧ c.kind = .symbol .rightBrace) ∨
      c.isFull = true) := by
    rintro (hend | ⟨-, hclose'⟩ | hfull)
    · rw [hend] at hk
      cases hk
    · exact hclose hclose'
    · simp [Cursor.isFull, hfindings, Diagnostics.capacity] at hfull
  rw [statements, if_neg hstop, if_neg hclose, hs]

/-- The loop in the longer file gives the statements of the shorter one, and then what the loop
gives from the new lines on. -/
theorem statements_goOn (hu : GoesOn u) (hread : ReadsBlocks block n)
    (hblock : CarriesBlocks u block) {bound bound' : List Token} {stmts : List Stmt}
    (hc : c.InFile) (hbound : c.rest.length ≤ bound.length)
    (hbound' : (c.goOn u).skipLineEnds.rest.length ≤ bound'.length)
    (h : statements inBlock (statement inBlock block) bound c = (stmts, d))
    (hfindings : d.findings = []) :
    d.InFile ∧ d.rest.length ≤ c.rest.length ∧ Closes inBlock d.kind ∧
      ∃ bound'' : List Token, (d.goOn u).skipLineEnds.rest.length ≤ bound''.length ∧
        statements inBlock (statement inBlock block) bound' (c.goOn u).skipLineEnds =
          (stmts ++ (statements inBlock (statement inBlock block) bound''
              (d.goOn u).skipLineEnds).1,
            (statements inBlock (statement inBlock block) bound'' (d.goOn u).skipLineEnds).2) := by
  have hhonest : Honest (statement inBlock block) := honest_statement hblock.honest
  induction bound generalizing bound' c stmts with
  | nil => exact absurd hbound (Nat.not_le_of_lt hc.length_pos)
  | cons t bound ih =>
      rcases statements_cons hhonest h hfindings with
        ⟨rfl, rfl, hcloses⟩ | ⟨s, c₁, rest, hs, rfl, hrest⟩
      · exact ⟨hc, Nat.le_refl _, hcloses, bound', hbound', rfl⟩
      · have hfindings₁ : c₁.findings = [] := by
          have hgrow := findings_statements inBlock hhonest bound c₁.skipLineEnds
          rw [hrest, hfindings] at hgrow
          simpa using hgrow
        have hfindings₀ : c.findings = [] := hhonest.findings_eq_nil hs hfindings₁
        obtain ⟨hopens, hlt⟩ := statement_opens hread hs hfindings₁
        have hne : c.kind ≠ .fileEnd := statement_takes hu hs
        have hkind : (c.goOn u).kind = c.kind := hc.kind_goOn hne
        have hstay : (c.goOn u).skipLineEnds = c.goOn u := by
          apply skipLineEnds_of_kind_ne
          rw [hkind]
          exact opensStmt.ne_lineEnd hopens
        -- from here on the cursors agree only once line ends are skipped
        obtain ⟨hfile₁, d₁, hs', hskip⟩ := ends_statement hu hblock hc hs hfindings₁
        rw [hfile₁.skipLineEnds_both.2] at hskip
        rw [hstay] at hbound' ⊢
        have hpos := hc.length_pos
        have hlonger := hc.length_le_goOn hu
        obtain ⟨t', bound', rfl⟩ := List.exists_cons_of_length_pos (l := bound') (by omega)
        simp only [List.length_cons] at hbound hbound'
        have hle₁ := c₁.length_skipLineEnds_le
        have hroom : (c₁.skipLineEnds.goOn u).skipLineEnds.rest.length ≤ bound'.length := by
          have hle := (c₁.skipLineEnds.goOn u).length_skipLineEnds_le
          have hpos₁ := hfile₁.skipLineEnds.length_pos
          simp only [goOn, List.length_append, List.length_dropLast] at hle hbound' ⊢
          omega
        obtain ⟨hd, hle, hcloses, bound'', hbound'', hothers⟩ :=
          ih hfile₁.skipLineEnds (by omega) hroom hrest
        refine ⟨hd, by omega, hcloses, bound'', hbound'', ?_⟩
        have hopens' : opensStmt (c.goOn u).kind = true := by rwa [hkind]
        rw [statements_round hopens' hfindings₀ hs', hskip, hothers, List.cons_append]

end Loop

/-! ## Blocks -/

theorem carriesBlocks_block (hu : GoesOn u) (levels : Nat) : CarriesBlocks u (block levels) := by
  induction levels with
  | zero =>
      refine ⟨?_, honest_block 0⟩
      intro c d b hc h
      rw [block, span_bind_apply, expect_bind_apply] at h
      split at h <;> cases h
  | succ levels ih =>
      refine ⟨?_, honest_block (levels + 1)⟩
      intro c d b hc h hfindings
      have hopen : c.kind = .symbol .leftBrace := by
        rw [block, span_bind_apply, expect_bind_apply] at h
        split at h
        · assumption
        · cases h
      have hne : c.kind ≠ .fileEnd := by simp [hopen]
      have hlt := length_advance_lt hne
      have hfile := hc.advance hne
      have hle := c.advance.length_skipLineEnds_le
      cases hbody : statements true (statement true (block levels)) c.advance.skipLineEnds.rest
          c.advance.skipLineEnds with
      | mk stmts c₁ =>
          rw [block_succ_apply hopen hbody] at h
          by_cases hclose : c₁.kind = .symbol .rightBrace
          · rw [if_pos hclose] at h
            cases h
            obtain ⟨hfile₁, hle₁, -, bound, -, hloop⟩ := statements_goOn hu
              (readsBlocks_block levels) ih hfile.skipLineEnds (Nat.le_refl _) (Nat.le_refl _) hbody
              (by simpa using hfindings)
            have hne₁ : c₁.kind ≠ .fileEnd := by simp [hclose]
            have hlt₁ := length_advance_lt hne₁
            have hclose' : (c₁.goOn u).kind = .symbol .rightBrace := by
              rw [hfile₁.kind_goOn hne₁, hclose]
            have hstay : (c₁.goOn u).skipLineEnds = c₁.goOn u :=
              skipLineEnds_of_kind_ne (by simp [hclose'])
            rw [hstay, statements_of_closes (.inr ⟨rfl, hclose'⟩), List.append_nil,
              ← hfile.skipLineEnds_both.2, ← hc.advance_goOn hne] at hloop
            refine ⟨hfile₁.advance hne₁, by omega, ?_⟩
            rw [block_succ_apply ((hc.kind_goOn hne).trans hopen) hloop, if_pos hclose',
              hc.span_goOn hne, hfile₁.advance_goOn hne₁, last_goOn]
          · rw [if_neg hclose] at h
            cases h

end KitchenScript.Parser
