import KitchenScript.Proofs.Program.Progress
import KitchenScript.Proofs.Spans.Expressions

/-!
# The spans of statements

Readers of statements go on after a finding: a name that is declared twice, a statement that does
not end with its line, a statement inside a block that cannot be read.  Where they find nothing they
take the statement as it is written and the line ends after it; where they find something, every
finding applies to a token that comes no earlier than those of the findings before.
-/

namespace KitchenScript

open Piece

namespace Cursor.Took

variable {c d : Cursor} {w : List Token} {fs : List Finding}

theorem synchronize (h : Took c w fs d) (inBlock : Bool) :
    ∃ v, Took c (w ++ v) fs (d.synchronize inBlock) := by
  have hstay : ∃ v, Took c (w ++ v) fs d := ⟨[], by rwa [List.append_nil]⟩
  obtain ⟨rest, last, findings⟩ := d
  induction rest generalizing w last with
  | nil => exact hstay
  | cons t rest ih =>
      rw [Cursor.synchronize, Cursor.synchronize.go]
      split
      · exact hstay
      · rename_i hend
        split
        · rcases h.skipLineEnds with ⟨v, -, h⟩
          exact ⟨v, h⟩
        · split
          · exact hstay
          · have hstep := h.advance (d := ⟨t :: rest, last, findings⟩) hend
            rcases ih t.span hstep ⟨[], by rwa [List.append_nil]⟩ with ⟨v, h⟩
            rw [synchronize_go_eq]
            exact ⟨t :: v, by rwa [List.append_assoc] at h⟩

/-- A finding at a token that is taken before it is reported. -/
theorem advance_report (h : Took c w fs d) (hk : d.kind ≠ .fileEnd) (problem : Problem) :
    Took c (w ++ [d.peek]) (fs ++ [⟨problem, d.span⟩]) (d.advance.report problem d.span) := by
  rw [← report_advance]
  exact (h.report_here problem).advance hk

end Cursor.Took

/-- A node whose span goes from its first token to the end of its last part. -/
theorem Lays.writes_from {v w : List Token} {n : Node} {t : Token} {s : Span}
    (h : Lays w n.parts) (hspan : n.span = t.span.merge s) (ht : w.head? = some t)
    (hs : Ordered v → s.Over v) (hv : v <:+ w) : Writes w n := by
  apply h.writes
  intro hordered
  rw [hspan]
  apply (Span.Over.singleton t).merge (hs (hordered.sublist hv.sublist)) _ hv hordered
  rcases List.head?_eq_some_iff.mp ht with ⟨rest, rfl⟩
  exact ⟨rest, rfl⟩

namespace Piece

/-- Children with a comma behind each of them. -/
def opened : List Node → List Piece
  | [] => []
  | n :: rest => separated (n :: rest) ++ [.mark (.symbol .comma)]

theorem separated_concat (ns : List Node) (n : Node) :
    separated (ns ++ [n]) = opened ns ++ item n := by
  cases ns with
  | nil => simp [separated, opened]
  | cons m ns => simp [separated, opened]

theorem opened_concat (ns : List Node) (n : Node) :
    opened (ns ++ [n]) = separated (ns ++ [n]) ++ [.mark (.symbol .comma)] := by
  cases ns <;> rfl

end Piece

namespace Parser

open Cursor

variable {c d : Cursor} {w : List Token} {fs : List Finding}

/-! ## Names -/

theorem ident_cases (c : Cursor) :
    (∃ name, c.kind = .identifier name ∧ ident c = (some ⟨name, c.span⟩, c.advance)) ∨
      ∃ problem, ident c = (none, c.report problem c.span) := by
  unfold ident
  cases hk : c.kind with
  | identifier name => exact .inl ⟨name, rfl, rfl⟩
  | keyword word => exact .inr ⟨_, rfl⟩
  | builtin b => exact .inr ⟨_, rfl⟩
  | _ => exact .inr ⟨_, rfl⟩

theorem ident_outcome (c : Cursor) : Outcome (fun w x => Writes w (.ident x)) c (ident c) := by
  rcases ident_cases c with ⟨name, hk, hident⟩ | ⟨problem, hident⟩
  · rw [hident]
    exact .read ((Took.refl c).advance (by simp [hk])) (writes_ident hk)
  · rw [hident]
    exact .fail (.refl c) problem

theorem bind_of_eq_none {x : Parser α} {f : α → Parser β} (h : x c = (none, d)) :
    (x >>= f) c = (none, d) := by
  show Parser.bind x f c = _
  simp [Parser.bind, h]

def LaysNames (w : List Token) (xs : List Ident) : Prop :=
  Lays w (separated (xs.map .ident))

/-- The parameters, unless the tokens are at an end: then the list is not closed. -/
theorem paramList_reading (bound : List Token) (seen : List Ident) (h : Took c w fs d)
    (hseen : fs = [] → Lays w (opened (seen.map .ident)))
    (hbound : d.rest.length ≤ bound.length) :
    Reading (fun w xs => c.rest = w ∨ LaysNames w xs) c (paramList bound seen d) := by
  induction bound generalizing w fs d seen with
  | nil =>
      -- rounds run out only where the tokens do
      have hnil : d.rest = [] := List.length_eq_zero_iff.mp (Nat.le_zero.mp hbound)
      refine .read h fun _ => .inl ?_
      rw [h.rest, hnil, List.append_nil]
  | cons t bound ih =>
      rcases h.skipLineEnds with ⟨v, hv, hskip⟩
      rcases ident_cases d.skipLineEnds with ⟨name, hk, hident⟩ | ⟨problem, hident⟩
      · have hne : d.skipLineEnds.kind ≠ .fileEnd := by simp [hk]
        have hafter : ∃ gs, Took c (w ++ v ++ [d.skipLineEnds.peek]) gs
            (afterParam seen ⟨name, d.skipLineEnds.span⟩ d.skipLineEnds.advance) ∧
            (gs = [] → fs = []) := by
          unfold afterParam
          split
          · exact ⟨_, hskip.advance_report hne _, by simp⟩
          · exact ⟨fs, hskip.advance hne, id⟩
        rcases hafter with ⟨gs, hparam, hgs⟩
        rcases hparam.skipLineEnds with ⟨v', hv', hround⟩
        rw [paramList_cons hident]
        generalize afterParam seen ⟨name, d.skipLineEnds.span⟩ d.skipLineEnds.advance = e
          at hround
        have hlays : gs = [] → LaysNames (w ++ v ++ [d.skipLineEnds.peek] ++ v')
            (seen ++ [⟨name, d.skipLineEnds.span⟩]) := by
          intro hnil
          have hitem : Lays (v ++ [d.skipLineEnds.peek] ++ v')
              (item (.ident ⟨name, d.skipLineEnds.span⟩)) :=
            ((Lays.nil.lineEnds hv).node (writes_ident hk)).lineEnds hv'
          have happend := (hseen (hgs hnil)).append hitem
          rw [LaysNames, List.map_append, List.map_singleton, separated_concat]
          simpa only [List.append_assoc] using happend
        split
        · rename_i hcomma
          have hnext := hround.advance (by simp [hcomma])
          apply ih _ hnext
          · intro hnil
            have hlist := hlays hnil
            rw [LaysNames, List.map_append] at hlist
            rw [List.map_append, List.map_singleton, opened_concat]
            exact hlist.mark hcomma
          · have hlength := congrArg List.length (h.rest.symm.trans hnext.rest)
            simp only [List.length_append, List.length_cons] at hlength hbound
            omega
        · exact .read hround fun hnil => .inr (hlays hnil)
      · rw [paramList, skipLineEnds_bind_apply, bind_of_eq_none hident]
        exact .failed (hskip.report_here problem) (by simp)

def LaysParams (w : List Token) (xs : List Ident) : Prop :=
  Lays w (.mark (.symbol .leftParen) ::
    (separated (xs.map .ident) ++ [.mark (.symbol .rightParen)]))

theorem params_reading (c : Cursor) : Reading LaysParams c (params c) := by
  apply Reading.bind (.refl c) (expect_outcome (by simp) c).reading
  intro w fs _ d hopen h
  apply Reading.bind h (skipLineEnds_outcome d).reading
  intro v fs _ d hskip h
  rw [kind_bind_apply]
  by_cases hclose : d.kind = .symbol .rightParen
  · rw [if_pos hclose]
    change Reading LaysParams c ((expect _ >>= fun _ => pure []) d)
    apply Reading.bind h (expect_outcome (by simp) d).reading
    intro u fs _ e hexpect h
    refine .read h ?_
    intro hnil
    rcases hexpect hnil with ⟨hnil, t', rfl, hclose⟩
    rcases hskip hnil with ⟨hnil, hv⟩
    rcases hopen hnil with ⟨-, t, rfl, ht⟩
    exact ((Lays.nil.mark ht).lineEnds hv).mark hclose
  · rw [if_neg hclose]
    apply Reading.bind h (paramList_reading d.rest [] (.refl d) (fun _ => .nil) (Nat.le_refl _))
    intro w' fs found d' hfound h'
    change Reading LaysParams c ((expect _ >>= fun _ => pure found) d')
    apply Reading.bind h' (expect_outcome (by simp) d').reading
    intro u fs _ e hexpect h''
    refine .read h'' ?_
    intro hnil
    rcases hexpect hnil with ⟨hnil, t', rfl, hclose⟩
    rcases hfound hnil with ⟨hnil, hfound⟩
    rcases hskip hnil with ⟨hnil, hv⟩
    rcases hopen hnil with ⟨-, t, rfl, ht⟩
    have hnames : LaysNames w' found := by
      apply hfound.resolve_left
      intro hrest
      -- a list that took every token would have left none to close it
      have hall := h.rest.symm.trans h''.rest
      rw [hrest] at hall
      simp at hall
    have hlays := ((Lays.nil.mark ht).append (hnames.separated_after hv)).mark hclose
    simp only [List.append_assoc] at hlays ⊢
    exact hlays

/-! ## Simple statements -/

/-- A statement and the line ends after it. -/
def WritesLine (w : List Token) (s : Stmt) : Prop :=
  ∃ v u, w = v ++ u ∧ Writes v (.stmt s) ∧ AreLineEnds u

theorem writesLine_of_writes {s : Stmt} (h : Writes w (.stmt s)) : WritesLine w s :=
  ⟨w, [], (List.append_nil w).symm, h, by simp [AreLineEnds]⟩

theorem statementEnd_reading (inBlock : Bool) (c : Cursor) :
    Reading (fun w _ => AreLineEnds w) c (statementEnd inBlock c) := by
  have hstay : Reading (fun w (_ : Unit) => AreLineEnds w) c (some (), c) :=
    .read (.refl c) fun _ => by simp [AreLineEnds]
  unfold statementEnd
  split
  · exact hstay
  · exact hstay
  · exact (skipLineEnds_outcome c).reading
  · rcases ((Took.refl c).report_here (.notLineEnd c.kind)).synchronize inBlock with ⟨v, h⟩
    exact .read h (by simp)

theorem expressionLine_reading (inBlock : Bool) {f : Expr → Stmt} (h : Took c w fs d)
    (hgood : fs = [] → ∀ v e, WritesExpr v e → Writes (w ++ v) (.stmt (f e))) :
    Reading WritesLine c (expressionLine inBlock f d) := by
  apply Reading.bind h (tells_expression d).reading
  intro v gs value e hvalue h
  apply Reading.bind h (statementEnd_reading inBlock e)
  intro u gs _ e hend h
  refine .read h ?_
  intro hnil
  rcases hend hnil with ⟨hnil, hu⟩
  rcases hvalue hnil with ⟨hnil, hvalue⟩
  exact ⟨w ++ v, u, rfl, hgood hnil v value hvalue, hu⟩

theorem varStmt_reading (inBlock : Bool) (hk : c.kind = .keyword .varWord) :
    Reading WritesLine c (varStmt inBlock c) := by
  have hne : c.kind ≠ .fileEnd := by simp [hk]
  apply Reading.bind ((Took.refl c).advance hne) (ident_outcome c.advance).reading
  intro v gs name d hname h
  apply Reading.bind h (expect_outcome (by simp) d).reading
  intro u gs _ d hassign h
  apply expressionLine_reading inBlock h
  intro hnil v' value hvalue
  rcases hassign hnil with ⟨hnil, t, rfl, ht⟩
  rcases hname hnil with ⟨-, hname⟩
  have hlays := (((Lays.nil.mark hk).node hname).mark ht).node hvalue
  exact hlays.writes_from (n := .stmt (.var _ name value)) rfl rfl (fun h => (hvalue h).covers)
    (List.suffix_append _ v')

theorem assignStmt_reading (inBlock : Bool) (hstarts : startsAssignment c = true) :
    Reading WritesLine c (assignStmt inBlock c) := by
  rcases startsAssignment_iff.mp hstarts with ⟨x, v, hkinds⟩
  have hk : c.kind = .identifier x := kind_of_kinds_cons hkinds
  have hassign : c.advance.kind = .symbol .assign := by
    apply kind_of_kinds_cons
    rw [kinds_advance, hkinds, List.tail_cons]
  have h := ((Took.refl c).advance (by simp [hk])).advance (by simp [hassign])
  rw [assignStmt, bind_of_eq_some (ident_of_kinds hkinds), advance_bind_apply]
  apply expressionLine_reading inBlock h
  intro _ v' value hvalue
  have hlays := ((Lays.nil.node (writes_ident hk)).mark hassign).node hvalue
  exact hlays.writes_from (n := .stmt (.assign _ ⟨x, c.span⟩ value)) (t := c.peek) rfl rfl
    (fun h => (hvalue h).covers) (List.suffix_append _ v')

theorem exprStmt_reading (inBlock : Bool) (c : Cursor) :
    Reading WritesLine c (exprStmt inBlock c) := by
  apply expressionLine_reading inBlock (.refl c)
  intro _ v value hvalue
  have hlays : Lays v [.node (.expr value)] := Lays.nil.node hvalue
  exact hlays.writes (n := .stmt (.expr _ value)) fun h => (hvalue h).covers

def WritesValue (w : List Token) : Option Expr → Prop
  | none => w = []
  | some e => WritesExpr w e

theorem returnValue_outcome (c : Cursor) : Outcome WritesValue c (returnValue c) := by
  by_cases hends : EndsStmt c.kind
  · rw [returnValue_of_ends hends]
    exact .read (.refl c) rfl
  · rw [returnValue_of_not_ends hends]
    apply Outcome.bind (.refl c) (tells_expression c)
    intro w value d hvalue h
    exact .pure h hvalue

theorem returnStmt_reading (inBlock : Bool) (hk : c.kind = .keyword .returnWord) :
    Reading WritesLine c (returnStmt inBlock c) := by
  have hne : c.kind ≠ .fileEnd := by simp [hk]
  apply Reading.bind ((Took.refl c).advance hne) (returnValue_outcome c.advance).reading
  intro v gs value d hvalue h
  apply Reading.bind h (statementEnd_reading inBlock d)
  intro u gs _ e hend h
  refine .read h ?_
  intro hnil
  rcases hend hnil with ⟨hnil, hu⟩
  rcases hvalue hnil with ⟨-, hvalue⟩
  refine ⟨_, u, rfl, ?_, hu⟩
  cases value with
  | none =>
      obtain rfl : v = [] := hvalue
      exact (Lays.nil.mark hk).writes (n := .stmt (.giveBack _ none)) fun _ => .singleton c.peek
  | some e =>
      exact ((Lays.nil.mark hk).node hvalue).writes_from (n := .stmt (.giveBack _ (some e))) rfl
        rfl (fun h => (hvalue h).covers) (List.suffix_append _ v)

/-! ## Statements with blocks -/

section Compound

variable {block : Parser Block}

def WritesBlock (w : List Token) (b : Block) : Prop :=
  Writes w (.block b)

def TellsBlock (block : Parser Block) : Prop :=
  ∀ c, Reading WritesBlock c (block c)

theorem funcStmt_reading (hblock : TellsBlock block) (hk : c.kind = .keyword .funcWord) :
    Reading WritesLine c (funcStmt block c) := by
  have hne : c.kind ≠ .fileEnd := by simp [hk]
  apply Reading.bind ((Took.refl c).advance hne) (ident_outcome c.advance).reading
  intro v gs name d hname h
  apply Reading.bind h (params_reading d)
  intro u gs found d hparams h
  apply Reading.bind h (hblock d)
  intro x gs body d hbody h
  refine .read h ?_
  intro hnil
  rcases hbody hnil with ⟨hnil, hbody⟩
  rcases hparams hnil with ⟨hnil, hparams⟩
  rcases hname hnil with ⟨-, hname⟩
  apply writesLine_of_writes
  have hlays := (((Lays.nil.mark hk).node hname).append hparams).node hbody
  simp only [List.append_assoc, List.cons_append, List.nil_append] at hlays ⊢
  exact hlays.writes_from (n := .stmt (.func _ name found body)) (t := c.peek) rfl rfl
    (fun h => (hbody h).covers) ⟨[c.peek] ++ v ++ u, by simp⟩

theorem whileStmt_reading (hblock : TellsBlock block) (hk : c.kind = .keyword .whileWord) :
    Reading WritesLine c (whileStmt block c) := by
  have hne : c.kind ≠ .fileEnd := by simp [hk]
  apply Reading.bind ((Took.refl c).advance hne) (tells_expression c.advance).reading
  intro v gs condition d hcondition h
  apply Reading.bind h (hblock d)
  intro u gs body d hbody h
  refine .read h ?_
  intro hnil
  rcases hbody hnil with ⟨hnil, hbody⟩
  rcases hcondition hnil with ⟨-, hcondition⟩
  apply writesLine_of_writes
  have hlays := ((Lays.nil.mark hk).node hcondition).node hbody
  exact hlays.writes_from (n := .stmt (.loop _ condition body)) rfl rfl (fun h => (hbody h).covers)
    (List.suffix_append _ u)

/-- The chain of an `if` as it is written, with the span of its last block. -/
def LaysChain (w : List Token) : Branches → Prop
  | .branch condition body rest =>
    Lays w (.node (.expr condition) :: .node (.block body) :: rest.parts) ∧
      ∃ v s, v <:+ w ∧ (Ordered v → s.Over v) ∧
        (Branches.branch condition body rest).lastSpan? = some s
  | _ => False

theorem branches_reading (hblock : TellsBlock block) (bound : List Token) (c : Cursor) :
    Reading LaysChain c (branches block bound c) := by
  induction bound generalizing c with
  | nil => exact .fail (.refl c) _
  | cons _ bound ih =>
      apply Reading.bind (.refl c) (tells_expression c).reading
      intro w gs condition d hcondition h
      apply Reading.bind h (hblock d)
      intro v gs body d hbody h
      have hfirst : gs = [] → Lays ([] ++ w ++ v) [.node (.expr condition), .node (.block body)] ∧
          WritesBlock v body := by
        intro hnil
        rcases hbody hnil with ⟨hnil, hbody⟩
        rcases hcondition hnil with ⟨-, hcondition⟩
        exact ⟨(Lays.nil.node hcondition).node hbody, hbody⟩
      rw [kindPastLineEnds_bind_apply]
      by_cases helse : d.kindPastLineEnds = .keyword .elseWord
      · rw [if_pos helse, skipLineEnds_bind_apply, advance_bind_apply]
        rw [kindPastLineEnds_eq_kind] at helse
        rcases h.skipLineEnds with ⟨u, hu, h⟩
        have h := h.advance (by simp [helse])
        apply Reading.bind h (eat_outcome (by simp) _).reading
        intro x gs' found e hfound h
        cases found with
        | true =>
            apply Reading.bind h (ih e)
            intro y gs' rest e hrest h
            refine .read h ?_
            intro hnil
            rcases hrest hnil with ⟨hnil, hrest⟩
            rcases hfound hnil with ⟨hnil, t, rfl, hif⟩
            rcases hfirst hnil with ⟨hfirst, -⟩
            cases rest with
            | branch condition' body' rest =>
                rcases hrest with ⟨hrest, y', s, hsuffix, hover, hspan⟩
                refine ⟨?_, y', s, ?_, hover, ?_⟩
                · exact (((hfirst.lineEnds hu).mark helse).mark hif).append hrest
                · exact hsuffix.trans (List.suffix_append _ y)
                · rw [Branches.lastSpan?, hspan]
                  rfl
            | _ => cases hrest
        | false =>
            apply Reading.bind h (hblock e)
            intro y gs' last e hlast h
            refine .read h ?_
            intro hnil
            rcases hlast hnil with ⟨hnil, hlast⟩
            rcases hfound hnil with ⟨hnil, hx⟩
            obtain rfl : x = [] := hx
            rcases hfirst hnil with ⟨hfirst, -⟩
            refine ⟨?_, y, last.span, List.suffix_append _ y, fun h => (hlast h).covers, rfl⟩
            rw [List.append_nil]
            exact ((hfirst.lineEnds hu).mark helse).node hlast
      · rw [if_neg helse]
        refine .read h ?_
        intro hnil
        rcases hfirst hnil with ⟨hfirst, hbody⟩
        exact ⟨hfirst, v, body.span, List.suffix_append _ v, fun h => (hbody h).covers, rfl⟩

theorem ifStmt_reading (hblock : TellsBlock block) (hk : c.kind = .keyword .ifWord) :
    Reading WritesLine c (ifStmt block c) := by
  have hne : c.kind ≠ .fileEnd := by simp [hk]
  apply Reading.bind ((Took.refl c).advance hne) (branches_reading hblock c.advance.rest _)
  intro w gs found d hfound h
  refine .read h ?_
  intro hnil
  rcases hfound hnil with ⟨-, hfound⟩
  apply writesLine_of_writes
  cases found with
  | branch condition body rest =>
      rcases hfound with ⟨hlays, v, s, hsuffix, hover, hspan⟩
      have hwhole := (Lays.nil.mark hk).append hlays
      apply hwhole.writes_from (n := .stmt (.choose _ (.branch condition body rest))) _ rfl hover
        (hsuffix.trans (List.suffix_append _ w))
      show c.span.merge _ = _
      rw [hspan]
      rfl
  | _ => cases hfound

theorem statement_reading (hblock : TellsBlock block) (inBlock : Bool) (c : Cursor) :
    Reading WritesLine c (statement inBlock block c) := by
  unfold statement
  split
  · rename_i hk
    exact varStmt_reading inBlock hk
  · rename_i hk
    exact funcStmt_reading hblock hk
  · rename_i hk
    exact ifStmt_reading hblock hk
  · rename_i hk
    exact whileStmt_reading hblock hk
  · rename_i hk
    exact returnStmt_reading inBlock hk
  · exact .fail (.refl c) _
  · split
    · rename_i hstarts
      exact assignStmt_reading inBlock hstarts
    · exact exprStmt_reading inBlock c

end Compound

/-! ## Blocks and programs -/

def LaysBody (w : List Token) (stmts : List Stmt) : Prop :=
  Lays w (stmts.flatMap fun s => [.node (.stmt s), .lineEnds])

theorem laysBody_cons {v w : List Token} {s : Stmt} {stmts : List Stmt} (hs : WritesLine w s)
    {u : List Token} (hu : AreLineEnds u) (hstmts : LaysBody v stmts) :
    LaysBody (w ++ u ++ v) (s :: stmts) := by
  rcases hs with ⟨x, y, rfl, hx, hy⟩
  have hends : AreLineEnds (y ++ u) := List.forall_mem_append.mpr ⟨hy, hu⟩
  have hlays := ((Lays.nil.node hx).lineEnds hends).append hstmts
  rwa [List.nil_append, ← List.append_assoc] at hlays

theorem statements_reading {stmt : Parser Stmt} (hstmt : ∀ c, Reading WritesLine c (stmt c))
    (inBlock : Bool) (bound : List Token) (c : Cursor) :
    ∃ w fs, Took c w fs (statements inBlock stmt bound c).2 ∧
      (fs = [] → LaysBody w (statements inBlock stmt bound c).1) := by
  induction bound generalizing c with
  | nil => exact ⟨[], [], .refl c, fun _ => .nil⟩
  | cons _ bound ih =>
      rw [statements]
      split
      · exact ⟨[], [], .refl c, fun _ => .nil⟩
      split
      · rename_i hbrace
        have hne : c.kind ≠ .fileEnd := by simp [hbrace]
        have hreport := (Took.refl c).report_here .unmatchedBrace
        rcases (hreport.advance hne).skipLineEnds with ⟨v, -, h⟩
        rcases ih (c.report .unmatchedBrace c.span).advance.skipLineEnds with ⟨w, gs, h', -⟩
        exact ⟨_, _, h.trans h', by simp⟩
      · -- a statement that cannot be read leaves a finding, and then nothing is said of the rest
        have hread := hstmt c
        split
        · rename_i s d hs
          rw [hs] at hread
          cases hread with
          | read h hline =>
              rcases h.skipLineEnds with ⟨u, hu, h⟩
              rcases ih d.skipLineEnds with ⟨v, gs, h', hbody⟩
              refine ⟨_, _, h.trans h', ?_⟩
              intro hnil
              rcases List.append_eq_nil_iff.mp hnil with ⟨hfs, hgs⟩
              exact laysBody_cons (hline hfs) hu (hbody hgs)
        · rename_i d hs
          rw [hs] at hread
          cases hread with
          | failed h hfs =>
              rcases h.synchronize inBlock with ⟨v, h⟩
              rcases h.skipLineEnds with ⟨u, -, h⟩
              rcases ih (d.synchronize inBlock).skipLineEnds with ⟨w, gs, h', -⟩
              refine ⟨_, _, h.trans h', ?_⟩
              intro hnil
              exact absurd (List.append_eq_nil_iff.mp hnil).1 hfs

theorem tellsBlock_block (levels : Nat) : TellsBlock (block levels) := by
  induction levels with
  | zero =>
      intro c
      rw [block, span_bind_apply, expect_bind_apply]
      split
      · rename_i hopen
        exact .failed ((Took.refl c).advance_report (by simp [hopen]) .blockTooDeep) (by simp)
      · exact .failed ((Took.refl c).report_here _) (by simp)
  | succ levels ih =>
      intro c
      rw [block, span_bind_apply]
      apply Reading.bind (.refl c) (expect_outcome (by simp) c).reading
      intro w gs _ d hopen h
      apply Reading.bind h (skipLineEnds_outcome d).reading
      intro v gs _ d hskip h
      rcases statements_reading (statement_reading ih true) true d.rest d with
        ⟨u, fs, hbody, hlays⟩
      have hread : Reading LaysBody d (blockBody (statement true (block levels)) d) :=
        .read hbody hlays
      apply Reading.bind h hread
      intro u gs stmts d hstmts h
      apply Reading.bind h (expect_outcome (by simp) d).reading
      intro x gs _ d hclose h
      rw [lastSpan_bind_apply]
      refine .read h ?_
      intro hnil
      rcases hclose hnil with ⟨hnil, t', rfl, ht'⟩
      rcases hstmts hnil with ⟨hnil, hstmts⟩
      rcases hskip hnil with ⟨hnil, hv⟩
      rcases hopen hnil with ⟨-, t, rfl, ht⟩
      have hlays := (((Lays.nil.mark ht).lineEnds hv).append hstmts).mark ht'
      exact hlays.writes (n := .block (.mk _ stmts)) (h.covers (by simp))

theorem statement_block_reading (inBlock : Bool) (c : Cursor) :
    Reading WritesLine c (statement inBlock (block maxBlockDepth) c) :=
  statement_reading (tellsBlock_block maxBlockDepth) inBlock c

end Parser

end KitchenScript
