import KitchenScript.Proofs.Program.Tracking

/-!
# Reading makes progress

Statements, blocks and programs, read with counters.  Each statement leaves the counters as they
were; each round of a loop over statements takes a token, unless the loop is left; each recovery
goes to the end of a line, the end of the file or, with a block open, a closing brace.  So the
tokens bound the rounds of every loop, and reading any list of tokens that ends its file comes to an
end, with the outcome that reading has without counters.

A round could fail to take a token only where a statement fails on the spot and the recovery after
it stops on the spot.  The recovery does so at a closing brace, if blocks are open, and there the
loop inside a block is left; outside of blocks it does not, because the statements before have
closed every block that they opened.
-/

namespace KitchenScript

namespace Cursor

theorem synchronize_go_eq (inBlock : Bool) (c : Cursor) (rest : List Token) (last : Span) :
    synchronize.go inBlock c rest last = synchronize inBlock ⟨rest, last, c.findings⟩ := by
  have hgo : ∀ (c' : Cursor) (rest : List Token) (last : Span), c'.findings = c.findings →
      synchronize.go inBlock c rest last = synchronize.go inBlock c' rest last := by
    intro c' rest
    induction rest with
    | nil => intro last h; simp [synchronize.go, h]
    | cons t rest ih =>
        intro last h
        rw [synchronize.go, synchronize.go, ih t.span h, h]
  exact hgo ⟨rest, last, c.findings⟩ rest last rfl

end Cursor

namespace Descent

variable {f : Setting} {s : State} {c : Cursor}

def Setting.inBlock (f : Setting) : Bool :=
  decide (0 < f.blocks)

/-! ## Recovery -/

theorem synchronize_of_stopsAt (h : StopsAt f.blocks c.kind) :
    c.synchronize f.inBlock = c.skipLineEnds := by
  obtain ⟨rest, last, findings⟩ := c
  cases rest with
  | nil => rfl
  | cons t rest =>
      by_cases hline : t.kind = .lineEnd
      · have hend : t.kind ≠ .fileEnd := by simp [hline]
        rw [Cursor.synchronize, Cursor.synchronize.go, if_neg hend, if_pos hline]
      · have hstay :
            Cursor.skipLineEnds ⟨t :: rest, last, findings⟩ = ⟨t :: rest, last, findings⟩ :=
          Cursor.skipLineEnds_of_kind_ne hline
        rw [hstay, Cursor.synchronize, Cursor.synchronize.go]
        by_cases hend : t.kind = .fileEnd
        · rw [if_pos hend]
        · have hbrace : 0 < f.blocks ∧ t.kind = .symbol .rightBrace :=
            (h.resolve_left hline).resolve_left hend
          rw [if_neg hend, if_neg hline, if_pos]
          exact ⟨decide_eq_true hbrace.1, hbrace.2⟩

theorem synchronize_of_not_stopsAt (h : ¬ StopsAt f.blocks c.kind) :
    c.synchronize f.inBlock = c.advance.synchronize f.inBlock := by
  obtain ⟨rest, last, findings⟩ := c
  cases rest with
  | nil => exact absurd (.inr (.inl rfl)) h
  | cons t rest =>
      have hk : ¬ StopsAt f.blocks t.kind := h
      simp only [StopsAt, not_or] at hk
      have hbrace : ¬ (f.inBlock = true ∧ t.kind = .symbol .rightBrace) := by
        rw [Setting.inBlock, decide_eq_true_iff]
        exact hk.2.2
      rw [Cursor.synchronize, Cursor.synchronize.go, if_neg hk.2.1, if_neg hk.1, if_neg hbrace,
        Cursor.synchronize_go_eq]
      rfl

theorem look_bind_apply (l : State → β) (g : β → Descent α) (s : State) :
    (look l >>= g) s = g (l s) s := rfl

theorem passOver_of_stopsAt {n : Nat} (h : StopsAt s.blocks s.kind) :
    passOver (n + 1) s = some (some (), s) := by
  rw [passOver, kind, look_bind_apply]
  rcases h with hk | hk | ⟨hopen, hk⟩
  · rw [hk]
    rfl
  · rw [hk]
    rfl
  · rw [hk]
    show (if 0 < s.blocks then _ else _ : Descent Unit) s = _
    rw [if_pos hopen]
    rfl

theorem passOver_of_not_stopsAt {n : Nat} (h : ¬ StopsAt s.blocks s.kind) :
    passOver (n + 1) s = passOver n s.advance := by
  simp only [StopsAt, not_or] at h
  rw [passOver, kind, look_bind_apply]
  cases hk : s.kind with
  | fileEnd => exact absurd hk h.2.1
  | lineEnd => exact absurd hk h.1
  | symbol mark =>
      cases mark with
      | rightBrace =>
          show (if 0 < s.blocks then _ else _ : Descent Unit) s = _
          rw [if_neg fun hopen => h.2.2 ⟨hopen, hk⟩]
          rfl
      | _ => rfl
  | _ => rfl

/-- Passing over tokens ends where a recovery may stop, and nowhere before. -/
theorem passOver_stops {n : Nat} (hn : c.rest.length < n) (hs : At f s c) :
    ∃ s' d, passOver n s = some (some (), s') ∧ At f s' d ∧ StopsAt f.blocks d.kind ∧
      Passed f.tokens (fun k => ¬ StopsAt f.blocks k) s.pos s'.pos ∧
      c.synchronize f.inBlock = d.skipLineEnds := by
  induction n generalizing s c with
  | zero => omega
  | succ n ih =>
      by_cases hstop : StopsAt f.blocks c.kind
      · have hrun : passOver (n + 1) s = some (some (), s) :=
          passOver_of_stopsAt (by rwa [hs.kind_eq, hs.setting])
        exact ⟨s, c, hrun, hs, hstop, .refl _ _ _, synchronize_of_stopsAt hstop⟩
      · have hne : c.kind ≠ .fileEnd := fun hk => hstop (.inr (.inl hk))
        have hlt := Cursor.length_advance_lt hne
        have hrun : passOver (n + 1) s = passOver n s.advance :=
          passOver_of_not_stopsAt (by rwa [hs.kind_eq, hs.setting])
        obtain ⟨s', d, hrun', hs', hstop', hpassed, hsync⟩ := ih (by omega) (hs.advance hne)
        exact ⟨s', d, hrun.trans hrun', hs', hstop', (hs.passed_advance _ hstop).trans hpassed,
          (synchronize_of_not_stopsAt hstop).trans hsync⟩

def recoveryOf (inBlock : Bool) : Parser Unit :=
  fun c => (some (), c.synchronize inBlock)

theorem tracks_synchronize : Tracks f 0 synchronize (recoveryOf f.inBlock) c := by
  intro s hs
  have hrounds := hs.length_lt_rounds
  obtain ⟨s₁, d, hrun, hs₁, hstop, hpassed, hsync⟩ := passOver_stops (n := f.rounds) (by omega) hs
  have hgood : (Event.recovery s.blocks s.pos s₁.pos).Good f.tokens := by
    obtain ⟨t, ht, hkind⟩ := hs₁.exists_token
    rw [hs.setting]
    exact ⟨hpassed, t, ht, hkind ▸ hstop⟩
  obtain ⟨s₂, hskip, hs₂, hpassed₂, -⟩ := tracks_skipLineEnds (c := d) _ (hs₁.note hgood)
  have hpass : Passed f.tokens (· ≠ .fileEnd) s.pos s₂.pos :=
    (hpassed.mono fun k hk hend => hk (.inr (.inl hend))).trans hpassed₂
  refine ⟨s₂, ?_, ?_, hpass, fun _ => hpass.1⟩
  · show Descent.bind (watched _ (inRounds passOver)) _ s = _
    rw [← hs.setting] at hrun
    rw [Descent.bind, watched, inRounds, hrun]
    exact hskip
  · show At f s₂ (c.synchronize f.inBlock)
    rw [hsync]
    exact hs₂

theorem tracks_statementEnd : Tracks f 0 statementEnd (Parser.statementEnd f.inBlock) c := by
  have hpass : ∀ found, Tracks f 0
      (span >>= fun here => report (.notLineEnd found) here >>= fun _ => synchronize)
      (fun c => (some (), (c.report (.notLineEnd found) c.span).synchronize f.inBlock)) c :=
    fun found =>
      tracks_look_bind (fun _ hs => hs.span_eq) (tracks_report_bind tracks_synchronize rfl)
  apply tracks_look_bind fun _ hs => hs.kind_eq
  cases hk : c.kind with
  | fileEnd => exact (tracks_pure ()).congr (by rw [Parser.statementEnd, hk]; rfl)
  | lineEnd => exact tracks_skipLineEnds.congr (by rw [Parser.statementEnd, hk]; rfl)
  | symbol mark =>
      cases mark with
      | rightBrace => exact (tracks_pure ()).congr (by rw [Parser.statementEnd, hk]; rfl)
      | _ => exact (hpass _).congr (by rw [Parser.statementEnd, hk])
  | _ => exact (hpass _).congr (by rw [Parser.statementEnd, hk])

/-! ## Statements -/

theorem tracks_expression (hexprs : f.exprs = 0) : Tracks f 1 expression Parser.expression c := by
  intro s hs
  obtain ⟨s', hrun, hs', hpassed, -⟩ := follows_expression hexprs c s hs
  refine ⟨s', hrun, hs', hpassed, ?_⟩
  intro hread
  cases hvalue : Parser.expression c with
  | mk value d =>
      rw [hvalue] at hread hs'
      obtain ⟨e, rfl⟩ := Option.isSome_iff_exists.mp hread
      obtain ⟨w, t, hw, ht, -⟩ := Parser.reads_expression.sound hvalue
      obtain ⟨k, w, rfl, -⟩ := ht.exists_head
      apply hs.pos_lt hs'
      show d.rest.length < c.rest.length
      rw [← Cursor.kinds_length, ← Cursor.kinds_length, hw, List.length_append, List.length_cons]
      omega

theorem tracks_paramList {n : Nat} {bound : List Token} {seen : List Ident}
    (hn : c.rest.length < n) (hbound : c.rest.length ≤ bound.length) :
    Tracks f 0 (paramList seen n) (Parser.paramList bound seen) c := by
  induction n generalizing bound seen c with
  | zero => omega
  | succ n ih =>
      refine tracks_of_bound hbound ?_
      rintro t bound rfl hbound
      have hle₁ := c.length_skipLineEnds_le
      apply tracks_skipLineEnds_bind
      refine tracks_ident.weaken.bind fun param d _ hle₂ => ?_
      -- the loop goes on at a cursor with the same tokens to come, reported or not
      have hround : ∀ d' : Cursor, d'.rest = d.rest → Tracks f 0
          (skipLineEnds >>= fun _ => eat (.symbol .comma) >>= fun found =>
            if found = true then paramList (seen ++ [param]) n else Pure.pure (seen ++ [param]))
          (Parser.skipLineEnds >>= fun _ => Parser.eat (.symbol .comma) >>= fun found =>
            if found = true then Parser.paramList bound (seen ++ [param])
            else Pure.pure (seen ++ [param])) d' := by
        intro d' hrest
        have hle₃ := d'.length_skipLineEnds_le
        rw [hrest] at hle₃
        apply tracks_skipLineEnds_bind
        apply tracks_eat_bind (by simp)
        · intro hcomma
          have hlt := Cursor.length_advance_lt (c := d'.skipLineEnds) (by simp [hcomma])
          exact ih (by omega) (by omega)
        · intro _
          exact tracks_pure _
      by_cases hseen : (seen.any fun p => p.name == param.name) = true
      · simp only [if_pos hseen]
        exact tracks_report_bind (hround _ rfl) rfl
      · simp only [if_neg hseen]
        exact hround d rfl

theorem tracks_params : Tracks f 0 params Parser.params c := by
  apply tracks_expect_bind (by simp)
  intro _
  apply tracks_skipLineEnds_bind
  apply tracks_kind_bind
  by_cases hclose : c.advance.skipLineEnds.kind = .symbol .rightParen
  · simp only [if_pos hclose]
    exact tracks_expect_bind (by simp) fun _ => tracks_pure []
  · simp only [if_neg hclose]
    have hlist : Tracks f 0 (inRounds (paramList []))
        (fun c => Parser.paramList c.rest [] c) c.advance.skipLineEnds :=
      tracks_inRounds fun _ => tracks_paramList (by omega) (Nat.le_refl _)
    refine hlist.bind fun found d _ _ => ?_
    exact tracks_expect_bind (by simp) fun _ => tracks_pure found

/-- An expression up to the end of its line, and the statement made of it. -/
theorem tracks_expressionLine (hexprs : f.exprs = 0) (make : Expr → Stmt) :
    Tracks f 1 (expression >>= fun value => statementEnd >>= fun _ => Pure.pure (make value))
      (Parser.expressionLine f.inBlock make) c :=
  (tracks_expression hexprs).bind fun _ _ _ _ =>
    tracks_statementEnd.bind fun _ _ _ _ => tracks_pure _

theorem tracks_varStmt (hexprs : f.exprs = 0) (hk : c.kind ≠ .fileEnd) :
    Tracks f 1 varStmt (Parser.varStmt f.inBlock) c := by
  apply tracks_advance_bind hk
  refine tracks_ident.weaken.bind fun name d _ _ => ?_
  apply tracks_expect_bind (by simp)
  intro _
  exact (tracks_expressionLine hexprs _).weaken

theorem tracks_assignStmt (hexprs : f.exprs = 0) (hstarts : Parser.startsAssignment c = true) :
    Tracks f 1 assignStmt (Parser.assignStmt f.inBlock) c := by
  obtain ⟨⟨x, hx⟩, hassign⟩ := Parser.startsAssignment_iff_kinds.mp hstarts
  have hident := Parser.ident_of_kinds (Cursor.kinds_eq_cons hx (by simp))
  refine tracks_ident.bind fun name d hname _ => ?_
  obtain rfl : c.advance = d := congrArg Prod.snd (hident.symm.trans hname)
  refine (tracks_advance_bind (by simp [hassign]) ?_).weaken
  exact (tracks_expressionLine hexprs _).weaken

theorem tracks_exprStmt (hexprs : f.exprs = 0) :
    Tracks f 1 exprStmt (Parser.exprStmt f.inBlock) c :=
  tracks_expressionLine hexprs _

theorem tracks_returnValue (hexprs : f.exprs = 0) :
    Tracks f 0 returnValue Parser.returnValue c := by
  have hvalue : Tracks f 0 (expression >>= fun value => Pure.pure (some value))
      (Parser.expression >>= fun value => Pure.pure (some value)) c :=
    (tracks_expression hexprs).weaken.bind fun _ _ _ _ => tracks_pure _
  apply tracks_kind_bind
  cases c.kind with
  | lineEnd => exact tracks_pure none
  | fileEnd => exact tracks_pure none
  | symbol mark =>
      cases mark with
      | rightBrace => exact tracks_pure none
      | _ => exact hvalue
  | _ => exact hvalue

theorem tracks_returnStmt (hexprs : f.exprs = 0) (hk : c.kind ≠ .fileEnd) :
    Tracks f 1 returnStmt (Parser.returnStmt f.inBlock) c := by
  apply tracks_advance_bind hk
  refine (tracks_returnValue hexprs).bind fun value d _ _ => ?_
  exact tracks_statementEnd.bind fun _ _ _ _ => tracks_pure _

/-- Looking ahead from the `k`-th token on, which the file still has. -/
theorem kindPastLineEnds_apply (hs : At f s c) {k n : Nat} (hk : k ≤ c.rest.length)
    (hn : c.rest.length < k + n) :
    kindPastLineEnds k n s =
      some (some ((Grammar.dropLineEnds (c.kinds.drop k)).headD .fileEnd), s) := by
  induction n generalizing k with
  | zero => omega
  | succ n ih =>
      rw [kindPastLineEnds, look_bind_apply, hs.ahead_eq]
      cases hrest : c.kinds.drop k with
      | nil => rfl
      | cons found rest =>
          have hlength : k < c.rest.length := by
            have hlength := congrArg List.length hrest
            rw [List.length_drop, List.length_cons, Cursor.kinds_length] at hlength
            omega
          have hdrop : c.kinds.drop (k + 1) = rest := by
            rw [← List.drop_drop, hrest]
            rfl
          by_cases hline : found = .lineEnd
          · rw [List.headD_cons, if_pos hline, hline, Grammar.dropLineEnds_lineEnd_cons,
              ih (k := k + 1) hlength (by omega), hdrop]
          · rw [List.headD_cons, if_neg hline, Grammar.dropLineEnds_cons hline]
            rfl

theorem tracks_kindPastLineEnds :
    Tracks f 0 (inRounds (kindPastLineEnds 0)) (fun c => (some c.kindPastLineEnds, c)) c := by
  apply tracks_inRounds
  intro hrounds s hs
  refine ⟨s, ?_, hs, .refl _ _ _, fun _ => Nat.le_refl _⟩
  show _ = some (some c.kindPastLineEnds, s)
  rw [kindPastLineEnds_apply hs (Nat.zero_le _) (by omega), Cursor.kindPastLineEnds_eq]
  rfl

section Blocks

variable {block : Descent Block} {block' : Parser Block}

theorem tracks_funcStmt (hblock : Follows f block block') (hk : c.kind ≠ .fileEnd) :
    Tracks f 1 (funcStmt block) (Parser.funcStmt block') c := by
  apply tracks_advance_bind hk
  refine tracks_ident.weaken.bind fun name d _ _ => ?_
  refine tracks_params.bind fun found d _ _ => ?_
  exact (hblock _).bind fun _ _ _ _ => tracks_pure _

theorem tracks_branches (hexprs : f.exprs = 0) (hblock : Follows f block block') {n : Nat}
    {bound : List Token} (hn : c.rest.length < n) (hbound : c.rest.length ≤ bound.length) :
    Tracks f 0 (branches block n) (Parser.branches block' bound) c := by
  induction n generalizing bound c with
  | zero => omega
  | succ n ih =>
      refine tracks_of_bound hbound ?_
      rintro t bound rfl hbound
      refine (tracks_expression hexprs).weaken.bind fun condition d₁ _ hle₁ => ?_
      refine (hblock _).bind fun body d₂ _ hle₂ => ?_
      refine tracks_kindPastLineEnds.bind fun next d₃ hnext hle₃ => ?_
      obtain ⟨rfl, rfl⟩ : d₂.kindPastLineEnds = next ∧ d₂ = d₃ := by simpa using hnext
      by_cases helse : d₂.kindPastLineEnds = .keyword .elseWord
      · rw [if_pos helse, if_pos helse]
        rw [Parser.kindPastLineEnds_eq_kind] at helse
        have hne : d₂.skipLineEnds.kind ≠ .fileEnd := by simp [helse]
        have hle₄ := d₂.length_skipLineEnds_le
        have hlt := Cursor.length_advance_lt hne
        apply tracks_skipLineEnds_bind
        refine (tracks_advance_bind hne ?_).weaken
        apply tracks_eat_bind (by simp)
        · intro hif
          have hlt' := Cursor.length_advance_lt (c := d₂.skipLineEnds.advance) (by simp [hif])
          have hrest : Tracks f 0 (branches block n) (Parser.branches block' bound)
              d₂.skipLineEnds.advance.advance :=
            ih (by omega) (by omega)
          exact hrest.bind fun _ _ _ _ => tracks_pure _
        · intro _
          exact (hblock _).bind fun _ _ _ _ => tracks_pure _
      · rw [if_neg helse, if_neg helse]
        exact tracks_pure _

theorem tracks_ifStmt (hexprs : f.exprs = 0) (hblock : Follows f block block')
    (hk : c.kind ≠ .fileEnd) : Tracks f 1 (ifStmt block) (Parser.ifStmt block') c := by
  apply tracks_advance_bind hk
  have hbranches : Tracks f 0 (inRounds (branches block))
      (fun c => Parser.branches block' c.rest c) c.advance :=
    tracks_inRounds fun _ => tracks_branches hexprs hblock (by omega) (Nat.le_refl _)
  exact hbranches.bind fun _ _ _ _ => tracks_pure _

theorem tracks_whileStmt (hexprs : f.exprs = 0) (hblock : Follows f block block')
    (hk : c.kind ≠ .fileEnd) : Tracks f 1 (whileStmt block) (Parser.whileStmt block') c := by
  apply tracks_advance_bind hk
  refine (tracks_expression hexprs).weaken.bind fun condition d _ _ => ?_
  exact (hblock _).bind fun _ _ _ _ => tracks_pure _

theorem startsAssignment_eq (hs : At f s c) : startsAssignment s = Parser.startsAssignment c := by
  have hahead : s.ahead 1 = c.advance.kind := by
    rw [hs.ahead_eq, Cursor.kind_eq_headD, Cursor.kinds_advance, List.drop_one]
  have hiff : startsAssignment s = true ↔
      (∃ x, s.kind = .identifier x) ∧ s.ahead 1 = .symbol .assign := by
    unfold startsAssignment
    split
    · simp_all
    · simp_all
  rw [Bool.eq_iff_iff, hiff, Parser.startsAssignment_iff_kinds, hs.kind_eq, hahead]

theorem tracks_anyStatement (hexprs : f.exprs = 0) (hblock : Follows f block block') :
    Tracks f 1 (anyStatement block) (Parser.statement f.inBlock block') c := by
  have hother : Tracks f 1 (fun s => if startsAssignment s then assignStmt s else exprStmt s)
      (fun c => if Parser.startsAssignment c then Parser.assignStmt f.inBlock c
        else Parser.exprStmt f.inBlock c) c := by
    intro s hs
    simp only [startsAssignment_eq hs]
    by_cases hstarts : Parser.startsAssignment c = true
    · simp only [if_pos hstarts]
      exact tracks_assignStmt hexprs hstarts s hs
    · simp only [if_neg hstarts]
      exact tracks_exprStmt hexprs s hs
  intro s hs
  unfold anyStatement Parser.statement
  rw [hs.kind_eq]
  cases hk : c.kind with
  | keyword word =>
      have hne : c.kind ≠ .fileEnd := by simp [hk]
      cases word with
      | varWord => exact tracks_varStmt hexprs hne s hs
      | funcWord => exact tracks_funcStmt hblock hne s hs
      | ifWord => exact tracks_ifStmt hexprs hblock hne s hs
      | whileWord => exact tracks_whileStmt hexprs hblock hne s hs
      | returnWord => exact tracks_returnStmt hexprs hne s hs
      | elseWord => exact tracks_fail _ s hs
      | _ => exact hother s hs
  | _ => exact hother s hs

/-- The counters are as before, whether a statement was read or not; if it was, a token has been
taken. -/
theorem tracks_statement (hexprs : f.exprs = 0) (hblock : Follows f block block') :
    Tracks f 1 (statement block) (Parser.statement f.inBlock block') c := by
  apply (tracks_anyStatement hexprs hblock).watched
  intro s s' hs hs' _
  show (s'.exprs, s'.blocks) = (s.exprs, s.blocks)
  rw [hs.setting, hs'.setting]

end Blocks

/-! ## The loops over statements -/

/-- What one round of a loop over statements does, and what it gives: the statements read, one or
none, or `none` where the loop is left. -/
def roundOf (inBlock : Bool) (stmt : Parser Stmt) : Parser (Option (List Stmt)) := fun c =>
  if c.kind = .fileEnd ∨ (inBlock ∧ c.kind = .symbol .rightBrace) ∨ c.isFull then
    (some none, c)
  else if c.kind = .symbol .rightBrace then
    (some (some []), (c.report .unmatchedBrace c.span).advance.skipLineEnds)
  else
    match stmt c with
    | (some s, c) => (some (some [s]), c.skipLineEnds)
    | (none, c) => (some (some []), (c.synchronize inBlock).skipLineEnds)

/-- The loop over statements, as a reader. -/
def loopOf (inBlock : Bool) (stmt : Parser Stmt) (bound : List Token) : Parser (List Stmt) :=
  fun c =>
    (some (Parser.statements inBlock stmt bound c).1, (Parser.statements inBlock stmt bound c).2)

/-- How the loop goes on after a round. -/
def loopAfter (loop : Parser (List Stmt)) : Option (List Stmt) → Parser (List Stmt)
  | none => Pure.pure []
  | some new => loop >>= fun rest => Pure.pure (new ++ rest)

theorem loopOf_cons (inBlock : Bool) (stmt : Parser Stmt) (t : Token) (bound : List Token)
    (c : Cursor) :
    loopOf inBlock stmt (t :: bound) c =
      (roundOf inBlock stmt >>= loopAfter (loopOf inBlock stmt bound)) c := by
  show _ = Parser.bind _ _ c
  rw [loopOf, Parser.statements, Parser.bind, roundOf]
  by_cases hstop : c.kind = .fileEnd ∨ (inBlock = true ∧ c.kind = .symbol .rightBrace) ∨
      c.isFull = true
  · rw [if_pos hstop, if_pos hstop]
    rfl
  rw [if_neg hstop, if_neg hstop]
  by_cases hbrace : c.kind = .symbol .rightBrace
  · rw [if_pos hbrace, if_pos hbrace]
    rfl
  rw [if_neg hbrace, if_neg hbrace]
  cases stmt c with
  | mk result d => cases result <;> rfl

/-- How a round goes on after a statement was tried. -/
def roundAfter (inBlock : Bool) : Option Stmt → Parser (Option (List Stmt))
  | some stmt => Parser.skipLineEnds >>= fun _ => Pure.pure (some [stmt])
  | none => recoveryOf inBlock >>= fun _ => Parser.skipLineEnds >>= fun _ => Pure.pure (some [])

/-- The outcome of a reader, as a result. -/
def attemptOf (p : Parser α) : Parser (Option α) :=
  fun c => (some (p c).1, (p c).2)

theorem attemptOf_bind_apply (p : Parser α) (g : Option α → Parser β) (c : Cursor) :
    (attemptOf p >>= g) c = g (p c).1 (p c).2 := rfl

section Loop

variable {stmt : Descent Stmt} {stmt' : Parser Stmt}

theorem length_synchronize_le (c : Cursor) :
    (c.synchronize f.inBlock).rest.length ≤ c.rest.length := by
  obtain ⟨rest, last, findings⟩ := c
  induction rest generalizing last with
  | nil => exact Nat.le_refl _
  | cons t rest ih =>
      by_cases hstop : StopsAt f.blocks t.kind
      · rw [synchronize_of_stopsAt (c := ⟨t :: rest, last, findings⟩) hstop]
        exact Cursor.length_skipLineEnds_le _
      · rw [synchronize_of_not_stopsAt (c := ⟨t :: rest, last, findings⟩) hstop]
        exact Nat.le_succ_of_le (ih t.span)

/-- Unless it stops where it stands, a recovery takes a token. -/
theorem length_synchronize_lt (hend : c.kind ≠ .fileEnd)
    (hclose : ¬ (f.inBlock = true ∧ c.kind = .symbol .rightBrace)) :
    (c.synchronize f.inBlock).rest.length < c.rest.length := by
  have hlt := Cursor.length_advance_lt hend
  by_cases hline : c.kind = .lineEnd
  · have hskip : c.skipLineEnds = c.advance.skipLineEnds := by
      have hskip := skipLineEnds_eq c
      rw [Parser.eat_bind_apply, if_pos hline, if_pos rfl] at hskip
      exact congrArg Prod.snd hskip
    rw [synchronize_of_stopsAt (.inl hline), hskip]
    exact Nat.lt_of_le_of_lt (Cursor.length_skipLineEnds_le _) hlt
  · have hstop : ¬ StopsAt f.blocks c.kind := by
      rintro (h | h | ⟨hopen, h⟩)
      · exact hline h
      · exact hend h
      · exact hclose ⟨decide_eq_true hopen, h⟩
    rw [synchronize_of_not_stopsAt hstop]
    exact Nat.lt_of_le_of_lt (length_synchronize_le _) hlt

/-- A round after which the loop goes on has taken a token. -/
theorem length_roundOf_lt (hs : At f s c) (hstmt : Tracks f 1 stmt stmt' c)
    {new : List Stmt} {d : Cursor} (h : roundOf f.inBlock stmt' c = (some (some new), d)) :
    d.rest.length < c.rest.length := by
  rw [roundOf] at h
  split at h
  · cases h
  rename_i hstop
  have hend : c.kind ≠ .fileEnd := fun hend => hstop (.inl hend)
  have hclose : ¬ (f.inBlock = true ∧ c.kind = .symbol .rightBrace) :=
    fun hclose => hstop (.inr (.inl hclose))
  split at h
  · cases h
    exact Nat.lt_of_le_of_lt (Cursor.length_skipLineEnds_le _) (Cursor.length_advance_lt hend)
  obtain ⟨s₁, -, hs₁, hpassed, htaken⟩ := hstmt s hs
  split at h
  · rename_i stmt c₁ hread
    cases h
    rw [hread] at hs₁ htaken
    exact Nat.lt_of_le_of_lt c₁.length_skipLineEnds_le (hs.length_lt hs₁ (htaken rfl))
  · rename_i c₁ hfailed
    cases h
    rw [hfailed] at hs₁
    apply Nat.lt_of_le_of_lt (Cursor.length_skipLineEnds_le _)
    by_cases hmoved : s.pos < s₁.pos
    · exact Nat.lt_of_le_of_lt (length_synchronize_le c₁) (hs.length_lt hs₁ hmoved)
    · -- the failed statement took nothing, so the recovery starts where the round did
      have hpos : s₁.pos = s.pos := Nat.le_antisymm (Nat.le_of_not_lt hmoved) hpassed.1
      have hrest : c₁.rest = c.rest := by rw [hs₁.rest, hs.rest, hpos]
      have hkind : c₁.kind = c.kind := by
        rw [Cursor.kind, Cursor.kind, Cursor.peek, Cursor.peek, hrest]
      rw [← hrest]
      rw [← hkind] at hend hclose
      exact length_synchronize_lt hend hclose

theorem tracks_attempt {x : Descent α} {p : Parser α} (h : Tracks f 0 x p c) :
    Tracks f 0 (attempt x) (attemptOf p) c := by
  intro s hs
  obtain ⟨s', hrun, hs', hpassed, -⟩ := h s hs
  exact ⟨s', attempt_of_eq_some hrun, hs', hpassed, fun _ => hpassed.1⟩

theorem tracks_round (hstmt : Tracks f 1 stmt stmt' c) :
    Tracks f 0 (round f.inBlock stmt) (roundOf f.inBlock stmt') c := by
  apply Tracks.watched
  · apply tracks_look_bind fun _ hs => hs.kind_eq
    apply tracks_look_bind fun _ hs => hs.isFull_eq
    by_cases hstop : c.kind = .fileEnd ∨ (f.inBlock = true ∧ c.kind = .symbol .rightBrace) ∨
        c.isFull = true
    · rw [if_pos hstop]
      exact (tracks_pure none).congr (by rw [roundOf, if_pos hstop]; rfl)
    rw [if_neg hstop]
    by_cases hbrace : c.kind = .symbol .rightBrace
    · rw [if_pos hbrace]
      have hne : (c.report .unmatchedBrace c.span).kind ≠ .fileEnd := by
        show c.kind ≠ .fileEnd
        simp [hbrace]
      apply tracks_look_bind fun _ hs => hs.span_eq
      refine tracks_report_bind (q := Parser.advance >>= fun _ => Parser.skipLineEnds >>= fun _ =>
        Pure.pure (some [])) ?_ (by rw [roundOf, if_neg hstop, if_pos hbrace]; rfl)
      refine (tracks_advance_bind hne ?_).weaken
      exact tracks_skipLineEnds_bind (tracks_pure _)
    rw [if_neg hbrace]
    have hround : roundOf f.inBlock stmt' c =
        (attemptOf stmt' >>= roundAfter f.inBlock) c := by
      rw [roundOf, if_neg hstop, if_neg hbrace, attemptOf_bind_apply]
      cases stmt' c with
      | mk result d => cases result <;> rfl
    refine Tracks.congr ?_ hround
    refine (tracks_attempt hstmt.weaken).bind fun result d _ _ => ?_
    cases result with
    | some stmt => exact tracks_skipLineEnds_bind (tracks_pure _)
    | none =>
        refine tracks_synchronize.bind fun _ d' _ _ => ?_
        exact tracks_skipLineEnds_bind (tracks_pure _)
  · intro s s' hs hs' hpassed hgoesOn
    cases hround : roundOf f.inBlock stmt' c with
    | mk result d =>
        rw [hround] at hs' hgoesOn
        obtain ⟨new, rfl⟩ : ∃ new, result = some (some new) := by
          rcases result with - | - | new
          · cases hgoesOn
          · cases hgoesOn
          · exact ⟨new, rfl⟩
        exact ⟨hs.pos_lt hs' (length_roundOf_lt hs hstmt hround), hpassed⟩

theorem tracks_statements (hstmt : ∀ c, Tracks f 1 stmt stmt' c) {n : Nat} {bound : List Token}
    (hn : c.rest.length < n) (hbound : c.rest.length ≤ bound.length) :
    Tracks f 0 (statements f.inBlock stmt n) (loopOf f.inBlock stmt' bound) c := by
  induction n generalizing bound c with
  | zero => omega
  | succ n ih =>
      refine tracks_of_bound hbound ?_
      rintro t bound rfl hbound s hs
      refine Tracks.congr ?_ (loopOf_cons f.inBlock stmt' t bound c) s hs
      refine (tracks_round (hstmt c)).bind fun result d hround hle => ?_
      cases result with
      | none => exact tracks_pure []
      | some new =>
          have hlt := length_roundOf_lt hs (hstmt c) hround
          have hrest : Tracks f 0 (statements f.inBlock stmt n) (loopOf f.inBlock stmt' bound) d :=
            ih (by omega) (by omega)
          exact hrest.bind fun rest _ _ _ => tracks_pure (new ++ rest)

end Loop

/-! ## Blocks -/

theorem inBlock_counting_succ (f : Setting) (exprs blocks : Nat) :
    (f.counting exprs (blocks + 1)).inBlock = true :=
  decide_eq_true (Nat.succ_pos blocks)

section Block

variable {stmt : Descent Stmt} {stmt' : Parser Stmt} {start : Span}

theorem blockBody_of_room (h : s.blocks < maxBlockDepth) {stmts : List Stmt} {s₁ s₂ : State}
    (hskip : skipLineEnds { s with blocks := s.blocks + 1 } = some (some (), s₁))
    (hloop : inRounds (statements true stmt) s₁ = some (some stmts, s₂)) :
    blockBody start stmt s = some (some stmts, { s₂ with blocks := s₂.blocks - 1 }) := by
  have hopen : ¬ maxBlockDepth < s.blocks + 1 := by omega
  show (if maxBlockDepth < s.blocks + 1 then _ else _ : Descent _) { s with blocks := _ } = _
  rw [if_neg hopen, bind_of_eq_some hskip, bind_of_eq_some hloop]
  rfl

theorem blockBody_of_full (h : maxBlockDepth ≤ s.blocks) :
    blockBody start stmt s = some (none, s.report .blockTooDeep start) := by
  show (if maxBlockDepth < s.blocks + 1 then _ else _ : Descent _) { s with blocks := _ } = _
  rw [if_pos (Nat.lt_succ_of_le h)]
  rfl

theorem tracks_blockBody (hroom : f.blocks < maxBlockDepth)
    (hstmt : ∀ c, Tracks (f.counting f.exprs (f.blocks + 1)) 1 stmt stmt' c) :
    Tracks f 0 (blockBody start stmt)
      (Parser.skipLineEnds >>= fun _ => Parser.blockBody stmt') c := by
  intro s hs
  obtain rfl := hs.setting
  have hin := inBlock_counting_succ s.toSetting s.exprs s.blocks
  obtain ⟨s₁, hskip, hs₁, hpassed₁, -⟩ := tracks_skipLineEnds _ (hs.counting s.exprs (s.blocks + 1))
  have hloop : Tracks (s.counting s.exprs (s.blocks + 1)) 0 (inRounds (statements true stmt))
      (Parser.blockBody stmt') c.skipLineEnds := by
    apply tracks_inRounds
    intro hrounds
    have hstmts := tracks_statements hstmt (Nat.lt_of_add_right_lt hrounds) (Nat.le_refl _)
    rw [hin] at hstmts
    exact hstmts
  obtain ⟨s₂, hrun, hs₂, hpassed₂, -⟩ := hloop s₁ hs₁
  have hpassed := hpassed₁.trans hpassed₂
  refine ⟨{ s₂ with blocks := s₂.blocks - 1 }, blockBody_of_room hroom hskip hrun, ?_, hpassed,
    fun _ => hpassed.1⟩
  have hclosed := hs₂.counting s₂.exprs (s₂.blocks - 1)
  rw [hs₂.setting] at hclosed ⊢
  exact hclosed

theorem tracks_blockBody_full (hfull : maxBlockDepth ≤ f.blocks) :
    Tracks f 0 (blockBody start stmt) (Parser.failAt .blockTooDeep start) c := by
  intro s hs
  obtain rfl := hs.setting
  exact ⟨s.report .blockTooDeep start, blockBody_of_full hfull, hs.report _ _, .refl _ _ _,
    not_isSome_none⟩

end Block

/-- With so many levels left to open, the depth of calls being enough for them. -/
theorem follows_block {levels n : Nat} (hexprs : f.exprs = 0)
    (hlevels : f.blocks + levels = maxBlockDepth) (hn : levels < n) :
    Follows f (block n) (Parser.block levels) := by
  induction levels generalizing f n with
  | zero =>
      obtain ⟨n, rfl⟩ := Nat.exists_eq_succ_of_ne_zero (Nat.ne_zero_of_lt hn)
      intro c
      apply tracks_span_bind
      apply tracks_expect_bind (by simp)
      intro _
      have hbody : Tracks f 0 (blockBody c.span (statement (block n)))
          (Parser.failAt .blockTooDeep c.span) c.advance :=
        tracks_blockBody_full (by omega)
      refine Tracks.congr (hbody.bind (q := fun _ => Parser.failAt .blockTooDeep c.span) ?_) rfl
      intro _ _ hread
      cases hread
  | succ levels ih =>
      obtain ⟨n, rfl⟩ := Nat.exists_eq_succ_of_ne_zero (Nat.ne_zero_of_lt hn)
      have hlevels' : f.blocks + 1 + levels = maxBlockDepth := by omega
      have hinner : Follows (f.counting f.exprs (f.blocks + 1)) (block n) (Parser.block levels) :=
        ih hexprs hlevels' (Nat.lt_of_succ_lt_succ hn)
      have hstmt : ∀ c, Tracks (f.counting f.exprs (f.blocks + 1)) 1 (statement (block n))
          (Parser.statement true (Parser.block levels)) c := by
        intro c
        rw [← inBlock_counting_succ f f.exprs f.blocks]
        exact tracks_statement hexprs hinner
      intro c
      apply tracks_span_bind
      apply tracks_expect_bind (by simp)
      intro _
      have hbody : Tracks f 0 (blockBody c.span (statement (block n)))
          (Parser.skipLineEnds >>= fun _ =>
            Parser.blockBody (Parser.statement true (Parser.block levels))) c.advance :=
        tracks_blockBody (by omega) hstmt
      have hblock := hbody.bind (g := fun stmts =>
          expect (.symbol .rightBrace) >>= fun _ => lastSpan >>= fun stop =>
            Pure.pure (Block.mk (c.span.merge stop) stmts))
        (q := fun stmts =>
          Parser.expect (.symbol .rightBrace) >>= fun _ => Parser.lastSpan >>= fun stop =>
            Pure.pure (Block.mk (c.span.merge stop) stmts))
        (fun stmts d _ _ => tracks_expect_bind (by simp) fun _ =>
          tracks_lastSpan_bind (tracks_pure _))
      exact hblock.congr rfl

/-! ## Programs -/

/-- Reading a program, as a reader. -/
def programOf : Parser Program := do
  let start ← Parser.span
  Parser.skipLineEnds
  let stmts ← fun c =>
    loopOf false (Parser.statement false (Parser.block maxBlockDepth)) c.rest c
  let stop ← Parser.lastSpan
  fun c => (if c.findings.isEmpty then some ⟨start.merge stop, stmts⟩ else none, c)

theorem ofTokens_eq_programOf (tokens : List Token) :
    Program.ofTokens tokens =
      ((programOf (.ofTokens tokens)).1, (programOf (.ofTokens tokens)).2.findings) := rfl

theorem tracks_program (hexprs : f.exprs = 0) (hblocks : f.blocks = 0) :
    Tracks f 0 program programOf c := by
  have hin : f.inBlock = false := by simp [Setting.inBlock, hblocks]
  have hblock : Follows f (inRounds block) (Parser.block maxBlockDepth) := by
    intro c
    apply tracks_inRounds
    intro hrounds
    have hdepth : maxBlockDepth ≤ maxExprDepth := by decide
    exact follows_block hexprs (by rw [hblocks, Nat.zero_add]) (by omega) c
  have hstmt : ∀ c, Tracks f 1 (statement (inRounds block))
      (Parser.statement false (Parser.block maxBlockDepth)) c := by
    intro c
    rw [← hin]
    exact tracks_statement hexprs hblock
  have hloop : Tracks f 0 (inRounds (statements false (statement (inRounds block))))
      (fun c => loopOf false (Parser.statement false (Parser.block maxBlockDepth)) c.rest c)
      c.skipLineEnds := by
    apply tracks_inRounds
    intro hrounds
    have hstmts := tracks_statements hstmt (Nat.lt_of_add_right_lt hrounds) (Nat.le_refl _)
    rw [hin] at hstmts
    exact hstmts
  apply tracks_span_bind
  apply tracks_skipLineEnds_bind
  refine hloop.bind fun stmts d _ _ => ?_
  apply tracks_lastSpan_bind
  apply tracks_look_bind fun _ hs => hs.findings.symm
  exact (tracks_give _).congr rfl

theorem at_ofTokens {tokens : List Token} {t : Token} (ht : tokens.getLast? = some t)
    (hend : t.kind = .fileEnd) {rounds : Nat} (hrounds : tokens.length + maxExprDepth < rounds) :
    At ⟨tokens, rounds, 0, 0⟩ (.ofTokens tokens rounds) (.ofTokens tokens) where
  setting := rfl
  enough := hrounds
  rest := rfl
  last := rfl
  findings := rfl
  ends := ⟨t, List.mem_of_getLast? ht, hend⟩
  good := fun _ hmem => absurd hmem List.not_mem_nil

theorem parse_nil {rounds : Nat} (hrounds : 0 < rounds) :
    parse [] rounds = some (Program.ofTokens [], [.round false 0 0]) := by
  obtain ⟨n, rfl⟩ := Nat.exists_eq_succ_of_ne_zero (Nat.ne_zero_of_lt hrounds)
  rfl

/-- Whatever the tokens, if there are none or the last one is the end of the file, reading ends: no
loop takes more rounds, and no call goes deeper, than there are tokens and levels of expressions.
All that was written down on the way is good. -/
theorem parse_progress (tokens : List Token)
    (hend : tokens = [] ∨ ∃ t, tokens.getLast? = some t ∧ t.kind = .fileEnd) (rounds : Nat)
    (hrounds : tokens.length + maxExprDepth < rounds) :
    ∃ record, parse tokens rounds = some (Program.ofTokens tokens, record) ∧
      ∀ event ∈ record, event.Good tokens := by
  rcases hend with rfl | ⟨t, ht, hkind⟩
  · refine ⟨_, parse_nil (Nat.zero_lt_of_lt hrounds), ?_⟩
    simp [Event.Good]
  · have hstart := at_ofTokens ht hkind hrounds
    obtain ⟨s, hrun, hs, -⟩ := tracks_program rfl rfl _ hstart
    refine ⟨s.record, ?_, hs.good⟩
    rw [parse, hrun, ofTokens_eq_programOf, hs.findings]
    rfl

/-- A token that no statement starts with: the statement fails where it stands, and the recovery
passes over the token. -/
theorem parse_progress_stray_paren :
    (parse [⟨.symbol .rightParen, .point .start⟩, ⟨.fileEnd, .point .start⟩] 67).map Prod.snd =
        some [.statement (0, 0) (0, 0), .recovery 0 0 1, .round true 0 1, .round false 1 1] ∧
      ∃ record,
        parse [⟨.symbol .rightParen, .point .start⟩, ⟨.fileEnd, .point .start⟩] 67 =
          some (Program.ofTokens [⟨.symbol .rightParen, .point .start⟩,
            ⟨.fileEnd, .point .start⟩], record) ∧
        ∀ event ∈ record, event.Good
          [⟨.symbol .rightParen, .point .start⟩, ⟨.fileEnd, .point .start⟩] :=
  ⟨by decide, parse_progress _ (.inr ⟨_, rfl, rfl⟩) 67 (by decide)⟩

end Descent

end KitchenScript
