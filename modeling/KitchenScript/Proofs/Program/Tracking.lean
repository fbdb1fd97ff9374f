import KitchenScript.Proofs.Joining.Statements
import KitchenScript.Proofs.Program.Descent

/-!
# Reading with counters follows reading

A state and a cursor stand at the same place when they have the same tokens to come and the same
findings.  From there a reader with counters has the outcome of its counterpart on cursors, and the
two stand at the same place again: the counters are as before, no end of the file has been passed,
and all that was written down keeps what is promised of it.

Each rule takes one step off the front of both readers.  A loop is read by induction on its rounds,
which suffice since every round takes a token.
-/

namespace KitchenScript.Descent

/-! ## What is promised -/

/-- At each position from one up to another there is a token, and its kind is of the given sort. -/
def Passed (tokens : List Token) (sort : TokenKind → Prop) (start stop : Nat) : Prop :=
  start ≤ stop ∧ ∀ i, start ≤ i → i < stop → ∃ t, tokens[i]? = some t ∧ sort t.kind

/-- Where a recovery stops. -/
def StopsAt (blocks : Nat) (k : TokenKind) : Prop :=
  k = .lineEnd ∨ k = .fileEnd ∨ 0 < blocks ∧ k = .symbol .rightBrace

/-- What reading promises of what it writes down. -/
def Event.Good (tokens : List Token) : Event → Prop
  | .statement before after => after = before
  | .round goesOn start stop =>
      goesOn = true → start < stop ∧ Passed tokens (· ≠ .fileEnd) start stop
  | .recovery blocks start stop =>
      Passed tokens (fun k => ¬ StopsAt blocks k) start stop ∧
        ∃ t, tokens[stop]? = some t ∧ StopsAt blocks t.kind

/-! ## States and cursors -/

/-- The state has this setting and stands where the cursor does, in a file that has not ended. -/
structure At (f : Setting) (s : State) (c : Cursor) : Prop where
  setting : s.toSetting = f
  enough : f.tokens.length + maxExprDepth < f.rounds
  rest : c.rest = f.tokens.drop s.pos
  last : c.last = s.previousSpan
  findings : c.findings = s.findings
  ends : ∃ t ∈ c.rest, t.kind = .fileEnd
  good : ∀ event ∈ s.record, event.Good f.tokens

theorem Passed.refl (tokens : List Token) (sort : TokenKind → Prop) (start : Nat) :
    Passed tokens sort start start :=
  ⟨Nat.le_refl _, fun i _ _ => by omega⟩

theorem Passed.trans {tokens : List Token} {sort : TokenKind → Prop} {i j k : Nat}
    (hij : Passed tokens sort i j) (hjk : Passed tokens sort j k) : Passed tokens sort i k := by
  refine ⟨Nat.le_trans hij.1 hjk.1, ?_⟩
  intro n hin hnk
  by_cases hn : n < j
  · exact hij.2 n hin hn
  · exact hjk.2 n (by omega) hnk

theorem Passed.mono {tokens : List Token} {sort sort' : TokenKind → Prop} {i j : Nat}
    (h : Passed tokens sort i j) (hsort : ∀ k, sort k → sort' k) : Passed tokens sort' i j := by
  refine ⟨h.1, ?_⟩
  intro n hin hnj
  obtain ⟨t, ht, hk⟩ := h.2 n hin hnj
  exact ⟨t, ht, hsort _ hk⟩

namespace At

variable {f : Setting} {s s' : State} {c c' : Cursor}

theorem cons (h : At f s c) :
    ∃ t, c.rest = t :: f.tokens.drop (s.pos + 1) ∧ f.tokens[s.pos]? = some t := by
  have hpos : s.pos < f.tokens.length := by
    obtain ⟨t, ht, -⟩ := h.ends
    rw [h.rest] at ht
    have hlength := List.length_pos_of_mem ht
    rw [List.length_drop] at hlength
    omega
  refine ⟨f.tokens.get ⟨s.pos, hpos⟩, ?_, ?_⟩
  · rw [h.rest, List.drop_eq_getElem_cons hpos]
    rfl
  · simp [hpos]

theorem length_rest (h : At f s c) : c.rest.length = f.tokens.length - s.pos := by
  rw [h.rest, List.length_drop]

theorem length_pos (h : At f s c) : 0 < c.rest.length := by
  obtain ⟨t, hrest, -⟩ := h.cons
  simp [hrest]

theorem peek_eq (h : At f s c) : s.peek = c.peek := by
  obtain ⟨t, hrest, ht⟩ := h.cons
  obtain rfl := h.setting
  rw [State.peek, Cursor.peek, hrest, ht]
  rfl

theorem kind_eq (h : At f s c) : s.kind = c.kind :=
  congrArg Token.kind h.peek_eq

theorem span_eq (h : At f s c) : s.span = c.span :=
  congrArg Token.span h.peek_eq

theorem isFull_eq (h : At f s c) : s.isFull = c.isFull := by
  rw [State.isFull, Cursor.isFull, h.findings]

theorem ahead_eq (h : At f s c) (k : Nat) : s.ahead k = (c.kinds.drop k).headD .fileEnd := by
  obtain rfl := h.setting
  rw [State.ahead, Cursor.kinds, h.rest, ← List.map_drop, List.drop_drop, List.headD_eq_head?_getD,
    List.head?_map, List.head?_drop]

theorem pos_advance (h : At f s c) : s.advance.pos = s.pos + 1 := by
  obtain ⟨t, -, ht⟩ := h.cons
  obtain rfl := h.setting
  rw [State.advance, if_pos (List.getElem?_eq_some_iff.mp ht).1]

theorem advance (h : At f s c) (hk : c.kind ≠ .fileEnd) : At f s.advance c.advance := by
  obtain ⟨t, hrest, ht⟩ := h.cons
  have hend : t.kind ≠ .fileEnd := by simpa [Cursor.kind, Cursor.peek, hrest] using hk
  obtain rfl := h.setting
  have hadvance : s.advance = { s with pos := s.pos + 1 } :=
    if_pos (List.getElem?_eq_some_iff.mp ht).1
  rw [hadvance, Cursor.advance, hrest]
  refine ⟨rfl, h.enough, rfl, ?_, h.findings, ?_, h.good⟩
  · simp [State.previousSpan, ht]
  · obtain ⟨t', ht', hend'⟩ := h.ends
    rw [hrest] at ht'
    rcases List.mem_cons.mp ht' with rfl | hmem
    · exact absurd hend' hend
    · exact ⟨t', hmem, hend'⟩

theorem pos_lt_advance (h : At f s c) : s.pos < s.advance.pos := by
  rw [h.pos_advance]
  exact Nat.lt_succ_self _

theorem exists_token (h : At f s c) : ∃ t, f.tokens[s.pos]? = some t ∧ t.kind = c.kind := by
  obtain ⟨t, hrest, ht⟩ := h.cons
  exact ⟨t, ht, by simp [Cursor.kind, Cursor.peek, hrest]⟩

theorem passed_advance (h : At f s c) (sort : TokenKind → Prop) (hk : sort c.kind) :
    Passed f.tokens sort s.pos s.advance.pos := by
  obtain ⟨t, ht, hkind⟩ := h.exists_token
  rw [h.pos_advance]
  refine ⟨by omega, ?_⟩
  intro i hle hlt
  obtain rfl : i = s.pos := by omega
  exact ⟨t, ht, hkind ▸ hk⟩

theorem report (h : At f s c) (problem : Problem) (span : Span) :
    At f (s.report problem span) (c.report problem span) where
  setting := h.setting
  enough := h.enough
  rest := h.rest
  last := h.last
  findings := congrArg (· ++ [_]) h.findings
  ends := h.ends
  good := h.good

theorem note (h : At f s c) {event : Event} (hgood : event.Good f.tokens) :
    At f (s.note event) c where
  setting := h.setting
  enough := h.enough
  rest := h.rest
  last := h.last
  findings := h.findings
  ends := h.ends
  good := by
    intro event' hmem
    rcases List.mem_append.mp hmem with hold | hnew
    · exact h.good event' hold
    · rw [List.mem_singleton.mp hnew]
      exact hgood

theorem length_le (h : At f s c) (h' : At f s' c') (hle : s.pos ≤ s'.pos) :
    c'.rest.length ≤ c.rest.length := by
  rw [h.length_rest, h'.length_rest]
  omega

theorem length_lt (h : At f s c) (h' : At f s' c') (hlt : s.pos < s'.pos) :
    c'.rest.length < c.rest.length := by
  have hpos := h.length_pos
  rw [h.length_rest] at hpos ⊢
  rw [h'.length_rest]
  omega

theorem pos_lt (h : At f s c) (h' : At f s' c') (hlt : c'.rest.length < c.rest.length) :
    s.pos < s'.pos := by
  rw [h.length_rest, h'.length_rest] at hlt
  omega

theorem length_lt_rounds (h : At f s c) : c.rest.length + maxExprDepth < f.rounds := by
  have henough := h.enough
  rw [h.length_rest]
  omega

end At

/-- The setting with other levels open. -/
def Setting.counting (f : Setting) (exprs blocks : Nat) : Setting :=
  { f with exprs := exprs, blocks := blocks }

theorem At.counting {f : Setting} {s : State} {c : Cursor} (h : At f s c) (exprs blocks : Nat) :
    At (f.counting exprs blocks) { s with exprs := exprs, blocks := blocks } c where
  setting := by
    obtain rfl := h.setting
    rfl
  enough := h.enough
  rest := h.rest
  last := h.last
  findings := h.findings
  ends := h.ends
  good := h.good

/-- The reader `x` does at the cursor what `p` does there: it has an outcome, keeps the counters,
passes no end of the file, and writes down only what is good.  Where it succeeds it has taken at
least so many tokens. -/
def Tracks (f : Setting) (least : Nat) (x : Descent α) (p : Parser α) (c : Cursor) : Prop :=
  ∀ s, At f s c → ∃ s', x s = some ((p c).1, s') ∧ At f s' (p c).2 ∧
    Passed f.tokens (· ≠ .fileEnd) s.pos s'.pos ∧
    ((p c).1.isSome = true → s.pos + least ≤ s'.pos)

def Follows (f : Setting) (x : Descent α) (p : Parser α) : Prop :=
  ∀ c, Tracks f 0 x p c

theorem bind_of_eq_some {x : Descent α} {g : α → Descent β} {s s' : State} {a : α}
    (h : x s = some (some a, s')) : (x >>= g) s = g a s' := by
  show Descent.bind x g s = _
  rw [Descent.bind, h]

theorem attempt_of_eq_some {x : Descent α} {s s' : State} {a : Option α}
    (h : x s = some (a, s')) : attempt x s = some (some a, s') := by
  rw [attempt, h]

theorem not_isSome_none {q : Prop} (h : (none : Option α).isSome = true) : q :=
  absurd h Bool.false_ne_true

section Rules

variable {f : Setting} {k : Nat} {x : Descent α} {p : Parser α} {c : Cursor}

theorem Tracks.weaken (h : Tracks f k x p c) : Tracks f 0 x p c := by
  intro s hs
  obtain ⟨s', hx, hs', hpassed, -⟩ := h s hs
  exact ⟨s', hx, hs', hpassed, fun _ => hpassed.1⟩

theorem Tracks.congr {q : Parser α} (h : Tracks f k x p c) (hq : q c = p c) :
    Tracks f k x q c := by
  intro s hs
  rw [hq]
  exact h s hs

/-- Where the tokens to come bound a loop there is always a round left. -/
theorem tracks_of_bound {bound : List Token} (hbound : c.rest.length ≤ bound.length)
    (h : ∀ t rest, bound = t :: rest → c.rest.length ≤ rest.length + 1 → Tracks f k x p c) :
    Tracks f k x p c := by
  intro s hs
  cases bound with
  | nil => exact absurd hs.length_pos (Nat.not_lt_of_le hbound)
  | cons t rest => exact h t rest rfl hbound s hs

theorem tracks_inRounds {x : Nat → Descent α}
    (h : c.rest.length + maxExprDepth < f.rounds → Tracks f k (x f.rounds) p c) :
    Tracks f k (inRounds x) p c := by
  intro s hs
  obtain rfl := hs.setting
  exact h hs.length_lt_rounds s hs

theorem tracks_give (a : Option α) : Tracks f 0 (give a) (fun c => (a, c)) c :=
  fun s hs => ⟨s, rfl, hs, .refl _ _ _, fun _ => Nat.le_refl _⟩

theorem tracks_pure (a : α) : Tracks f 0 (Pure.pure a) (Pure.pure a) c :=
  tracks_give (some a)

theorem tracks_failAt (problem : Problem) (span : Span) :
    Tracks f k (failAt problem span : Descent α) (Parser.failAt problem span) c :=
  fun s hs => ⟨s.report problem span, rfl, hs.report problem span, .refl _ _ _, not_isSome_none⟩

theorem tracks_fail (problem : Problem) :
    Tracks f k (fail problem : Descent α) (Parser.fail problem) c := by
  intro s hs
  refine ⟨s.report problem c.span, ?_, hs.report problem c.span, .refl _ _ _, not_isSome_none⟩
  rw [← hs.span_eq]
  rfl

theorem Tracks.bind {g : α → Descent β} {q : α → Parser β} (hx : Tracks f k x p c)
    (hg : ∀ a d, p c = (some a, d) → d.rest.length ≤ c.rest.length → Tracks f 0 (g a) (q a) d) :
    Tracks f k (x >>= g) (p >>= q) c := by
  intro s hs
  obtain ⟨s₁, hrun, hs₁, hpassed₁, htaken⟩ := hx s hs
  show ∃ s', Descent.bind x g s = some ((Parser.bind p q c).1, s') ∧
    At f s' (Parser.bind p q c).2 ∧ _ ∧ ((Parser.bind p q c).1.isSome = true → s.pos + k ≤ s'.pos)
  unfold Descent.bind Parser.bind
  rw [hrun]
  cases hp : p c with
  | mk a d =>
      rw [hp] at hs₁ htaken
      cases a with
      | none => exact ⟨s₁, rfl, hs₁, hpassed₁, not_isSome_none⟩
      | some a =>
          obtain ⟨s₂, hrun₂, hs₂, hpassed₂, -⟩ := hg a d hp (hs.length_le hs₁ hpassed₁.1) s₁ hs₁
          exact ⟨s₂, hrun₂, hs₂, hpassed₁.trans hpassed₂,
            fun _ => Nat.le_trans (htaken rfl) hpassed₂.1⟩

/-- A look at the state before the rest of a reader. -/
theorem tracks_look_bind {l : State → β} {b : β} {g : β → Descent α}
    (hl : ∀ s, At f s c → l s = b) (h : Tracks f k (g b) p c) :
    Tracks f k (look l >>= g) p c := by
  intro s hs
  obtain ⟨s', hrun, hs'⟩ := h s hs
  refine ⟨s', ?_, hs'⟩
  rw [← hrun, ← hl s hs]
  rfl

theorem tracks_kind_bind {g : TokenKind → Descent α} {q : TokenKind → Parser α}
    (h : Tracks f k (g c.kind) (q c.kind) c) :
    Tracks f k (kind >>= g) (Parser.kind >>= q) c :=
  tracks_look_bind (fun _ hs => hs.kind_eq) h

theorem tracks_span_bind {g : Span → Descent α} {q : Span → Parser α}
    (h : Tracks f k (g c.span) (q c.span) c) :
    Tracks f k (span >>= g) (Parser.span >>= q) c :=
  tracks_look_bind (fun _ hs => hs.span_eq) h

theorem tracks_lastSpan_bind {g : Span → Descent α} {q : Span → Parser α}
    (h : Tracks f k (g c.last) (q c.last) c) :
    Tracks f k (lastSpan >>= g) (Parser.lastSpan >>= q) c :=
  tracks_look_bind (fun _ hs => hs.last.symm) h

theorem tracks_report_bind {g : Unit → Descent α} {q : Parser α} {problem : Problem} {span : Span}
    (h : Tracks f 0 (g ()) q (c.report problem span)) (hp : p c = q (c.report problem span)) :
    Tracks f 0 (report problem span >>= g) p c := by
  intro s hs
  rw [hp]
  exact h (s.report problem span) (hs.report problem span)

theorem tracks_advance (hk : c.kind ≠ .fileEnd) : Tracks f 1 advance Parser.advance c := by
  intro s hs
  refine ⟨s.advance, ?_, hs.advance hk, hs.passed_advance _ hk, fun _ => hs.pos_lt_advance⟩
  rw [advance, hs.peek_eq]
  rfl

theorem tracks_advance_bind {g : Token → Descent α} {q : Token → Parser α}
    (hk : c.kind ≠ .fileEnd) (h : Tracks f 0 (g c.peek) (q c.peek) c.advance) :
    Tracks f 1 (advance >>= g) (Parser.advance >>= q) c := by
  refine (tracks_advance hk).bind ?_
  rintro a d ⟨⟩ -
  exact h

theorem tracks_eat_bind {g : Bool → Descent α} {q : Bool → Parser α} {wanted : TokenKind}
    (hend : wanted ≠ .fileEnd)
    (htaken : c.kind = wanted → Tracks f 0 (g true) (q true) c.advance)
    (hleft : c.kind ≠ wanted → Tracks f 0 (g false) (q false) c) :
    Tracks f 0 (eat wanted >>= g) (Parser.eat wanted >>= q) c := by
  have heat : Tracks f 0 (eat wanted) (Parser.eat wanted) c := by
    intro s hs
    rw [eat, Parser.eat, hs.kind_eq]
    by_cases hk : c.kind = wanted
    · have hne : c.kind ≠ .fileEnd := hk ▸ hend
      rw [if_pos hk, if_pos hk]
      exact ⟨s.advance, rfl, hs.advance hne, hs.passed_advance _ hne,
        fun _ => Nat.le_of_lt hs.pos_lt_advance⟩
    · rw [if_neg hk, if_neg hk]
      exact ⟨s, rfl, hs, .refl _ _ _, fun _ => Nat.le_refl _⟩
  refine heat.bind ?_
  intro a d hd _
  rw [Parser.eat] at hd
  split at hd
  · cases hd
    exact htaken ‹_›
  · cases hd
    exact hleft ‹_›

theorem tracks_expect_bind {g : Descent α} {q : Parser α} {wanted : TokenKind}
    (hend : wanted ≠ .fileEnd) (h : c.kind = wanted → Tracks f 0 g q c.advance) :
    Tracks f 0 (expect wanted >>= fun _ => g) (Parser.expect wanted >>= fun _ => q) c := by
  have hexpect : Tracks f 0 (expect wanted) (Parser.expect wanted) c := by
    intro s hs
    rw [expect, Parser.expect, hs.kind_eq, hs.span_eq]
    by_cases hk : c.kind = wanted
    · have hne : c.kind ≠ .fileEnd := hk ▸ hend
      rw [if_pos hk, if_pos hk]
      exact ⟨s.advance, rfl, hs.advance hne, hs.passed_advance _ hne,
        fun _ => Nat.le_of_lt hs.pos_lt_advance⟩
    · rw [if_neg hk, if_neg hk]
      exact ⟨_, rfl, hs.report _ _, .refl _ _ _, not_isSome_none⟩
  refine hexpect.bind ?_
  intro a d hd _
  rw [Parser.expect] at hd
  split at hd
  · cases hd
    exact h ‹_›
  · cases hd

theorem tracks_ident : Tracks f 1 ident Parser.ident c := by
  intro s hs
  unfold ident Parser.ident
  rw [hs.kind_eq, hs.span_eq]
  cases hk : c.kind with
  | identifier name =>
      have hne : c.kind ≠ .fileEnd := by simp [hk]
      exact ⟨s.advance, rfl, hs.advance hne, hs.passed_advance _ hne, fun _ => hs.pos_lt_advance⟩
  | _ =>
      simp only
      split <;> exact ⟨_, rfl, hs.report _ _, .refl _ _ _, not_isSome_none⟩

theorem Tracks.watched {event : State → Option α → State → Event} (h : Tracks f k x p c)
    (hgood : ∀ s s', At f s c → At f s' (p c).2 → Passed f.tokens (· ≠ .fileEnd) s.pos s'.pos →
      (event s (p c).1 s').Good f.tokens) :
    Tracks f k (watched event x) p c := by
  intro s hs
  obtain ⟨s', hrun, hs', hpassed, htaken⟩ := h s hs
  refine ⟨s'.note (event s (p c).1 s'), ?_, hs'.note (hgood s s' hs hs' hpassed), hpassed, htaken⟩
  rw [Descent.watched, hrun]

theorem skipLineEnds_eq (c : Cursor) :
    Parser.skipLineEnds c =
      (Parser.eat .lineEnd >>= fun found =>
        if found = true then Parser.skipLineEnds else Pure.pure ()) c := by
  rw [Parser.eat_bind_apply]
  obtain ⟨rest, last, findings⟩ := c
  by_cases hk : Cursor.kind ⟨rest, last, findings⟩ = .lineEnd
  · rw [if_pos hk, if_pos rfl]
    cases rest with
    | nil => cases hk
    | cons t rest =>
        have ht : t.kind = .lineEnd := hk
        rw [Parser.skipLineEnds, Cursor.skipLineEnds_cons ht]
        rfl
  · rw [if_neg hk, if_neg (by simp), Parser.skipLineEnds, Cursor.skipLineEnds_of_kind_ne hk]
    rfl

theorem tracks_lineEndRounds {n : Nat} (hn : c.rest.length < n) :
    Tracks f 0 (lineEndRounds n) Parser.skipLineEnds c := by
  induction n generalizing c with
  | zero => omega
  | succ n ih =>
      apply Tracks.congr _ (skipLineEnds_eq c)
      apply tracks_eat_bind (by simp)
      · intro hk
        have hlt := Cursor.length_advance_lt (c := c) (by simp [hk])
        exact ih (by omega)
      · intro _
        exact tracks_pure ()

theorem tracks_skipLineEnds : Tracks f 0 skipLineEnds Parser.skipLineEnds c :=
  tracks_inRounds fun _ => tracks_lineEndRounds (by omega)

theorem tracks_skipLineEnds_bind {g : Unit → Descent α} {q : Unit → Parser α}
    (h : Tracks f 0 (g ()) (q ()) c.skipLineEnds) :
    Tracks f 0 (skipLineEnds >>= g) (Parser.skipLineEnds >>= q) c := by
  refine tracks_skipLineEnds.bind ?_
  rintro a d ⟨⟩ -
  exact h

end Rules

/-! ## Expressions -/

theorem ne_fileEnd_of_eq_some {op? : TokenKind → Option β} (hend : op? .fileEnd = none)
    {found : TokenKind} {op : β} (h : op? found = some op) : found ≠ .fileEnd := by
  intro hk
  rw [hk, hend] at h
  cases h

section Chain

variable {f : Setting} {operand : Descent Expr} {operand' : Parser Expr}
  {op? : TokenKind → Option BinaryOp}

theorem tracks_chainRest (hend : op? .fileEnd = none) (hoperand : Follows f operand operand')
    {n : Nat} {bound : List Token} {left : Expr} {c : Cursor} (hn : c.rest.length < n)
    (hbound : c.rest.length ≤ bound.length) :
    Tracks f 0 (chainRest op? operand left n) (Parser.chainRest op? operand' bound left) c := by
  induction n generalizing bound left c with
  | zero => omega
  | succ n ih =>
      refine tracks_of_bound hbound ?_
      rintro t bound rfl hbound
      apply tracks_kind_bind
      cases hop : op? c.kind with
      | none => exact tracks_pure left
      | some op =>
          have hne := ne_fileEnd_of_eq_some hend hop
          have hlt := Cursor.length_advance_lt hne
          refine (tracks_advance_bind hne ?_).weaken
          refine (hoperand _).bind fun right d _ hle => ?_
          exact ih (by omega) (by omega)

theorem follows_chain (hend : op? .fileEnd = none) (hoperand : Follows f operand operand') :
    Follows f (chain op? operand) (Parser.chain op? operand') := by
  intro c
  refine (hoperand c).bind fun left d _ _ => ?_
  exact tracks_inRounds fun _ => tracks_chainRest hend hoperand (by omega) (Nat.le_refl _)

theorem follows_single (chained : Problem) (hend : op? .fileEnd = none)
    (hoperand : Follows f operand operand') :
    Follows f (single op? chained operand) (Parser.single op? chained operand') := by
  intro c
  refine (hoperand c).bind fun left d _ _ => ?_
  apply tracks_kind_bind
  cases hop : op? d.kind with
  | none => exact tracks_pure left
  | some op =>
      have hne := ne_fileEnd_of_eq_some hend hop
      refine (tracks_advance_bind hne ?_).weaken
      refine (hoperand _).bind fun right d' _ _ => ?_
      apply tracks_kind_bind
      by_cases hmore : (op? d'.kind).isSome = true
      · rw [if_pos hmore, if_pos hmore]
        exact tracks_fail chained
      · rw [if_neg hmore, if_neg hmore]
        exact tracks_pure _

end Chain

theorem follows_binary {f : Setting} {operand : Descent Expr} {operand' : Parser Expr}
    (hoperand : Follows f operand operand') :
    Follows f (binary operand) (Parser.binary operand') :=
  follows_chain rfl <| follows_chain rfl <| follows_single _ rfl <| follows_single _ rfl <|
    follows_chain rfl <| follows_chain rfl hoperand

section Bracketed

variable {f : Setting} {expression : Descent Expr} {expression' : Parser Expr} {c : Cursor}

theorem tracks_items (h : Follows f expression expression') {n : Nat} {bound : List Token}
    (hn : c.rest.length < n) (hbound : c.rest.length ≤ bound.length) :
    Tracks f 0 (items expression n) (Parser.items expression' bound) c := by
  induction n generalizing bound c with
  | zero => omega
  | succ n ih =>
      refine tracks_of_bound hbound ?_
      rintro t bound rfl hbound
      apply tracks_skipLineEnds_bind
      refine (h _).bind fun item d _ hle => ?_
      apply tracks_skipLineEnds_bind
      apply tracks_eat_bind (by simp)
      · intro hcomma
        have hle₁ := c.length_skipLineEnds_le
        have hle₂ := d.length_skipLineEnds_le
        have hlt := Cursor.length_advance_lt (c := d.skipLineEnds) (by simp [hcomma])
        have hrest : Tracks f 0 (items expression n) (Parser.items expression' bound)
            d.skipLineEnds.advance :=
          ih (by omega) (by omega)
        exact hrest.bind fun rest _ _ _ => tracks_pure (item :: rest)
      · intro _
        exact tracks_pure [item]

theorem follows_commaList (h : Follows f expression expression') (close : Symbol) :
    Follows f (commaList expression close) (Parser.commaList expression' close) := by
  intro c
  apply tracks_skipLineEnds_bind
  apply tracks_eat_bind (by simp)
  · intro _
    exact tracks_pure []
  · intro _
    have hitems : Tracks f 0 (inRounds (items expression))
        (fun c => Parser.items expression' c.rest c) c.skipLineEnds :=
      tracks_inRounds fun _ => tracks_items h (by omega) (Nat.le_refl _)
    refine hitems.bind fun found d _ _ => ?_
    exact tracks_expect_bind (by simp) fun _ => tracks_pure found

theorem follows_callArgs (h : Follows f expression expression') :
    Follows f (callArgs expression) (Parser.callArgs expression') :=
  fun _ => tracks_expect_bind (by simp) fun _ => follows_commaList h _ _

/-- What follows the opening mark of an expression in brackets. -/
theorem tracks_bracketed (h : Follows f expression expression') (close : Symbol)
    {g : Expr → Span → Descent Expr} {q : Expr → Span → Parser Expr}
    (hg : ∀ e stop d, d.rest.length < c.rest.length → Tracks f 0 (g e stop) (q e stop) d) :
    Tracks f 0
      (skipLineEnds >>= fun _ => expression >>= fun e => skipLineEnds >>= fun _ =>
        expect (.symbol close) >>= fun _ => lastSpan >>= g e)
      (Parser.skipLineEnds >>= fun _ => expression' >>= fun e => Parser.skipLineEnds >>= fun _ =>
        Parser.expect (.symbol close) >>= fun _ => Parser.lastSpan >>= q e) c := by
  apply tracks_skipLineEnds_bind
  refine (h _).bind fun e d _ hle => ?_
  apply tracks_skipLineEnds_bind
  apply tracks_expect_bind (by simp)
  intro hclose
  apply tracks_lastSpan_bind
  apply hg
  have hle₁ := c.length_skipLineEnds_le
  have hle₂ := d.length_skipLineEnds_le
  have hlt := Cursor.length_advance_lt (c := d.skipLineEnds) (by simp [hclose])
  omega

theorem follows_primary (h : Follows f expression expression') :
    Follows f (primary expression) (Parser.primary expression') := by
  intro c
  apply tracks_span_bind
  apply tracks_kind_bind
  have hliteral : ∀ value : Expr, c.kind ≠ .fileEnd →
      Tracks f 0 (literal value) (Parser.literal value) c :=
    fun value hk => (tracks_advance_bind hk (tracks_pure value)).weaken
  cases hk : c.kind with
  | number n => exact hliteral (.number c.span n) (by simp [hk])
  | text s => exact hliteral (.text c.span s) (by simp [hk])
  | identifier name =>
      by_cases hquote : name = "\""
      · simp only [if_pos hquote]
        exact tracks_fail _
      simp only [if_neg hquote]
      refine (tracks_advance_bind (by simp [hk]) ?_).weaken
      apply tracks_kind_bind
      by_cases hcall : c.advance.kind = .symbol .leftParen
      · rw [if_pos hcall, if_pos hcall]
        refine (follows_callArgs h _).bind fun args d _ _ => ?_
        apply tracks_lastSpan_bind
        exact tracks_pure _
      · rw [if_neg hcall, if_neg hcall]
        exact tracks_pure _
  | builtin callee =>
      refine (tracks_advance_bind (by simp [hk]) ?_).weaken
      refine (follows_callArgs h _).bind fun args d _ _ => ?_
      apply tracks_lastSpan_bind
      by_cases hargs : args.length = callee.arity
      · simp only [if_pos hargs]
        exact tracks_pure _
      · simp only [if_neg hargs]
        exact tracks_failAt _ _
  | keyword word =>
      cases word with
      | trueWord => exact hliteral (.bool c.span true) (by simp [hk])
      | falseWord => exact hliteral (.bool c.span false) (by simp [hk])
      | noneWord => exact hliteral (.none c.span) (by simp [hk])
      | _ => exact tracks_fail _
  | symbol mark =>
      cases mark with
      | leftBracket =>
          refine (tracks_advance_bind (by simp [hk]) ?_).weaken
          refine (follows_commaList h _ _).bind fun found d _ _ => ?_
          apply tracks_lastSpan_bind
          exact tracks_pure _
      | leftParen =>
          refine (tracks_advance_bind (by simp [hk]) ?_).weaken
          exact tracks_bracketed h _ fun _ _ _ _ => tracks_pure _
      | _ => exact tracks_fail _
  | lineEnd => exact tracks_fail _
  | fileEnd => exact tracks_fail _

theorem tracks_indexRest (h : Follows f expression expression') {n : Nat} {bound : List Token}
    {target : Expr} (hn : c.rest.length < n) (hbound : c.rest.length ≤ bound.length) :
    Tracks f 0 (indexRest expression target n) (Parser.indexRest expression' bound target) c := by
  induction n generalizing bound target c with
  | zero => omega
  | succ n ih =>
      refine tracks_of_bound hbound ?_
      rintro t bound rfl hbound
      apply tracks_eat_bind (by simp)
      · intro hopen
        have hlt := Cursor.length_advance_lt (c := c) (by simp [hopen])
        apply tracks_bracketed h
        intro position stop d hd
        exact ih (by omega) (by omega)
      · intro _
        exact tracks_pure target

theorem follows_indexed (h : Follows f expression expression') :
    Follows f (indexed expression) (Parser.indexed expression') := by
  intro c
  refine (follows_primary h c).bind fun target d _ _ => ?_
  exact tracks_inRounds fun _ => tracks_indexRest h (by omega) (Nat.le_refl _)

theorem follows_unaryOver {operand : Descent Expr} {operand' : Parser Expr}
    (h : Follows f expression expression') (hoperand : Follows f operand operand') :
    Follows f (unaryOver expression operand) (Parser.unaryOver expression' operand') := by
  intro c
  apply tracks_kind_bind
  cases hop : Parser.unaryOp? c.kind with
  | none => exact follows_indexed h c
  | some op =>
      have hne := ne_fileEnd_of_eq_some rfl hop
      refine (tracks_advance_bind hne ?_).weaken
      exact (hoperand _).bind fun inner _ _ _ => tracks_pure _

end Bracketed

/-! ## Levels of expressions -/

section Levels

variable {f : Setting} {x : Descent α} {p : Parser α}

theorem nested_of_room {s : State} (h : s.exprs < maxExprDepth) {a : Option α} {s' : State}
    (hx : x { s with exprs := s.exprs + 1 } = some (a, s')) :
    nested x s = some (a, { s' with exprs := s'.exprs - 1 }) := by
  have hopen : ¬ maxExprDepth < s.exprs + 1 := by omega
  show (if maxExprDepth < s.exprs + 1 then _ else _ : Descent α) { s with exprs := _ } = _
  rw [if_neg hopen, bind_of_eq_some (attempt_of_eq_some hx)]
  rfl

theorem nested_of_full {s : State} (h : maxExprDepth ≤ s.exprs) :
    nested x s = some (none, s.report .exprTooDeep s.span) := by
  show (if maxExprDepth < s.exprs + 1 then _ else _ : Descent α) { s with exprs := _ } = _
  rw [if_pos (Nat.lt_succ_of_le h)]
  rfl

/-- With room for another level, a nested reader is the reader itself one level deeper; the level is
closed again whether the reader succeeds or fails. -/
theorem follows_nested (hroom : f.exprs < maxExprDepth)
    (hx : Follows (f.counting (f.exprs + 1) f.blocks) x p) : Follows f (nested x) p := by
  intro c s hs
  obtain rfl := hs.setting
  obtain ⟨s', hrun, hs', hpassed, htaken⟩ := hx c _ (hs.counting (s.exprs + 1) s.blocks)
  refine ⟨{ s' with exprs := s'.exprs - 1 }, nested_of_room hroom hrun, ?_, hpassed, htaken⟩
  have hclosed := hs'.counting (s'.exprs - 1) s'.blocks
  rw [hs'.setting] at hclosed ⊢
  exact hclosed

theorem follows_nested_full (hfull : maxExprDepth ≤ f.exprs) :
    Follows f (nested x) (Parser.fail .exprTooDeep) := by
  intro c s hs
  obtain rfl := hs.setting
  refine ⟨s.report .exprTooDeep s.span, nested_of_full hfull, ?_, .refl _ _ _, not_isSome_none⟩
  rw [hs.span_eq]
  exact hs.report _ _

/-- With so many levels left to open, the depth of calls being enough for them. -/
theorem follows_unary {levels n : Nat} (hlevels : f.exprs + levels = maxExprDepth)
    (hn : levels < n) : Follows f (unary n) (Parser.unary levels) := by
  induction levels generalizing f n with
  | zero =>
      obtain ⟨n, rfl⟩ := Nat.exists_eq_succ_of_ne_zero (Nat.ne_zero_of_lt hn)
      have hfull : maxExprDepth ≤ f.exprs := by omega
      exact follows_unaryOver (follows_nested_full hfull) (follows_nested_full hfull)
  | succ levels ih =>
      obtain ⟨n, rfl⟩ := Nat.exists_eq_succ_of_ne_zero (Nat.ne_zero_of_lt hn)
      have hroom : f.exprs < maxExprDepth := by omega
      have hlevels' : f.exprs + 1 + levels = maxExprDepth := by omega
      have hinner : Follows (f.counting (f.exprs + 1) f.blocks) (unary n) (Parser.unary levels) :=
        ih hlevels' (Nat.lt_of_succ_lt_succ hn)
      exact follows_unaryOver (follows_nested hroom (follows_binary hinner))
        (follows_nested hroom hinner)

theorem follows_expression (hexprs : f.exprs = 0) : Follows f expression Parser.expression := by
  apply follows_nested (by rw [hexprs]; decide)
  apply follows_binary
  intro c
  apply tracks_inRounds
  intro hrounds
  have hlevels : f.exprs + 1 + (maxExprDepth - 1) = maxExprDepth := by
    rw [hexprs]
    rfl
  have hcalls : maxExprDepth - 1 < (f.counting (f.exprs + 1) f.blocks).rounds := by omega
  exact follows_unary hlevels hcalls c

end Levels

end KitchenScript.Descent
