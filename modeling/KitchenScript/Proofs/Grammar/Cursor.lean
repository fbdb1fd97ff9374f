import KitchenScript.Proofs.Grammar.Words

/-!
# What readers do to the cursor

A reader is described by the kinds of the tokens before and after it and by its findings.  The
primitive readers get one equation each, in the form in which they stand in front of the rest of a
reader; every other reader is then opened by rewriting.

A reader that is honest never takes a finding back, and never fails without one.
-/

namespace KitchenScript

open Grammar

namespace Cursor

/-- The kinds of the tokens to come. -/
def kinds (c : Cursor) : List TokenKind :=
  c.rest.map Token.kind

theorem kind_eq_headD (c : Cursor) : c.kind = c.kinds.headD .fileEnd := by
  obtain ⟨rest, last, findings⟩ := c
  cases rest <;> rfl

theorem kind_of_kinds_cons {c : Cursor} {k : TokenKind} {v : List TokenKind}
    (h : c.kinds = k :: v) : c.kind = k := by
  simp [kind_eq_headD, h]

theorem kinds_length (c : Cursor) : c.kinds.length = c.rest.length := by
  simp [kinds]

@[simp] theorem kinds_advance (c : Cursor) : c.advance.kinds = c.kinds.tail := by
  obtain ⟨rest, last, findings⟩ := c
  cases rest <;> rfl

@[simp] theorem findings_advance (c : Cursor) : c.advance.findings = c.findings := by
  obtain ⟨rest, last, findings⟩ := c
  cases rest <;> rfl

/-- A token that is there to be taken is the first one. -/
theorem kinds_eq_kind_cons {c : Cursor} (h : c.kind ≠ .fileEnd) :
    c.kinds = c.kind :: c.advance.kinds := by
  obtain ⟨rest, last, findings⟩ := c
  cases rest with
  | nil => exact absurd rfl h
  | cons t rest => rfl

theorem kinds_eq_cons {c : Cursor} {k : TokenKind} (h : c.kind = k) (hk : k ≠ .fileEnd) :
    c.kinds = k :: c.advance.kinds := by
  subst h
  exact kinds_eq_kind_cons hk

@[simp] theorem findings_report (c : Cursor) (problem : Problem) (span : Span) :
    (c.report problem span).findings = c.findings ++ [⟨problem, span⟩] := rfl

theorem kinds_skipLineEnds_go (c : Cursor) (rest : List Token) (last : Span) :
    (skipLineEnds.go c rest last).kinds = dropLineEnds (rest.map Token.kind) ∧
      (skipLineEnds.go c rest last).findings = c.findings := by
  induction rest generalizing last with
  | nil => exact ⟨rfl, rfl⟩
  | cons t rest ih =>
      unfold skipLineEnds.go
      by_cases ht : t.kind = .lineEnd
      · simpa [ht] using ih t.span
      · simp [ht, kinds, dropLineEnds_cons ht]

@[simp] theorem kinds_skipLineEnds (c : Cursor) : c.skipLineEnds.kinds = dropLineEnds c.kinds :=
  (kinds_skipLineEnds_go c c.rest c.last).1

@[simp] theorem findings_skipLineEnds (c : Cursor) : c.skipLineEnds.findings = c.findings :=
  (kinds_skipLineEnds_go c c.rest c.last).2

theorem findings_synchronize_go (inBlock : Bool) (c : Cursor) (rest : List Token) (last : Span) :
    (synchronize.go inBlock c rest last).findings = c.findings := by
  induction rest generalizing last with
  | nil => rfl
  | cons t rest ih =>
      unfold synchronize.go
      split
      · rfl
      · split
        · simp
        · split
          · rfl
          · exact ih t.span

@[simp] theorem findings_synchronize (inBlock : Bool) (c : Cursor) :
    (c.synchronize inBlock).findings = c.findings :=
  findings_synchronize_go inBlock c c.rest c.last

theorem kindPastLineEnds_eq (c : Cursor) :
    c.kindPastLineEnds = (dropLineEnds c.kinds).headD .fileEnd := by
  obtain ⟨rest, last, findings⟩ := c
  simp only [kindPastLineEnds, kinds]
  induction rest with
  | nil => rfl
  | cons t rest ih =>
      by_cases ht : t.kind = .lineEnd
      · simpa [ht] using ih
      · simp [ht, dropLineEnds_cons ht]

/-- The line ends that are skipped stand between the two cursors. -/
theorem exists_kinds_eq_skipLineEnds (c : Cursor) :
    ∃ n, c.kinds = lineEnds n ++ c.skipLineEnds.kinds := by
  rw [kinds_skipLineEnds]
  exact exists_lineEnds_append c.kinds

end Cursor

namespace Parser

/-! ## Primitive readers in front of the rest of a reader -/

theorem pure_apply (a : α) (c : Cursor) : (pure a : Parser α) c = (some a, c) := rfl

theorem kind_bind_apply (f : TokenKind → Parser β) (c : Cursor) :
    (kind >>= f) c = f c.kind c := rfl

theorem span_bind_apply (f : Span → Parser β) (c : Cursor) :
    (span >>= f) c = f c.span c := rfl

theorem lastSpan_bind_apply (f : Span → Parser β) (c : Cursor) :
    (lastSpan >>= f) c = f c.last c := rfl

theorem advance_bind_apply (f : Token → Parser β) (c : Cursor) :
    (advance >>= f) c = f c.peek c.advance := rfl

theorem skipLineEnds_bind_apply (f : Unit → Parser β) (c : Cursor) :
    (skipLineEnds >>= f) c = f () c.skipLineEnds := rfl

theorem eat_bind_apply (k : TokenKind) (f : Bool → Parser β) (c : Cursor) :
    (eat k >>= f) c = if c.kind = k then f true c.advance else f false c := by
  show Parser.bind (eat k) f c = _
  unfold Parser.bind eat
  split <;> rename_i h <;> split at h <;> simp_all

theorem expect_bind_apply (k : TokenKind) (f : Unit → Parser β) (c : Cursor) :
    (expect k >>= f) c =
      if c.kind = k then f () c.advance
      else (none, c.report (.notExpected k c.kind) c.span) := by
  show Parser.bind (expect k) f c = _
  unfold Parser.bind expect
  split <;> rename_i h <;> split at h <;> simp_all

theorem bind_of_eq_some {x : Parser α} {f : α → Parser β} {c c' : Cursor} {a : α}
    (h : x c = (some a, c')) : (x >>= f) c = f a c' := by
  show Parser.bind x f c = _
  simp [Parser.bind, h]

theorem bind_eq_some {x : Parser α} {f : α → Parser β} {c c' : Cursor} {b : β} :
    (x >>= f) c = (some b, c') ↔ ∃ a c₁, x c = (some a, c₁) ∧ f a c₁ = (some b, c') := by
  constructor
  · intro h
    change Parser.bind x f c = _ at h
    unfold Parser.bind at h
    split at h
    · rename_i a c₁ hx
      exact ⟨a, c₁, hx, h⟩
    · simp at h
  · rintro ⟨a, c₁, hx, hf⟩
    rw [bind_of_eq_some hx, hf]

/-! ## Honest readers -/

/-- Findings are only added, and a failure has left one. -/
def Honest (p : Parser α) : Prop :=
  ∀ c, c.findings <+: (p c).2.findings ∧ ((p c).1 = none → (p c).2.findings ≠ [])

theorem Honest.findings_eq_nil {p : Parser α} (hp : Honest p) {c c' : Cursor} {a : Option α}
    (h : p c = (a, c')) (hc' : c'.findings = []) : c.findings = [] := by
  have hgrow := (hp c).1
  rw [h, hc'] at hgrow
  exact List.prefix_nil.mp hgrow

theorem Honest.findings_ne_nil {p : Parser α} (hp : Honest p) {c c' : Cursor}
    (h : p c = (none, c')) : c'.findings ≠ [] := by
  have hfail := (hp c).2
  rw [h] at hfail
  exact hfail rfl

theorem honest_of_success {p : Parser α} (h : ∀ c, ∃ a, (p c).1 = some a)
    (hfindings : ∀ c, (p c).2.findings = c.findings) : Honest p := by
  intro c
  obtain ⟨a, ha⟩ := h c
  refine ⟨⟨[], ?_⟩, ?_⟩
  · rw [hfindings c, List.append_nil]
  · intro hnone
    rw [ha] at hnone
    cases hnone

theorem honest_pure (a : α) : Honest (pure a : Parser α) :=
  honest_of_success (fun _ => ⟨a, rfl⟩) (fun _ => rfl)

theorem honest_kind : Honest kind :=
  honest_of_success (fun c => ⟨c.kind, rfl⟩) (fun _ => rfl)

theorem honest_span : Honest span :=
  honest_of_success (fun c => ⟨c.span, rfl⟩) (fun _ => rfl)

theorem honest_lastSpan : Honest lastSpan :=
  honest_of_success (fun c => ⟨c.last, rfl⟩) (fun _ => rfl)

theorem honest_advance : Honest advance :=
  honest_of_success (fun c => ⟨c.peek, rfl⟩) (fun c => c.findings_advance)

theorem honest_skipLineEnds : Honest skipLineEnds :=
  honest_of_success (fun _ => ⟨(), rfl⟩) (fun c => c.findings_skipLineEnds)

theorem honest_eat (k : TokenKind) : Honest (eat k) := by
  apply honest_of_success
  · intro c
    unfold eat
    split <;> exact ⟨_, rfl⟩
  · intro c
    unfold eat
    split <;> simp

theorem honest_failAt (problem : Problem) (span : Span) :
    Honest (failAt problem span : Parser α) := by
  intro c
  simp [failAt]

theorem honest_fail (problem : Problem) : Honest (fail problem : Parser α) := by
  intro c
  simp [fail]

theorem honest_expect (k : TokenKind) : Honest (expect k) := by
  intro c
  unfold expect
  split <;> simp

theorem honest_ident : Honest ident := by
  intro c
  unfold ident
  split
  · simp
  · split <;> simp

theorem honest_bind {x : Parser α} {f : α → Parser β} (hx : Honest x) (hf : ∀ a, Honest (f a)) :
    Honest (x >>= f) := by
  intro c
  obtain ⟨hgrow, hfail⟩ := hx c
  show _ <+: (Parser.bind x f c).2.findings ∧
    ((Parser.bind x f c).1 = none → (Parser.bind x f c).2.findings ≠ [])
  unfold Parser.bind
  split <;> rename_i h <;> rw [h] at hgrow hfail
  · rename_i a c₁
    exact ⟨hgrow.trans (hf a c₁).1, (hf a c₁).2⟩
  · exact ⟨hgrow, fun _ => hfail rfl⟩

theorem honest_ite {p : Prop} [Decidable p] {x y : Parser α} (hx : Honest x) (hy : Honest y) :
    Honest (if p then x else y) := by
  split
  · exact hx
  · exact hy

/-- A reader that is told the tokens to come, to bound its rounds. -/
theorem honest_bounded {p : List Token → Parser α} (hp : ∀ bound, Honest (p bound)) :
    Honest (fun c => p c.rest c) :=
  fun c => hp c.rest c

end Parser

end KitchenScript
