import KitchenScript.Proofs.Grammar.Expressions

/-!
# Expressions in a file that goes on

Where a file ends, a longer file may go on with a new line.  A reader that succeeds in the shorter
file has seen no more of the difference than that the tokens ended, and a line end says the same
to it; so it does the same in the longer file.  Only the line ends that are skipped inside brackets
could lead into the new lines, but there a bracket is still to be closed, and the reader would have
failed at the end of the shorter file.
-/

namespace KitchenScript

open Grammar

/-- Tokens with which a file can go on: a line end, and not the `else` of an `if` before it. -/
structure GoesOn (u : List Token) : Prop where
  head : (u.map Token.kind).headD .fileEnd = .lineEnd
  ne_else : (dropLineEnds (u.map Token.kind)).headD .fileEnd ≠ .keyword .elseWord

namespace Cursor

/-- The end of the file is still to come, and nothing comes after it. -/
def InFile (c : Cursor) : Prop :=
  ∃ (w : List Token) (t : Token), c.rest = w ++ [t] ∧ t.kind = .fileEnd ∧
    ∀ t ∈ w, t.kind ≠ .fileEnd

/-- The cursor with other tokens in place of the end of its file. -/
def goOn (u : List Token) (c : Cursor) : Cursor :=
  { c with rest := c.rest.dropLast ++ u }

@[simp] theorem last_goOn (u : List Token) (c : Cursor) : (c.goOn u).last = c.last := rfl

theorem skipLineEnds_of_kind_ne {c : Cursor} (h : c.kind ≠ .lineEnd) : c.skipLineEnds = c := by
  obtain ⟨rest, last, findings⟩ := c
  cases rest with
  | nil => rfl
  | cons t rest =>
      have ht : t.kind ≠ .lineEnd := h
      rw [skipLineEnds, skipLineEnds.go, if_neg ht]

theorem skipLineEnds_cons {t : Token} (h : t.kind = .lineEnd) (rest : List Token) (last : Span)
    (findings : List Finding) :
    skipLineEnds ⟨t :: rest, last, findings⟩ = skipLineEnds ⟨rest, t.span, findings⟩ := by
  -- the two cursors differ only in parts that skipping replaces
  have hgo : ∀ (rest' : List Token) (last' : Span),
      skipLineEnds.go ⟨t :: rest, last, findings⟩ rest' last' =
        skipLineEnds.go ⟨rest, t.span, findings⟩ rest' last' := by
    intro rest'
    induction rest' with
    | nil => intro last'; rfl
    | cons t' rest' ih =>
        intro last'
        rw [skipLineEnds.go, skipLineEnds.go, ih]
  rw [skipLineEnds, skipLineEnds.go, if_pos h, hgo]
  rfl

theorem kind_skipLineEnds_ne (c : Cursor) : c.skipLineEnds.kind ≠ .lineEnd := by
  rw [kind_eq_headD, kinds_skipLineEnds]
  exact headD_dropLineEnds_ne c.kinds

theorem skipLineEnds_skipLineEnds (c : Cursor) : c.skipLineEnds.skipLineEnds = c.skipLineEnds :=
  skipLineEnds_of_kind_ne c.kind_skipLineEnds_ne

theorem length_skipLineEnds_le (c : Cursor) : c.skipLineEnds.rest.length ≤ c.rest.length := by
  rw [← kinds_length, ← kinds_length, kinds_skipLineEnds]
  exact length_dropLineEnds_le c.kinds

theorem length_advance_lt {c : Cursor} (h : c.kind ≠ .fileEnd) :
    c.advance.rest.length < c.rest.length := by
  have hlength := congrArg List.length (kinds_eq_kind_cons h)
  rw [List.length_cons, kinds_length, kinds_length] at hlength
  omega

namespace InFile

variable {c : Cursor} {u : List Token}

/-- A cursor in a file is at its end, or has a token to take. -/
theorem eq_or_cons (h : c.InFile) :
    (c.kind = .fileEnd ∧ ∃ t, c.rest = [t]) ∨
      c.kind ≠ .fileEnd ∧ ∃ t rest, c.rest = t :: rest ∧ rest ≠ [] ∧
        InFile { c with rest := rest, last := t.span } := by
  obtain ⟨w, last, hrest, hlast, hw⟩ := h
  cases w with
  | nil =>
      left
      exact ⟨by simp [kind, peek, hrest, hlast], last, hrest⟩
  | cons t w =>
      right
      refine ⟨?_, t, w ++ [last], hrest, by simp, w, last, rfl, hlast, ?_⟩
      · have ht := hw t (by simp)
        simpa [kind, peek, hrest] using ht
      · exact fun t' ht' => hw t' (by simp [ht'])

theorem length_pos (h : c.InFile) : 0 < c.rest.length := by
  obtain ⟨w, last, hrest, -, -⟩ := h
  rw [hrest, List.length_append, List.length_singleton]
  omega

theorem advance (h : c.InFile) (hk : c.kind ≠ .fileEnd) : c.advance.InFile := by
  rcases h.eq_or_cons with ⟨hend, -⟩ | ⟨-, t, rest, hrest, -, hfile⟩
  · exact absurd hend hk
  · rw [Cursor.advance, hrest]
    exact hfile

theorem peek_goOn (h : c.InFile) (hk : c.kind ≠ .fileEnd) : (c.goOn u).peek = c.peek := by
  rcases h.eq_or_cons with ⟨hend, -⟩ | ⟨-, t, rest, hrest, hne, -⟩
  · exact absurd hend hk
  · rw [peek, peek, goOn, hrest, List.dropLast_cons_of_ne_nil hne]
    rfl

theorem kind_goOn (h : c.InFile) (hk : c.kind ≠ .fileEnd) : (c.goOn u).kind = c.kind :=
  congrArg Token.kind (h.peek_goOn hk)

theorem span_goOn (h : c.InFile) (hk : c.kind ≠ .fileEnd) : (c.goOn u).span = c.span :=
  congrArg Token.span (h.peek_goOn hk)

theorem advance_goOn (h : c.InFile) (hk : c.kind ≠ .fileEnd) :
    (c.goOn u).advance = c.advance.goOn u := by
  rcases h.eq_or_cons with ⟨hend, -⟩ | ⟨-, t, rest, hrest, hne, -⟩
  · exact absurd hend hk
  · obtain ⟨_, last, findings⟩ := c
    obtain rfl : _ = t :: rest := hrest
    rw [goOn, List.dropLast_cons_of_ne_nil hne]
    rfl

theorem rest_goOn_of_end (h : c.InFile) (hk : c.kind = .fileEnd) : (c.goOn u).rest = u := by
  rcases h.eq_or_cons with ⟨-, t, hrest⟩ | ⟨hne, -⟩
  · rw [goOn, hrest]
    rfl
  · exact absurd hk hne

theorem kind_goOn_of_end (h : c.InFile) (hk : c.kind = .fileEnd) (hu : GoesOn u) :
    (c.goOn u).kind = .lineEnd := by
  rw [kind_eq_headD, kinds, h.rest_goOn_of_end hk, hu.head]

/-- To a reader that looks for neither, the end of the file and a line end are the same. -/
theorem apply_kind_goOn (h : c.InFile) (hu : GoesOn u) {f : TokenKind → β}
    (hf : f .lineEnd = f .fileEnd) : f (c.goOn u).kind = f c.kind := by
  by_cases hk : c.kind = .fileEnd
  · rw [h.kind_goOn_of_end hk hu, hk, hf]
  · rw [h.kind_goOn hk]

theorem kind_goOn_eq_iff (h : c.InFile) (hu : GoesOn u) {k : TokenKind} (hline : k ≠ .lineEnd)
    (hend : k ≠ .fileEnd) : (c.goOn u).kind = k ↔ c.kind = k :=
  iff_of_eq (h.apply_kind_goOn hu (f := (· = k)) (by simp [hline.symm, hend.symm]))

theorem length_le_goOn (h : c.InFile) (hu : GoesOn u) :
    c.rest.length ≤ (c.goOn u).rest.length := by
  have hpos := h.length_pos
  have hne : 0 < u.length := by
    cases u with
    | nil => cases hu.head
    | cons t v => exact Nat.succ_pos _
  simp only [goOn, List.length_append, List.length_dropLast]
  omega

/-- Skipping line ends leads to the same token in both files, if there is one before the end. -/
theorem skipLineEnds_both (h : c.InFile) :
    c.skipLineEnds.InFile ∧ (c.goOn u).skipLineEnds = (c.skipLineEnds.goOn u).skipLineEnds := by
  obtain ⟨rest, last, findings⟩ := c
  induction rest generalizing last with
  | nil => exact absurd h.length_pos (by simp)
  | cons t rest ih =>
      by_cases ht : t.kind = .lineEnd
      · rcases h.eq_or_cons with ⟨hend, -⟩ | ⟨-, _, _, hrest, hne, hfile⟩
        · cases ht.symm.trans hend
        · cases hrest
          have hgo : (goOn u ⟨t :: rest, last, findings⟩).skipLineEnds =
              (goOn u ⟨rest, t.span, findings⟩).skipLineEnds := by
            simp only [goOn, List.dropLast_cons_of_ne_nil hne, List.cons_append]
            exact skipLineEnds_cons ht _ _ _
          rw [skipLineEnds_cons ht, hgo]
          exact ih t.span hfile
      · have hstay : Cursor.skipLineEnds ⟨t :: rest, last, findings⟩ =
            ⟨t :: rest, last, findings⟩ := skipLineEnds_of_kind_ne ht
        rw [hstay]
        exact ⟨h, rfl⟩

theorem skipLineEnds (h : c.InFile) : c.skipLineEnds.InFile :=
  (h.skipLineEnds_both (u := [])).1

theorem skipLineEnds_goOn (h : c.InFile) (hk : c.skipLineEnds.kind ≠ .fileEnd) :
    (c.goOn u).skipLineEnds = c.skipLineEnds.goOn u := by
  rw [h.skipLineEnds_both.2]
  apply skipLineEnds_of_kind_ne
  rw [h.skipLineEnds.kind_goOn hk]
  exact c.kind_skipLineEnds_ne

end InFile

end Cursor

namespace Parser

open Cursor

/-- From `c` to `d` a reading gave `a`, and in the file that goes on it gives the same. -/
structure Carried (u : List Token) (c d : Cursor) (a : α) (x : Option α × Cursor) : Prop where
  inFile : d.InFile
  length_le : d.rest.length ≤ c.rest.length
  eq : x = (some a, d.goOn u)

/-- The reader takes a token where it succeeds, and does the same in a file that goes on. -/
structure Carries (u : List Token) (p : Parser α) : Prop where
  takes : ∀ {c d a}, p c = (some a, d) → c.kind ≠ .fileEnd
  carry : ∀ {c d a}, c.InFile → p c = (some a, d) → Carried u c d a (p (c.goOn u))

section Carries

variable {u : List Token} {c d : Cursor}

/-! ## Rules -/

theorem carried_pure (hc : c.InFile) (a : α) : Carried u c c a ((pure a : Parser α) (c.goOn u)) :=
  ⟨hc, Nat.le_refl _, rfl⟩

/-- The end of a reading, after what has led to it. -/
theorem Carried.after {c₁ : Cursor} {a : α} {x y : Option α × Cursor} (h : Carried u c₁ d a x)
    (hle : c₁.rest.length ≤ c.rest.length) (heq : y = x) : Carried u c d a y :=
  ⟨h.inFile, Nat.le_trans h.length_le hle, heq.trans h.eq⟩

theorem Carried.bind {c₁ : Cursor} {p : Parser α} {f : α → Parser β} {a : α} {b : β}
    (h : Carried u c c₁ a (p (c.goOn u))) (hf : Carried u c₁ d b (f a (c₁.goOn u))) :
    Carried u c d b ((p >>= f) (c.goOn u)) :=
  hf.after h.length_le (bind_of_eq_some h.eq)

section Primitives

variable {k : TokenKind} {b : β}

theorem advance_bind_goOn {f : Token → Parser β} (hc : c.InFile) (hne : c.kind ≠ .fileEnd) :
    (Parser.advance >>= f) (c.goOn u) = f c.peek (c.advance.goOn u) := by
  rw [advance_bind_apply, hc.peek_goOn hne, hc.advance_goOn hne]

theorem carried_advance_bind {f : Token → Parser β} (hc : c.InFile) (hne : c.kind ≠ .fileEnd)
    (h : Carried u c.advance d b (f c.peek (c.advance.goOn u))) :
    Carried u c d b ((Parser.advance >>= f) (c.goOn u)) :=
  h.after (Nat.le_of_lt (length_advance_lt hne)) (advance_bind_goOn hc hne)

theorem expect_bind_eq_some {f : Unit → Parser β} :
    (expect k >>= f) c = (some b, d) ↔ c.kind = k ∧ f () c.advance = (some b, d) := by
  rw [expect_bind_apply]
  by_cases hk : c.kind = k <;> simp [hk]

theorem expect_bind_goOn {f : Unit → Parser β} (hc : c.InFile) (hk : c.kind = k)
    (hend : k ≠ .fileEnd) : (expect k >>= f) (c.goOn u) = f () (c.advance.goOn u) := by
  have hne : c.kind ≠ .fileEnd := by rwa [hk]
  rw [expect_bind_apply, hc.kind_goOn hne, if_pos hk, hc.advance_goOn hne]

theorem carried_expect_bind {f : Unit → Parser β} (hc : c.InFile) (hk : c.kind = k)
    (hend : k ≠ .fileEnd) (h : Carried u c.advance d b (f () (c.advance.goOn u))) :
    Carried u c d b ((expect k >>= f) (c.goOn u)) :=
  h.after (Nat.le_of_lt (length_advance_lt (by rwa [hk]))) (expect_bind_goOn hc hk hend)

theorem carried_eat_bind {f : Bool → Parser β} (hc : c.InFile) (hk : c.kind = k)
    (hend : k ≠ .fileEnd) (h : Carried u c.advance d b (f true (c.advance.goOn u))) :
    Carried u c d b ((eat k >>= f) (c.goOn u)) := by
  have hne : c.kind ≠ .fileEnd := by rwa [hk]
  refine h.after (Nat.le_of_lt (length_advance_lt hne)) ?_
  rw [eat_bind_apply, hc.kind_goOn hne, if_pos hk, hc.advance_goOn hne]

theorem carried_eat_bind_of_ne (hu : GoesOn u) {f : Bool → Parser β} (hc : c.InFile)
    (hk : c.kind ≠ k) (hline : k ≠ .lineEnd) (hend : k ≠ .fileEnd)
    (h : Carried u c d b (f false (c.goOn u))) :
    Carried u c d b ((eat k >>= f) (c.goOn u)) := by
  refine h.after (Nat.le_refl _) ?_
  rw [eat_bind_apply, if_neg (mt (hc.kind_goOn_eq_iff hu hline hend).mp hk)]

theorem carried_skipLineEnds_bind {f : Unit → Parser β} (hc : c.InFile)
    (hne : c.skipLineEnds.kind ≠ .fileEnd)
    (h : Carried u c.skipLineEnds d b (f () (c.skipLineEnds.goOn u))) :
    Carried u c d b ((Parser.skipLineEnds >>= f) (c.goOn u)) := by
  refine h.after c.length_skipLineEnds_le ?_
  rw [skipLineEnds_bind_apply, hc.skipLineEnds_goOn hne]

end Primitives

theorem carries_fail (problem : Problem) : Carries u (fail problem : Parser α) where
  takes h := by cases h
  carry _ h := by cases h

/-! ## Chains -/

variable {op? : TokenKind → Option BinaryOp} {operand : Parser Expr}

theorem carried_chainRest (hu : GoesOn u) (hline : op? .lineEnd = none)
    (hend : op? .fileEnd = none) (hoperand : Carries u operand) {bound bound' : List Token}
    {left e : Expr} (hc : c.InFile) (hbound : c.rest.length ≤ bound.length)
    (hbound' : c.rest.length ≤ bound'.length)
    (h : chainRest op? operand bound left c = (some e, d)) :
    Carried u c d e (chainRest op? operand bound' left (c.goOn u)) := by
  have hpos := hc.length_pos
  induction bound generalizing bound' left c with
  | nil => exact absurd hbound (Nat.not_le_of_lt hpos)
  | cons t bound ih =>
      obtain ⟨t', bound', rfl⟩ := List.exists_cons_of_length_pos (l := bound') (by omega)
      have hop := hc.apply_kind_goOn hu (f := op?) (by rw [hline, hend])
      simp only [chainRest, kind_bind_apply] at h
      cases hk : op? c.kind with
      | none =>
          rw [hk] at h hop
          cases h
          exact ⟨hc, Nat.le_refl _, chainRest_of_none hop⟩
      | some op =>
          have hne : c.kind ≠ .fileEnd := by
            intro hkind
            rw [hkind, hend] at hk
            cases hk
          simp only [hk, advance_bind_apply] at h
          obtain ⟨right, c₁, hright, hrest⟩ := bind_eq_some.mp h
          have hfirst := hoperand.carry (hc.advance hne) hright
          have hlt := length_advance_lt hne
          have hle := hfirst.length_le
          simp only [List.length_cons] at hbound hbound'
          have hroom : c₁.rest.length ≤ bound'.length := by omega
          have hsecond := ih hfirst.inFile (by omega) hroom hrest hfirst.inFile.length_pos
          simp only [chainRest, kind_bind_apply, hop, hk]
          exact carried_advance_bind hc hne (hfirst.bind hsecond)

theorem carries_chain (hu : GoesOn u) (hline : op? .lineEnd = none) (hend : op? .fileEnd = none)
    (hoperand : Carries u operand) : Carries u (chain op? operand) where
  takes h := by
    obtain ⟨left, c₁, hleft, -⟩ := bind_eq_some.mp h
    exact hoperand.takes hleft
  carry {c d e} hc h := by
    obtain ⟨left, c₁, hleft, hrest⟩ := bind_eq_some.mp h
    have hfirst := hoperand.carry hc hleft
    have hsecond := carried_chainRest hu hline hend hoperand hfirst.inFile (Nat.le_refl _)
      (hfirst.inFile.length_le_goOn hu) hrest
    exact hfirst.bind hsecond

theorem carries_single (chained : Problem) (hu : GoesOn u) (hline : op? .lineEnd = none)
    (hend : op? .fileEnd = none) (hoperand : Carries u operand) :
    Carries u (single op? chained operand) where
  takes h := by
    obtain ⟨left, c₁, hleft, -⟩ := bind_eq_some.mp h
    exact hoperand.takes hleft
  carry {c d e} hc h := by
    obtain ⟨left, c₁, hleft, hrest⟩ := bind_eq_some.mp h
    have hfirst := hoperand.carry hc hleft
    have hop := hfirst.inFile.apply_kind_goOn hu (f := op?) (by rw [hline, hend])
    rw [kind_bind_apply] at hrest
    cases hk : op? c₁.kind with
    | none =>
        simp only [hk] at hrest
        cases hrest
        apply hfirst.bind
        simp only [kind_bind_apply, hop, hk]
        exact carried_pure hfirst.inFile _
    | some op =>
        have hne : c₁.kind ≠ .fileEnd := by
          intro hkind
          rw [hkind, hend] at hk
          cases hk
        simp only [hk, advance_bind_apply] at hrest
        obtain ⟨right, c₂, hright, hrest⟩ := bind_eq_some.mp hrest
        have hsecond := hoperand.carry (hfirst.inFile.advance hne) hright
        have hop₂ := hsecond.inFile.apply_kind_goOn hu (f := op?) (by rw [hline, hend])
        rw [kind_bind_apply] at hrest
        split at hrest
        · cases hrest
        · rename_i hnot
          cases hrest
          apply hfirst.bind
          simp only [kind_bind_apply, hop, hk]
          refine carried_advance_bind hfirst.inFile hne (hsecond.bind ?_)
          rw [kind_bind_apply, hop₂, if_neg hnot]
          exact carried_pure hsecond.inFile _

theorem carries_binary (hu : GoesOn u) (hoperand : Carries u operand) :
    Carries u (binary operand) :=
  carries_chain hu rfl rfl <| carries_chain hu rfl rfl <| carries_single _ hu rfl rfl <|
    carries_single _ hu rfl rfl <| carries_chain hu rfl rfl <| carries_chain hu rfl rfl hoperand

/-! ## Expressions in brackets -/

variable {expression : Parser Expr}

theorem items_takes (hexpr : Carries u expression) {bound : List Token} {found : List Expr}
    (h : items expression bound c = (some found, d)) : c.skipLineEnds.kind ≠ .fileEnd := by
  cases bound with
  | nil => cases h
  | cons t bound =>
      rw [items, skipLineEnds_bind_apply] at h
      obtain ⟨e, c₁, he, -⟩ := bind_eq_some.mp h
      exact hexpr.takes he

/-- A list that is read up to the end of the file may have missed an item; if something is left to
close it, it has not. -/
theorem carried_items (hu : GoesOn u) (hexpr : Carries u expression)
    {bound bound' : List Token} {found : List Expr} (hc : c.InFile)
    (hbound : c.rest.length ≤ bound.length) (hbound' : c.rest.length ≤ bound'.length)
    (h : items expression bound c = (some found, d)) (hd : d.kind ≠ .fileEnd) :
    Carried u c d found (items expression bound' (c.goOn u)) := by
  have hpos := hc.length_pos
  induction bound generalizing bound' c found with
  | nil => exact absurd hbound (Nat.not_le_of_lt hpos)
  | cons t bound ih =>
      obtain ⟨t', bound', rfl⟩ := List.exists_cons_of_length_pos (l := bound') (by omega)
      rw [items, skipLineEnds_bind_apply] at h
      obtain ⟨e, c₁, he, h⟩ := bind_eq_some.mp h
      rw [skipLineEnds_bind_apply, eat_bind_apply] at h
      have hfirst := hexpr.carry hc.skipLineEnds he
      have hfile := hfirst.inFile.skipLineEnds
      refine carried_skipLineEnds_bind hc (hexpr.takes he) (hfirst.bind ?_)
      by_cases hcomma : c₁.skipLineEnds.kind = .symbol .comma
      · have hne : c₁.skipLineEnds.kind ≠ .fileEnd := by simp [hcomma]
        have hle := hfirst.length_le
        have hle₀ := c.length_skipLineEnds_le
        have hle₁ := c₁.length_skipLineEnds_le
        have hlt := length_advance_lt hne
        simp only [List.length_cons] at hbound hbound'
        have hroom : c₁.skipLineEnds.advance.rest.length ≤ bound'.length := by omega
        rw [if_pos hcomma] at h
        obtain ⟨rest, c₂, hrest, h⟩ := bind_eq_some.mp h
        cases h
        have hnext := hfile.advance hne
        have hothers := ih hnext (by omega) hroom hrest hnext.length_pos
        apply carried_skipLineEnds_bind hfirst.inFile hne
        apply carried_eat_bind hfile hcomma (by simp)
        exact hothers.bind (carried_pure hothers.inFile _)
      · rw [if_neg hcomma] at h
        cases h
        -- the cursor after the list is where line ends were last skipped, so `hd` is about it
        apply carried_skipLineEnds_bind hfirst.inFile hd
        exact carried_eat_bind_of_ne hu hfile hcomma (by simp) (by simp) (carried_pure hfile _)

theorem carried_commaList (hu : GoesOn u) (hexpr : Carries u expression) {close : Symbol}
    {found : List Expr} (hc : c.InFile) (h : commaList expression close c = (some found, d)) :
    Carried u c d found (commaList expression close (c.goOn u)) := by
  rw [commaList, skipLineEnds_bind_apply, eat_bind_apply] at h
  have hfile := hc.skipLineEnds
  by_cases hclose : c.skipLineEnds.kind = .symbol close
  · have hne : c.skipLineEnds.kind ≠ .fileEnd := by simp [hclose]
    rw [if_pos hclose] at h
    cases h
    exact carried_skipLineEnds_bind hc hne
      (carried_eat_bind hfile hclose (by simp) (carried_pure (hfile.advance hne) []))
  · rw [if_neg hclose] at h
    obtain ⟨found, c₁, hfound, h⟩ := bind_eq_some.mp h
    obtain ⟨hclose₁, h⟩ := expect_bind_eq_some.mp h
    cases h
    have hne₁ : c₁.kind ≠ .fileEnd := by simp [hclose₁]
    have hne : c.skipLineEnds.kind ≠ .fileEnd := by
      have htakes := items_takes hexpr hfound
      rwa [skipLineEnds_skipLineEnds] at htakes
    have hitems := carried_items hu hexpr hfile (Nat.le_refl _) (hfile.length_le_goOn hu) hfound
      hne₁
    apply carried_skipLineEnds_bind hc hne
    apply carried_eat_bind_of_ne hu hfile hclose (by simp) (by simp)
    exact hitems.bind (carried_expect_bind hitems.inFile hclose₁ (by simp)
      (carried_pure (hitems.inFile.advance hne₁) found))

theorem carried_callArgs (hu : GoesOn u) (hexpr : Carries u expression) {args : List Expr}
    (hc : c.InFile) (h : callArgs expression c = (some args, d)) :
    Carried u c d args (callArgs expression (c.goOn u)) := by
  obtain ⟨hopen, h⟩ := expect_bind_eq_some.mp h
  have hfile := hc.advance (by simp [hopen])
  exact carried_expect_bind hc hopen (by simp) (carried_commaList hu hexpr hfile h)

/-! ## Primary expressions -/

theorem carried_literal {value e : Expr} (hc : c.InFile) (hne : c.kind ≠ .fileEnd)
    (h : literal value c = (some e, d)) : Carried u c d e (literal value (c.goOn u)) := by
  cases h
  exact carried_advance_bind hc hne (carried_pure (hc.advance hne) _)

theorem carried_nameOrCall (hu : GoesOn u) (hexpr : Carries u expression) {x : String}
    {start : Span} {e : Expr} (hc : c.InFile) (hne : c.kind ≠ .fileEnd)
    (h : nameOrCall expression x start c = (some e, d)) :
    Carried u c d e (nameOrCall expression x start (c.goOn u)) := by
  have hfile := hc.advance hne
  rw [nameOrCall, advance_bind_apply, kind_bind_apply] at h
  apply carried_advance_bind hc hne
  rw [kind_bind_apply]
  simp only [hfile.kind_goOn_eq_iff hu (k := .symbol .leftParen) (by simp) (by simp)]
  by_cases hopen : c.advance.kind = .symbol .leftParen
  · rw [if_pos hopen] at h ⊢
    obtain ⟨args, c₁, hargs, h⟩ := bind_eq_some.mp h
    cases h
    have hcarried := carried_callArgs hu hexpr hfile hargs
    exact hcarried.bind (carried_pure hcarried.inFile _)
  · rw [if_neg hopen] at h ⊢
    cases h
    exact carried_pure hfile _

theorem carried_builtinCall (hu : GoesOn u) (hexpr : Carries u expression) {callee : Builtin}
    {start : Span} {e : Expr} (hc : c.InFile) (hne : c.kind ≠ .fileEnd)
    (h : builtinCall expression callee start c = (some e, d)) :
    Carried u c d e (builtinCall expression callee start (c.goOn u)) := by
  rw [builtinCall, advance_bind_apply] at h
  obtain ⟨args, c₁, hargs, h⟩ := bind_eq_some.mp h
  have hcarried := carried_callArgs hu hexpr (hc.advance hne) hargs
  refine carried_advance_bind hc hne (hcarried.bind ?_)
  rw [lastSpan_bind_apply] at h ⊢
  by_cases harity : args.length = callee.arity
  · rw [if_pos harity] at h ⊢
    cases h
    exact carried_pure hcarried.inFile _
  · rw [if_neg harity] at h
    cases h

theorem carried_listLiteral (hu : GoesOn u) (hexpr : Carries u expression) {start : Span}
    {e : Expr} (hc : c.InFile) (hne : c.kind ≠ .fileEnd)
    (h : listLiteral expression start c = (some e, d)) :
    Carried u c d e (listLiteral expression start (c.goOn u)) := by
  rw [listLiteral, advance_bind_apply] at h
  obtain ⟨found, c₁, hfound, h⟩ := bind_eq_some.mp h
  cases h
  have hcarried := carried_commaList hu hexpr (hc.advance hne) hfound
  exact carried_advance_bind hc hne (hcarried.bind (carried_pure hcarried.inFile _))

/-- What follows the opening mark of an expression in brackets. -/
theorem carried_bracketed (hexpr : Carries u expression) {close : Symbol} {e : Expr}
    {p q : Expr → Span → Parser Expr} (hc : c.InFile)
    (h : (skipLineEnds >>= fun _ => expression >>= fun e => skipLineEnds >>= fun _ =>
      expect (.symbol close) >>= fun _ => lastSpan >>= p e) c = (some e, d))
    (hp : ∀ inner c₁, c₁.InFile → c₁.rest.length < c.rest.length →
      p inner c₁.last c₁ = (some e, d) →
        Carried u c₁ d e (q inner c₁.last (c₁.goOn u))) :
    Carried u c d e ((skipLineEnds >>= fun _ => expression >>= fun e => skipLineEnds >>= fun _ =>
      expect (.symbol close) >>= fun _ => lastSpan >>= q e) (c.goOn u)) := by
  rw [skipLineEnds_bind_apply] at h
  obtain ⟨inner, c₁, hinner, h⟩ := bind_eq_some.mp h
  rw [skipLineEnds_bind_apply] at h
  obtain ⟨hclose, h⟩ := expect_bind_eq_some.mp h
  have hcarried := hexpr.carry hc.skipLineEnds hinner
  have hfile := hcarried.inFile.skipLineEnds
  have hne : c₁.skipLineEnds.kind ≠ .fileEnd := by simp [hclose]
  have hlt : c₁.skipLineEnds.advance.rest.length < c.rest.length :=
    calc c₁.skipLineEnds.advance.rest.length
      _ < c₁.skipLineEnds.rest.length := length_advance_lt hne
      _ ≤ c₁.rest.length := c₁.length_skipLineEnds_le
      _ ≤ c.skipLineEnds.rest.length := hcarried.length_le
      _ ≤ c.rest.length := c.length_skipLineEnds_le
  apply carried_skipLineEnds_bind hc (hexpr.takes hinner)
  apply hcarried.bind
  apply carried_skipLineEnds_bind hcarried.inFile hne
  exact carried_expect_bind hfile hclose (by simp) (hp inner _ (hfile.advance hne) hlt h)

theorem carried_parenthesized (hexpr : Carries u expression) {start : Span} {e : Expr}
    (hc : c.InFile) (hne : c.kind ≠ .fileEnd)
    (h : parenthesized expression start c = (some e, d)) :
    Carried u c d e (parenthesized expression start (c.goOn u)) := by
  rw [parenthesized, advance_bind_apply] at h
  apply carried_advance_bind hc hne
  apply carried_bracketed hexpr (hc.advance hne) h
  intro inner c₁ hc₁ _ h
  cases h
  exact carried_pure hc₁ _

theorem primary_takes {e : Expr} (h : primary expression c = (some e, d)) :
    c.kind ≠ .fileEnd := by
  intro hk
  rw [primary, span_bind_apply, kind_bind_apply, hk] at h
  cases h

theorem carries_primary (hu : GoesOn u) (hexpr : Carries u expression) :
    Carries u (primary expression) where
  takes := primary_takes
  carry {c d e} hc h := by
    have hne := primary_takes h
    rw [primary, span_bind_apply, kind_bind_apply] at h ⊢
    rw [hc.kind_goOn hne, hc.span_goOn hne]
    cases hk : c.kind with
    | number n =>
        rw [hk] at h
        exact carried_literal hc hne h
    | text s =>
        rw [hk] at h
        exact carried_literal hc hne h
    | identifier x =>
        simp only [hk] at h ⊢
        by_cases hx : x = "\""
        · rw [if_pos hx] at h
          cases h
        · rw [if_neg hx] at h ⊢
          exact carried_nameOrCall hu hexpr hc hne h
    | builtin callee =>
        rw [hk] at h
        exact carried_builtinCall hu hexpr hc hne h
    | keyword word =>
        rw [hk] at h
        cases word with
        | trueWord => exact carried_literal hc hne h
        | falseWord => exact carried_literal hc hne h
        | noneWord => exact carried_literal hc hne h
        | _ => cases h
    | symbol mark =>
        rw [hk] at h
        cases mark with
        | leftBracket => exact carried_listLiteral hu hexpr hc hne h
        | leftParen => exact carried_parenthesized hexpr hc hne h
        | _ => cases h
    | lineEnd =>
        rw [hk] at h
        cases h
    | fileEnd => exact absurd hk hne

/-! ## Indices and signs -/

theorem carried_indexRest (hu : GoesOn u) (hexpr : Carries u expression)
    {bound bound' : List Token} {target e : Expr} (hc : c.InFile)
    (hbound : c.rest.length ≤ bound.length) (hbound' : c.rest.length ≤ bound'.length)
    (h : indexRest expression bound target c = (some e, d)) :
    Carried u c d e (indexRest expression bound' target (c.goOn u)) := by
  have hpos := hc.length_pos
  induction bound generalizing bound' target c with
  | nil => exact absurd hbound (Nat.not_le_of_lt hpos)
  | cons t bound ih =>
      obtain ⟨t', bound', rfl⟩ := List.exists_cons_of_length_pos (l := bound') (by omega)
      by_cases hopen : c.kind = .symbol .leftBracket
      · have hne : c.kind ≠ .fileEnd := by simp [hopen]
        have hlt := length_advance_lt hne
        simp only [List.length_cons] at hbound hbound'
        rw [indexRest, eat_bind_apply, if_pos hopen] at h
        apply carried_eat_bind hc hopen (by simp)
        apply carried_bracketed hexpr (hc.advance hne) h
        intro position c₁ hc₁ hlt₁ h
        have hroom : c₁.rest.length ≤ bound'.length := by omega
        exact ih hc₁ (by omega) hroom h hc₁.length_pos
      · rw [indexRest_of_ne hopen] at h
        cases h
        refine ⟨hc, Nat.le_refl _, indexRest_of_ne ?_⟩
        rwa [Ne, hc.kind_goOn_eq_iff hu (by simp) (by simp)]

theorem carries_indexed (hu : GoesOn u) (hexpr : Carries u expression) :
    Carries u (indexed expression) where
  takes h := by
    obtain ⟨target, c₁, htarget, -⟩ := bind_eq_some.mp h
    exact primary_takes htarget
  carry {c d e} hc h := by
    obtain ⟨target, c₁, htarget, hrest⟩ := bind_eq_some.mp h
    have hfirst := (carries_primary hu hexpr).carry hc htarget
    have hsecond := carried_indexRest hu hexpr hfirst.inFile (Nat.le_refl _)
      (hfirst.inFile.length_le_goOn hu) hrest
    exact hfirst.bind hsecond

theorem carries_unaryOver (hu : GoesOn u) (hexpr : Carries u expression)
    (hoperand : Carries u operand) : Carries u (unaryOver expression operand) where
  takes {c d e} h := by
    intro hk
    rw [unaryOver, kind_bind_apply, hk] at h
    exact (carries_indexed hu hexpr).takes h hk
  carry {c d e} hc h := by
    have hop := hc.apply_kind_goOn hu (f := unaryOp?) rfl
    rw [unaryOver, kind_bind_apply] at h ⊢
    rw [hop]
    cases hk : unaryOp? c.kind with
    | none =>
        rw [hk] at h
        exact (carries_indexed hu hexpr).carry hc h
    | some op =>
        have hne : c.kind ≠ .fileEnd := by
          intro hkind
          rw [hkind] at hk
          cases hk
        simp only [hk, advance_bind_apply] at h
        obtain ⟨inner, c₁, hinner, h⟩ := bind_eq_some.mp h
        cases h
        have hcarried := hoperand.carry (hc.advance hne) hinner
        exact carried_advance_bind hc hne (hcarried.bind (carried_pure hcarried.inFile _))

end Carries

theorem carries_unary {u : List Token} (hu : GoesOn u) (levels : Nat) :
    Carries u (unary levels) := by
  induction levels with
  | zero => exact carries_unaryOver hu (carries_fail _) (carries_fail _)
  | succ levels ih => exact carries_unaryOver hu (carries_binary hu ih) ih

theorem carries_expression {u : List Token} (hu : GoesOn u) : Carries u expression :=
  carries_binary hu (carries_unary hu _)

end Parser

end KitchenScript
