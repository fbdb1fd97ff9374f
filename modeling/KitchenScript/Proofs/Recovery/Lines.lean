import KitchenScript.Proofs.Spans.Statements

/-!
# One line, in its file and on its own

A line without brackets and braces opens nothing that could reach into the next line.  So a reader
does the same with it in two places, in the middle of a file and alone: it takes the same tokens and
gives a result in both places or in none, and if it fails then with findings of the same code.  The
two places differ only in the end of the line, which is a line end in one and may be the end of the
file in the other; no reader treats these two differently inside a line.
-/

namespace KitchenScript

namespace TokenKind

def EndsLine (k : TokenKind) : Prop :=
  k = .lineEnd ∨ k = .fileEnd

def isBracket : TokenKind → Bool
  | .symbol .leftParen | .symbol .rightParen | .symbol .leftBracket | .symbol .rightBracket
  | .symbol .leftBrace | .symbol .rightBrace => true
  | _ => false

/-- A kind that stands inside a line and opens or closes nothing. -/
structure Flat (k : TokenKind) : Prop where
  inside : ¬ k.EndsLine
  plain : k.isBracket = false

end TokenKind

/-- Where a line of a file ends: its number, the token that ends it, and the tokens below it. -/
structure Place where
  number : Nat
  stop : Token
  below : List Token

/-- The tokens from the next line on that has any. -/
def Place.onward (p : Place) : List Token :=
  (p.stop :: p.below).dropWhile fun t => t.kind == .lineEnd

/-- Two cursors with the same kinds of tokens in front of them, up to the ends of their lines. -/
structure Abreast (p q : Place) (n : Nat) (c d : Cursor) : Prop where
  stop : p.stop.kind.EndsLine ∧ p.stop.span.first.line = p.number
  stop' : q.stop.kind.EndsLine
  line : ∃ v w, c.rest = v ++ p.stop :: p.below ∧ d.rest = w ++ q.stop :: q.below ∧
    v.map Token.kind = w.map Token.kind ∧ v.length = n ∧
    ∀ t ∈ v, t.kind.Flat ∧ t.span.first.line = p.number

namespace Abreast

variable {p q : Place} {n : Nat} {c d c₁ d₁ : Cursor}

theorem of_rest (h : Abreast p q n c d) (hc : c₁.rest = c.rest) (hd : d₁.rest = d.rest) :
    Abreast p q n c₁ d₁ where
  stop := h.stop
  stop' := h.stop'
  line := by
    rw [hc, hd]
    exact h.line

theorem at_stop (h : Abreast p q 0 c d) :
    c.rest = p.stop :: p.below ∧ d.rest = q.stop :: q.below := by
  rcases h.line with ⟨v, w, hc, hd, hkinds, hlength, -⟩
  obtain rfl := List.length_eq_zero_iff.mp hlength
  obtain rfl := List.map_eq_nil_iff.mp hkinds.symm
  exact ⟨hc, hd⟩

theorem kind_of_stop (h : Abreast p q 0 c d) : c.kind.EndsLine ∧ d.kind.EndsLine := by
  rcases h.at_stop with ⟨hc, hd⟩
  rw [Cursor.kind, Cursor.kind, Cursor.peek, Cursor.peek, hc, hd]
  exact ⟨h.stop.1, h.stop'⟩

theorem step (h : Abreast p q (n + 1) c d) :
    d.kind = c.kind ∧ c.kind.Flat ∧ Abreast p q n c.advance d.advance := by
  rcases h.line with ⟨v, w, hc, hd, hkinds, hlength, hflat⟩
  cases v with
  | nil => cases hlength
  | cons t v =>
      cases w with
      | nil => cases hkinds
      | cons u w =>
          have hkind : t.kind = u.kind := (List.cons.inj hkinds).1
          have hpeek : c.peek = t := by rw [Cursor.peek, hc]; rfl
          have hpeek' : d.peek = u := by rw [Cursor.peek, hd]; rfl
          rw [Cursor.kind, Cursor.kind, hpeek, hpeek', hkind]
          refine ⟨rfl, hkind ▸ (hflat t List.mem_cons_self).1, h.stop, h.stop', v, w, ?_, ?_,
            (List.cons.inj hkinds).2, Nat.succ.inj hlength,
            fun t ht => hflat t (List.mem_cons_of_mem _ ht)⟩
          · rw [Cursor.advance, hc]
            rfl
          · rw [Cursor.advance, hd]
            rfl

/-- To a reader that looks for neither, the end of the file and a line end are the same. -/
theorem apply_kind (h : Abreast p q n c d) {f : TokenKind → β} (hf : f .lineEnd = f .fileEnd) :
    f d.kind = f c.kind := by
  cases n with
  | zero => rcases h.kind_of_stop with ⟨hc | hc, hd | hd⟩ <;> simp only [hc, hd, hf]
  | succ n => rw [h.step.1]

theorem kind_eq_iff (h : Abreast p q n c d) {k : TokenKind} (hk : ¬ k.EndsLine) :
    d.kind = k ↔ c.kind = k := by
  have hne : TokenKind.lineEnd ≠ k := fun heq => hk (.inl heq.symm)
  have hne' : TokenKind.fileEnd ≠ k := fun heq => hk (.inr heq.symm)
  exact iff_of_eq (h.apply_kind (f := (· = k)) (by simp [hne, hne']))

theorem kind_ne (h : Abreast p q n c d) {k : TokenKind} (hk : k.isBracket = true) :
    c.kind ≠ k ∧ d.kind ≠ k := by
  have hends : ¬ k.EndsLine := by
    rintro (rfl | rfl) <;> cases hk
  have hc : c.kind ≠ k := by
    rintro rfl
    cases n with
    | zero => exact hends h.kind_of_stop.1
    | succ n => exact absurd (hk.symm.trans h.step.2.1.plain) (by simp)
  exact ⟨hc, mt (h.kind_eq_iff hends).mp hc⟩

theorem line_span (h : Abreast p q n c d) : c.span.first.line = p.number := by
  rcases h.line with ⟨v, w, hc, -, -, -, hflat⟩
  rw [Cursor.span, Cursor.peek, hc]
  cases v with
  | nil => exact h.stop.2
  | cons t v => exact (hflat t List.mem_cons_self).2

theorem lt_length (h : Abreast p q n c d) : n < c.rest.length ∧ n < d.rest.length := by
  rcases h.line with ⟨v, w, hc, hd, hkinds, hlength, -⟩
  have hlength' : w.length = n := by
    rw [← hlength, ← List.length_map (f := Token.kind), ← hkinds, List.length_map]
  rw [hc, hd, List.length_append, List.length_append, List.length_cons, List.length_cons]
  omega

end Abreast

/-- One finding each, of the same code, the first one on the line of the place. -/
def FindOne (p : Place) (c d c₁ d₁ : Cursor) : Prop :=
  ∃ f g, c₁.findings = c.findings ++ [f] ∧ d₁.findings = d.findings ++ [g] ∧
    f.problem.code = g.problem.code ∧ f.span.first.line = p.number

namespace Parser

/-- Two failures, somewhere on the line, with a finding each. -/
inductive Fails (p q : Place) (c d : Cursor) : Option α × Cursor → Option α × Cursor → Prop where
  | intro {m : Nat} {c₁ d₁ : Cursor} (h : Abreast p q m c₁ d₁) (hfind : FindOne p c d c₁ d₁) :
      Fails p q c d (none, c₁) (none, d₁)

/-- The results of a reader on two lines: two results and no findings, or two failures. -/
inductive Agree (p q : Place) (n : Nat) (c d : Cursor) :
    Option α × Cursor → Option α × Cursor → Prop where
  | read {m : Nat} {a b : α} {c₁ d₁ : Cursor} (hm : m ≤ n) (h : Abreast p q m c₁ d₁)
      (hc : c₁.findings = c.findings) (hd : d₁.findings = d.findings) :
      Agree p q n c d (some a, c₁) (some b, d₁)
  | failed {x y : Option α × Cursor} (h : Fails p q c d x y) : Agree p q n c d x y

/-- The reader stays on its line and does the same with it in every place. -/
def Local (x : Parser α) : Prop :=
  ∀ ⦃p q n c d⦄, Abreast p q n c d → Agree p q n c d (x c) (x d)

section Rules

variable {p q : Place} {n m : Nat} {c d c₁ d₁ : Cursor}

theorem fails_report (h : Abreast p q n c d) {problem problem' : Problem}
    (hcode : problem.code = problem'.code) :
    Fails (α := α) p q c d (none, c.report problem c.span) (none, d.report problem' d.span) :=
  .intro (h.of_rest rfl rfl) ⟨_, _, rfl, rfl, hcode, h.line_span⟩

theorem Fails.after {x y : Option α × Cursor} (hc : c₁.findings = c.findings)
    (hd : d₁.findings = d.findings) (h : Fails p q c₁ d₁ x y) : Fails p q c d x y := by
  cases h with
  | intro h hfind =>
      refine .intro h ?_
      unfold FindOne at hfind ⊢
      rwa [hc, hd] at hfind

namespace Agree

theorem pure (h : Abreast p q n c d) (a b : α) :
    Agree p q n c d ((Parser.pure a : Parser α) c) ((Parser.pure b : Parser α) d) :=
  .read (Nat.le_refl n) h rfl rfl

theorem report (h : Abreast p q n c d) {problem problem' : Problem}
    (hcode : problem.code = problem'.code) :
    Agree (α := α) p q n c d (none, c.report problem c.span) (none, d.report problem' d.span) :=
  .failed (fails_report h hcode)

theorem after {x y : Option α × Cursor} (hm : m ≤ n) (hc : c₁.findings = c.findings)
    (hd : d₁.findings = d.findings) (h : Agree p q m c₁ d₁ x y) : Agree p q n c d x y := by
  cases h with
  | read hm' h hc' hd' => exact .read (Nat.le_trans hm' hm) h (hc'.trans hc) (hd'.trans hd)
  | failed h => exact .failed (h.after hc hd)

theorem step {x y : Option α × Cursor} (h : Agree p q n c.advance d.advance x y) :
    Agree p q (n + 1) c d x y :=
  h.after (Nat.le_succ n) c.findings_advance d.findings_advance

/-- What holds of two failures, and of the rest of the reading after two results. -/
theorem elim {R : Option β × Cursor → Option β × Cursor → Prop} {x : Parser α}
    {f g : α → Parser β} (hx : Agree p q n c d (x c) (x d))
    (hfails : ∀ {x y}, Fails p q c d x y → R x y)
    (hread : ∀ {m a b c₁ d₁}, m ≤ n → Abreast p q m c₁ d₁ → c₁.findings = c.findings →
      d₁.findings = d.findings → R (f a c₁) (g b d₁)) :
    R ((x >>= f) c) ((x >>= g) d) := by
  change R (Parser.bind x f c) (Parser.bind x g d)
  unfold Parser.bind
  generalize x c = r at hx
  generalize x d = s at hx
  cases hx with
  | read hm h hc hd => exact hread hm h hc hd
  | failed h =>
      cases h with
      | intro h hfind => exact hfails (.intro h hfind)

theorem bind {x : Parser α} {f g : α → Parser β} (hx : Agree p q n c d (x c) (x d))
    (hf : ∀ {m a b c₁ d₁}, m ≤ n → Abreast p q m c₁ d₁ → Agree p q m c₁ d₁ (f a c₁) (g b d₁)) :
    Agree p q n c d ((x >>= f) c) ((x >>= g) d) :=
  hx.elim .failed fun hm h hc hd => (hf hm h).after hm hc hd

theorem bind_fails {x : Parser α} {f g : α → Parser β} (hx : Agree p q n c d (x c) (x d))
    (hf : ∀ {m a b c₁ d₁}, Abreast p q m c₁ d₁ → Fails p q c₁ d₁ (f a c₁) (g b d₁)) :
    Fails p q c d ((x >>= f) c) ((x >>= g) d) :=
  hx.elim id fun _ h hc hd => (hf h).after hc hd

end Agree

theorem Fails.bind {x : Parser α} {f g : α → Parser β} (hx : Fails p q c d (x c) (x d)) :
    Fails p q c d ((x >>= f) c) ((x >>= g) d) := by
  generalize hr : x c = r at hx
  generalize hs : x d = s at hx
  cases hx with
  | intro h hfind =>
      rw [bind_of_eq_none hr, bind_of_eq_none hs]
      exact .intro h hfind

end Rules

/-! ## Expressions -/

/-- Only a token inside the line is an operator. -/
theorem op?_cases (op? : TokenKind → Option β) {p q : Place} {n : Nat} {c d : Cursor}
    (hline : op? .lineEnd = none) (hend : op? .fileEnd = none) (h : Abreast p q n c d) :
    (op? c.kind = none ∧ op? d.kind = none) ∨
      ∃ op m, op? c.kind = some op ∧ op? d.kind = some op ∧ n = m + 1 ∧
        Abreast p q m c.advance d.advance := by
  have heq : op? d.kind = op? c.kind := h.apply_kind (by rw [hline, hend])
  cases hop : op? c.kind with
  | none => exact .inl ⟨rfl, heq.trans hop⟩
  | some op =>
      right
      cases n with
      | zero =>
          rcases h.kind_of_stop.1 with hk | hk
          · rw [hk, hline] at hop
            cases hop
          · rw [hk, hend] at hop
            cases hop
      | succ m => exact ⟨op, m, rfl, heq.trans hop, rfl, h.step.2.2⟩

section Chain

variable {op? : TokenKind → Option BinaryOp} {operand : Parser Expr}

theorem agree_chainRest (hline : op? .lineEnd = none) (hend : op? .fileEnd = none)
    (hoperand : Local operand) (bound bound' : List Token) (left left' : Expr) {p q : Place}
    {n : Nat} {c d : Cursor} (hbound : n < bound.length) (hbound' : n < bound'.length)
    (h : Abreast p q n c d) :
    Agree p q n c d (chainRest op? operand bound left c)
      (chainRest op? operand bound' left' d) := by
  -- the two files differ in length, and so do the bounds; both suffice for the line
  induction bound generalizing bound' left left' n c d with
  | nil => cases hbound
  | cons _ bound ih =>
      cases bound' with
      | nil => cases hbound'
      | cons _ bound' =>
          rw [List.length_cons] at hbound hbound'
          rcases op?_cases op? hline hend h with ⟨hc, hd⟩ | ⟨op, m, hc, hd, rfl, hstep⟩
          · rw [chainRest_of_none hc, chainRest_of_none hd]
            exact .pure h left left'
          · rw [chainRest, chainRest, kind_bind_apply, kind_bind_apply, hc, hd]
            apply Agree.step
            apply Agree.bind (hoperand hstep)
            intro m' right right' c₁ d₁ hm h
            exact ih bound' _ _ (by omega) (by omega) h

theorem local_chain (hline : op? .lineEnd = none) (hend : op? .fileEnd = none)
    (hoperand : Local operand) : Local (chain op? operand) := by
  intro p q n c d h
  apply Agree.bind (hoperand h)
  intro m left left' c₁ d₁ hm h
  exact agree_chainRest hline hend hoperand _ _ left left' h.lt_length.1 h.lt_length.2 h

theorem local_single (chained : Problem) (hline : op? .lineEnd = none)
    (hend : op? .fileEnd = none) (hoperand : Local operand) :
    Local (single op? chained operand) := by
  intro p q n c d h
  apply Agree.bind (hoperand h)
  intro m left left' c₁ d₁ hm h
  rw [kind_bind_apply, kind_bind_apply]
  rcases op?_cases op? hline hend h with ⟨hc, hd⟩ | ⟨op, m, hc, hd, rfl, hstep⟩
  · rw [hc, hd]
    exact .pure h left left'
  · rw [hc, hd]
    apply Agree.step
    apply Agree.bind (hoperand hstep)
    intro m' right right' c₂ d₂ hm h
    rw [kind_bind_apply, kind_bind_apply]
    have heq : op? d₂.kind = op? c₂.kind := h.apply_kind (by rw [hline, hend])
    by_cases hchained : (op? c₂.kind).isSome = true
    · rw [if_pos hchained, if_pos (by rwa [heq])]
      exact .report h rfl
    · rw [if_neg hchained, if_neg (by rwa [heq])]
      exact .pure h _ _

theorem local_binary (hoperand : Local operand) : Local (binary operand) := by
  have hproduct : Local (chain productOp? operand) := local_chain rfl rfl hoperand
  have hsum : Local (chain sumOp? _) := local_chain rfl rfl hproduct
  have hcomparison : Local (single comparisonOp? .chainedComparison _) :=
    local_single _ rfl rfl hsum
  have hequality : Local (single equalityOp? .chainedEquality _) :=
    local_single _ rfl rfl hcomparison
  have hconjunction : Local (chain andOp? _) := local_chain rfl rfl hequality
  exact local_chain rfl rfl hconjunction

end Chain

section Primary

variable {expression : Parser Expr}

/-- The reader starts by asking for one kind of token. -/
def AsksFor (k : TokenKind) (x : Parser α) : Prop :=
  ∀ c : Cursor, c.kind ≠ k → x c = (none, c.report (.notExpected k c.kind) c.span)

theorem asksFor_expect_bind (k : TokenKind) (f : Unit → Parser α) : AsksFor k (expect k >>= f) := by
  intro c hne
  rw [expect_bind_apply, if_neg hne]

/-- On a line without brackets a bracket is asked for in vain. -/
theorem fails_asksFor {p q : Place} {n : Nat} {c d : Cursor} {k : TokenKind} {x : Parser α}
    (h : Abreast p q n c d) (hx : AsksFor k x) (hk : k.isBracket = true)
    (hbrace : k ≠ .symbol .rightBrace) : Fails p q c d (x c) (x d) := by
  have hne := h.kind_ne hk
  rw [hx c hne.1, hx d hne.2]
  apply fails_report h
  simp [Problem.code, hbrace]

theorem local_primary : Local (primary expression) := by
  intro p q n c d h
  rw [primary, span_bind_apply, span_bind_apply, kind_bind_apply, kind_bind_apply]
  cases n with
  | zero =>
      rcases h.kind_of_stop with ⟨hc | hc, hd | hd⟩ <;> rw [hc, hd] <;> exact .report h rfl
  | succ n =>
      rcases h.step with ⟨hkind, hflat, hstep⟩
      rw [hkind]
      generalize c.kind = k at hflat
      have htaken : ∀ a b : Expr,
          Agree p q (n + 1) c d (some a, c.advance) (some b, d.advance) :=
        fun a b => (Agree.pure hstep a b).step
      cases k with
      | number x => exact htaken _ _
      | text s => exact htaken _ _
      | identifier x =>
          by_cases hx : x = "\""
          · simp only [hx, if_true]
            exact .report h rfl
          · simp only [hx, if_false]
            have hne := hstep.kind_ne (k := .symbol .leftParen) rfl
            rw [nameOrCall, nameOrCall, advance_bind_apply, advance_bind_apply, kind_bind_apply,
              kind_bind_apply, if_neg hne.1, if_neg hne.2]
            exact htaken _ _
      | keyword word =>
          cases word with
          | trueWord => exact htaken _ _
          | falseWord => exact htaken _ _
          | noneWord => exact htaken _ _
          | _ => exact .report h rfl
      | builtin b =>
          apply Agree.step
          exact .failed (fails_asksFor hstep (asksFor_expect_bind _ _) rfl (by simp)).bind
      | symbol mark =>
          cases mark with
          | leftBracket => cases hflat.plain
          | leftParen => cases hflat.plain
          | _ => exact .report h rfl
      | lineEnd => exact absurd (.inl rfl) hflat.inside
      | fileEnd => exact absurd (.inr rfl) hflat.inside

theorem local_indexed : Local (indexed expression) := by
  intro p q n c d h
  apply Agree.bind (local_primary h)
  intro m target target' c₁ d₁ hm h
  have hne := h.kind_ne (k := .symbol .leftBracket) rfl
  rw [indexRest_of_ne hne.1, indexRest_of_ne hne.2]
  exact .pure h _ _

theorem local_unaryOver {operand : Parser Expr} (hoperand : Local operand) :
    Local (unaryOver expression operand) := by
  intro p q n c d h
  rw [unaryOver, kind_bind_apply, kind_bind_apply]
  rcases op?_cases unaryOp? rfl rfl h with ⟨hc, hd⟩ | ⟨op, m, hc, hd, rfl, hstep⟩
  · rw [hc, hd]
    exact local_indexed h
  · rw [hc, hd]
    apply Agree.step
    apply Agree.bind (hoperand hstep)
    intro m' inner inner' c₁ d₁ hm h
    exact .pure h _ _

end Primary

theorem local_fail (problem : Problem) : Local (fail problem : Parser α) := by
  intro p q n c d h
  exact .report h rfl

theorem local_unary (levels : Nat) : Local (unary levels) := by
  induction levels with
  | zero => exact local_unaryOver (local_fail _)
  | succ levels ih => exact local_unaryOver ih

theorem local_expression : Local expression :=
  local_binary (local_unary _)

/-! ## Parts of statements -/

theorem local_ident : Local ident := by
  intro p q n c d h
  unfold ident
  cases n with
  | zero =>
      rcases h.kind_of_stop with ⟨hc | hc, hd | hd⟩ <;> rw [hc, hd] <;> exact .report h rfl
  | succ n =>
      rcases h.step with ⟨hkind, -, hstep⟩
      rw [hkind]
      cases c.kind with
      | identifier name => exact (Agree.pure hstep _ _).step
      | _ => exact .report h rfl

theorem local_expect {k : TokenKind} (hk : k.Flat) : Local (expect k) := by
  intro p q n c d h
  have hiff := h.kind_eq_iff hk.inside
  unfold expect
  by_cases hkind : c.kind = k
  · rw [if_pos hkind, if_pos (hiff.mpr hkind)]
    cases n with
    | zero => exact absurd (hkind ▸ h.kind_of_stop.1) hk.inside
    | succ n => exact (Agree.pure h.step.2.2 _ _).step
  · rw [if_neg hkind, if_neg (mt hiff.mp hkind)]
    apply Agree.report h
    have hbrace : k ≠ .symbol .rightBrace := by
      rintro rfl
      cases hk.plain
    simp [Problem.code, hbrace]

theorem endsStmt_of_endsLine {k : TokenKind} (h : k.EndsLine) : EndsStmt k :=
  h.imp_right .inl

theorem not_endsStmt_of_flat {k : TokenKind} (h : k.Flat) : ¬ EndsStmt k := by
  rintro (hk | hk | rfl)
  · exact h.inside (.inl hk)
  · exact h.inside (.inr hk)
  · cases h.plain

theorem local_returnValue : Local returnValue := by
  intro p q n c d h
  cases n with
  | zero =>
      have hends := h.kind_of_stop
      rw [returnValue_of_ends (endsStmt_of_endsLine hends.1),
        returnValue_of_ends (endsStmt_of_endsLine hends.2)]
      exact .pure h _ _
  | succ n =>
      rcases h.step with ⟨hkind, hflat, -⟩
      have hends := not_endsStmt_of_flat hflat
      rw [returnValue_of_not_ends hends, returnValue_of_not_ends (by rwa [hkind])]
      apply Agree.bind (local_expression h)
      intro m value value' c₁ d₁ hm h
      exact .pure h _ _

theorem asksFor_params : AsksFor (.symbol .leftParen) params :=
  asksFor_expect_bind _ _

theorem asksFor_block (levels : Nat) : AsksFor (.symbol .leftBrace) (block levels) := by
  intro c hne
  cases levels with
  | zero => exact asksFor_expect_bind _ _ c hne
  | succ levels => exact asksFor_expect_bind _ _ c hne

theorem fails_branches {block : Parser Block} (hblock : AsksFor (.symbol .leftBrace) block)
    {bound bound' : List Token} (hbound : bound ≠ []) (hbound' : bound' ≠ []) {p q : Place}
    {n : Nat} {c d : Cursor} (h : Abreast p q n c d) :
    Fails p q c d (branches block bound c) (branches block bound' d) := by
  cases bound with
  | nil => exact absurd rfl hbound
  | cons _ bound =>
      cases bound' with
      | nil => exact absurd rfl hbound'
      | cons _ bound' =>
          apply Agree.bind_fails (local_expression h)
          intro m condition condition' c₁ d₁ h
          exact (fails_asksFor h hblock rfl (by simp)).bind

/-! ## From line to line -/

theorem rest_skipLineEnds (c : Cursor) :
    c.skipLineEnds.rest = c.rest.dropWhile fun t => t.kind == .lineEnd := by
  obtain ⟨rest, last, findings⟩ := c
  induction rest generalizing last with
  | nil => rfl
  | cons t rest ih =>
      by_cases ht : t.kind = .lineEnd
      · rw [Cursor.skipLineEnds_cons ht, ih, List.dropWhile_cons_of_pos (by simp [ht])]
      · have hstay : Cursor.skipLineEnds ⟨t :: rest, last, findings⟩ =
            ⟨t :: rest, last, findings⟩ := Cursor.skipLineEnds_of_kind_ne ht
        rw [hstay, List.dropWhile_cons_of_neg (by simp [ht])]

theorem rest_synchronize {p : Place} (hstop : p.stop.kind.EndsLine) {c : Cursor} {v : List Token}
    (hc : c.rest = v ++ p.stop :: p.below) (hv : ∀ t ∈ v, t.kind.Flat) :
    (c.synchronize false).skipLineEnds.rest = p.onward := by
  obtain ⟨rest, last, findings⟩ := c
  obtain rfl : rest = _ := hc
  induction v generalizing last with
  | nil =>
      have hskip : (Cursor.skipLineEnds ⟨p.stop :: p.below, last, findings⟩).rest = p.onward :=
        rest_skipLineEnds _
      rw [List.nil_append, Cursor.synchronize, Cursor.synchronize.go]
      rcases hstop with hk | hk
      · rw [if_neg (by simp [hk]), if_pos hk, Cursor.skipLineEnds_skipLineEnds]
        exact hskip
      · rw [if_pos hk]
        exact hskip
  | cons t v ih =>
      have hflat := (hv t List.mem_cons_self).inside
      rw [List.cons_append, Cursor.synchronize, Cursor.synchronize.go,
        if_neg fun hk => hflat (.inr hk), if_neg fun hk => hflat (.inl hk), if_neg (by simp),
        Cursor.synchronize_go_eq]
      exact ih (fun t ht => hv t (List.mem_cons_of_mem _ ht)) t.span

/-- The cursor from which the next statement is read. -/
def resume : Option Stmt × Cursor → Cursor
  | (some _, c) => c.skipLineEnds
  | (none, c) => (c.synchronize false).skipLineEnds

/-- Both readings go on behind their lines, after two statements or after a finding each. -/
structure Resumes (p q : Place) (c d : Cursor) (x y : Option Stmt × Cursor) : Prop where
  rest : (resume x).rest = p.onward
  rest' : (resume y).rest = q.onward
  outcome : (x.1.isSome = true ∧ (resume x).findings = c.findings ∧
      (resume y).findings = d.findings) ∨ FindOne p c d (resume x) (resume y)

section Resumes

variable {p q : Place} {n : Nat} {c d c₁ d₁ : Cursor}

theorem Abreast.rest_synchronize (h : Abreast p q n c d) :
    (c.synchronize false).skipLineEnds.rest = p.onward ∧
      (d.synchronize false).skipLineEnds.rest = q.onward := by
  rcases h.line with ⟨v, w, hc, hd, hkinds, -, hflat⟩
  refine ⟨Parser.rest_synchronize h.stop.1 hc fun t ht => (hflat t ht).1,
    Parser.rest_synchronize h.stop' hd ?_⟩
  intro t ht
  have hmem : t.kind ∈ v.map Token.kind := hkinds ▸ List.mem_map_of_mem ht
  rcases List.mem_map.mp hmem with ⟨u, hu, hkind⟩
  rw [← hkind]
  exact (hflat u hu).1

theorem Resumes.after {x y : Option Stmt × Cursor} (hc : c₁.findings = c.findings)
    (hd : d₁.findings = d.findings) (h : Resumes p q c₁ d₁ x y) : Resumes p q c d x y where
  rest := h.rest
  rest' := h.rest'
  outcome := by
    have houtcome := h.outcome
    unfold FindOne at houtcome ⊢
    rwa [hc, hd] at houtcome

theorem Fails.resumes {x y : Option Stmt × Cursor} (h : Fails p q c d x y) :
    Resumes p q c d x y := by
  cases h with
  | @intro _ c₁ d₁ h hfind =>
      have hfindings : (resume (none, c₁)).findings = c₁.findings := by simp [resume]
      have hfindings' : (resume (none, d₁)).findings = d₁.findings := by simp [resume]
      refine ⟨(Abreast.rest_synchronize h).1, (Abreast.rest_synchronize h).2, .inr ?_⟩
      unfold FindOne at hfind ⊢
      rwa [hfindings, hfindings']

theorem Agree.bind_resumes {x : Parser α} {f g : α → Parser Stmt}
    (hx : Agree p q n c d (x c) (x d))
    (hf : ∀ {m a b c₁ d₁}, Abreast p q m c₁ d₁ → Resumes p q c₁ d₁ (f a c₁) (g b d₁)) :
    Resumes p q c d ((x >>= f) c) ((x >>= g) d) :=
  hx.elim Fails.resumes fun _ h hc hd => (hf h).after hc hd

theorem Resumes.step {x y : Option Stmt × Cursor} (h : Resumes p q c.advance d.advance x y) :
    Resumes p q c d x y :=
  h.after c.findings_advance d.findings_advance

theorem statementEnd_of_flat (h : c.kind.Flat) :
    statementEnd false c = (some (), (c.report (.notLineEnd c.kind) c.span).synchronize false) := by
  have hends := not_endsStmt_of_flat h
  unfold statementEnd
  split
  · rename_i hk
    exact absurd (.inr (.inl hk)) hends
  · rename_i hk
    exact absurd (.inr (.inr hk)) hends
  · rename_i hk
    exact absurd (.inl hk) hends
  · rfl

theorem statementEnd_of_endsLine (h : c.kind.EndsLine) :
    ∃ c₁, statementEnd false c = (some (), c₁) ∧ c₁.findings = c.findings ∧
      c₁.skipLineEnds = c.skipLineEnds := by
  unfold statementEnd
  rcases h with hk | hk
  · rw [hk]
    exact ⟨c.skipLineEnds, rfl, c.findings_skipLineEnds, c.skipLineEnds_skipLineEnds⟩
  · rw [hk]
    exact ⟨c, rfl, rfl, rfl⟩

/-- A statement ends with its line, or the tokens left over are one finding. -/
theorem resumes_statementEnd (h : Abreast p q n c d) (s t : Stmt) :
    Resumes p q c d ((statementEnd false >>= fun _ => pure s) c)
      ((statementEnd false >>= fun _ => pure t) d) := by
  cases n with
  | zero =>
      rcases h.kind_of_stop with ⟨hends, hends'⟩
      rcases h.at_stop with ⟨hrest, hrest'⟩
      rcases statementEnd_of_endsLine hends with ⟨c₁, hc, hfindings, hskip⟩
      rcases statementEnd_of_endsLine hends' with ⟨d₁, hd, hfindings', hskip'⟩
      rw [bind_of_eq_some hc, bind_of_eq_some hd]
      refine ⟨?_, ?_, .inl ⟨rfl, ?_, ?_⟩⟩
      · show c₁.skipLineEnds.rest = p.onward
        rw [hskip, rest_skipLineEnds, hrest]
        rfl
      · show d₁.skipLineEnds.rest = q.onward
        rw [hskip', rest_skipLineEnds, hrest']
        rfl
      · exact c₁.findings_skipLineEnds.trans hfindings
      · exact d₁.findings_skipLineEnds.trans hfindings'
  | succ n =>
      -- tokens are left over: both statements stand, and their lines are passed over to the end
      rcases h.step with ⟨hkind, hflat, -⟩
      have hreport : Abreast p q (n + 1) (c.report (.notLineEnd c.kind) c.span)
          (d.report (.notLineEnd d.kind) d.span) := h.of_rest rfl rfl
      rw [bind_of_eq_some (statementEnd_of_flat hflat),
        bind_of_eq_some (statementEnd_of_flat (by rwa [hkind]))]
      refine ⟨(Abreast.rest_synchronize hreport).1, (Abreast.rest_synchronize hreport).2, .inr ?_⟩
      refine ⟨⟨.notLineEnd c.kind, c.span⟩, ⟨.notLineEnd d.kind, d.span⟩, ?_, ?_, rfl, h.line_span⟩
      · simp [resume, pure_apply]
      · simp [resume, pure_apply]

theorem resumes_expressionLine (h : Abreast p q n c d) (f g : Expr → Stmt) :
    Resumes p q c d (expressionLine false f c) (expressionLine false g d) := by
  apply Agree.bind_resumes (local_expression h)
  intro m value value' c₁ d₁ h
  exact resumes_statementEnd h (f value) (g value')

/-! ## Statements -/

theorem resumes_varStmt (h : Abreast p q n c.advance d.advance) :
    Resumes p q c d (varStmt false c) (varStmt false d) := by
  apply Resumes.step
  apply Agree.bind_resumes (local_ident h)
  intro m name name' c₁ d₁ h
  apply Agree.bind_resumes (local_expect ⟨by simp [TokenKind.EndsLine], rfl⟩ h)
  intro m _ _ c₂ d₂ h
  exact resumes_expressionLine h _ _

theorem ident_of_kind {x : String} (h : c.kind = .identifier x) :
    ident c = (some ⟨x, c.span⟩, c.advance) := by
  unfold ident
  rw [h]

theorem resumes_assignStmt (h : Abreast p q (n + 1) c d) (hstarts : startsAssignment c = true) :
    Resumes p q c d (assignStmt false c) (assignStmt false d) := by
  rcases h.step with ⟨hkind, -, hstep⟩
  rcases startsAssignment_iff_kinds.mp hstarts with ⟨⟨x, hx⟩, hassign⟩
  rw [assignStmt, bind_of_eq_some (ident_of_kind hx),
    bind_of_eq_some (ident_of_kind (hkind.trans hx)), advance_bind_apply, advance_bind_apply]
  apply Resumes.step
  apply Resumes.step
  cases n with
  | zero =>
      rcases hstep.kind_of_stop.1 with hk | hk <;> cases hk.symm.trans hassign
  | succ n => exact resumes_expressionLine hstep.step.2.2 _ _

theorem startsAssignment_eq (h : Abreast p q (n + 1) c d) :
    startsAssignment d = startsAssignment c := by
  rcases h.step with ⟨hkind, -, hstep⟩
  rw [Bool.eq_iff_iff, startsAssignment_iff_kinds, startsAssignment_iff_kinds, hkind,
    hstep.kind_eq_iff (by simp [TokenKind.EndsLine])]

theorem resumes_returnStmt (h : Abreast p q n c.advance d.advance) :
    Resumes p q c d (returnStmt false c) (returnStmt false d) := by
  apply Resumes.step
  apply Agree.bind_resumes (local_returnValue h)
  intro m value value' c₁ d₁ h
  exact resumes_statementEnd h _ _

variable {block : Parser Block}

theorem resumes_funcStmt (h : Abreast p q n c.advance d.advance) :
    Resumes p q c d (funcStmt block c) (funcStmt block d) := by
  apply Resumes.step
  apply Agree.bind_resumes (local_ident h)
  intro m name name' c₁ d₁ h
  exact (fails_asksFor h asksFor_params rfl (by simp)).bind.resumes

theorem resumes_whileStmt (hblock : AsksFor (.symbol .leftBrace) block)
    (h : Abreast p q n c.advance d.advance) :
    Resumes p q c d (whileStmt block c) (whileStmt block d) := by
  apply Resumes.step
  apply Agree.bind_resumes (local_expression h)
  intro m condition condition' c₁ d₁ h
  exact (fails_asksFor h hblock rfl (by simp)).bind.resumes

theorem resumes_ifStmt (hblock : AsksFor (.symbol .leftBrace) block)
    (h : Abreast p q n c.advance d.advance) :
    Resumes p q c d (ifStmt block c) (ifStmt block d) := by
  have hne := List.ne_nil_of_length_pos (Nat.lt_of_le_of_lt (Nat.zero_le _) h.lt_length.1)
  have hne' := List.ne_nil_of_length_pos (Nat.lt_of_le_of_lt (Nat.zero_le _) h.lt_length.2)
  have hfails := fails_branches hblock hne hne' h
  apply Resumes.step
  exact (Fails.bind (x := fun c => branches block c.rest c) hfails).resumes

theorem resumes_statement (hblock : AsksFor (.symbol .leftBrace) block)
    (h : Abreast p q (n + 1) c d) :
    Resumes p q c d (statement false block c) (statement false block d) := by
  rcases h.step with ⟨hkind, -, hstep⟩
  have hother : Resumes p q c d
      (if startsAssignment c then assignStmt false c else exprStmt false c)
      (if startsAssignment d then assignStmt false d else exprStmt false d) := by
    rw [startsAssignment_eq h]
    by_cases hstarts : startsAssignment c = true
    · rw [if_pos hstarts, if_pos hstarts]
      exact resumes_assignStmt h hstarts
    · rw [if_neg hstarts, if_neg hstarts]
      exact resumes_expressionLine h _ _
  unfold statement
  rw [hkind]
  cases c.kind with
  | keyword word =>
      cases word with
      | varWord => exact resumes_varStmt hstep
      | funcWord => exact resumes_funcStmt hstep
      | ifWord => exact resumes_ifStmt hblock hstep
      | whileWord => exact resumes_whileStmt hblock hstep
      | returnWord => exact resumes_returnStmt hstep
      | elseWord => exact (fails_report h rfl).resumes
      | _ => exact hother
  | _ => exact hother

end Resumes

end Parser

end KitchenScript
