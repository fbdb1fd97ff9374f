import KitchenScript.Proofs.Grammar.Cursor

/-!
# Expressions are read as the grammar has them

One statement is proved for every reader of expressions: what it reads is derived by the grammar,
and every word of the grammar is read, up to a token that cannot go on with it.  Readers built
from others inherit the statement, level by level from the primary expressions to the
disjunctions, and then from each depth of nesting to the next.
-/

namespace KitchenScript.Parser

open Grammar

/-- The token neither is an operator of the level or of a stronger one, nor opens a bracket. -/
structure Stops (L : Level) (k : TokenKind) : Prop where
  weaker : ∀ {M : Level} {op : BinaryOp}, Operator M k op → M.rank < L.rank
  ne_bracket : k ≠ .symbol .leftBracket
  ne_paren : k ≠ .symbol .leftParen

/-- The tokens from one cursor to another are an expression of the level, and `e` is its tree. -/
def ExprBetween (L : Level) (d : Nat) (c : Cursor) (e : Expr) (c' : Cursor) : Prop :=
  ∃ w t, c.kinds = w ++ c'.kinds ∧ DerivesExpr L w t ∧ t.nesting < d ∧ e.bare = t.folded ∧
    c'.findings = c.findings

/-- The reader succeeds with the tree `t`, leaves the word `v` and finds nothing. -/
def Reaches (p : Parser Expr) (c : Cursor) (v : List TokenKind) (t : Expr) : Prop :=
  ∃ e c', p c = (some e, c') ∧ c'.kinds = v ∧ c'.findings = c.findings ∧ e.bare = t.folded

/-- The reader reads the expressions of the level that nest less than `d` deep. -/
structure Reads (p : Parser Expr) (L : Level) (d : Nat) : Prop where
  sound : ∀ {c e c'}, p c = (some e, c') → ExprBetween L d c e c'
  complete : ∀ {c w v t}, DerivesExpr L w t → t.nesting < d → c.kinds = w ++ v →
    Stops L (v.headD .fileEnd) → Reaches p c v t
  honest : Honest p

/-! ## Operators -/

theorem Stops.next {L : Level} {k : TokenKind} (h : Stops L k) : Stops L.next k where
  weaker hop := Nat.lt_of_lt_of_le (h.weaker hop) L.rank_le_next
  ne_bracket := h.ne_bracket
  ne_paren := h.ne_paren

theorem Stops.not_operator {L : Level} {k : TokenKind} (h : Stops L k) {op : BinaryOp} :
    ¬ Operator L k op :=
  fun hop => Nat.lt_irrefl _ (h.weaker hop)

/-- An operator of a level ends its left operand. -/
theorem Stops.of_operator {L : Level} {k : TokenKind} {op : BinaryOp} (h : Operator L k op) :
    Stops L.next k where
  weaker := by
    intro M op' h'
    cases h <;> cases h' <;> decide
  ne_bracket := by cases h <;> simp
  ne_paren := by cases h <;> simp

theorem orOp?_eq_some_iff {k : TokenKind} {op : BinaryOp} :
    orOp? k = some op ↔ Operator .disjunction k op := by
  constructor
  · intro h
    unfold orOp? at h
    split at h <;> simp at h
    subst h
    constructor
  · rintro ⟨⟩
    rfl

theorem andOp?_eq_some_iff {k : TokenKind} {op : BinaryOp} :
    andOp? k = some op ↔ Operator .conjunction k op := by
  constructor
  · intro h
    unfold andOp? at h
    split at h <;> simp at h
    subst h
    constructor
  · rintro ⟨⟩
    rfl

theorem equalityOp?_eq_some_iff {k : TokenKind} {op : BinaryOp} :
    equalityOp? k = some op ↔ Operator .equality k op := by
  constructor
  · intro h
    unfold equalityOp? at h
    split at h <;> simp at h <;> subst h <;> constructor
  · rintro ⟨⟩ <;> rfl

theorem comparisonOp?_eq_some_iff {k : TokenKind} {op : BinaryOp} :
    comparisonOp? k = some op ↔ Operator .comparison k op := by
  constructor
  · intro h
    unfold comparisonOp? at h
    split at h <;> simp at h <;> subst h <;> constructor
  · rintro ⟨⟩ <;> rfl

theorem sumOp?_eq_some_iff {k : TokenKind} {op : BinaryOp} :
    sumOp? k = some op ↔ Operator .sum k op := by
  constructor
  · intro h
    unfold sumOp? at h
    split at h <;> simp at h <;> subst h <;> constructor
  · rintro ⟨⟩ <;> rfl

theorem productOp?_eq_some_iff {k : TokenKind} {op : BinaryOp} :
    productOp? k = some op ↔ Operator .product k op := by
  constructor
  · intro h
    unfold productOp? at h
    split at h <;> simp at h <;> subst h <;> constructor
  · rintro ⟨⟩ <;> rfl

theorem unaryOp?_eq_some_iff {k : TokenKind} {op : UnaryOp} :
    unaryOp? k = some op ↔ Sign k op := by
  constructor
  · intro h
    unfold unaryOp? at h
    split at h <;> simp at h <;> subst h <;> constructor
  · rintro ⟨⟩ <;> rfl

/-! ## Chains -/

section Chain

variable {op? : TokenKind → Option BinaryOp} {operand : Parser Expr} {L : Level} {d : Nat}

/-- Two operands with an operator between them, of which the rules make one expression. -/
theorem ExprBetween.operation {M N : Level} {op : BinaryOp} {c₀ c c₁ : Cursor}
    {left right : Expr}
    (hrule : ∀ {w v a b}, DerivesExpr M w a → Operator L c.kind op → DerivesExpr N v b →
      DerivesExpr L (w ++ c.kind :: v) (.binary .blank op a b))
    (hleft : ExprBetween M d c₀ left c) (hk : Operator L c.kind op)
    (hright : ExprBetween N d c.advance right c₁) :
    ExprBetween L d c₀ (binaryExpr left op right) c₁ := by
  obtain ⟨w, a, hw, ha, hda, hbare, hfindings⟩ := hleft
  obtain ⟨v, b, hv, hb, hdb, hbare', hfindings'⟩ := hright
  have hc := Cursor.kinds_eq_kind_cons hk.ne_fileEnd
  refine ⟨w ++ c.kind :: v, .binary .blank op a b, ?_, hrule ha hk hb, ?_, ?_, ?_⟩
  · rw [hw, hc, hv]
    simp
  · exact Nat.max_lt.mpr ⟨hda, hdb⟩
  · rw [Expr.bare_binaryExpr, hbare, hbare', Expr.folded]
  · simpa [hfindings] using hfindings'

theorem chainRest_sound (hL : L.chains = true)
    (hop : ∀ {k op}, op? k = some op ↔ Operator L k op) (hoperand : Reads operand L.next d)
    {bound : List Token} {left e : Expr} {c₀ c c' : Cursor} (hleft : ExprBetween L d c₀ left c)
    (h : chainRest op? operand bound left c = (some e, c')) : ExprBetween L d c₀ e c' := by
  induction bound generalizing left c with
  | nil =>
      simp only [chainRest, pure_apply, Prod.mk.injEq, Option.some.injEq] at h
      obtain ⟨rfl, rfl⟩ := h
      exact hleft
  | cons _ bound ih =>
      simp only [chainRest, kind_bind_apply] at h
      cases hk : op? c.kind with
      | none =>
          simp only [hk, pure_apply, Prod.mk.injEq, Option.some.injEq] at h
          obtain ⟨rfl, rfl⟩ := h
          exact hleft
      | some op =>
          simp only [hk, advance_bind_apply] at h
          obtain ⟨right, c₁, hright, hrest⟩ := bind_eq_some.mp h
          exact ih (hleft.operation (.chain hL) (hop.mp hk) (hoperand.sound hright)) hrest

theorem ExprBetween.ascend {c c' : Cursor} {e : Expr} (h : ExprBetween L.next d c e c') :
    ExprBetween L d c e c' := by
  obtain ⟨w, t, hw, ht, hd, hbare, hfindings⟩ := h
  exact ⟨w, t, hw, .ascend ht, hd, hbare, hfindings⟩

/-- Whatever part of a chain has been read, its reader goes on with the rounds to come. -/
theorem chain_reaches_rest {L : Level} (hL : L.chains = true)
    (hop : ∀ {k op}, op? k = some op ↔ Operator L k op) (hoperand : Reads operand L.next d)
    {c : Cursor} {w v : List TokenKind} {t : Expr} (ht : DerivesExpr L w t) (hd : t.nesting < d)
    (hc : c.kinds = w ++ v) (hstops : Stops L.next (v.headD .fileEnd)) :
    ∃ bound e c', chain op? operand c = chainRest op? operand bound e c' ∧
      c'.kinds = v ∧ v.length ≤ bound.length ∧ c'.findings = c.findings ∧ e.bare = t.folded := by
  match ht with
  | .ascend he =>
      obtain ⟨e, c', he, hv, hfindings, hbare⟩ := hoperand.complete he hd hc hstops
      refine ⟨c'.rest, e, c', bind_of_eq_some he, hv, ?_, hfindings, hbare⟩
      exact Nat.le_of_eq (by rw [← hv, Cursor.kinds_length])
  | @DerivesExpr.chain _ k op x u _ _ _ ha hk hb =>
      rw [Expr.nesting, Nat.max_lt] at hd
      have hleft : c.kinds = x ++ k :: (u ++ v) := by simpa using hc
      obtain ⟨bound, left, c₁, hchain, hc₁, hbound, hfindings₁, hbare₁⟩ :=
        chain_reaches_rest hL hop hoperand ha hd.1 hleft (Stops.of_operator hk)
      have hkind : c₁.kind = k := Cursor.kind_of_kinds_cons hc₁
      have hadvance : c₁.advance.kinds = u ++ v := by simp [hc₁]
      obtain ⟨right, c₂, hright, hc₂, hfindings₂, hbare₂⟩ :=
        hoperand.complete hb hd.2 hadvance hstops
      cases bound with
      | nil => simp at hbound
      | cons _ bound =>
          refine ⟨bound, binaryExpr left op right, c₂, ?_, hc₂, ?_, ?_, ?_⟩
          · simp only [hchain, chainRest, kind_bind_apply, hkind, hop.mpr hk, advance_bind_apply,
              bind_of_eq_some hright]
          · simp only [List.length_cons, List.length_append] at hbound
            omega
          · rw [hfindings₂, Cursor.findings_advance, hfindings₁]
          · rw [Expr.bare_binaryExpr, hbare₁, hbare₂, Expr.folded]
  | .join hL' _ _ _ =>
      rw [hL] at hL'
      cases hL'
  | .number _ | .text _ | .truth | .falsity | .nothing | .name _ | .call _ _ | .builtin _ _
  | .list _ | .paren _ _ _ | .index _ _ _ _ | .sign _ _ => cases hL

theorem op?_eq_none_of_stops (hop : ∀ {k op}, op? k = some op ↔ Operator L k op)
    {k : TokenKind} (h : Stops L k) : op? k = none := by
  rw [Option.eq_none_iff_forall_ne_some]
  intro op hsome
  exact h.not_operator (hop.mp hsome)

/-- With no operator of the class to come the rounds are over. -/
theorem chainRest_of_none {bound : List Token} {left : Expr} {c : Cursor}
    (h : op? c.kind = none) : chainRest op? operand bound left c = (some left, c) := by
  cases bound with
  | nil => rfl
  | cons _ bound => simp only [chainRest, kind_bind_apply, h, pure_apply]

theorem honest_chainRest (hoperand : Honest operand) (bound : List Token) (left : Expr) :
    Honest (chainRest op? operand bound left) := by
  induction bound generalizing left with
  | nil => exact honest_pure left
  | cons _ bound ih =>
      apply honest_bind honest_kind
      intro k
      cases hk : op? k with
      | none => exact honest_pure left
      | some op =>
          simp only
          apply honest_bind honest_advance
          intro _
          exact honest_bind hoperand fun right => ih (binaryExpr left op right)

theorem reads_chain (hL : L.chains = true)
    (hop : ∀ {k op}, op? k = some op ↔ Operator L k op) (hoperand : Reads operand L.next d) :
    Reads (chain op? operand) L d where
  sound := by
    intro c e c' h
    obtain ⟨left, c₁, hleft, hrest⟩ := bind_eq_some.mp h
    exact chainRest_sound hL hop hoperand (hoperand.sound hleft).ascend hrest
  complete := by
    intro c w v t ht hd hc hstops
    obtain ⟨bound, e, c', hchain, hv, -, hfindings, hbare⟩ :=
      chain_reaches_rest hL hop hoperand ht hd hc hstops.next
    have hnone : op? c'.kind = none := by
      rw [Cursor.kind_eq_headD, hv]
      exact op?_eq_none_of_stops hop hstops
    exact ⟨e, c', hchain.trans (chainRest_of_none hnone), hv, hfindings, hbare⟩
  honest := honest_bind hoperand.honest fun left =>
    honest_bounded fun bound => honest_chainRest hoperand.honest bound left

/-! ## Operators that do not chain -/

theorem honest_single {chained : Problem} (hoperand : Honest operand) :
    Honest (single op? chained operand) := by
  apply honest_bind hoperand
  intro left
  apply honest_bind honest_kind
  intro k
  cases op? k with
  | none => exact honest_pure left
  | some op =>
      apply honest_bind honest_advance
      intro _
      apply honest_bind hoperand
      intro right
      apply honest_bind honest_kind
      intro k'
      exact honest_ite (honest_fail chained) (honest_pure _)

theorem single_sound {chained : Problem} (hL : L.chains = false)
    (hop : ∀ {k op}, op? k = some op ↔ Operator L k op) (hoperand : Reads operand L.next d)
    {c c' : Cursor} {e : Expr} (h : single op? chained operand c = (some e, c')) :
    ExprBetween L d c e c' := by
  obtain ⟨left, c₁, hleft, hrest⟩ := bind_eq_some.mp h
  rw [kind_bind_apply] at hrest
  cases hk : op? c₁.kind with
  | none =>
      simp only [hk, pure_apply, Prod.mk.injEq, Option.some.injEq] at hrest
      obtain ⟨rfl, rfl⟩ := hrest
      exact (hoperand.sound hleft).ascend
  | some op =>
      simp only [hk, advance_bind_apply] at hrest
      obtain ⟨right, c₂, hright, hend⟩ := bind_eq_some.mp hrest
      rw [kind_bind_apply] at hend
      split at hend
      · simp [fail] at hend
      · simp only [pure_apply, Prod.mk.injEq, Option.some.injEq] at hend
        obtain ⟨rfl, rfl⟩ := hend
        exact (hoperand.sound hleft).operation (.join hL) (hop.mp hk) (hoperand.sound hright)

theorem single_complete {L : Level} {chained : Problem} (hL : L = .equality ∨ L = .comparison)
    (hop : ∀ {k op}, op? k = some op ↔ Operator L k op) (hoperand : Reads operand L.next d)
    {c : Cursor} {w v : List TokenKind} {t : Expr} (ht : DerivesExpr L w t) (hd : t.nesting < d)
    (hc : c.kinds = w ++ v) (hstops : Stops L (v.headD .fileEnd)) :
    Reaches (single op? chained operand) c v t := by
  match ht with
  | .ascend he =>
      obtain ⟨e, c', he, hv, hfindings, hbare⟩ := hoperand.complete he hd hc hstops.next
      have hnone : op? c'.kind = none := by
        rw [Cursor.kind_eq_headD, hv]
        exact op?_eq_none_of_stops hop hstops
      refine ⟨e, c', ?_, hv, hfindings, hbare⟩
      simp only [single, bind_of_eq_some he, kind_bind_apply, hnone, pure_apply]
  | @DerivesExpr.join _ k op x u _ _ _ ha hk hb =>
      rw [Expr.nesting, Nat.max_lt] at hd
      have hleft : c.kinds = x ++ k :: (u ++ v) := by simpa using hc
      obtain ⟨left, c₁, hleft, hc₁, hfindings₁, hbare₁⟩ :=
        hoperand.complete ha hd.1 hleft (Stops.of_operator hk)
      have hkind : c₁.kind = k := Cursor.kind_of_kinds_cons hc₁
      have hadvance : c₁.advance.kinds = u ++ v := by simp [hc₁]
      obtain ⟨right, c₂, hright, hc₂, hfindings₂, hbare₂⟩ :=
        hoperand.complete hb hd.2 hadvance hstops.next
      have hnone : op? c₂.kind = none := by
        rw [Cursor.kind_eq_headD, hc₂]
        exact op?_eq_none_of_stops hop hstops
      refine ⟨binaryExpr left op right, c₂, ?_, hc₂, ?_, ?_⟩
      · simp only [single, bind_of_eq_some hleft, kind_bind_apply, hkind, hop.mpr hk,
          advance_bind_apply, bind_of_eq_some hright, hnone]
        rfl
      · rw [hfindings₂, Cursor.findings_advance, hfindings₁]
      · rw [Expr.bare_binaryExpr, hbare₁, hbare₂, Expr.folded]
  | .chain hchains _ _ _ =>
      rcases hL with rfl | rfl <;> cases hchains
  | .number _ | .text _ | .truth | .falsity | .nothing | .name _ | .call _ _ | .builtin _ _
  | .list _ | .paren _ _ _ | .index _ _ _ _ | .sign _ _ => rcases hL with h | h <;> cases h

theorem reads_single (chained : Problem) (hL : L = .equality ∨ L = .comparison)
    (hop : ∀ {k op}, op? k = some op ↔ Operator L k op) (hoperand : Reads operand L.next d) :
    Reads (single op? chained operand) L d where
  sound h := by
    have hchains : L.chains = false := by rcases hL with rfl | rfl <;> rfl
    exact single_sound hchains hop hoperand h
  complete ht hd hc hstops := single_complete hL hop hoperand ht hd hc hstops
  honest := honest_single hoperand.honest

end Chain

theorem reads_binary {operand : Parser Expr} {d : Nat} (h : Reads operand .sign d) :
    Reads (binary operand) .disjunction d := by
  have hproduct : Reads (chain productOp? operand) .product d :=
    reads_chain rfl productOp?_eq_some_iff h
  have hsum : Reads (chain sumOp? (chain productOp? operand)) .sum d :=
    reads_chain rfl sumOp?_eq_some_iff hproduct
  have hcomparison := reads_single .chainedComparison (.inr rfl) comparisonOp?_eq_some_iff hsum
  have hequality := reads_single .chainedEquality (.inl rfl) equalityOp?_eq_some_iff hcomparison
  have hconjunction := reads_chain rfl andOp?_eq_some_iff hequality
  exact reads_chain rfl orOp?_eq_some_iff hconjunction

/-! ## Expressions in brackets -/

theorem stops_of_closesExpr {L : Level} {k : TokenKind} (h : closesExpr k = true) :
    Stops L k where
  weaker := by
    intro M op hop
    cases hop <;> simp [closesExpr] at h
  ne_bracket := by
    rintro rfl
    simp [closesExpr] at h
  ne_paren := by
    rintro rfl
    simp [closesExpr] at h

section Bracketed

variable {expression : Parser Expr} {d : Nat}

/-- An expression that was read between line ends. -/
theorem ExprBetween.padded {c c' : Cursor} {e : Expr}
    (h : ExprBetween .disjunction d c.skipLineEnds e c') :
    ∃ m n w t, c.kinds = lineEnds m ++ w ++ lineEnds n ++ c'.skipLineEnds.kinds ∧
      DerivesExpr .disjunction w t ∧ t.nesting < d ∧ e.bare = t.folded ∧
      c'.skipLineEnds.findings = c.findings := by
  obtain ⟨w, t, hw, ht, hd, hbare, hfindings⟩ := h
  obtain ⟨m, hm⟩ := c.exists_kinds_eq_skipLineEnds
  obtain ⟨n, hn⟩ := c'.exists_kinds_eq_skipLineEnds
  refine ⟨m, n, w, t, ?_, ht, hd, hbare, ?_⟩
  · rw [hm, hw, hn]
    simp
  · simpa using hfindings

/-- Line ends around an expression do not keep it from being read. -/
theorem Reads.complete_padded (hread : Reads expression .disjunction d) {c : Cursor} {n : Nat}
    {w v : List TokenKind} {t : Expr} (ht : DerivesExpr .disjunction w t) (hd : t.nesting < d)
    (hc : dropLineEnds c.kinds = w ++ (lineEnds n ++ v))
    (hcloses : closesExpr (v.headD .fileEnd) = true) (hne : v.headD .fileEnd ≠ .lineEnd) :
    ∃ e c', expression c.skipLineEnds = (some e, c') ∧ c'.skipLineEnds.kinds = v ∧
      c'.skipLineEnds.findings = c.findings ∧ e.bare = t.folded := by
  have hkinds : c.skipLineEnds.kinds = w ++ (lineEnds n ++ v) := by
    rw [Cursor.kinds_skipLineEnds, hc]
  have hstops : Stops .disjunction ((lineEnds n ++ v).headD .fileEnd) := by
    cases n with
    | zero => exact stops_of_closesExpr hcloses
    | succ n => exact stops_of_closesExpr rfl
  obtain ⟨e, c', he, hv, hfindings, hbare⟩ := hread.complete ht hd hkinds hstops
  refine ⟨e, c', he, ?_, ?_, hbare⟩
  · rw [Cursor.kinds_skipLineEnds, hv, dropLineEnds_lineEnds_append,
      dropLineEnds_of_headD_ne hne]
  · simpa using hfindings

/-! ## Comma lists -/

/-- The tokens from one cursor to another are a list of the given sort. -/
def ListBetween (D : List TokenKind → List Expr → Prop) (d : Nat) (c : Cursor)
    (items : List Expr) (rest : List TokenKind) (c' : Cursor) : Prop :=
  ∃ w ts, c.kinds = w ++ rest ∧ D w ts ∧ Expr.nestingAll ts ≤ d ∧
    Expr.bareAll items = Expr.foldedAll ts ∧ c'.findings = c.findings

theorem items_sound (hread : Reads expression .disjunction d) {bound : List Token}
    {c c' : Cursor} {found : List Expr} (h : items expression bound c = (some found, c')) :
    ListBetween DerivesItems d c found c'.kinds c' := by
  induction bound generalizing c found with
  | nil => simp [items, fail] at h
  | cons _ bound ih =>
      rw [items, skipLineEnds_bind_apply] at h
      obtain ⟨e, c₁, he, h⟩ := bind_eq_some.mp h
      obtain ⟨m, n, w, t, hc, ht, hd, hbare, hfindings⟩ := (hread.sound he).padded
      rw [skipLineEnds_bind_apply, eat_bind_apply] at h
      split at h
      · rename_i hcomma
        obtain ⟨rest, c₂, hrest, h⟩ := bind_eq_some.mp h
        simp only [pure_apply, Prod.mk.injEq, Option.some.injEq] at h
        obtain ⟨rfl, rfl⟩ := h
        obtain ⟨v, ts, hv, hts, hds, hbares, hfindings'⟩ := ih hrest
        refine ⟨lineEnds m ++ w ++ lineEnds n ++ .symbol .comma :: v, t :: ts, ?_,
          .more m n ht hts, ?_, ?_, ?_⟩
        · rw [hc, Cursor.kinds_eq_cons hcomma (by simp), hv]
          simp
        · exact Nat.max_le.mpr ⟨hd, hds⟩
        · rw [Expr.bareAll, Expr.foldedAll, hbare, hbares]
        · rw [hfindings', Cursor.findings_advance, hfindings]
      · simp only [Bool.false_eq_true, if_false, pure_apply, Prod.mk.injEq,
          Option.some.injEq] at h
        obtain ⟨rfl, rfl⟩ := h
        refine ⟨lineEnds m ++ w ++ lineEnds n, [t], hc, .one m n ht, ?_, ?_, hfindings⟩
        · exact Nat.max_le.mpr ⟨hd, Nat.zero_le d⟩
        · simp [Expr.bareAll, Expr.foldedAll, hbare]

theorem items_cons {t : Token} {bound : List Token} {c c₁ : Cursor} {e : Expr}
    (he : expression c.skipLineEnds = (some e, c₁)) :
    items expression (t :: bound) c =
      if c₁.skipLineEnds.kind = .symbol .comma then
        (items expression bound >>= fun rest => pure (e :: rest)) c₁.skipLineEnds.advance
      else (some [e], c₁.skipLineEnds) := by
  rw [items, skipLineEnds_bind_apply, bind_of_eq_some he, skipLineEnds_bind_apply,
    eat_bind_apply]
  split <;> rfl

theorem items_complete (hread : Reads expression .disjunction d) {bound : List Token}
    {c : Cursor} {w v : List TokenKind} {ts : List Expr} (h : DerivesItems w ts)
    (hd : Expr.nestingAll ts ≤ d) (hc : dropLineEnds c.kinds = dropLineEnds (w ++ v))
    (hbound : c.kinds.length ≤ bound.length) (hcloses : closesExpr (v.headD .fileEnd) = true)
    (hline : v.headD .fileEnd ≠ .lineEnd) (hcomma : v.headD .fileEnd ≠ .symbol .comma) :
    ∃ found c', items expression bound c = (some found, c') ∧ c'.kinds = v ∧
      c'.findings = c.findings ∧ Expr.bareAll found = Expr.foldedAll ts := by
  match h with
  | @DerivesItems.one w e m n he =>
      have hd' : e.nesting < d := (Nat.max_le.mp hd).1
      obtain ⟨k, u, rfl, hk⟩ := he.exists_head
      have hword : dropLineEnds c.kinds = (k :: u) ++ (lineEnds n ++ v) := by
        rw [hc]
        simp [dropLineEnds_cons (opensExpr.ne_lineEnd hk)]
      have hlength := length_dropLineEnds_le c.kinds
      rw [hword, List.cons_append, List.length_cons] at hlength
      obtain ⟨_, bound, rfl⟩ := List.exists_cons_of_length_pos (l := bound) (by omega)
      obtain ⟨e', c₁, he', hv, hfindings, hbare⟩ :=
        hread.complete_padded he hd' hword hcloses hline
      have hkind : c₁.skipLineEnds.kind ≠ .symbol .comma := by
        rwa [Cursor.kind_eq_headD, hv]
      refine ⟨[e'], c₁.skipLineEnds, ?_, hv, hfindings, ?_⟩
      · rw [items_cons he', if_neg hkind]
      · exact congrArg (fun e => [e]) hbare
  | @DerivesItems.more w x e rest m n he hrest =>
      have hd' := Nat.max_le.mp hd
      obtain ⟨k, u, rfl, hk⟩ := he.exists_head
      have hword : dropLineEnds c.kinds =
          (k :: u) ++ (lineEnds n ++ .symbol .comma :: (x ++ v)) := by
        rw [hc]
        simp [dropLineEnds_cons (opensExpr.ne_lineEnd hk)]
      have hlength := length_dropLineEnds_le c.kinds
      rw [hword] at hlength
      simp only [List.length_append, List.length_cons] at hlength
      obtain ⟨_, bound, rfl⟩ := List.exists_cons_of_length_pos (l := bound) (by omega)
      rw [List.length_cons] at hbound
      obtain ⟨e', c₁, he', hv, hfindings, hbare⟩ :=
        hread.complete_padded he hd'.1 hword rfl (by simp)
      have hkind : c₁.skipLineEnds.kind = .symbol .comma := Cursor.kind_of_kinds_cons hv
      have hadvance : c₁.skipLineEnds.advance.kinds = x ++ v := by simp [hv]
      have hbound' : c₁.skipLineEnds.advance.kinds.length ≤ bound.length := by
        rw [hadvance, List.length_append]
        omega
      obtain ⟨found, c₂, hfound, hc₂, hfindings₂, hbares⟩ :=
        items_complete hread hrest hd'.2 (by rw [hadvance]) hbound' hcloses hline hcomma
      refine ⟨e' :: found, c₂, ?_, hc₂, ?_, ?_⟩
      · rw [items_cons he', if_pos hkind]
        exact bind_of_eq_some hfound
      · rw [hfindings₂, Cursor.findings_advance, hfindings]
      · change e'.bare :: Expr.bareAll found = e.folded :: Expr.foldedAll rest
        rw [hbare, hbares]

theorem honest_items (h : Honest expression) (bound : List Token) :
    Honest (items expression bound) := by
  induction bound with
  | nil => exact honest_fail _
  | cons _ bound ih =>
      apply honest_bind honest_skipLineEnds
      intro _
      apply honest_bind h
      intro item
      apply honest_bind honest_skipLineEnds
      intro _
      apply honest_bind (honest_eat _)
      intro found
      exact honest_ite (honest_bind ih fun rest => honest_pure _) (honest_pure _)

theorem honest_commaList (h : Honest expression) (close : Symbol) :
    Honest (commaList expression close) := by
  apply honest_bind honest_skipLineEnds
  intro _
  apply honest_bind (honest_eat _)
  intro found
  apply honest_ite (honest_pure _)
  apply honest_bind (honest_bounded (honest_items h))
  intro items
  exact honest_bind (honest_expect _) fun _ => honest_pure _

theorem commaList_sound (hread : Reads expression .disjunction d) {close : Symbol}
    {c c' : Cursor} {found : List Expr}
    (h : commaList expression close c = (some found, c')) :
    ListBetween DerivesList d c found (.symbol close :: c'.kinds) c' := by
  obtain ⟨m, hm⟩ := c.exists_kinds_eq_skipLineEnds
  rw [commaList, skipLineEnds_bind_apply, eat_bind_apply] at h
  split at h
  · rename_i hclose
    simp only [if_true, pure_apply, Prod.mk.injEq, Option.some.injEq] at h
    obtain ⟨rfl, rfl⟩ := h
    refine ⟨lineEnds m, [], ?_, .empty m, Nat.zero_le d, rfl, by simp⟩
    rw [← Cursor.kinds_eq_cons hclose (by simp), ← hm]
  · obtain ⟨items, c₁, hitems, h⟩ := bind_eq_some.mp h
    rw [expect_bind_apply] at h
    split at h
    · rename_i hclose
      simp only [pure_apply, Prod.mk.injEq, Option.some.injEq] at h
      obtain ⟨rfl, rfl⟩ := h
      obtain ⟨w, ts, hw, hts, hd, hbares, hfindings⟩ := items_sound hread hitems
      refine ⟨lineEnds m ++ w, ts, ?_, .items (hts.after_lineEnds m), hd, hbares, ?_⟩
      · rw [hm, hw, Cursor.kinds_eq_cons hclose (by simp)]
        simp
      · simpa using hfindings
    · simp at h

theorem commaList_complete (hread : Reads expression .disjunction d) {close : Symbol}
    (hclose : close = .rightParen ∨ close = .rightBracket) {c : Cursor} {w v : List TokenKind}
    {ts : List Expr} (h : DerivesList w ts) (hd : Expr.nestingAll ts ≤ d)
    (hc : c.kinds = w ++ .symbol close :: v) :
    ∃ found c', commaList expression close c = (some found, c') ∧ c'.kinds = v ∧
      c'.findings = c.findings ∧ Expr.bareAll found = Expr.foldedAll ts := by
  cases h with
  | empty n =>
      have hskip : c.skipLineEnds.kinds = .symbol close :: v := by
        rw [Cursor.kinds_skipLineEnds, hc, dropLineEnds_lineEnds_append,
          dropLineEnds_cons (by simp)]
      have hkind : c.skipLineEnds.kind = .symbol close := Cursor.kind_of_kinds_cons hskip
      refine ⟨[], c.skipLineEnds.advance, ?_, by simp [hskip], by simp, rfl⟩
      rw [commaList, skipLineEnds_bind_apply, eat_bind_apply, if_pos hkind]
      rfl
  | items hitems =>
      obtain ⟨k, u, hw, hk⟩ := hitems.dropLineEnds_eq
      obtain ⟨n, hn⟩ := exists_lineEnds_append w
      have hskip : c.skipLineEnds.kinds = k :: (u ++ .symbol close :: v) := by
        rw [Cursor.kinds_skipLineEnds, hc, hn, hw, List.append_assoc,
          dropLineEnds_lineEnds_append, List.cons_append,
          dropLineEnds_cons (opensExpr.ne_lineEnd hk)]
      have hkind : c.skipLineEnds.kind ≠ .symbol close := by
        rw [Cursor.kind_of_kinds_cons hskip]
        rintro rfl
        rcases hclose with rfl | rfl <;> simp [opensExpr] at hk
      have hword : dropLineEnds c.skipLineEnds.kinds = dropLineEnds (w ++ .symbol close :: v) := by
        rw [Cursor.kinds_skipLineEnds, hc, dropLineEnds_dropLineEnds]
      have hcloses : closesExpr (.symbol close) = true := by
        rcases hclose with rfl | rfl <;> rfl
      have hcomma : TokenKind.symbol close ≠ .symbol .comma := by
        rcases hclose with rfl | rfl <;> simp
      obtain ⟨found, c₁, hfound, hc₁, hfindings, hbares⟩ :=
        items_complete hread hitems hd hword (Nat.le_of_eq c.skipLineEnds.kinds_length) hcloses
          (by simp) hcomma
      have hkind₁ : c₁.kind = .symbol close := Cursor.kind_of_kinds_cons hc₁
      refine ⟨found, c₁.advance, ?_, by simp [hc₁], by simpa using hfindings, hbares⟩
      rw [commaList, skipLineEnds_bind_apply, eat_bind_apply, if_neg hkind]
      refine (bind_of_eq_some hfound).trans ?_
      rw [expect_bind_apply, if_pos hkind₁, pure_apply]

/-! ## Primary expressions -/

/-- A call or a list, from the token that opens its brackets. -/
theorem callArgs_sound (hread : Reads expression .disjunction d) {c c' : Cursor}
    {args : List Expr} (h : callArgs expression c = (some args, c')) :
    ∃ w ts, c.kinds = .symbol .leftParen :: (w ++ .symbol .rightParen :: c'.kinds) ∧
      DerivesList w ts ∧ Expr.nestingAll ts ≤ d ∧ Expr.bareAll args = Expr.foldedAll ts ∧
      c'.findings = c.findings := by
  rw [callArgs, expect_bind_apply] at h
  split at h
  · rename_i hopen
    obtain ⟨w, ts, hw, hts, hd, hbares, hfindings⟩ := commaList_sound hread h
    refine ⟨w, ts, ?_, hts, hd, hbares, by simpa using hfindings⟩
    rw [Cursor.kinds_eq_cons hopen (by simp), hw]
  · simp at h

theorem callArgs_complete (hread : Reads expression .disjunction d) {c : Cursor}
    {w v : List TokenKind} {ts : List Expr} (h : DerivesList w ts)
    (hd : Expr.nestingAll ts ≤ d)
    (hc : c.kinds = .symbol .leftParen :: (w ++ .symbol .rightParen :: v)) :
    ∃ args c', callArgs expression c = (some args, c') ∧ c'.kinds = v ∧
      c'.findings = c.findings ∧ Expr.bareAll args = Expr.foldedAll ts := by
  have hkind : c.kind = .symbol .leftParen := Cursor.kind_of_kinds_cons hc
  have hadvance : c.advance.kinds = w ++ .symbol .rightParen :: v := by simp [hc]
  obtain ⟨args, c', hargs, hv, hfindings, hbares⟩ :=
    commaList_complete hread (.inl rfl) h hd hadvance
  refine ⟨args, c', ?_, hv, by simpa using hfindings, hbares⟩
  rw [callArgs, expect_bind_apply, if_pos hkind, hargs]

theorem honest_callArgs (h : Honest expression) : Honest (callArgs expression) :=
  honest_bind (honest_expect _) fun _ => honest_commaList h _

/-- An expression of one token. -/
theorem exprBetween_advance {c : Cursor} {k : TokenKind} {e t : Expr} (hk : c.kind = k)
    (hne : k ≠ .fileEnd) (ht : DerivesExpr .primary [k] t) (hd : t.nesting = 0)
    (hbare : e.bare = t.folded) : ExprBetween .primary (d + 1) c e c.advance := by
  refine ⟨[k], t, Cursor.kinds_eq_cons hk hne, ht, ?_, hbare, c.findings_advance⟩
  rw [hd]
  exact Nat.succ_pos d

theorem nameOrCall_sound (hread : Reads expression .disjunction d) {c c' : Cursor} {x : String}
    {start : Span} {e : Expr} (hk : c.kind = .identifier x) (hx : x ≠ "\"")
    (h : nameOrCall expression x start c = (some e, c')) :
    ExprBetween .primary (d + 1) c e c' := by
  have hc : c.kinds = .identifier x :: c.advance.kinds := Cursor.kinds_eq_cons hk (by simp)
  rw [nameOrCall, advance_bind_apply, kind_bind_apply] at h
  split at h
  · obtain ⟨args, c₁, hargs, h⟩ := bind_eq_some.mp h
    simp only [lastSpan_bind_apply, pure_apply, Prod.mk.injEq, Option.some.injEq] at h
    obtain ⟨rfl, rfl⟩ := h
    obtain ⟨w, ts, hw, hts, hd, hbares, hfindings⟩ := callArgs_sound hread hargs
    refine ⟨_, _, ?_, .call hx hts, Nat.lt_succ_of_le hd, ?_, by simpa using hfindings⟩
    · rw [hc, hw]
      simp
    · simp [Expr.bare, Expr.folded, Ident.bare, hbares]
  · simp only [pure_apply, Prod.mk.injEq, Option.some.injEq] at h
    obtain ⟨rfl, rfl⟩ := h
    exact exprBetween_advance hk (by simp) (.name hx) rfl rfl

theorem builtinCall_sound (hread : Reads expression .disjunction d) {c c' : Cursor}
    {b : Builtin} {start : Span} {e : Expr} (hk : c.kind = .builtin b)
    (h : builtinCall expression b start c = (some e, c')) :
    ExprBetween .primary (d + 1) c e c' := by
  have hc : c.kinds = .builtin b :: c.advance.kinds := Cursor.kinds_eq_cons hk (by simp)
  rw [builtinCall, advance_bind_apply] at h
  obtain ⟨args, c₁, hargs, h⟩ := bind_eq_some.mp h
  rw [lastSpan_bind_apply] at h
  obtain ⟨w, ts, hw, hts, hd, hbares, hfindings⟩ := callArgs_sound hread hargs
  split at h
  · rename_i harity
    simp only [pure_apply, Prod.mk.injEq, Option.some.injEq] at h
    obtain ⟨rfl, rfl⟩ := h
    have hlength : ts.length = b.arity := by
      rw [← harity, ← Expr.length_bareAll args, hbares, Expr.length_foldedAll]
    refine ⟨_, _, ?_, .builtin hts hlength, Nat.lt_succ_of_le hd, ?_, by simpa using hfindings⟩
    · rw [hc, hw]
      simp
    · simp [Expr.bare, Expr.folded, hbares]
  · simp [failAt] at h

theorem listLiteral_sound (hread : Reads expression .disjunction d) {c c' : Cursor}
    {start : Span} {e : Expr} (hk : c.kind = .symbol .leftBracket)
    (h : listLiteral expression start c = (some e, c')) :
    ExprBetween .primary (d + 1) c e c' := by
  have hc : c.kinds = .symbol .leftBracket :: c.advance.kinds :=
    Cursor.kinds_eq_cons hk (by simp)
  rw [listLiteral, advance_bind_apply] at h
  obtain ⟨found, c₁, hfound, h⟩ := bind_eq_some.mp h
  simp only [lastSpan_bind_apply, pure_apply, Prod.mk.injEq, Option.some.injEq] at h
  obtain ⟨rfl, rfl⟩ := h
  obtain ⟨w, ts, hw, hts, hd, hbares, hfindings⟩ := commaList_sound hread hfound
  refine ⟨_, _, ?_, .list hts, Nat.lt_succ_of_le hd, ?_, by simpa using hfindings⟩
  · rw [hc, hw]
    simp
  · simp [Expr.bare, Expr.folded, hbares]

theorem parenthesized_sound (hread : Reads expression .disjunction d) {c c' : Cursor}
    {start : Span} {e : Expr} (hk : c.kind = .symbol .leftParen)
    (h : parenthesized expression start c = (some e, c')) :
    ExprBetween .primary (d + 1) c e c' := by
  have hc : c.kinds = .symbol .leftParen :: c.advance.kinds :=
    Cursor.kinds_eq_cons hk (by simp)
  rw [parenthesized, advance_bind_apply, skipLineEnds_bind_apply] at h
  obtain ⟨inner, c₁, hinner, h⟩ := bind_eq_some.mp h
  rw [skipLineEnds_bind_apply, expect_bind_apply] at h
  obtain ⟨m, n, w, t, hw, ht, hd, hbare, hfindings⟩ := (hread.sound hinner).padded
  split at h
  · rename_i hclose
    simp only [lastSpan_bind_apply, pure_apply, Prod.mk.injEq, Option.some.injEq] at h
    obtain ⟨rfl, rfl⟩ := h
    refine ⟨_, _, ?_, .paren m n ht, Nat.succ_lt_succ hd, ?_, by simpa using hfindings⟩
    · rw [hc, hw, Cursor.kinds_eq_cons hclose (by simp)]
      simp
    · simp [Expr.bare, Expr.folded, hbare]
  · simp at h

theorem primary_sound (hread : Reads expression .disjunction d) {c c' : Cursor} {e : Expr}
    (h : primary expression c = (some e, c')) : ExprBetween .primary (d + 1) c e c' := by
  rw [primary, span_bind_apply, kind_bind_apply] at h
  generalize hk : c.kind = k at h
  cases k with
  | number n =>
      cases h
      exact exprBetween_advance hk (by simp) (.number n) rfl rfl
  | text s =>
      cases h
      exact exprBetween_advance hk (by simp) (.text s) rfl rfl
  | identifier x =>
      by_cases hx : x = "\""
      · simp [hx, fail] at h
      · simp only [hx, if_false] at h
        exact nameOrCall_sound hread hk hx h
  | keyword word =>
      cases word with
      | trueWord =>
          cases h
          exact exprBetween_advance hk (by simp) .truth rfl rfl
      | falseWord =>
          cases h
          exact exprBetween_advance hk (by simp) .falsity rfl rfl
      | noneWord =>
          cases h
          exact exprBetween_advance hk (by simp) .nothing rfl rfl
      | _ => simp [fail] at h
  | builtin b => exact builtinCall_sound hread hk h
  | symbol mark =>
      cases mark with
      | leftBracket => exact listLiteral_sound hread hk h
      | leftParen => exact parenthesized_sound hread hk h
      | _ => simp [fail] at h
  | lineEnd => simp [fail] at h
  | fileEnd => simp [fail] at h

theorem reaches_advance {p : Parser Expr} {c : Cursor} {k : TokenKind} {v : List TokenKind}
    {e t : Expr} (hc : c.kinds = k :: v) (h : p c = (some e, c.advance))
    (hbare : e.bare = t.folded) : Reaches p c v t :=
  ⟨e, c.advance, h, by simp [hc], c.findings_advance, hbare⟩

/-- The literals, with the expressions they are. -/
inductive Literal : TokenKind → (Span → Expr) → Prop where
  | number (n : Number) : Literal (.number n) (fun span => .number span n)
  | text (s : String) : Literal (.text s) (fun span => .text span s)
  | truth : Literal (.keyword .trueWord) (fun span => .bool span true)
  | falsity : Literal (.keyword .falseWord) (fun span => .bool span false)
  | nothing : Literal (.keyword .noneWord) (fun span => .none span)

theorem primary_literal {c : Cursor} {k : TokenKind} {value : Span → Expr}
    (hk : c.kind = k) (h : Literal k value) :
    primary expression c = (some (value c.span), c.advance) := by
  rw [primary, span_bind_apply, kind_bind_apply, hk]
  cases h <;> rfl

theorem primary_name {c : Cursor} {x : String} (hk : c.kind = .identifier x) (hx : x ≠ "\"")
    (hnext : c.advance.kind ≠ .symbol .leftParen) :
    primary expression c = (some (.name c.span x), c.advance) := by
  simp only [primary, span_bind_apply, kind_bind_apply, hk, hx, if_false, nameOrCall,
    advance_bind_apply, hnext, pure_apply]

theorem primary_call {c c' : Cursor} {x : String} {found : List Expr}
    (hk : c.kind = .identifier x) (hx : x ≠ "\"")
    (hnext : c.advance.kind = .symbol .leftParen)
    (hfound : callArgs expression c.advance = (some found, c')) :
    primary expression c = (some (.call (c.span.merge c'.last) ⟨x, c.span⟩ found), c') := by
  simp only [primary, span_bind_apply, kind_bind_apply, hk, hx, if_false, nameOrCall,
    advance_bind_apply, hnext, if_true, bind_of_eq_some hfound, lastSpan_bind_apply, pure_apply]

theorem primary_builtin {c c' : Cursor} {b : Builtin} {found : List Expr}
    (hk : c.kind = .builtin b) (hfound : callArgs expression c.advance = (some found, c'))
    (hlength : found.length = b.arity) :
    primary expression c = (some (.builtin (c.span.merge c'.last) b found), c') := by
  simp only [primary, span_bind_apply, kind_bind_apply, hk, builtinCall, advance_bind_apply,
    bind_of_eq_some hfound, lastSpan_bind_apply, hlength, if_true, pure_apply]

theorem primary_list {c c' : Cursor} {found : List Expr} (hk : c.kind = .symbol .leftBracket)
    (hfound : commaList expression .rightBracket c.advance = (some found, c')) :
    primary expression c = (some (.list (c.span.merge c'.last) found), c') := by
  simp only [primary, span_bind_apply, kind_bind_apply, hk, listLiteral, advance_bind_apply,
    bind_of_eq_some hfound, lastSpan_bind_apply, pure_apply]

theorem primary_paren {c c₁ : Cursor} {inner : Expr} (hk : c.kind = .symbol .leftParen)
    (hinner : expression c.advance.skipLineEnds = (some inner, c₁))
    (hclose : c₁.skipLineEnds.kind = .symbol .rightParen) :
    primary expression c =
      (some (.paren (c.span.merge c₁.skipLineEnds.advance.last) inner),
        c₁.skipLineEnds.advance) := by
  simp only [primary, span_bind_apply, kind_bind_apply, hk, parenthesized, advance_bind_apply,
    skipLineEnds_bind_apply, bind_of_eq_some hinner, expect_bind_apply, hclose, if_true,
    lastSpan_bind_apply, pure_apply]

theorem primary_complete (hread : Reads expression .disjunction d) {L : Level}
    (hL : L = .primary) {c : Cursor} {w v : List TokenKind} {t : Expr} (ht : DerivesExpr L w t)
    (hd : t.nesting < d + 1) (hc : c.kinds = w ++ v)
    (hparen : v.headD .fileEnd ≠ .symbol .leftParen) : Reaches (primary expression) c v t := by
  match ht with
  | .number n =>
      exact reaches_advance hc (primary_literal (Cursor.kind_of_kinds_cons hc) (.number n)) rfl
  | .text s =>
      exact reaches_advance hc (primary_literal (Cursor.kind_of_kinds_cons hc) (.text s)) rfl
  | .truth =>
      exact reaches_advance hc (primary_literal (Cursor.kind_of_kinds_cons hc) .truth) rfl
  | .falsity =>
      exact reaches_advance hc (primary_literal (Cursor.kind_of_kinds_cons hc) .falsity) rfl
  | .nothing =>
      exact reaches_advance hc (primary_literal (Cursor.kind_of_kinds_cons hc) .nothing) rfl
  | @DerivesExpr.name x hx =>
      have hk : c.kind = .identifier x := Cursor.kind_of_kinds_cons hc
      have hnext : c.advance.kind ≠ .symbol .leftParen := by
        simpa [Cursor.kind_eq_headD, hc] using hparen
      exact reaches_advance hc (primary_name hk hx hnext) rfl
  | @DerivesExpr.call x u args hx hargs =>
      have hk : c.kind = .identifier x := Cursor.kind_of_kinds_cons hc
      have hadvance : c.advance.kinds =
          .symbol .leftParen :: (u ++ .symbol .rightParen :: v) := by simp [hc]
      have hnext : c.advance.kind = .symbol .leftParen := Cursor.kind_of_kinds_cons hadvance
      obtain ⟨found, c', hfound, hv, hfindings, hbares⟩ :=
        callArgs_complete hread hargs (Nat.le_of_lt_succ hd) hadvance
      exact ⟨_, c', primary_call hk hx hnext hfound, hv, by simpa using hfindings,
        congrArg (Expr.call .blank ⟨x, .blank⟩) hbares⟩
  | @DerivesExpr.builtin b u args hargs harity =>
      have hk : c.kind = .builtin b := Cursor.kind_of_kinds_cons hc
      have hadvance : c.advance.kinds =
          .symbol .leftParen :: (u ++ .symbol .rightParen :: v) := by simp [hc]
      obtain ⟨found, c', hfound, hv, hfindings, hbares⟩ :=
        callArgs_complete hread hargs (Nat.le_of_lt_succ hd) hadvance
      have hlength : found.length = b.arity := by
        rw [← harity, ← Expr.length_bareAll found, hbares, Expr.length_foldedAll]
      exact ⟨_, c', primary_builtin hk hfound hlength, hv, by simpa using hfindings,
        congrArg (Expr.builtin .blank b) hbares⟩
  | @DerivesExpr.list u items hitems =>
      have hk : c.kind = .symbol .leftBracket := Cursor.kind_of_kinds_cons hc
      have hadvance : c.advance.kinds = u ++ .symbol .rightBracket :: v := by simp [hc]
      obtain ⟨found, c', hfound, hv, hfindings, hbares⟩ :=
        commaList_complete hread (.inr rfl) hitems (Nat.le_of_lt_succ hd) hadvance
      exact ⟨_, c', primary_list hk hfound, hv, by simpa using hfindings,
        congrArg (Expr.list .blank) hbares⟩
  | @DerivesExpr.paren u e m n he =>
      have hk : c.kind = .symbol .leftParen := Cursor.kind_of_kinds_cons hc
      have hword : dropLineEnds c.advance.kinds =
          u ++ (lineEnds n ++ .symbol .rightParen :: v) := by
        obtain ⟨k, u, rfl, hk⟩ := he.exists_head
        simp [hc, dropLineEnds_cons (opensExpr.ne_lineEnd hk)]
      obtain ⟨inner, c₁, hinner, hv, hfindings, hbare⟩ :=
        hread.complete_padded he (Nat.lt_of_succ_lt_succ hd) hword rfl (by simp)
      have hclose : c₁.skipLineEnds.kind = .symbol .rightParen := Cursor.kind_of_kinds_cons hv
      exact ⟨_, c₁.skipLineEnds.advance, primary_paren hk hinner hclose, by simp [hv],
        by simpa using hfindings, congrArg (Expr.paren .blank) hbare⟩
  | @DerivesExpr.ascend L _ _ he =>
      have hnext : L.next = .primary := by rw [hL]; rfl
      exact primary_complete hread hnext he hd hc hparen
  | .chain _ _ hk _ | .join _ _ hk _ =>
      subst hL
      cases hk
  | .index _ _ _ _ | .sign _ _ => cases hL

theorem honest_literal (e : Expr) : Honest (literal e) :=
  honest_bind honest_advance fun _ => honest_pure e

theorem honest_primary (h : Honest expression) : Honest (primary expression) := by
  apply honest_bind honest_span
  intro start
  apply honest_bind honest_kind
  intro k
  cases k with
  | number n => exact honest_literal _
  | text s => exact honest_literal _
  | identifier x =>
      apply honest_ite (honest_fail _)
      apply honest_bind honest_advance
      intro _
      apply honest_bind honest_kind
      intro k
      apply honest_ite
      · apply honest_bind (honest_callArgs h)
        intro args
        exact honest_bind honest_lastSpan fun _ => honest_pure _
      · exact honest_pure _
  | keyword word => cases word <;> first | exact honest_literal _ | exact honest_fail _
  | builtin b =>
      apply honest_bind honest_advance
      intro _
      apply honest_bind (honest_callArgs h)
      intro args
      apply honest_bind honest_lastSpan
      intro stop
      exact honest_ite (honest_pure _) (honest_failAt _ _)
  | symbol mark =>
      cases mark with
      | leftBracket =>
          apply honest_bind honest_advance
          intro _
          apply honest_bind (honest_commaList h _)
          intro found
          exact honest_bind honest_lastSpan fun _ => honest_pure _
      | leftParen =>
          apply honest_bind honest_advance
          intro _
          apply honest_bind honest_skipLineEnds
          intro _
          apply honest_bind h
          intro inner
          apply honest_bind honest_skipLineEnds
          intro _
          apply honest_bind (honest_expect _)
          intro _
          exact honest_bind honest_lastSpan fun _ => honest_pure _
      | _ => exact honest_fail _
  | lineEnd => exact honest_fail _
  | fileEnd => exact honest_fail _

/-! ## Indices -/

theorem indexRest_sound (hread : Reads expression .disjunction d) {bound : List Token}
    {c₀ c c' : Cursor} {target e : Expr} (htarget : ExprBetween .indexed (d + 1) c₀ target c)
    (h : indexRest expression bound target c = (some e, c')) :
    ExprBetween .indexed (d + 1) c₀ e c' := by
  induction bound generalizing target c with
  | nil =>
      cases h
      exact htarget
  | cons _ bound ih =>
      rw [indexRest, eat_bind_apply] at h
      split at h
      · rename_i hopen
        simp only [if_true, skipLineEnds_bind_apply] at h
        obtain ⟨position, c₁, hposition, h⟩ := bind_eq_some.mp h
        rw [skipLineEnds_bind_apply, expect_bind_apply] at h
        split at h
        · rename_i hclose
          refine ih ?_ h
          obtain ⟨w, t, hw, ht, hd, hbare, hfindings⟩ := htarget
          obtain ⟨m, n, v, p, hv, hp, hdp, hbare', hfindings'⟩ := (hread.sound hposition).padded
          refine ⟨_, _, ?_, .index m n ht hp, ?_, ?_, ?_⟩
          · rw [hw, Cursor.kinds_eq_cons hopen (by simp), hv,
              Cursor.kinds_eq_cons hclose (by simp)]
            simp
          · exact Nat.max_lt.mpr ⟨hd, Nat.succ_lt_succ hdp⟩
          · simp [Expr.bare, Expr.folded, hbare, hbare']
          · rw [Cursor.findings_advance, hfindings', Cursor.findings_advance, hfindings]
        · simp at h
      · cases h
        exact htarget

theorem indexRest_cons {t : Token} {bound : List Token} {target position : Expr}
    {c c₁ : Cursor} (hopen : c.kind = .symbol .leftBracket)
    (hposition : expression c.advance.skipLineEnds = (some position, c₁))
    (hclose : c₁.skipLineEnds.kind = .symbol .rightBracket) :
    indexRest expression (t :: bound) target c =
      indexRest expression bound
        (.index (target.span.merge c₁.skipLineEnds.advance.last) target position)
        c₁.skipLineEnds.advance := by
  simp only [indexRest, eat_bind_apply, hopen, if_true, skipLineEnds_bind_apply,
    bind_of_eq_some hposition, expect_bind_apply, hclose, lastSpan_bind_apply]

/-- Whatever part of a run of indices has been read, its reader goes on with the rest. -/
theorem indexed_reaches_rest (hread : Reads expression .disjunction d) {L : Level}
    (hL : L = .indexed) {c : Cursor} {w v : List TokenKind} {t : Expr} (ht : DerivesExpr L w t)
    (hd : t.nesting < d + 1) (hc : c.kinds = w ++ v)
    (hparen : v.headD .fileEnd ≠ .symbol .leftParen) :
    ∃ bound e c', indexed expression c = indexRest expression bound e c' ∧ c'.kinds = v ∧
      v.length ≤ bound.length ∧ c'.findings = c.findings ∧ e.bare = t.folded := by
  match ht with
  | @DerivesExpr.ascend L _ _ he =>
      have hnext : L.next = .primary := by rw [hL]; rfl
      obtain ⟨e, c', he, hv, hfindings, hbare⟩ := primary_complete hread hnext he hd hc hparen
      refine ⟨c'.rest, e, c', bind_of_eq_some he, hv, ?_, hfindings, hbare⟩
      exact Nat.le_of_eq (by rw [← hv, Cursor.kinds_length])
  | @DerivesExpr.index x u _ p m n he hp =>
      have hd' := Nat.max_lt.mp hd
      have htarget : c.kinds = x ++ .symbol .leftBracket ::
          (lineEnds m ++ (u ++ (lineEnds n ++ .symbol .rightBracket :: v))) := by simp [hc]
      obtain ⟨bound, e, c₁, hindexed, hc₁, hbound, hfindings₁, hbare₁⟩ :=
        indexed_reaches_rest hread rfl he hd'.1 htarget (by simp)
      have hopen : c₁.kind = .symbol .leftBracket := Cursor.kind_of_kinds_cons hc₁
      have hword : dropLineEnds c₁.advance.kinds =
          u ++ (lineEnds n ++ .symbol .rightBracket :: v) := by
        obtain ⟨k, u, rfl, hk⟩ := hp.exists_head
        simp [hc₁, dropLineEnds_cons (opensExpr.ne_lineEnd hk)]
      obtain ⟨position, c₂, hposition, hc₂, hfindings₂, hbare₂⟩ :=
        hread.complete_padded hp (Nat.lt_of_succ_lt_succ hd'.2) hword rfl (by simp)
      have hclose : c₂.skipLineEnds.kind = .symbol .rightBracket := Cursor.kind_of_kinds_cons hc₂
      simp only [List.length_cons, List.length_append] at hbound
      obtain ⟨_, bound, rfl⟩ := List.exists_cons_of_length_pos (l := bound) (by omega)
      rw [List.length_cons] at hbound
      refine ⟨bound, .index (e.span.merge c₂.skipLineEnds.advance.last) e position,
        c₂.skipLineEnds.advance, ?_, by simp [hc₂], by omega, ?_, ?_⟩
      · rw [hindexed, indexRest_cons hopen hposition hclose]
      · rw [Cursor.findings_advance, hfindings₂, Cursor.findings_advance, hfindings₁]
      · change Expr.index .blank e.bare position.bare = .index .blank _ p.folded
        rw [hbare₁, hbare₂]
  | .chain _ _ hk _ | .join _ _ hk _ =>
      subst hL
      cases hk
  | .number _ | .text _ | .truth | .falsity | .nothing | .name _ | .call _ _ | .builtin _ _
  | .list _ | .paren _ _ _ | .sign _ _ => cases hL

theorem honest_indexRest (h : Honest expression) (bound : List Token) (target : Expr) :
    Honest (indexRest expression bound target) := by
  induction bound generalizing target with
  | nil => exact honest_pure target
  | cons _ bound ih =>
      apply honest_bind (honest_eat _)
      intro found
      apply honest_ite
      · apply honest_bind honest_skipLineEnds
        intro _
        apply honest_bind h
        intro position
        apply honest_bind honest_skipLineEnds
        intro _
        apply honest_bind (honest_expect _)
        intro _
        exact honest_bind honest_lastSpan fun _ => ih _
      · exact honest_pure target

theorem indexRest_of_ne {bound : List Token} {target : Expr} {c : Cursor}
    (h : c.kind ≠ .symbol .leftBracket) :
    indexRest expression bound target c = (some target, c) := by
  cases bound with
  | nil => rfl
  | cons _ bound =>
      rw [indexRest, eat_bind_apply, if_neg h]
      rfl

theorem reads_indexed (hread : Reads expression .disjunction d) :
    Reads (indexed expression) .indexed (d + 1) where
  sound := by
    intro c e c' h
    obtain ⟨target, c₁, htarget, hrest⟩ := bind_eq_some.mp h
    have hprimary : ExprBetween Level.indexed.next (d + 1) c target c₁ :=
      primary_sound hread htarget
    exact indexRest_sound hread hprimary.ascend hrest
  complete := by
    intro c w v t ht hd hc hstops
    obtain ⟨bound, e, c', hindexed, hv, -, hfindings, hbare⟩ :=
      indexed_reaches_rest hread rfl ht hd hc hstops.ne_paren
    have hkind : c'.kind ≠ .symbol .leftBracket := by
      rw [Cursor.kind_eq_headD, hv]
      exact hstops.ne_bracket
    exact ⟨e, c', hindexed.trans (indexRest_of_ne hkind), hv, hfindings, hbare⟩
  honest := honest_bind (honest_primary hread.honest) fun target =>
    honest_bounded fun bound => honest_indexRest hread.honest bound target

/-! ## Signs -/

variable {operand : Parser Expr}

theorem unaryOver_sound (hread : Reads expression .disjunction d)
    (hoperand : Reads operand .sign d) {c c' : Cursor} {e : Expr}
    (h : unaryOver expression operand c = (some e, c')) :
    ExprBetween .sign (d + 1) c e c' := by
  rw [unaryOver, kind_bind_apply] at h
  cases hk : unaryOp? c.kind with
  | none =>
      simp only [hk] at h
      have hindexed : ExprBetween Level.sign.next (d + 1) c e c' := (reads_indexed hread).sound h
      exact hindexed.ascend
  | some op =>
      simp only [hk, advance_bind_apply] at h
      have hsign := unaryOp?_eq_some_iff.mp hk
      obtain ⟨inner, c₁, hinner, h⟩ := bind_eq_some.mp h
      cases h
      obtain ⟨w, t, hw, ht, hd, hbare, hfindings⟩ := hoperand.sound hinner
      refine ⟨c.kind :: w, .unary .blank op t, ?_, .sign hsign ht, Nat.succ_lt_succ hd, ?_, ?_⟩
      · rw [Cursor.kinds_eq_kind_cons hsign.ne_fileEnd, hw]
        simp
      · rw [Expr.bare_unaryExpr, hbare, Expr.folded]
      · simpa using hfindings

theorem unaryOp?_eq_none_of_indexed {w v : List TokenKind} {e : Expr} {L : Level}
    (hL : L = .indexed ∨ L = .primary) (h : DerivesExpr L w e) :
    unaryOp? ((w ++ v).headD .fileEnd) = none := by
  match h with
  | .number _ | .text _ | .truth | .falsity | .nothing | .name _ | .call _ _ | .builtin _ _
  | .list _ | .paren _ _ _ => rfl
  | @DerivesExpr.index x u _ _ m n he _ =>
      simpa using unaryOp?_eq_none_of_indexed (v := .symbol .leftBracket ::
        (lineEnds m ++ (u ++ (lineEnds n ++ .symbol .rightBracket :: v)))) (.inl rfl) he
  | @DerivesExpr.ascend L _ _ he =>
      have hnext : L.next = .indexed ∨ L.next = .primary := by
        rcases hL with rfl | rfl <;> exact .inr rfl
      exact unaryOp?_eq_none_of_indexed hnext he
  | .sign _ _ => rcases hL with h | h <;> cases h
  | .chain _ _ hk _ | .join _ _ hk _ => rcases hL with rfl | rfl <;> cases hk

theorem unaryOver_complete (hread : Reads expression .disjunction d)
    (hoperand : Reads operand .sign d) {L : Level} (hL : L = .sign) {c : Cursor}
    {w v : List TokenKind} {t : Expr} (ht : DerivesExpr L w t) (hd : t.nesting < d + 1)
    (hc : c.kinds = w ++ v) (hstops : Stops .sign (v.headD .fileEnd)) :
    Reaches (unaryOver expression operand) c v t := by
  cases ht with
  | @sign k op u e hk he =>
      have hkind : c.kind = k := Cursor.kind_of_kinds_cons hc
      have hadvance : c.advance.kinds = u ++ v := by simp [hc]
      obtain ⟨inner, c', hinner, hv, hfindings, hbare⟩ :=
        hoperand.complete he (Nat.lt_of_succ_lt_succ hd) hadvance hstops
      refine ⟨unaryExpr c.peek.span op inner, c', ?_, hv, by simpa using hfindings, ?_⟩
      · simp only [unaryOver, kind_bind_apply, hkind, unaryOp?_eq_some_iff.mpr hk,
          advance_bind_apply, bind_of_eq_some hinner, pure_apply]
      · rw [Expr.bare_unaryExpr, hbare, Expr.folded]
  | ascend he =>
      subst hL
      have hnone : unaryOp? c.kind = none := by
        rw [Cursor.kind_eq_headD, hc]
        exact unaryOp?_eq_none_of_indexed (.inl rfl) he
      obtain ⟨e, c', he, hv, hfindings, hbare⟩ :=
        (reads_indexed hread).complete he hd hc hstops.next
      refine ⟨e, c', ?_, hv, hfindings, hbare⟩
      simp only [unaryOver, kind_bind_apply, hnone, he]
  | chain _ _ hk _ | join _ _ hk _ =>
      subst hL
      cases hk
  | _ => cases hL

theorem reads_unaryOver (hread : Reads expression .disjunction d)
    (hoperand : Reads operand .sign d) :
    Reads (unaryOver expression operand) .sign (d + 1) where
  sound h := unaryOver_sound hread hoperand h
  complete ht hd hc hstops := unaryOver_complete hread hoperand rfl ht hd hc hstops
  honest := by
    apply honest_bind honest_kind
    intro k
    cases unaryOp? k with
    | none => exact (reads_indexed hread).honest
    | some op =>
        apply honest_bind honest_advance
        intro sign
        exact honest_bind hoperand.honest fun _ => honest_pure _

end Bracketed

/-- Nothing nests less than zero deep. -/
theorem reads_fail (problem : Problem) (L : Level) : Reads (fail problem) L 0 where
  sound h := by simp [fail] at h
  complete _ hd := absurd hd (Nat.not_lt_zero _)
  honest := honest_fail problem

theorem reads_unary (levels : Nat) : Reads (unary levels) .sign (levels + 1) := by
  induction levels with
  | zero => exact reads_unaryOver (reads_fail _ _) (reads_fail _ _)
  | succ levels ih => exact reads_unaryOver (reads_binary ih) ih

/-- The reader of expressions reads the expressions of the grammar. -/
theorem reads_expression : Reads expression .disjunction maxExprDepth :=
  reads_binary (reads_unary (maxExprDepth - 1))

end KitchenScript.Parser
