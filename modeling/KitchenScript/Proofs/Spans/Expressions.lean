import KitchenScript.Proofs.Spans.Taking

/-!
# The spans of expressions

Every reader of expressions takes tokens that are the expression written out, or fails with a single
finding.  The span of an expression is put together in several ways, of the spans of its parts, of
its first token and the one taken last, or of a sign and a number; each of these runs over the
tokens from the first to the last.
-/

namespace KitchenScript

open Piece

theorem BinaryOp.mark_ne_fileEnd (op : BinaryOp) : op.mark ≠ .fileEnd := by
  cases op <;> simp [mark]

theorem UnaryOp.mark_ne_fileEnd (op : UnaryOp) : op.mark ≠ .fileEnd := by
  cases op <;> simp [mark]

theorem Grammar.Operator.eq_mark {L : Level} {k : TokenKind} {op : BinaryOp}
    (h : Operator L k op) : k = op.mark := by
  cases h <;> rfl

theorem Grammar.Sign.eq_mark {k : TokenKind} {op : UnaryOp} (h : Sign k op) : k = op.mark := by
  cases h <;> rfl

/-! ## Parts laid out one after the other -/

/-- The tokens are the parts written out, given that they do not overlap. -/
def Lays (w : List Token) (ps : List Piece) : Prop :=
  Ordered w → Fills Written w ps

def Writes (w : List Token) (n : Node) : Prop :=
  Ordered w → Written w n

namespace Lays

variable {v w : List Token} {ps qs : List Piece} {n : Node}

theorem nil : Lays [] [] :=
  fun _ => .nil

theorem append (h : Lays w ps) (h' : Lays v qs) : Lays (w ++ v) (ps ++ qs) :=
  fun hordered => (h hordered.left).append (h' hordered.right)

theorem mark {t : Token} {k : TokenKind} (h : Lays w ps) (ht : t.kind = k) :
    Lays (w ++ [t]) (ps ++ [.mark k]) :=
  h.append fun _ => .one_mark ht

theorem lineEnds (h : Lays w ps) (hv : Parser.AreLineEnds v) :
    Lays (w ++ v) (ps ++ [.lineEnds]) :=
  h.append fun _ => .only_lineEnds hv

theorem node (h : Lays w ps) (hn : Writes v n) : Lays (w ++ v) (ps ++ [.node n]) :=
  h.append fun hordered => .one_node (hn hordered)

theorem writes (h : Lays w n.parts) (hspan : Ordered w → n.span.Over w) : Writes w n :=
  fun hordered => .parts (h hordered) (hspan hordered)

end Lays

theorem Cursor.Took.covers {c d : Cursor} {w : List Token} {fs : List Finding} (h : Took c w fs d)
    (hw : w ≠ []) (hordered : Ordered w) : (c.span.merge d.last).Over w := by
  rcases h.exists_last hw with ⟨t, ht, hlast⟩
  rcases h.peek_cons with ⟨v, hv⟩
  rw [hlast]
  apply (Span.Over.singleton c.peek).merge (.singleton t) _ _ hordered
  · cases w with
    | nil => exact absurd rfl hw
    | cons a w =>
        rw [← (List.cons.inj hv).1]
        exact ⟨w, rfl⟩
  · rcases List.getLast?_eq_some_iff.mp ht with ⟨v, rfl⟩
    exact List.suffix_append v [t]

/-! ## Single nodes -/

theorem writes_ident {t : Token} {name : String} (ht : t.kind = .identifier name) :
    Writes [t] (.ident ⟨name, t.span⟩) :=
  Lays.nil.mark ht |>.writes fun _ => .singleton t

/-- An expression that is one token. -/
theorem writes_atom {t : Token} {k : TokenKind} {e : Expr} (ht : t.kind = k)
    (hparts : e.parts = [.mark k]) (hspan : e.span = t.span) : Writes [t] (.expr e) := by
  have hlays : Lays [t] (Node.expr e).parts := by
    rw [Node.parts, hparts]
    exact Lays.nil.mark ht
  apply hlays.writes
  intro _
  rw [Node.span, hspan]
  exact .singleton t

theorem writes_binaryExpr {v w : List Token} {t : Token} {op : BinaryOp} {left right : Expr}
    (hleft : Writes v (.expr left)) (ht : t.kind = op.mark) (hright : Writes w (.expr right)) :
    Writes (v ++ [t] ++ w) (.expr (Parser.binaryExpr left op right)) := by
  have hlays : Lays (v ++ [t] ++ w) [.node (.expr left), .mark op.mark, .node (.expr right)] :=
    ((Lays.nil.node hleft).mark ht).node hright
  apply hlays.writes
  intro h
  apply (hleft h.left.left).covers.merge (hright h.right).covers _ _ h
  · rw [List.append_assoc]
    exact List.prefix_append v _
  · exact List.suffix_append _ w

theorem writes_unaryExpr {w : List Token} {t : Token} {op : UnaryOp} {operand : Expr}
    (ht : t.kind = op.mark) (hoperand : Writes w (.expr operand)) :
    Writes ([t] ++ w) (.expr (Parser.unaryExpr t.span op operand)) := by
  intro h
  have hwritten := hoperand h.right
  have hover : (t.span.merge operand.span).Over ([t] ++ w) :=
    (Span.Over.singleton t).merge hwritten.covers ⟨w, rfl⟩ (List.suffix_append [t] w) h
  unfold Parser.unaryExpr
  split
  · rename_i s n
    have hsign := Written.sign ht hwritten
    have hmerge : t.span.merge s = ⟨t.span.first, s.last⟩ := by
      have hfirst := Option.some.inj (hover.1.symm.trans hsign.covers.1)
      have hlast := Option.some.inj (hover.2.symm.trans hsign.covers.2)
      exact congr (congrArg Span.mk hfirst) hlast
    rw [hmerge]
    exact hsign
  · exact .parts (.mark ht (.one_node hwritten)) hover

/-- Line ends in front of a list are part of it. -/
theorem Lays.separated_after {v w : List Token} {ns : List Node} (hv : Parser.AreLineEnds v)
    (h : Lays w (separated ns)) : Lays (v ++ w) (separated ns) := by
  intro hordered
  cases ns with
  | nil => exact (h hordered.right).after_lineEnds hv
  | cons n ns => exact (h hordered.right).after_lineEnds hv

theorem separated_cons {n : Node} {rest : List Node} (h : rest ≠ []) :
    separated (n :: rest) = item n ++ .mark (.symbol .comma) :: separated rest := by
  cases rest with
  | nil => exact absurd rfl h
  | cons m rest => simp [separated]

namespace Parser

open Cursor

def WritesExpr (w : List Token) (e : Expr) : Prop :=
  Writes w (.expr e)

/-- The reader gives an expression as it is written, or fails with one finding. -/
def Tells (p : Parser Expr) : Prop :=
  ∀ c, Outcome WritesExpr c (p c)

variable {c d : Cursor} {w : List Token}

theorem tells_fail (problem : Problem) : Tells (fail problem) :=
  fun c => .fail (.refl c) problem

/-! ## Binary operators -/

section Chain

variable {op? : TokenKind → Option BinaryOp} {operand : Parser Expr}

theorem chainRest_outcome (hop : ∀ {k op}, op? k = some op → k = op.mark)
    (hoperand : Tells operand) (bound : List Token) {left : Expr} (h : Took c w [] d)
    (hleft : WritesExpr w left) : Outcome WritesExpr c (chainRest op? operand bound left d) := by
  induction bound generalizing w d left with
  | nil => exact .pure h hleft
  | cons _ bound ih =>
      rw [chainRest, kind_bind_apply]
      cases hk : op? d.kind with
      | none => exact .pure h hleft
      | some op =>
          have hmark : d.kind = op.mark := hop hk
          have hne : d.kind ≠ .fileEnd := hmark ▸ op.mark_ne_fileEnd
          apply Outcome.bind (h.advance hne) (hoperand d.advance)
          intro v right e hright h'
          exact ih h' (writes_binaryExpr hleft hmark hright)

theorem tells_chain (hop : ∀ {k op}, op? k = some op → k = op.mark) (hoperand : Tells operand) :
    Tells (chain op? operand) := by
  intro c
  apply Outcome.bind (.refl c) (hoperand c)
  intro v left d hleft h
  exact chainRest_outcome hop hoperand d.rest h hleft

theorem tells_single (chained : Problem) (hop : ∀ {k op}, op? k = some op → k = op.mark)
    (hoperand : Tells operand) : Tells (single op? chained operand) := by
  intro c
  apply Outcome.bind (.refl c) (hoperand c)
  intro v left d hleft h
  rw [kind_bind_apply]
  cases hk : op? d.kind with
  | none => exact .pure h hleft
  | some op =>
      have hmark : d.kind = op.mark := hop hk
      have hne : d.kind ≠ .fileEnd := hmark ▸ op.mark_ne_fileEnd
      apply Outcome.bind (h.advance hne) (hoperand d.advance)
      intro v' right e hright h'
      rw [kind_bind_apply]
      by_cases hchained : (op? e.kind).isSome = true
      · rw [if_pos hchained]
        exact .fail h' chained
      · rw [if_neg hchained]
        exact .pure h' (writes_binaryExpr hleft hmark hright)

theorem tells_binary (hoperand : Tells operand) : Tells (binary operand) := by
  have hproduct := tells_chain (fun h => (productOp?_eq_some_iff.mp h).eq_mark) hoperand
  have hsum := tells_chain (fun h => (sumOp?_eq_some_iff.mp h).eq_mark) hproduct
  have hcomparison :=
    tells_single .chainedComparison (fun h => (comparisonOp?_eq_some_iff.mp h).eq_mark) hsum
  have hequality :=
    tells_single .chainedEquality (fun h => (equalityOp?_eq_some_iff.mp h).eq_mark) hcomparison
  have hconjunction := tells_chain (fun h => (andOp?_eq_some_iff.mp h).eq_mark) hequality
  exact tells_chain (fun h => (orOp?_eq_some_iff.mp h).eq_mark) hconjunction

end Chain

/-! ## Lists and brackets -/

section Bracketed

variable {expression : Parser Expr}

def LaysItems (w : List Token) (es : List Expr) : Prop :=
  es ≠ [] ∧ Lays w (separated (es.map .expr))

def LaysList (close : Symbol) (w : List Token) (es : List Expr) : Prop :=
  Lays w (separated (es.map .expr) ++ [.mark (.symbol close)])

def LaysCall (w : List Token) (es : List Expr) : Prop :=
  Lays w (.mark (.symbol .leftParen) ::
    (separated (es.map .expr) ++ [.mark (.symbol .rightParen)]))

theorem items_outcome (hexpr : Tells expression) (bound : List Token) (c : Cursor) :
    Outcome LaysItems c (items expression bound c) := by
  induction bound generalizing c with
  | nil => exact .fail (.refl c) _
  | cons _ bound ih =>
      apply Outcome.bind (.refl c) (skipLineEnds_outcome c)
      intro v _ d hv h
      apply Outcome.bind h (hexpr d)
      intro w e d he h
      apply Outcome.bind h (skipLineEnds_outcome d)
      intro v' _ d hv' h
      have hitem : Lays ([] ++ v ++ w ++ v') (item (.expr e)) :=
        ((Lays.nil.lineEnds hv).node he).lineEnds hv'
      apply Outcome.bind h (eat_outcome (by simp) d)
      intro u found d hu h
      cases found with
      | true =>
          rcases hu with ⟨t, rfl, hcomma⟩
          apply Outcome.bind h (ih d)
          intro u rest d hrest h
          refine .pure h ⟨by simp, ?_⟩
          have hne : rest.map Node.expr ≠ [] := by simpa using hrest.1
          rw [List.map_cons, separated_cons hne]
          exact (hitem.mark hcomma).append hrest.2
      | false =>
          obtain rfl : u = [] := hu
          rw [List.append_nil] at h
          exact .pure h ⟨by simp, hitem⟩

theorem commaList_outcome (hexpr : Tells expression) (close : Symbol) (c : Cursor) :
    Outcome (LaysList close) c (commaList expression close c) := by
  apply Outcome.bind (.refl c) (skipLineEnds_outcome c)
  intro v _ d hv h
  apply Outcome.bind h (eat_outcome (by simp) d)
  intro u found d hu h
  cases found with
  | true =>
      rcases hu with ⟨t, rfl, hclose⟩
      exact .pure h ((Lays.nil.lineEnds hv).mark hclose)
  | false =>
      obtain rfl : u = [] := hu
      rw [List.append_nil] at h
      apply Outcome.bind h (items_outcome hexpr d.rest d)
      intro w es d hes h
      apply Outcome.bind h (expect_outcome (by simp) d)
      rintro _ _ d ⟨t, rfl, hclose⟩ h
      exact .pure h ((Lays.separated_after hv hes.2).mark hclose)

theorem callArgs_outcome (hexpr : Tells expression) (c : Cursor) :
    Outcome LaysCall c (callArgs expression c) := by
  apply Outcome.bind (.refl c) (expect_outcome (by simp) c)
  rintro _ _ d ⟨t, rfl, hopen⟩ h
  apply Outcome.after h (commaList_outcome hexpr .rightParen d)
  intro w args hargs
  exact (Lays.nil.mark hopen).append hargs

theorem builtinCall_outcome (hexpr : Tells expression) {callee : Builtin}
    (hk : c.kind = .builtin callee) :
    Outcome WritesExpr c (builtinCall expression callee c.span c) := by
  have hne : c.kind ≠ .fileEnd := by simp [hk]
  apply Outcome.bind ((Took.refl c).advance hne) (callArgs_outcome hexpr _)
  intro w args d hargs h
  rw [lastSpan_bind_apply]
  by_cases harity : args.length = callee.arity
  · simp only [harity, if_true]
    have hlays := (Lays.nil.mark hk).append hargs
    exact .pure h (hlays.writes (n := .expr (.builtin _ callee args)) (h.covers (by simp)))
  · simp only [harity, if_false]
    -- the call starts at its own token, or at the one that was taken last
    rcases h.exists_last (by simp) with ⟨t, ht, hlast⟩
    refine .failed h ?_
    rw [hlast, Span.merge]
    by_cases hle : c.span.first ≤ t.span.first
    · exact ⟨c.peek, by simp, if_pos hle⟩
    · refine ⟨t, ?_, if_neg hle⟩
      exact List.mem_append_left _ (List.mem_of_mem_getLast? ht)

theorem nameOrCall_outcome (hexpr : Tells expression) {name : String}
    (hk : c.kind = .identifier name) :
    Outcome WritesExpr c (nameOrCall expression name c.span c) := by
  have hne : c.kind ≠ .fileEnd := by simp [hk]
  have h := (Took.refl c).advance hne
  rw [nameOrCall, advance_bind_apply, kind_bind_apply]
  split
  · apply Outcome.bind h (callArgs_outcome hexpr _)
    intro w args d hargs h
    have hlays := (Lays.nil.node (writes_ident hk)).append hargs
    exact .pure h (hlays.writes (n := .expr (.call _ ⟨name, c.span⟩ args)) (h.covers (by simp)))
  · exact .pure h (writes_atom hk rfl rfl)

theorem literal_outcome {k : TokenKind} {value : Expr} (hk : c.kind = k) (hne : k ≠ .fileEnd)
    (hparts : value.parts = [.mark k]) (hspan : value.span = c.span) :
    Outcome WritesExpr c (literal value c) := by
  have h := (Took.refl c).advance (by rwa [hk])
  exact .pure h (writes_atom hk hparts hspan)

theorem listLiteral_outcome (hexpr : Tells expression) (hk : c.kind = .symbol .leftBracket) :
    Outcome WritesExpr c (listLiteral expression c.span c) := by
  have hne : c.kind ≠ .fileEnd := by simp [hk]
  apply Outcome.bind ((Took.refl c).advance hne) (commaList_outcome hexpr _ _)
  intro w found d hfound h
  have hlays := (Lays.nil.mark hk).append hfound
  exact .pure h (hlays.writes (n := .expr (.list _ found)) (h.covers (by simp)))

theorem parenthesized_outcome (hexpr : Tells expression) (hk : c.kind = .symbol .leftParen) :
    Outcome WritesExpr c (parenthesized expression c.span c) := by
  have hne : c.kind ≠ .fileEnd := by simp [hk]
  rw [parenthesized, advance_bind_apply]
  apply Outcome.bind ((Took.refl c).advance hne) (skipLineEnds_outcome c.advance)
  intro v _ d hv h
  apply Outcome.bind h (hexpr d)
  intro w inner d hinner h
  apply Outcome.bind h (skipLineEnds_outcome d)
  intro v' _ d hv' h
  apply Outcome.bind h (expect_outcome (by simp) d)
  rintro _ _ d ⟨t, rfl, hclose⟩ h
  have hlays := ((((Lays.nil.mark hk).lineEnds hv).node hinner).lineEnds hv').mark hclose
  exact .pure h (hlays.writes (n := .expr (.paren _ inner)) (h.covers (by simp)))

theorem tells_primary (hexpr : Tells expression) : Tells (primary expression) := by
  intro c
  rw [primary, span_bind_apply, kind_bind_apply]
  generalize hk : c.kind = k
  cases k with
  | number n => exact literal_outcome hk (by simp) rfl rfl
  | text s => exact literal_outcome hk (by simp) rfl rfl
  | identifier x =>
      by_cases hx : x = "\""
      · simp only [hx, if_true]
        exact .fail (.refl c) _
      · simp only [hx, if_false]
        exact nameOrCall_outcome hexpr hk
  | keyword word =>
      cases word with
      | trueWord => exact literal_outcome hk (by simp) rfl rfl
      | falseWord => exact literal_outcome hk (by simp) rfl rfl
      | noneWord => exact literal_outcome hk (by simp) rfl rfl
      | _ => exact .fail (.refl c) _
  | builtin b => exact builtinCall_outcome hexpr hk
  | symbol mark =>
      cases mark with
      | leftBracket => exact listLiteral_outcome hexpr hk
      | leftParen => exact parenthesized_outcome hexpr hk
      | _ => exact .fail (.refl c) _
  | lineEnd => exact .fail (.refl c) _
  | fileEnd => exact .fail (.refl c) _

theorem writes_index {u v w v' : List Token} {t t' : Token} {target position : Expr}
    (htarget : WritesExpr w target) (hopen : t.kind = .symbol .leftBracket) (hv : AreLineEnds v)
    (hposition : WritesExpr u position) (hv' : AreLineEnds v')
    (hclose : t'.kind = .symbol .rightBracket) :
    WritesExpr (w ++ [t] ++ v ++ u ++ v' ++ [t'])
      (.index (target.span.merge t'.span) target position) := by
  have hlays := (((((Lays.nil.node htarget).mark hopen).lineEnds hv).node hposition).lineEnds
    hv').mark hclose
  apply hlays.writes (n := .expr (.index _ target position))
  intro hordered
  simp only [List.append_assoc, List.nil_append] at hordered ⊢
  apply (htarget hordered.left).covers.merge (.singleton t') (List.prefix_append w _) _ hordered
  simp only [← List.append_assoc]
  exact List.suffix_append _ [t']

theorem indexRest_outcome (hexpr : Tells expression) (bound : List Token) {target : Expr}
    (h : Took c w [] d) (htarget : WritesExpr w target) :
    Outcome WritesExpr c (indexRest expression bound target d) := by
  induction bound generalizing w d target with
  | nil => exact .pure h htarget
  | cons _ bound ih =>
      apply Outcome.bind h (eat_outcome (by simp) d)
      intro u found d hu h
      cases found with
      | true =>
          rcases hu with ⟨t, rfl, hopen⟩
          apply Outcome.bind h (skipLineEnds_outcome d)
          intro v _ d hv h
          apply Outcome.bind h (hexpr d)
          intro u position d hposition h
          apply Outcome.bind h (skipLineEnds_outcome d)
          intro v' _ d hv' h
          apply Outcome.bind h (expect_outcome (by simp) d)
          rintro _ _ d ⟨t', rfl, hclose⟩ h
          have hlast : d.last = t'.span := by rw [h.last, List.getLast?_concat]; rfl
          rw [lastSpan_bind_apply, hlast]
          exact ih h (writes_index htarget hopen hv hposition hv' hclose)
      | false =>
          obtain rfl : u = [] := hu
          rw [List.append_nil] at h
          exact .pure h htarget

theorem tells_indexed (hexpr : Tells expression) : Tells (indexed expression) := by
  intro c
  apply Outcome.bind (.refl c) (tells_primary hexpr c)
  intro w target d htarget h
  exact indexRest_outcome hexpr d.rest h htarget

/-! ## Signs -/

theorem tells_unaryOver {operand : Parser Expr} (hexpr : Tells expression)
    (hoperand : Tells operand) : Tells (unaryOver expression operand) := by
  intro c
  rw [unaryOver, kind_bind_apply]
  cases hk : unaryOp? c.kind with
  | none => exact tells_indexed hexpr c
  | some op =>
      have hmark : c.kind = op.mark := (unaryOp?_eq_some_iff.mp hk).eq_mark
      have hne : c.kind ≠ .fileEnd := hmark ▸ op.mark_ne_fileEnd
      apply Outcome.bind ((Took.refl c).advance hne) (hoperand _)
      intro w inner d hinner h
      exact .pure h (writes_unaryExpr hmark hinner)

end Bracketed

theorem tells_unary (levels : Nat) : Tells (unary levels) := by
  induction levels with
  | zero => exact tells_unaryOver (tells_fail _) (tells_fail _)
  | succ levels ih => exact tells_unaryOver (tells_binary ih) ih

theorem tells_expression : Tells expression :=
  tells_binary (tells_unary _)

end Parser

end KitchenScript
