import KitchenScript.Proofs.Grammar.Statements
import KitchenScript.Proofs.Layout.Respan

/-!
# Reading follows a change of layout

Two cursors are in step when the tokens of one are those of the other after a relayout.  Every
reader, run from two such cursors, gives the same answer on both sides after the relayout, and
leaves the cursors in step; where it fails it fails on both, with the same problem.

The span of the token taken last is the one thing that need not agree from the start, since no
reader looks at it before it has taken a token.  So cursors in step may leave it open, and a reader
is described by whether it needs to know that span and by whether it is known afterwards.
-/

namespace KitchenScript

/-- The cursors have the same tokens to come, up to the relayout, and the same problems found; if
`known`, they also agree on the token taken last. -/
structure InStep (r : Relayout) (known : Bool) (c c' : Cursor) : Prop where
  rest : c'.rest = c.rest.map (Token.respan r)
  problems : c'.findings.map Finding.problem = c.findings.map Finding.problem
  last : known = true → c'.last = r.place c.last

namespace InStep

variable {r : Relayout} {known : Bool} {c c' : Cursor}

theorem unknown (h : InStep r known c c') : InStep r false c c' where
  rest := h.rest
  problems := h.problems
  last := nofun

theorem kinds_eq (h : InStep r known c c') : c'.kinds = c.kinds := by
  simp [Cursor.kinds, h.rest]

theorem kind_eq (h : InStep r known c c') : c'.kind = c.kind := by
  rw [Cursor.kind_eq_headD, Cursor.kind_eq_headD, h.kinds_eq]

theorem kindPastLineEnds_eq (h : InStep r known c c') :
    c'.kindPastLineEnds = c.kindPastLineEnds := by
  rw [Cursor.kindPastLineEnds_eq, Cursor.kindPastLineEnds_eq, h.kinds_eq]

theorem isFull_eq (h : InStep r known c c') : c'.isFull = c.isFull := by
  have hlength := congrArg List.length h.problems
  simp only [List.length_map] at hlength
  rw [Cursor.isFull, Cursor.isFull, hlength]

/-- Where the file has not ended there is a token to come. -/
theorem peek_eq (h : InStep r known c c') (hk : c.kind ≠ .fileEnd) :
    c'.peek = c.peek.respan r := by
  obtain ⟨rest, last, findings⟩ := c
  cases rest with
  | nil => exact absurd rfl hk
  | cons t rest => simp [Cursor.peek, h.rest]

theorem span_eq (h : InStep r known c c') (hk : c.kind ≠ .fileEnd) : c'.span = r.place c.span :=
  congrArg Token.span (h.peek_eq hk)

theorem advance (h : InStep r known c c') : InStep r known c.advance c'.advance := by
  obtain ⟨rest, last, findings⟩ := c
  obtain ⟨rest', last', findings'⟩ := c'
  obtain rfl := h.rest
  cases rest with
  | nil => exact h
  | cons t rest => exact ⟨rfl, h.problems, fun _ => rfl⟩

/-- Once a token has been taken it is known which one was the last. -/
theorem advance_known (h : InStep r known c c') (hk : c.kind ≠ .fileEnd) :
    InStep r true c.advance c'.advance := by
  obtain ⟨rest, last, findings⟩ := c
  obtain ⟨rest', last', findings'⟩ := c'
  obtain rfl := h.rest
  cases rest with
  | nil => exact absurd rfl hk
  | cons t rest => exact ⟨rfl, h.problems, fun _ => rfl⟩

theorem report (h : InStep r known c c') (problem : Problem) (s s' : Span) :
    InStep r known (c.report problem s) (c'.report problem s') where
  rest := h.rest
  problems := by simp [h.problems]
  last := h.last

theorem skipLineEnds_go (h : InStep r known c c') (rest : List Token) {last last' : Span}
    (hlast : known = true → last' = r.place last) :
    InStep r known (Cursor.skipLineEnds.go c rest last)
      (Cursor.skipLineEnds.go c' (rest.map (Token.respan r)) last') := by
  induction rest generalizing last last' with
  | nil => exact ⟨rfl, h.problems, hlast⟩
  | cons t rest ih =>
      rw [List.map_cons, Cursor.skipLineEnds.go, Cursor.skipLineEnds.go, Token.kind_respan]
      by_cases ht : t.kind = .lineEnd
      · rw [if_pos ht, if_pos ht]
        exact ih fun _ => rfl
      · rw [if_neg ht, if_neg ht]
        exact ⟨rfl, h.problems, hlast⟩

theorem skipLineEnds (h : InStep r known c c') :
    InStep r known c.skipLineEnds c'.skipLineEnds := by
  rw [Cursor.skipLineEnds, Cursor.skipLineEnds, h.rest]
  exact h.skipLineEnds_go c.rest h.last

theorem synchronize_go (h : InStep r known c c') (inBlock : Bool) (rest : List Token)
    {last last' : Span} (hlast : known = true → last' = r.place last) :
    InStep r known (Cursor.synchronize.go inBlock c rest last)
      (Cursor.synchronize.go inBlock c' (rest.map (Token.respan r)) last') := by
  induction rest generalizing last last' with
  | nil => exact ⟨rfl, h.problems, hlast⟩
  | cons t rest ih =>
      have hstay : InStep r known ⟨t :: rest, last, c.findings⟩
          ⟨t.respan r :: rest.map (Token.respan r), last', c'.findings⟩ :=
        ⟨rfl, h.problems, hlast⟩
      rw [List.map_cons, Cursor.synchronize.go, Cursor.synchronize.go, Token.kind_respan]
      by_cases hend : t.kind = .fileEnd
      · rw [if_pos hend, if_pos hend]
        exact hstay
      rw [if_neg hend, if_neg hend]
      by_cases hline : t.kind = .lineEnd
      · rw [if_pos hline, if_pos hline]
        exact hstay.skipLineEnds
      rw [if_neg hline, if_neg hline]
      by_cases hclose : inBlock = true ∧ t.kind = .symbol .rightBrace
      · rw [if_pos hclose, if_pos hclose]
        exact hstay
      · rw [if_neg hclose, if_neg hclose]
        exact ih fun _ => rfl

theorem synchronize (h : InStep r known c c') (inBlock : Bool) :
    InStep r known (c.synchronize inBlock) (c'.synchronize inBlock) := by
  rw [Cursor.synchronize, Cursor.synchronize, h.rest]
  exact h.synchronize_go inBlock c.rest h.last

theorem startsAssignment_eq (h : InStep r known c c') :
    Parser.startsAssignment c' = Parser.startsAssignment c := by
  rw [Bool.eq_iff_iff, Parser.startsAssignment_iff, Parser.startsAssignment_iff, h.kinds_eq]

end InStep

/-- Two readings went the same way: both succeeded, with results that `f` takes to each other, or
both failed. -/
inductive SameWay (r : Relayout) (known : Bool) (f : α → α) :
    Option α × Cursor → Option α × Cursor → Prop where
  | read {a : α} {c c' : Cursor} :
      InStep r known c c' → SameWay r known f (some a, c) (some (f a), c')
  | failed {c c' : Cursor} : InStep r false c c' → SameWay r known f (none, c) (none, c')

namespace Parser

/-- From cursors in step, the two readers go the same way. -/
def Lockstep (r : Relayout) (before after : Bool) (f : α → α) (p p' : Parser α) : Prop :=
  ∀ c c' : Cursor, InStep r before c c' → SameWay r after f (p c) (p' c')

variable {r : Relayout} {before after known : Bool} {f : α → α} {g : β → β}

/-! ## Primitive readers -/

theorem lockstep_pure {a a' : α} (h : a' = f a) :
    Lockstep r known known f (pure a : Parser α) (pure a') := by
  subst h
  intro c c' hc
  exact .read hc

theorem lockstep_fail (problem : Problem) :
    Lockstep r before after f (fail problem : Parser α) (fail problem) := by
  intro c c' hc
  exact .failed (hc.unknown.report _ _ _)

theorem lockstep_failAt (problem : Problem) (s s' : Span) :
    Lockstep r before after f (failAt problem s : Parser α) (failAt problem s') := by
  intro c c' hc
  exact .failed (hc.unknown.report _ _ _)

theorem Lockstep.weaken {p p' : Parser α} (h : Lockstep r false after f p p') :
    Lockstep r before after f p p' :=
  fun c c' hc => h c c' hc.unknown

theorem Lockstep.bind {x x' : Parser α} {p p' : α → Parser β}
    (hx : Lockstep r before known f x x')
    (hp : ∀ a, Lockstep r known after g (p a) (p' (f a))) :
    Lockstep r before after g (x >>= p) (x' >>= p') := by
  intro c c' hc
  have hfirst := hx c c' hc
  show SameWay r after g (Parser.bind x p c) (Parser.bind x' p' c')
  unfold Parser.bind
  generalize x c = y, x' c' = y' at hfirst
  cases hfirst with
  | read hread => exact hp _ _ _ hread
  | failed hfailed => exact .failed hfailed

theorem lockstep_ite {q : Prop} [Decidable q] {x x' y y' : Parser α}
    (hx : Lockstep r before after f x x') (hy : Lockstep r before after f y y') :
    Lockstep r before after f (if q then x else y) (if q then x' else y') := by
  by_cases hq : q
  · rwa [if_pos hq, if_pos hq]
  · rwa [if_neg hq, if_neg hq]

/-- A reader that is told the tokens to come, to bound its rounds. -/
theorem lockstep_bounded {p q : List Token → Parser α}
    (h : ∀ bound, Lockstep r before after f (p bound) (q (bound.map (Token.respan r)))) :
    Lockstep r before after f (fun c => p c.rest c) (fun c => q c.rest c) := by
  intro c c' hc
  show SameWay r after f (p c.rest c) (q c'.rest c')
  rw [hc.rest]
  exact h c.rest c c' hc

theorem lockstep_kind_bind {p p' : TokenKind → Parser β}
    (h : ∀ k, Lockstep r before after g (p k) (p' k)) :
    Lockstep r before after g (kind >>= p) (kind >>= p') := by
  intro c c' hc
  rw [kind_bind_apply, kind_bind_apply, hc.kind_eq]
  exact h c.kind c c' hc

theorem lockstep_lastSpan_bind {p p' : Span → Parser β}
    (h : ∀ s, Lockstep r true after g (p s) (p' (r.place s))) :
    Lockstep r true after g (lastSpan >>= p) (lastSpan >>= p') := by
  intro c c' hc
  rw [lastSpan_bind_apply, lastSpan_bind_apply, hc.last rfl]
  exact h c.last c c' hc

theorem lockstep_skipLineEnds_bind {p p' : Parser β} (h : Lockstep r before after g p p') :
    Lockstep r before after g (skipLineEnds >>= fun _ => p) (skipLineEnds >>= fun _ => p') := by
  intro c c' hc
  exact h _ _ hc.skipLineEnds

theorem lockstep_advance_bind {p p' : Parser β} (h : Lockstep r before after g p p') :
    Lockstep r before after g (advance >>= fun _ => p) (advance >>= fun _ => p') := by
  intro c c' hc
  exact h _ _ hc.advance

/-- A token that is there to be taken, and whose span the rest of the reader may use. -/
theorem sameWay_advance_bind {p p' : Token → Parser β} {c c' : Cursor}
    (hc : InStep r before c c') (hk : c.kind ≠ .fileEnd)
    (h : ∀ t, Lockstep r true after g (p t) (p' (t.respan r))) :
    SameWay r after g ((advance >>= p) c) ((advance >>= p') c') := by
  rw [advance_bind_apply, advance_bind_apply, hc.peek_eq hk]
  exact h c.peek _ _ (hc.advance_known hk)

theorem lockstep_eat_bind {k : TokenKind} (hk : k ≠ .fileEnd) {p p' : Bool → Parser β}
    (htaken : Lockstep r true after g (p true) (p' true))
    (hleft : Lockstep r before after g (p false) (p' false)) :
    Lockstep r before after g (eat k >>= p) (eat k >>= p') := by
  intro c c' hc
  rw [eat_bind_apply, eat_bind_apply, hc.kind_eq]
  by_cases hck : c.kind = k
  · rw [if_pos hck, if_pos hck]
    exact htaken _ _ (hc.advance_known (by rwa [hck]))
  · rw [if_neg hck, if_neg hck]
    exact hleft c c' hc

theorem lockstep_expect_bind {k : TokenKind} (hk : k ≠ .fileEnd) {p p' : Parser β}
    (h : Lockstep r true after g p p') :
    Lockstep r before after g (expect k >>= fun _ => p) (expect k >>= fun _ => p') := by
  intro c c' hc
  rw [expect_bind_apply, expect_bind_apply, hc.kind_eq]
  by_cases hck : c.kind = k
  · rw [if_pos hck, if_pos hck]
    exact h _ _ (hc.advance_known (by rwa [hck]))
  · rw [if_neg hck, if_neg hck]
    exact .failed (hc.unknown.report _ _ _)

theorem lockstep_ident : Lockstep r before true (Ident.respan r) ident ident := by
  intro c c' hc
  unfold ident
  rw [hc.kind_eq]
  cases hk : c.kind with
  | identifier name =>
      have hspan := hc.span_eq (by simp [hk])
      rw [hspan]
      exact .read (hc.advance_known (by simp [hk]))
  | _ =>
      simp only
      split <;> exact .failed (hc.unknown.report _ _ _)

theorem lockstep_statementEnd (inBlock : Bool) :
    Lockstep r known known id (statementEnd inBlock) (statementEnd inBlock) := by
  intro c c' hc
  have hpass : ∀ found, SameWay r known id
      (some (), (c.report (.notLineEnd found) c.span).synchronize inBlock)
      (some (), (c'.report (.notLineEnd found) c'.span).synchronize inBlock) :=
    fun found => .read ((hc.report _ _ _).synchronize inBlock)
  unfold statementEnd
  rw [hc.kind_eq]
  cases hk : c.kind with
  | fileEnd => exact .read hc
  | lineEnd => exact .read hc.skipLineEnds
  | symbol mark =>
      cases mark with
      | rightBrace => exact .read hc
      | _ => exact hpass _
  | _ => exact hpass _

/-! ## Expressions -/

/-- The reader follows a relayout, and takes a token where it succeeds. -/
def Follows (r : Relayout) (p : Parser Expr) : Prop :=
  Lockstep r false true (Expr.respan r) p p

section Chain

variable {operand : Parser Expr} (op? : TokenKind → Option BinaryOp)

theorem lockstep_chainRest (hoperand : Follows r operand) (bound : List Token) (left : Expr) :
    Lockstep r true true (Expr.respan r) (chainRest op? operand bound left)
      (chainRest op? operand (bound.map (Token.respan r)) (left.respan r)) := by
  induction bound generalizing left with
  | nil => exact lockstep_pure rfl
  | cons t bound ih =>
      apply lockstep_kind_bind
      intro k
      cases op? k with
      | none => exact lockstep_pure rfl
      | some op =>
          apply lockstep_advance_bind
          refine hoperand.weaken.bind fun right => ?_
          rw [← Expr.respan_binaryExpr]
          exact ih (binaryExpr left op right)

theorem follows_chain (hoperand : Follows r operand) : Follows r (chain op? operand) :=
  hoperand.bind fun left =>
    lockstep_bounded (p := fun bound => chainRest op? operand bound left)
      (q := fun bound => chainRest op? operand bound (left.respan r)) fun bound =>
        lockstep_chainRest op? hoperand bound left

theorem follows_single (chained : Problem) (hoperand : Follows r operand) :
    Follows r (single op? chained operand) := by
  refine hoperand.bind fun left => ?_
  apply lockstep_kind_bind
  intro k
  cases op? k with
  | none => exact lockstep_pure rfl
  | some op =>
      apply lockstep_advance_bind
      refine hoperand.weaken.bind fun right => ?_
      apply lockstep_kind_bind
      intro k'
      refine lockstep_ite (lockstep_fail chained) (lockstep_pure ?_)
      exact (Expr.respan_binaryExpr r left op right).symm

end Chain

theorem follows_binary {operand : Parser Expr} (hoperand : Follows r operand) :
    Follows r (binary operand) :=
  follows_chain _ <| follows_chain _ <| follows_single _ _ <| follows_single _ _ <|
    follows_chain _ <| follows_chain _ hoperand

section Bracketed

variable {expression : Parser Expr}

theorem lockstep_items (h : Follows r expression) (bound : List Token) :
    Lockstep r false false (Expr.respanAll r) (items expression bound)
      (items expression (bound.map (Token.respan r))) := by
  induction bound with
  | nil => exact lockstep_fail _
  | cons t bound ih =>
      apply lockstep_skipLineEnds_bind
      refine h.bind fun item => ?_
      apply lockstep_skipLineEnds_bind
      apply lockstep_eat_bind (by simp)
      · exact ih.weaken.bind fun rest => lockstep_pure rfl
      · intro c c' hc
        exact .read hc.unknown

theorem lockstep_commaList (h : Follows r expression) (close : Symbol) :
    Lockstep r before true (Expr.respanAll r) (commaList expression close)
      (commaList expression close) := by
  apply lockstep_skipLineEnds_bind
  apply lockstep_eat_bind (by simp)
  · exact lockstep_pure rfl
  · have hitems : Lockstep r before false (Expr.respanAll r)
        (fun c => items expression c.rest c) (fun c => items expression c.rest c) :=
      lockstep_bounded fun bound => (lockstep_items h bound).weaken
    exact hitems.bind fun found => lockstep_expect_bind (by simp) (lockstep_pure rfl)

theorem lockstep_callArgs (h : Follows r expression) :
    Lockstep r before true (Expr.respanAll r) (callArgs expression) (callArgs expression) :=
  lockstep_expect_bind (by simp) (lockstep_commaList h _)

/-- What follows the opening mark of an expression in brackets. -/
theorem lockstep_bracketed (h : Follows r expression) (close : Symbol)
    {p p' : Expr → Span → Parser Expr}
    (hp : ∀ e s, Lockstep r true true (Expr.respan r) (p e s) (p' (e.respan r) (r.place s))) :
    Lockstep r before true (Expr.respan r)
      (skipLineEnds >>= fun _ => expression >>= fun e => skipLineEnds >>= fun _ =>
        expect (.symbol close) >>= fun _ => lastSpan >>= p e)
      (skipLineEnds >>= fun _ => expression >>= fun e => skipLineEnds >>= fun _ =>
        expect (.symbol close) >>= fun _ => lastSpan >>= p' e) := by
  apply lockstep_skipLineEnds_bind
  refine h.weaken.bind fun e => ?_
  apply lockstep_skipLineEnds_bind
  apply lockstep_expect_bind (by simp)
  exact lockstep_lastSpan_bind (hp e)

theorem follows_primary (h : Follows r expression) : Follows r (primary expression) := by
  intro c c' hc
  rw [primary, span_bind_apply, span_bind_apply, kind_bind_apply, kind_bind_apply, hc.kind_eq]
  by_cases hend : c.kind = .fileEnd
  · rw [hend]
    exact lockstep_fail _ c c' hc
  rw [hc.span_eq hend]
  have hliteral : ∀ e : Expr, SameWay r true (Expr.respan r) (literal e c)
      (literal (e.respan r) c') :=
    fun e => sameWay_advance_bind hc hend fun _ => lockstep_pure rfl
  cases hk : c.kind with
  | number n => exact hliteral (.number c.span n)
  | text s => exact hliteral (.text c.span s)
  | identifier name =>
      by_cases hquote : name = "\""
      · simp only [if_pos hquote]
        exact lockstep_fail _ c c' hc
      simp only [if_neg hquote]
      refine sameWay_advance_bind hc hend fun _ => ?_
      apply lockstep_kind_bind
      intro k
      refine lockstep_ite ?_ (lockstep_pure rfl)
      refine (lockstep_callArgs h).bind fun args => ?_
      apply lockstep_lastSpan_bind
      intro stop
      apply lockstep_pure
      rw [Expr.respan, r.place_merge]
      rfl
  | builtin callee =>
      refine sameWay_advance_bind hc hend fun _ => ?_
      refine (lockstep_callArgs h).bind fun args => ?_
      apply lockstep_lastSpan_bind
      intro stop
      simp only [Expr.length_respanAll]
      refine lockstep_ite (lockstep_pure ?_) (lockstep_failAt _ _ _)
      rw [Expr.respan, r.place_merge]
  | keyword word =>
      cases word with
      | trueWord => exact hliteral (.bool c.span true)
      | falseWord => exact hliteral (.bool c.span false)
      | noneWord => exact hliteral (.none c.span)
      | _ => exact lockstep_fail _ c c' hc
  | symbol mark =>
      cases mark with
      | leftBracket =>
          refine sameWay_advance_bind hc hend fun _ => ?_
          refine (lockstep_commaList h _).bind fun found => ?_
          apply lockstep_lastSpan_bind
          intro stop
          apply lockstep_pure
          rw [Expr.respan, r.place_merge]
      | leftParen =>
          refine sameWay_advance_bind hc hend fun _ => ?_
          apply lockstep_bracketed h
          intro inner stop
          apply lockstep_pure
          rw [Expr.respan, r.place_merge]
      | _ => exact lockstep_fail _ c c' hc
  | lineEnd => exact lockstep_fail _ c c' hc
  | fileEnd => exact absurd hk hend

theorem lockstep_indexRest (h : Follows r expression) (bound : List Token) (target : Expr) :
    Lockstep r true true (Expr.respan r) (indexRest expression bound target)
      (indexRest expression (bound.map (Token.respan r)) (target.respan r)) := by
  induction bound generalizing target with
  | nil => exact lockstep_pure rfl
  | cons t bound ih =>
      apply lockstep_eat_bind (by simp)
      · apply lockstep_bracketed h
        intro position stop
        have hindex :
            Expr.index ((target.respan r).span.merge (r.place stop)) (target.respan r)
              (position.respan r) =
            (Expr.index (target.span.merge stop) target position).respan r := by
          rw [Expr.respan, r.place_merge, Expr.span_respan]
        rw [hindex]
        exact ih _
      · exact lockstep_pure rfl

theorem follows_indexed (h : Follows r expression) : Follows r (indexed expression) :=
  (follows_primary h).bind fun target =>
    lockstep_bounded (p := fun bound => indexRest expression bound target)
      (q := fun bound => indexRest expression bound (target.respan r)) fun bound =>
        lockstep_indexRest h bound target

theorem follows_unaryOver {operand : Parser Expr} (h : Follows r expression)
    (hoperand : Follows r operand) : Follows r (unaryOver expression operand) := by
  intro c c' hc
  rw [unaryOver, kind_bind_apply, kind_bind_apply, hc.kind_eq]
  cases hop : unaryOp? c.kind with
  | none => exact follows_indexed h c c' hc
  | some op =>
      have hk : c.kind ≠ .fileEnd := by
        intro hend
        rw [hend] at hop
        cases hop
      refine sameWay_advance_bind hc hk fun sign => ?_
      refine hoperand.weaken.bind fun inner => ?_
      exact lockstep_pure (Expr.respan_unaryExpr r sign.span op inner).symm

end Bracketed

theorem follows_unary (r : Relayout) (levels : Nat) : Follows r (unary levels) := by
  induction levels with
  | zero => exact follows_unaryOver (lockstep_fail _) (lockstep_fail _)
  | succ levels ih => exact follows_unaryOver (follows_binary ih) ih

theorem follows_expression (r : Relayout) : Follows r expression :=
  follows_binary (follows_unary r _)

/-! ## Statements -/

theorem lockstep_paramList (bound : List Token) (seen : List Ident) :
    Lockstep r false false (List.map (Ident.respan r)) (paramList bound seen)
      (paramList (bound.map (Token.respan r)) (seen.map (Ident.respan r))) := by
  induction bound generalizing seen with
  | nil => exact lockstep_pure rfl
  | cons t bound ih =>
      apply lockstep_skipLineEnds_bind
      refine lockstep_ident.bind fun param => ?_
      have hsnoc : seen.map (Ident.respan r) ++ [param.respan r] =
          (seen ++ [param]).map (Ident.respan r) := by
        simp
      have hseen : ((seen.map (Ident.respan r)).any fun p => p.name == (param.respan r).name) =
          seen.any fun p => p.name == param.name := by
        rw [List.any_map]
        rfl
      have hrest : Lockstep r true false (List.map (Ident.respan r))
          (skipLineEnds >>= fun _ => eat (.symbol .comma) >>= fun found =>
            if found = true then paramList bound (seen ++ [param])
            else pure (seen ++ [param]))
          (skipLineEnds >>= fun _ => eat (.symbol .comma) >>= fun found =>
            if found = true then paramList (bound.map (Token.respan r))
              (seen.map (Ident.respan r) ++ [param.respan r])
            else pure (seen.map (Ident.respan r) ++ [param.respan r])) := by
        rw [hsnoc]
        apply lockstep_skipLineEnds_bind
        apply lockstep_eat_bind (by simp)
        · exact (ih _).weaken
        · exact Lockstep.weaken (lockstep_pure rfl)
      simp only [hseen]
      refine lockstep_ite ?_ hrest
      intro c c' hc
      exact hrest _ _ (hc.report _ _ _)

theorem lockstep_params :
    Lockstep r before true (List.map (Ident.respan r)) params params := by
  have hclose : ∀ (known : Bool) (found : List Ident),
      Lockstep r known true (List.map (Ident.respan r))
        (expect (.symbol .rightParen) >>= fun _ => pure found)
        (expect (.symbol .rightParen) >>= fun _ => pure (found.map (Ident.respan r))) :=
    fun _ found => lockstep_expect_bind (by simp) (lockstep_pure rfl)
  apply lockstep_expect_bind (by simp)
  apply lockstep_skipLineEnds_bind
  apply lockstep_kind_bind
  intro k
  apply lockstep_ite
  · exact hclose true []
  · have hlist : Lockstep r true false (List.map (Ident.respan r))
        (fun c => paramList c.rest [] c) (fun c => paramList c.rest [] c) :=
      lockstep_bounded (p := fun bound => paramList bound [])
        (q := fun bound => paramList bound []) fun bound => (lockstep_paramList bound []).weaken
    exact hlist.bind (hclose false)

/-- An expression up to the end of its line, and the statement made of it. -/
theorem lockstep_expressionLine (inBlock : Bool) {p p' : Expr → Stmt}
    (hp : ∀ e, p' (e.respan r) = (p e).respan r) :
    Lockstep r before true (Stmt.respan r) (expressionLine inBlock p)
      (expressionLine inBlock p') := by
  refine (follows_expression r).weaken.bind fun value => ?_
  exact (lockstep_statementEnd inBlock).bind fun _ => lockstep_pure (hp value)

section Statement

variable {c c' : Cursor} {inBlock : Bool}

theorem sameWay_varStmt (hc : InStep r before c c') (hk : c.kind ≠ .fileEnd) :
    SameWay r true (Stmt.respan r) (varStmt inBlock c) (varStmt inBlock c') := by
  refine sameWay_advance_bind hc hk fun word => ?_
  refine lockstep_ident.bind fun name => ?_
  apply lockstep_expect_bind (by simp)
  apply lockstep_expressionLine
  intro value
  rw [Stmt.respan, r.place_merge, Expr.span_respan, Token.span_respan]

theorem lockstep_assignStmt :
    Lockstep r before true (Stmt.respan r) (assignStmt inBlock) (assignStmt inBlock) := by
  refine lockstep_ident.bind fun name => ?_
  apply lockstep_advance_bind
  apply lockstep_expressionLine
  intro value
  rw [Stmt.respan, r.place_merge, Expr.span_respan]
  rfl

theorem lockstep_exprStmt :
    Lockstep r before true (Stmt.respan r) (exprStmt inBlock) (exprStmt inBlock) := by
  apply lockstep_expressionLine
  intro value
  rw [Stmt.respan, Expr.span_respan]

theorem lockstep_returnValue :
    Lockstep r true true (Option.map (Expr.respan r)) returnValue returnValue := by
  have hvalue : Lockstep r true true (Option.map (Expr.respan r))
      (expression >>= fun value => pure (some value))
      (expression >>= fun value => pure (some value)) :=
    (follows_expression r).weaken.bind fun value => lockstep_pure rfl
  apply lockstep_kind_bind
  intro k
  cases k with
  | lineEnd => exact lockstep_pure rfl
  | fileEnd => exact lockstep_pure rfl
  | symbol mark =>
      cases mark with
      | rightBrace => exact lockstep_pure rfl
      | _ => exact hvalue
  | _ => exact hvalue

theorem sameWay_returnStmt (hc : InStep r before c c') (hk : c.kind ≠ .fileEnd) :
    SameWay r true (Stmt.respan r) (returnStmt inBlock c) (returnStmt inBlock c') := by
  refine sameWay_advance_bind hc hk fun word => ?_
  refine lockstep_returnValue.bind fun value => ?_
  refine (lockstep_statementEnd inBlock).bind fun _ => ?_
  apply lockstep_pure
  cases value with
  | none => rfl
  | some e =>
      simp only [Option.map_some, Stmt.respan, r.place_merge, Expr.span_respan, Token.span_respan]

variable {block : Parser Block}

/-- The reader of blocks follows a relayout. -/
def FollowsBlocks (r : Relayout) (block : Parser Block) : Prop :=
  Lockstep r false true (Stmt.respanBlock r) block block

theorem sameWay_funcStmt (hblock : FollowsBlocks r block) (hc : InStep r before c c')
    (hk : c.kind ≠ .fileEnd) :
    SameWay r true (Stmt.respan r) (funcStmt block c) (funcStmt block c') := by
  refine sameWay_advance_bind hc hk fun word => ?_
  refine lockstep_ident.bind fun name => ?_
  refine lockstep_params.bind fun found => ?_
  refine hblock.weaken.bind fun body => ?_
  apply lockstep_pure
  rw [Stmt.respan, r.place_merge, Stmt.span_respanBlock, Token.span_respan]

theorem sameWay_whileStmt (hblock : FollowsBlocks r block) (hc : InStep r before c c')
    (hk : c.kind ≠ .fileEnd) :
    SameWay r true (Stmt.respan r) (whileStmt block c) (whileStmt block c') := by
  refine sameWay_advance_bind hc hk fun word => ?_
  refine (follows_expression r).weaken.bind fun condition => ?_
  refine hblock.weaken.bind fun body => ?_
  apply lockstep_pure
  rw [Stmt.respan, r.place_merge, Stmt.span_respanBlock, Token.span_respan]

theorem lockstep_branches (hblock : FollowsBlocks r block) (bound : List Token) :
    Lockstep r before true (Stmt.respanBranches r) (branches block bound)
      (branches block (bound.map (Token.respan r))) := by
  induction bound generalizing before with
  | nil => exact lockstep_fail _
  | cons t bound ih =>
      refine (follows_expression r).weaken.bind fun condition => ?_
      refine hblock.weaken.bind fun body => ?_
      have hnext : Lockstep r true true id (fun c => (some c.kindPastLineEnds, c))
          (fun c => (some c.kindPastLineEnds, c)) := by
        intro c c' hc
        simp only [hc.kindPastLineEnds_eq]
        exact .read hc
      refine hnext.bind fun next => ?_
      refine lockstep_ite ?_ (lockstep_pure rfl)
      apply lockstep_skipLineEnds_bind
      apply lockstep_advance_bind
      apply lockstep_eat_bind (by simp)
      · exact ih.bind fun rest => lockstep_pure rfl
      · exact hblock.weaken.bind fun last => lockstep_pure rfl

theorem sameWay_ifStmt (hblock : FollowsBlocks r block) (hc : InStep r before c c')
    (hk : c.kind ≠ .fileEnd) :
    SameWay r true (Stmt.respan r) (ifStmt block c) (ifStmt block c') := by
  have hbranches : Lockstep r true true (Stmt.respanBranches r)
      (fun c => branches block c.rest c) (fun c => branches block c.rest c) :=
    lockstep_bounded (lockstep_branches hblock)
  refine sameWay_advance_bind hc hk fun word => ?_
  refine hbranches.bind fun found => ?_
  apply lockstep_pure
  rw [Stmt.respan, r.place_merge, Stmt.lastSpan?_respanBranches, Token.span_respan]
  cases found.lastSpan? <;> rfl

theorem lockstep_statement (hblock : FollowsBlocks r block) :
    Lockstep r false true (Stmt.respan r) (statement inBlock block) (statement inBlock block) := by
  intro c c' hc
  have hother : SameWay r true (Stmt.respan r)
      (if startsAssignment c then assignStmt inBlock c else exprStmt inBlock c)
      (if startsAssignment c' then assignStmt inBlock c' else exprStmt inBlock c') := by
    rw [hc.startsAssignment_eq]
    by_cases hassign : startsAssignment c = true
    · rw [if_pos hassign, if_pos hassign]
      exact lockstep_assignStmt c c' hc
    · rw [if_neg hassign, if_neg hassign]
      exact lockstep_exprStmt c c' hc
  unfold statement
  rw [hc.kind_eq]
  cases hk : c.kind with
  | keyword word =>
      have hend : c.kind ≠ .fileEnd := by simp [hk]
      cases word with
      | varWord => exact sameWay_varStmt hc hend
      | funcWord => exact sameWay_funcStmt hblock hc hend
      | ifWord => exact sameWay_ifStmt hblock hc hend
      | whileWord => exact sameWay_whileStmt hblock hc hend
      | returnWord => exact sameWay_returnStmt hc hend
      | elseWord => exact lockstep_fail _ c c' hc
      | _ => exact hother
  | _ => exact hother

end Statement

/-! ## Programs -/

theorem statements_inStep {stmt : Parser Stmt}
    (hstmt : Lockstep r false true (Stmt.respan r) stmt stmt) (inBlock : Bool)
    (bound : List Token) {c c' : Cursor} (hc : InStep r false c c') :
    (statements inBlock stmt (bound.map (Token.respan r)) c').1 =
        Stmt.respanAll r (statements inBlock stmt bound c).1 ∧
      InStep r false (statements inBlock stmt bound c).2
        (statements inBlock stmt (bound.map (Token.respan r)) c').2 := by
  induction bound generalizing c c' with
  | nil => exact ⟨rfl, hc⟩
  | cons t bound ih =>
      rw [List.map_cons, statements, statements, hc.kind_eq, hc.isFull_eq]
      by_cases hstop : c.kind = .fileEnd ∨ (inBlock = true ∧ c.kind = .symbol .rightBrace) ∨
          c.isFull = true
      · rw [if_pos hstop, if_pos hstop]
        exact ⟨rfl, hc⟩
      rw [if_neg hstop, if_neg hstop]
      by_cases hbrace : c.kind = .symbol .rightBrace
      · rw [if_pos hbrace, if_pos hbrace]
        exact ih (hc.report _ _ _).advance.skipLineEnds
      rw [if_neg hbrace, if_neg hbrace]
      have hsame := hstmt c c' hc
      generalize stmt c = x, stmt c' = x' at hsame
      cases hsame with
      | read hread =>
          have hrest := ih hread.unknown.skipLineEnds
          exact ⟨congrArg _ hrest.1, hrest.2⟩
      | failed hfailed => exact ih (hfailed.synchronize inBlock).skipLineEnds

theorem lockstep_blockBody {stmt : Parser Stmt}
    (hstmt : Lockstep r false true (Stmt.respan r) stmt stmt) :
    Lockstep r before false (Stmt.respanAll r) (blockBody stmt) (blockBody stmt) := by
  intro c c' hc
  have hboth := statements_inStep hstmt true c.rest hc.unknown
  rw [← hc.rest] at hboth
  unfold blockBody
  generalize statements true stmt c.rest c = x, statements true stmt c'.rest c' = x' at hboth
  obtain ⟨stmts, d⟩ := x
  obtain ⟨_, d'⟩ := x'
  obtain ⟨rfl, hd⟩ := hboth
  exact .read hd

theorem followsBlocks_block (r : Relayout) (levels : Nat) : FollowsBlocks r (block levels) := by
  induction levels with
  | zero =>
      intro c c' hc
      exact lockstep_expect_bind (by simp) (lockstep_failAt _ _ _) c c' hc
  | succ levels ih =>
      intro c c' hc
      rw [block, span_bind_apply, span_bind_apply]
      by_cases hopen : c.kind = .symbol .leftBrace
      · rw [hc.span_eq (by simp [hopen])]
        refine lockstep_expect_bind (by simp) ?_ c c' hc
        apply lockstep_skipLineEnds_bind
        refine (lockstep_blockBody (lockstep_statement ih)).bind fun stmts => ?_
        apply lockstep_expect_bind (by simp)
        apply lockstep_lastSpan_bind
        intro stop
        apply lockstep_pure
        rw [Stmt.respanBlock, r.place_merge]
      · -- where no block opens there may be no token, and then no span to agree on
        rw [expect_bind_apply, expect_bind_apply, hc.kind_eq, if_neg hopen, if_neg hopen]
        exact .failed (hc.report _ _ _)

theorem lockstep_toplevel (r : Relayout) (inBlock : Bool) :
    Lockstep r false true (Stmt.respan r) (statement inBlock (block maxBlockDepth))
      (statement inBlock (block maxBlockDepth)) :=
  lockstep_statement (followsBlocks_block r maxBlockDepth)

end Parser

namespace Program

open KitchenScript.Parser

/-- Tokens with other spans are read as the same statements with these spans, and the same is found
wrong with them. -/
theorem ofTokens_respan (r : Relayout) (tokens : List Token) :
    (ofTokens (tokens.map (Token.respan r))).1.map stmts =
        (ofTokens tokens).1.map (fun p => Stmt.respanAll r p.stmts) ∧
      (ofTokens (tokens.map (Token.respan r))).2.map Finding.problem =
        (ofTokens tokens).2.map Finding.problem := by
  have hstart : InStep r false (Cursor.ofTokens tokens)
      (Cursor.ofTokens (tokens.map (Token.respan r))) :=
    ⟨rfl, rfl, nofun⟩
  have hboth := statements_inStep (lockstep_toplevel r false) false
    (Cursor.ofTokens tokens).skipLineEnds.rest hstart.skipLineEnds
  rw [← hstart.skipLineEnds.rest] at hboth
  have hempty := congrArg List.isEmpty hboth.2.problems
  rw [List.isEmpty_map, List.isEmpty_map] at hempty
  unfold ofTokens
  simp only [hempty]
  refine ⟨?_, hboth.2.problems⟩
  split
  · simp only [Option.map_some, hboth.1]
  · rfl

end Program

end KitchenScript
