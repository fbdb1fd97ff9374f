import KitchenScript.Proofs.Run.Rewriting
import KitchenScript.Proofs.Signs.Reading

/-!
# Absorbing signs

Absorbing the signs of a tree takes every minus in front of a number into the number and leaves all
else as it is, spans included.  The readers with the two rules for signs make the same decisions and
differ only in the trees they build; so the tree of the language is the plain tree, absorbed.
-/

namespace KitchenScript

namespace Expr

/-- A sign in front of an operand; a minus in front of a number becomes part of it. -/
def withSign (s : Span) (op : UnaryOp) (operand : Expr) : Expr :=
  match op, operand with
  | .neg, .number _ n => .number s n.opposite
  | op, operand => .unary s op operand

mutual

/-- The expression with every minus in front of a number taken into the number. -/
def absorb : Expr → Expr
  | number s n => .number s n
  | text s t => .text s t
  | bool s b => .bool s b
  | none s => .none s
  | list s items => .list s (absorbAll items)
  | name s x => .name s x
  | call s callee args => .call s callee (absorbAll args)
  | builtin s callee args => .builtin s callee (absorbAll args)
  | index s target position => .index s target.absorb position.absorb
  | binary s op left right => .binary s op left.absorb right.absorb
  | unary s op operand => withSign s op operand.absorb
  | paren s inner => .paren s inner.absorb

def absorbAll : List Expr → List Expr
  | [] => []
  | e :: rest => e.absorb :: absorbAll rest

end

theorem withSign_cases (s : Span) (op : UnaryOp) (operand : Expr) :
    withSign s op operand = .unary s op operand ∨
      ∃ t n, op = .neg ∧ operand = .number t n ∧ withSign s op operand = .number s n.opposite := by
  cases op with
  | neg =>
      cases operand with
      | number t n => exact .inr ⟨t, n, rfl, rfl, rfl⟩
      | _ => exact .inl rfl
  | not | len => exact .inl rfl

@[simp] theorem span_absorb (e : Expr) : e.absorb.span = e.span := by
  cases e with
  | unary s op operand =>
      rw [absorb]
      rcases withSign_cases s op operand.absorb with h | ⟨t, n, -, -, h⟩
      · rw [h]
        rfl
      · rw [h]
        rfl
  | _ => rfl

@[simp] theorem length_absorbAll (items : List Expr) : (absorbAll items).length = items.length := by
  induction items with
  | nil => rfl
  | cons e rest ih => simp [absorbAll, ih]

theorem absorb_binaryExpr (left : Expr) (op : BinaryOp) (right : Expr) :
    (Parser.binaryExpr left op right).absorb =
      Parser.binaryExpr left.absorb op right.absorb := by
  simp [Parser.binaryExpr, absorb]

theorem absorb_plainSign (start : Span) (op : UnaryOp) (operand : Expr) :
    (Parser.plainSign start op operand).absorb = Parser.unaryExpr start op operand.absorb := by
  rw [Parser.plainSign, absorb, ← span_absorb operand]
  cases op <;> cases operand.absorb <;> rfl

end Expr

/-- The rewriting that absorbs signs. -/
def absorbing : Rewriting :=
  ⟨id, Expr.absorb⟩

namespace Stmt

theorem map_rewrite_absorbing (xs : List Ident) : xs.map (Ident.rewrite absorbing) = xs :=
  List.map_id xs

@[simp] theorem span_rewriteBlock_absorbing (b : Block) :
    (rewriteBlock absorbing b).span = b.span := by
  cases b
  rfl

theorem lastSpan?_rewriteBranches_absorbing (bs : Branches) :
    (rewriteBranches absorbing bs).lastSpan? = bs.lastSpan? := by
  cases bs with
  | done => rfl
  | otherwise body => simp [rewriteBranches, Branches.lastSpan?]
  | branch condition body rest =>
      simp [rewriteBranches, Branches.lastSpan?, lastSpan?_rewriteBranches_absorbing rest]

end Stmt

namespace Parser

/-! ## Readers with their results changed -/

/-- The reader with `f` applied to its result. -/
def mapped (f : α → β) (x : Parser α) : Parser β := fun c =>
  ((x c).1.map f, (x c).2)

section Rules

variable {α β γ : Type}

theorem mapped_pure (f : α → β) (a : α) : mapped f (pure a : Parser α) = pure (f a) := rfl

theorem mapped_fail (f : α → β) (problem : Problem) :
    mapped f (fail problem : Parser α) = fail problem := rfl

theorem mapped_failAt (f : α → β) (problem : Problem) (s : Span) :
    mapped f (failAt problem s : Parser α) = failAt problem s := rfl

theorem mapped_bind (f : β → γ) (x : Parser α) (k : α → Parser β) :
    mapped f (x >>= k) = x >>= fun a => mapped f (k a) := by
  funext c
  change ((Parser.bind x k c).1.map f, (Parser.bind x k c).2) = Parser.bind x _ c
  rw [Parser.bind, Parser.bind]
  rcases x c with ⟨_ | a, d⟩ <;> rfl

theorem bind_mapped (f : α → β) (x : Parser α) (k : β → Parser γ) :
    mapped f x >>= k = x >>= fun a => k (f a) := by
  funext c
  change Parser.bind (mapped f x) k c = Parser.bind x _ c
  rw [Parser.bind, Parser.bind, mapped]
  rcases x c with ⟨_ | a, d⟩ <;> rfl

theorem mapped_ite (f : α → β) {q : Prop} [Decidable q] (x y : Parser α) :
    mapped f (if q then x else y) = if q then mapped f x else mapped f y := by
  by_cases hq : q
  · rw [if_pos hq, if_pos hq]
  · rw [if_neg hq, if_neg hq]

theorem mapped_bounded (f : α → β) (p : List Token → Parser α) :
    mapped f (bounded p) = bounded fun bound => mapped f (p bound) := rfl

theorem bind_congr_right {x : Parser α} {k k' : α → Parser β} (h : ∀ a, k a = k' a) :
    x >>= k = x >>= k' := by
  rw [funext h]

end Rules

/-! ## Expressions -/

section Expressions

variable (op? : TokenKind → Option BinaryOp) (operand expression : Parser Expr)

theorem chainRest_absorb (bound : List Token) (left : Expr) :
    chainRest op? (mapped Expr.absorb operand) bound left.absorb =
      mapped Expr.absorb (chainRest op? operand bound left) := by
  induction bound generalizing left with
  | nil => rfl
  | cons t bound ih =>
      rw [chainRest, chainRest, mapped_bind]
      apply bind_congr_right
      intro k
      cases op? k with
      | none => rfl
      | some op =>
          simp only [mapped_bind, bind_mapped, ← Expr.absorb_binaryExpr, ih]

theorem chain_absorb :
    chain op? (mapped Expr.absorb operand) = mapped Expr.absorb (chain op? operand) := by
  have hchain : ∀ operand, chain op? operand =
      operand >>= fun left => bounded fun bound => chainRest op? operand bound left := fun _ => rfl
  simp only [hchain, mapped_bind, bind_mapped, mapped_bounded, chainRest_absorb]

theorem single_absorb (chained : Problem) :
    single op? chained (mapped Expr.absorb operand) =
      mapped Expr.absorb (single op? chained operand) := by
  rw [single, single, mapped_bind, bind_mapped]
  apply bind_congr_right
  intro left
  rw [mapped_bind]
  apply bind_congr_right
  intro k
  cases op? k with
  | none => rfl
  | some op =>
      simp only [mapped_bind, bind_mapped, mapped_ite, mapped_fail, mapped_pure,
        Expr.absorb_binaryExpr]

theorem binary_absorb :
    binary (mapped Expr.absorb operand) = mapped Expr.absorb (binary operand) := by
  simp only [binary, chain_absorb, single_absorb]

theorem items_absorb (bound : List Token) :
    items (mapped Expr.absorb expression) bound =
      mapped Expr.absorbAll (items expression bound) := by
  induction bound with
  | nil => rfl
  | cons t bound ih =>
      simp only [items, mapped_bind, bind_mapped, mapped_ite, mapped_pure, Expr.absorbAll, ih]

theorem commaList_absorb (close : Symbol) :
    commaList (mapped Expr.absorb expression) close =
      mapped Expr.absorbAll (commaList expression close) := by
  have hlist : ∀ expression, commaList expression close =
      skipLineEnds >>= fun _ => eat (.symbol close) >>= fun found =>
        if found = true then pure []
        else bounded (items expression) >>= fun found =>
          expect (.symbol close) >>= fun _ => pure found := fun _ => rfl
  have hitems : items (mapped Expr.absorb expression) =
      fun bound => mapped Expr.absorbAll (items expression bound) :=
    funext (items_absorb expression)
  simp only [hlist, hitems, ← mapped_bounded, mapped_bind, bind_mapped, mapped_ite, mapped_pure,
    Expr.absorbAll]

theorem callArgs_absorb :
    callArgs (mapped Expr.absorb expression) = mapped Expr.absorbAll (callArgs expression) := by
  simp only [callArgs, commaList_absorb, mapped_bind]

theorem primary_absorb :
    primary (mapped Expr.absorb expression) = mapped Expr.absorb (primary expression) := by
  rw [primary, primary, mapped_bind]
  apply bind_congr_right
  intro start
  rw [mapped_bind]
  apply bind_congr_right
  intro k
  cases k with
  | identifier name =>
      simp only [nameOrCall, callArgs_absorb, mapped_bind, bind_mapped, mapped_ite, mapped_pure,
        mapped_fail, Expr.absorb]
  | builtin callee =>
      simp only [builtinCall, callArgs_absorb, mapped_bind, bind_mapped, mapped_ite, mapped_pure,
        mapped_failAt, Expr.absorb, Expr.length_absorbAll]
  | symbol mark =>
      cases mark with
      | leftBracket =>
          simp only [listLiteral, commaList_absorb, mapped_bind, bind_mapped, mapped_pure,
            Expr.absorb]
      | leftParen => simp only [parenthesized, mapped_bind, bind_mapped, mapped_pure, Expr.absorb]
      | _ => rfl
  | keyword word => cases word <;> rfl
  | _ => rfl

theorem indexRest_absorb (bound : List Token) (target : Expr) :
    indexRest (mapped Expr.absorb expression) bound target.absorb =
      mapped Expr.absorb (indexRest expression bound target) := by
  induction bound generalizing target with
  | nil => rfl
  | cons t bound ih =>
      have hnext : ∀ (stop : Span) (position : Expr),
          (Expr.index (target.absorb.span.merge stop) target.absorb position.absorb) =
            (Expr.index (target.span.merge stop) target position).absorb := by
        intro stop position
        rw [Expr.absorb, Expr.span_absorb]
      simp only [indexRest, mapped_bind, bind_mapped, mapped_ite, mapped_pure, hnext, ih]

theorem indexed_absorb :
    indexed (mapped Expr.absorb expression) = mapped Expr.absorb (indexed expression) := by
  have hindexed : ∀ expression, indexed expression =
      primary expression >>= fun target => bounded fun bound =>
        indexRest expression bound target := fun _ => rfl
  simp only [hindexed, primary_absorb, mapped_bind, bind_mapped, mapped_bounded, indexRest_absorb]

theorem unaryOver_absorb :
    unaryOver (mapped Expr.absorb expression) (mapped Expr.absorb operand) =
      mapped Expr.absorb (unaryOverWith plainSign expression operand) := by
  rw [unaryOver, unaryOverWith, mapped_bind]
  apply bind_congr_right
  intro k
  cases unaryOp? k with
  | none => exact indexed_absorb expression
  | some op => simp only [mapped_bind, bind_mapped, mapped_pure, Expr.absorb_plainSign]

theorem unary_absorb (levels : Nat) :
    unary levels = mapped Expr.absorb (unaryWith plainSign levels) := by
  induction levels with
  | zero => exact unaryOver_absorb (fail .exprTooDeep) (fail .exprTooDeep)
  | succ levels ih =>
      rw [unary, unaryWith, ih, binary_absorb]
      exact unaryOver_absorb _ _

theorem expression_absorb :
    Parser.expression = mapped Expr.absorb (expressionWith plainSign) := by
  rw [Parser.expression, expressionWith, unary_absorb, binary_absorb]

end Expressions

/-! ## Statements -/

section Statements

variable (expression : Parser Expr) (block : Parser Block) (inBlock : Bool)

theorem varStmtWith_absorb :
    varStmtWith (mapped Expr.absorb expression) inBlock =
      mapped (Stmt.rewrite absorbing) (varStmtWith expression inBlock) := by
  simp only [varStmtWith, mapped_bind, bind_mapped, mapped_pure, Expr.span_absorb]
  rfl

theorem assignStmtWith_absorb :
    assignStmtWith (mapped Expr.absorb expression) inBlock =
      mapped (Stmt.rewrite absorbing) (assignStmtWith expression inBlock) := by
  simp only [assignStmtWith, mapped_bind, bind_mapped, mapped_pure, Expr.span_absorb]
  rfl

theorem exprStmtWith_absorb :
    exprStmtWith (mapped Expr.absorb expression) inBlock =
      mapped (Stmt.rewrite absorbing) (exprStmtWith expression inBlock) := by
  simp only [exprStmtWith, mapped_bind, bind_mapped, mapped_pure, Expr.span_absorb]
  rfl

theorem returnValueWith_absorb :
    returnValueWith (mapped Expr.absorb expression) =
      mapped (Option.map Expr.absorb) (returnValueWith expression) := by
  have hvalue : (mapped Expr.absorb expression >>= fun value => pure (some value)) =
      mapped (Option.map Expr.absorb) (expression >>= fun value => pure (some value)) := by
    rw [mapped_bind, bind_mapped]
    rfl
  rw [returnValueWith, returnValueWith, mapped_bind]
  apply bind_congr_right
  intro k
  cases k with
  | lineEnd => rfl
  | fileEnd => rfl
  | symbol mark =>
      cases mark with
      | rightBrace => rfl
      | _ => exact hvalue
  | _ => exact hvalue

theorem returnStmtWith_absorb :
    returnStmtWith (mapped Expr.absorb expression) inBlock =
      mapped (Stmt.rewrite absorbing) (returnStmtWith expression inBlock) := by
  simp only [returnStmtWith, returnValueWith_absorb, mapped_bind, bind_mapped, mapped_pure]
  apply bind_congr_right
  intro word
  apply bind_congr_right
  intro value
  cases value with
  | none => rfl
  | some e =>
      simp only [Option.map_some, Expr.span_absorb]
      rfl

theorem funcStmt_absorb :
    funcStmt (mapped (Stmt.rewriteBlock absorbing) block) =
      mapped (Stmt.rewrite absorbing) (funcStmt block) := by
  have hfunc : ∀ s name params body, Stmt.rewrite absorbing (.func s name params body) =
      .func s name params (Stmt.rewriteBlock absorbing body) := by
    intro s name params body
    rw [Stmt.rewrite, Stmt.map_rewrite_absorbing]
    rfl
  simp only [funcStmt, mapped_bind, bind_mapped, mapped_pure, hfunc,
    Stmt.span_rewriteBlock_absorbing]

theorem whileStmtWith_absorb :
    whileStmtWith (mapped Expr.absorb expression) (mapped (Stmt.rewriteBlock absorbing) block) =
      mapped (Stmt.rewrite absorbing) (whileStmtWith expression block) := by
  simp only [whileStmtWith, mapped_bind, bind_mapped, mapped_pure,
    Stmt.span_rewriteBlock_absorbing]
  rfl

theorem branchesWith_absorb (bound : List Token) :
    branchesWith (mapped Expr.absorb expression) (mapped (Stmt.rewriteBlock absorbing) block)
        bound =
      mapped (Stmt.rewriteBranches absorbing) (branchesWith expression block bound) := by
  induction bound with
  | nil => rfl
  | cons t bound ih =>
      simp only [branchesWith, mapped_bind, bind_mapped, mapped_ite, mapped_pure, ih,
        Stmt.rewriteBranches]
      rfl

theorem ifStmtWith_absorb :
    ifStmtWith (mapped Expr.absorb expression) (mapped (Stmt.rewriteBlock absorbing) block) =
      mapped (Stmt.rewrite absorbing) (ifStmtWith expression block) := by
  have hbranches : branchesWith (mapped Expr.absorb expression)
      (mapped (Stmt.rewriteBlock absorbing) block) =
        fun bound =>
          mapped (Stmt.rewriteBranches absorbing) (branchesWith expression block bound) :=
    funext (branchesWith_absorb expression block)
  simp only [ifStmtWith, hbranches, ← mapped_bounded, mapped_bind, bind_mapped, mapped_pure,
    Stmt.lastSpan?_rewriteBranches_absorbing]
  rfl

theorem statementWith_absorb :
    statementWith (mapped Expr.absorb expression) inBlock
        (mapped (Stmt.rewriteBlock absorbing) block) =
      mapped (Stmt.rewrite absorbing) (statementWith expression inBlock block) := by
  funext c
  have hother : (if startsAssignment c then
        assignStmtWith (mapped Expr.absorb expression) inBlock c
      else exprStmtWith (mapped Expr.absorb expression) inBlock c) =
      mapped (Stmt.rewrite absorbing) (fun c =>
        if startsAssignment c then assignStmtWith expression inBlock c
        else exprStmtWith expression inBlock c) c := by
    rw [assignStmtWith_absorb, exprStmtWith_absorb]
    unfold mapped
    by_cases hassign : startsAssignment c = true
    · simp only [if_pos hassign]
    · simp only [if_neg hassign]
  unfold mapped at hother ⊢
  unfold statementWith
  cases c.kind with
  | keyword word =>
      cases word with
      | varWord => exact congrFun (varStmtWith_absorb expression inBlock) c
      | funcWord => exact congrFun (funcStmt_absorb block) c
      | ifWord => exact congrFun (ifStmtWith_absorb expression block) c
      | whileWord => exact congrFun (whileStmtWith_absorb expression block) c
      | returnWord => exact congrFun (returnStmtWith_absorb expression inBlock) c
      | elseWord => rfl
      | _ => exact hother
  | _ => exact hother

theorem statements_absorb (stmt : Parser Stmt) (bound : List Token) (c : Cursor) :
    statements inBlock (mapped (Stmt.rewrite absorbing) stmt) bound c =
      (Stmt.rewriteAll absorbing (statements inBlock stmt bound c).1,
        (statements inBlock stmt bound c).2) := by
  induction bound generalizing c with
  | nil => rfl
  | cons t bound ih =>
      rw [statements, statements]
      by_cases hstop : c.kind = .fileEnd ∨ (inBlock = true ∧ c.kind = .symbol .rightBrace) ∨
          c.isFull = true
      · rw [if_pos hstop, if_pos hstop]
        rfl
      rw [if_neg hstop, if_neg hstop]
      by_cases hbrace : c.kind = .symbol .rightBrace
      · rw [if_pos hbrace, if_pos hbrace, ih]
      -- the cursors are the same on both sides, so the loop goes on from the same place
      rw [if_neg hbrace, if_neg hbrace, mapped]
      rcases stmt c with ⟨_ | s, d⟩
      · exact ih _
      · simp only [Option.map_some, ih, Stmt.rewriteAll]

theorem blockBody_absorb (stmt : Parser Stmt) :
    blockBody (mapped (Stmt.rewrite absorbing) stmt) =
      mapped (Stmt.rewriteAll absorbing) (blockBody stmt) := by
  funext c
  rw [blockBody, mapped, blockBody, statements_absorb]
  rfl

theorem blockWith_absorb (levels : Nat) :
    blockWith (mapped Expr.absorb expression) levels =
      mapped (Stmt.rewriteBlock absorbing) (blockWith expression levels) := by
  induction levels with
  | zero => simp only [blockWith, mapped_bind, mapped_failAt]
  | succ levels ih =>
      simp only [blockWith, ih, statementWith_absorb, blockBody_absorb, mapped_bind, bind_mapped,
        mapped_pure]
      rfl

end Statements

end Parser

namespace Program

/-- The program of the language is that with plain signs after absorbing them. -/
theorem ofTokens_absorb (tokens : List Token) :
    ofTokens tokens =
      ((ofTokensWith Parser.plainSign tokens).1.map fun q =>
          ⟨q.span, Stmt.rewriteAll absorbing q.stmts⟩,
        (ofTokensWith Parser.plainSign tokens).2) := by
  rw [← ofTokensWith_unaryExpr, ofTokensWith, ofTokensWith, Parser.expressionWith_unaryExpr,
    Parser.expression_absorb, Parser.blockWith_absorb, Parser.statementWith_absorb]
  simp only [Parser.statements_absorb]
  split <;> rfl

end Program

end KitchenScript
