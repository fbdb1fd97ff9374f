import KitchenScript.Proofs.Grammar.Tree

/-!
# The grammar

Which words over the kinds of tokens are programs, and which tree each of them has.  The rules are
those of the language alone: nothing here reads from left to right, reports, or recovers.

Trees of the grammar are bare, and a sign always has a node of its own.  Line ends are part of the
words, so every rule says where they may stand.
-/

namespace KitchenScript.Grammar

/-- Line ends in a row. -/
def lineEnds (n : Nat) : List TokenKind :=
  List.replicate n .lineEnd

/-- The levels of expressions, the weakest binding first. -/
inductive Level where
  | disjunction
  | conjunction
  | equality
  | comparison
  | sum
  | product
  | sign
  | indexed
  | primary
deriving DecidableEq

namespace Level

/-- The level of the operands. -/
def next : Level → Level
  | disjunction => conjunction
  | conjunction => equality
  | equality => comparison
  | comparison => sum
  | sum => product
  | product => sign
  | sign => indexed
  | indexed => primary
  | primary => primary

/-- Operators of the level group to the left.  Those of the other levels do not chain. -/
def chains : Level → Bool
  | disjunction | conjunction | sum | product => true
  | _ => false

def rank : Level → Nat
  | disjunction => 0
  | conjunction => 1
  | equality => 2
  | comparison => 3
  | sum => 4
  | product => 5
  | sign => 6
  | indexed => 7
  | primary => 8

theorem rank_le_next (L : Level) : L.rank ≤ L.next.rank := by
  cases L <;> decide

end Level

/-- The binary operators of each level. -/
inductive Operator : Level → TokenKind → BinaryOp → Prop where
  | or : Operator .disjunction (.keyword .orWord) .or
  | and : Operator .conjunction (.keyword .andWord) .and
  | equal : Operator .equality (.symbol .equal) .equal
  | notEqual : Operator .equality (.symbol .notEqual) .notEqual
  | less : Operator .comparison (.symbol .less) .less
  | lessEqual : Operator .comparison (.symbol .lessEqual) .lessEqual
  | greater : Operator .comparison (.symbol .greater) .greater
  | greaterEqual : Operator .comparison (.symbol .greaterEqual) .greaterEqual
  | add : Operator .sum (.symbol .plus) .add
  | sub : Operator .sum (.symbol .minus) .sub
  | mul : Operator .product (.symbol .star) .mul
  | div : Operator .product (.symbol .slash) .div
  | rem : Operator .product (.symbol .percent) .rem

/-- The operators in front of an operand. -/
inductive Sign : TokenKind → UnaryOp → Prop where
  | not : Sign (.keyword .notWord) .not
  | neg : Sign (.symbol .minus) .neg
  | len : Sign (.symbol .hash) .len

mutual

/-- The expressions of a level. -/
inductive DerivesExpr : Level → List TokenKind → Expr → Prop where
  | number (n : Number) : DerivesExpr .primary [.number n] (.number .blank n)
  | text (s : String) : DerivesExpr .primary [.text s] (.text .blank s)
  | truth : DerivesExpr .primary [.keyword .trueWord] (.bool .blank true)
  | falsity : DerivesExpr .primary [.keyword .falseWord] (.bool .blank false)
  | nothing : DerivesExpr .primary [.keyword .noneWord] (.none .blank)
  | name {x : String} (hx : x ≠ "\"") :
      DerivesExpr .primary [.identifier x] (.name .blank x)
  | call {x : String} {w : List TokenKind} {args : List Expr} (hx : x ≠ "\"")
      (hargs : DerivesList w args) :
      DerivesExpr .primary
        (.identifier x :: .symbol .leftParen :: (w ++ [.symbol .rightParen]))
        (.call .blank ⟨x, .blank⟩ args)
  | builtin {b : Builtin} {w : List TokenKind} {args : List Expr}
      (hargs : DerivesList w args) (harity : args.length = b.arity) :
      DerivesExpr .primary
        (.builtin b :: .symbol .leftParen :: (w ++ [.symbol .rightParen]))
        (.builtin .blank b args)
  | list {w : List TokenKind} {items : List Expr} (hitems : DerivesList w items) :
      DerivesExpr .primary (.symbol .leftBracket :: (w ++ [.symbol .rightBracket]))
        (.list .blank items)
  | paren {w : List TokenKind} {e : Expr} (m n : Nat) (he : DerivesExpr .disjunction w e) :
      DerivesExpr .primary
        (.symbol .leftParen :: (lineEnds m ++ w ++ lineEnds n ++ [.symbol .rightParen]))
        (.paren .blank e)
  | index {w v : List TokenKind} {e p : Expr} (m n : Nat) (he : DerivesExpr .indexed w e)
      (hp : DerivesExpr .disjunction v p) :
      DerivesExpr .indexed
        (w ++ .symbol .leftBracket :: (lineEnds m ++ v ++ lineEnds n ++ [.symbol .rightBracket]))
        (.index .blank e p)
  | sign {k : TokenKind} {op : UnaryOp} {w : List TokenKind} {e : Expr} (hk : Sign k op)
      (he : DerivesExpr .sign w e) :
      DerivesExpr .sign (k :: w) (.unary .blank op e)
  | chain {L : Level} {k : TokenKind} {op : BinaryOp} {w v : List TokenKind} {a b : Expr}
      (hL : L.chains = true) (ha : DerivesExpr L w a) (hk : Operator L k op)
      (hb : DerivesExpr L.next v b) :
      DerivesExpr L (w ++ k :: v) (.binary .blank op a b)
  | join {L : Level} {k : TokenKind} {op : BinaryOp} {w v : List TokenKind} {a b : Expr}
      (hL : L.chains = false) (ha : DerivesExpr L.next w a) (hk : Operator L k op)
      (hb : DerivesExpr L.next v b) :
      DerivesExpr L (w ++ k :: v) (.binary .blank op a b)
  | ascend {L : Level} {w : List TokenKind} {e : Expr} (he : DerivesExpr L.next w e) :
      DerivesExpr L w e

/-- One expression or more, separated by commas, with line ends around each. -/
inductive DerivesItems : List TokenKind → List Expr → Prop where
  | one {w : List TokenKind} {e : Expr} (m n : Nat) (he : DerivesExpr .disjunction w e) :
      DerivesItems (lineEnds m ++ w ++ lineEnds n) [e]
  | more {w v : List TokenKind} {e : Expr} {rest : List Expr} (m n : Nat)
      (he : DerivesExpr .disjunction w e) (hrest : DerivesItems v rest) :
      DerivesItems (lineEnds m ++ w ++ lineEnds n ++ .symbol .comma :: v) (e :: rest)

/-- What may stand between the brackets of a list or of a call. -/
inductive DerivesList : List TokenKind → List Expr → Prop where
  | empty (n : Nat) : DerivesList (lineEnds n) []
  | items {w : List TokenKind} {items : List Expr} (h : DerivesItems w items) :
      DerivesList w items

end

/-- A whole expression, which nests at most `maxExprDepth` deep, itself included. -/
def DerivesWhole (w : List TokenKind) (e : Expr) : Prop :=
  DerivesExpr .disjunction w e ∧ e.nesting < maxExprDepth

/-- One name or more, separated by commas, with line ends around each. -/
inductive DerivesNames : List TokenKind → List Ident → Prop where
  | one (m n : Nat) (x : String) :
      DerivesNames (lineEnds m ++ .identifier x :: lineEnds n) [⟨x, .blank⟩]
  | more {w : List TokenKind} {rest : List Ident} (m n : Nat) (x : String)
      (hrest : DerivesNames w rest) :
      DerivesNames (lineEnds m ++ .identifier x :: (lineEnds n ++ .symbol .comma :: w))
        (⟨x, .blank⟩ :: rest)

/-- What may stand between the parentheses of a declaration.  No name is declared twice. -/
inductive DerivesParams : List TokenKind → List Ident → Prop where
  | empty (n : Nat) : DerivesParams (lineEnds n) []
  | names {w : List TokenKind} {params : List Ident} (h : DerivesNames w params)
      (hdistinct : (params.map Ident.name).Nodup) : DerivesParams w params

/-- The statements that end with their line. -/
inductive DerivesSimple : List TokenKind → Stmt → Prop where
  | var {x : String} {w : List TokenKind} {e : Expr} (he : DerivesWhole w e) :
      DerivesSimple (.keyword .varWord :: .identifier x :: .symbol .assign :: w)
        (.var .blank ⟨x, .blank⟩ e)
  | assign {x : String} {w : List TokenKind} {e : Expr} (he : DerivesWhole w e) :
      DerivesSimple (.identifier x :: .symbol .assign :: w) (.assign .blank ⟨x, .blank⟩ e)
  | giveBack {w : List TokenKind} {e : Expr} (he : DerivesWhole w e) :
      DerivesSimple (.keyword .returnWord :: w) (.giveBack .blank (some e))
  | giveBackNothing : DerivesSimple [.keyword .returnWord] (.giveBack .blank none)
  | expr {w : List TokenKind} {e : Expr} (he : DerivesWhole w e) :
      DerivesSimple w (.expr .blank e)

/-- Nothing is left before the end of the file or block, or a new line begins. -/
def EndsLine (w : List TokenKind) : Prop :=
  w = [] ∨ w.head? = some .lineEnd

mutual

/-- The statements that end with a block. -/
inductive DerivesCompound : List TokenKind → Stmt → Prop where
  | func {x : String} {w v : List TokenKind} {params : List Ident} {body : Block}
      (hparams : DerivesParams w params) (hbody : DerivesBlock v body) :
      DerivesCompound
        (.keyword .funcWord :: .identifier x :: .symbol .leftParen ::
          (w ++ .symbol .rightParen :: v))
        (.func .blank ⟨x, .blank⟩ params body)
  | choose {w : List TokenKind} {branches : Branches} (h : DerivesChoice w branches) :
      DerivesCompound (.keyword .ifWord :: w) (.choose .blank branches)
  | loop {w v : List TokenKind} {e : Expr} {body : Block} (he : DerivesWhole w e)
      (hbody : DerivesBlock v body) :
      DerivesCompound (.keyword .whileWord :: (w ++ v)) (.loop .blank e body)

/-- What follows an `if`.  Line ends are allowed before an `else`. -/
inductive DerivesChoice : List TokenKind → Branches → Prop where
  | done {w v : List TokenKind} {e : Expr} {body : Block} (he : DerivesWhole w e)
      (hbody : DerivesBlock v body) :
      DerivesChoice (w ++ v) (.branch e body .done)
  | otherwise {w v u : List TokenKind} {e : Expr} {body last : Block} (n : Nat)
      (he : DerivesWhole w e) (hbody : DerivesBlock v body) (hlast : DerivesBlock u last) :
      DerivesChoice (w ++ (v ++ (lineEnds n ++ .keyword .elseWord :: u)))
        (.branch e body (.otherwise last))
  | again {w v u : List TokenKind} {e : Expr} {body : Block} {rest : Branches} (n : Nat)
      (he : DerivesWhole w e) (hbody : DerivesBlock v body) (hrest : DerivesChoice u rest) :
      DerivesChoice (w ++ (v ++ (lineEnds n ++ .keyword .elseWord :: .keyword .ifWord :: u)))
        (.branch e body rest)

inductive DerivesBlock : List TokenKind → Block → Prop where
  | mk {w : List TokenKind} {stmts : List Stmt} (h : DerivesBody w stmts) :
      DerivesBlock (.symbol .leftBrace :: (w ++ [.symbol .rightBrace])) (.mk .blank stmts)

/-- Statements in order, with line ends before, between and after them.  A simple statement needs
one behind it unless it is the last. -/
inductive DerivesBody : List TokenKind → List Stmt → Prop where
  | done (n : Nat) : DerivesBody (lineEnds n) []
  | simple {w v : List TokenKind} {s : Stmt} {rest : List Stmt} (n : Nat)
      (hs : DerivesSimple w s) (hends : EndsLine v) (hrest : DerivesBody v rest) :
      DerivesBody (lineEnds n ++ (w ++ v)) (s :: rest)
  | compound {w v : List TokenKind} {s : Stmt} {rest : List Stmt} (n : Nat)
      (hs : DerivesCompound w s) (hrest : DerivesBody v rest) :
      DerivesBody (lineEnds n ++ (w ++ v)) (s :: rest)

end

/-- Whole programs, in which blocks nest at most `maxBlockDepth` deep. -/
def DerivesProgram (w : List TokenKind) (stmts : List Stmt) : Prop :=
  DerivesBody w stmts ∧ Stmt.blockNestingAll stmts ≤ maxBlockDepth

/-- The tree of a word as a bare program.  Here a minus in front of a number is part of it. -/
def TreeOf (w : List TokenKind) (p : Program) : Prop :=
  ∃ stmts, DerivesProgram w stmts ∧ p = ⟨.blank, Stmt.foldedAll stmts⟩

end KitchenScript.Grammar
