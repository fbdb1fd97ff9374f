import KitchenScript.Proofs.Grammar.Words
import KitchenScript.Proofs.Program.Nodes

/-!
# Keywords and nodes

A keyword stands in a word for one node of its tree: a literal, a connective or a sign of an
expression, or the form of a statement.  So the keywords of a word are counted by the nodes of the
tree, each keyword for itself; none is lost, read twice or taken for something else.
-/

namespace KitchenScript

/-- The connectives are the binary operators that are keywords. -/
def BinaryOp.keyword? : BinaryOp → Option Keyword
  | and => some .andWord
  | or => some .orWord
  | _ => none

theorem BinaryOp.keyword?_and : and.keyword? = some .andWord := rfl

theorem BinaryOp.keyword?_or : or.keyword? = some .orWord := rfl

/-- The keyword with which an expression is written, not counting the expressions inside it. -/
def Expr.keyword? : Expr → Option Keyword
  | bool _ true => some .trueWord
  | bool _ false => some .falseWord
  | none _ => some .noneWord
  | binary _ op _ _ => op.keyword?
  | unary _ .not _ => some .notWord
  | _ => Option.none

/-- The keywords of some expressions, at every depth. -/
def Expr.keywords (es : List Expr) : List Keyword :=
  (es.flatMap Expr.nodes).filterMap Expr.keyword?

/-- The keywords that lead from one block of a chain to the next. -/
def Branches.keywords : Branches → List Keyword
  | done => []
  | otherwise _ => [.elseWord]
  | branch _ _ rest => .elseWord :: .ifWord :: rest.keywords

namespace Stmt

/-- The keywords with which a statement is written, not counting its expressions and blocks. -/
def keywords : Stmt → List Keyword
  | var _ _ _ => [.varWord]
  | assign _ _ _ => []
  | func _ _ _ _ => [.funcWord]
  | choose _ (.branch _ _ rest) => .ifWord :: rest.keywords
  | choose _ _ => [.ifWord]
  | loop _ _ _ => [.whileWord]
  | giveBack _ _ => [.returnWord]
  | expr _ _ => []

/-- The keywords of a statement and of the expressions that stand in it, not in a block of it. -/
def allKeywords (s : Stmt) : List Keyword :=
  s.keywords ++ Expr.keywords s.exprs

end Stmt

namespace Expr

@[simp] theorem keywords_nil : keywords [] = [] := rfl

@[simp] theorem keywords_cons (e : Expr) (es : List Expr) :
    keywords (e :: es) = e.nodes.filterMap keyword? ++ keywords es := by
  simp [keywords]

@[simp] theorem keywords_append (as bs : List Expr) :
    keywords (as ++ bs) = keywords as ++ keywords bs := by
  simp [keywords]

theorem keyword?_bare (e : Expr) : e.bare.keyword? = e.keyword? := by
  cases e with
  | bool _ b => cases b <;> rfl
  | unary _ op _ => cases op <;> rfl
  | _ => rfl

theorem keywords_bare (es : List Expr) : keywords (es.map bare) = keywords es := by
  induction es with
  | nil => rfl
  | cons e es ih =>
      have hnodes : e.bare.nodes.filterMap keyword? = e.nodes.filterMap keyword? := by
        rw [nodes_bare, List.filterMap_map]
        congr 1
        funext n
        exact keyword?_bare n
      rw [List.map_cons, keywords_cons, keywords_cons, hnodes, ih]

/-- A sign taken into a number is not a keyword. -/
theorem keywords_signed (op : UnaryOp) (operand : Expr) :
    (signed op operand).nodes.filterMap keyword? =
      (Expr.unary .blank op operand).nodes.filterMap keyword? := by
  cases op with
  | neg => cases operand <;> rfl
  | not | len => rfl

end Expr

theorem Branches.keywords_bare (branches : Branches) :
    (Stmt.bareBranches branches).keywords = branches.keywords := by
  cases branches with
  | done | otherwise _ => rfl
  | branch _ _ rest => simp [Stmt.bareBranches, keywords, keywords_bare rest]

theorem Stmt.allKeywords_bare (s : Stmt) : s.bare.allKeywords = s.allKeywords := by
  unfold allKeywords
  rw [exprs_bare, Expr.keywords_bare]
  congr 1
  cases s with
  | choose _ branches =>
      cases branches with
      | branch _ _ rest => simp [bare, bareBranches, keywords, Branches.keywords_bare]
      | done | otherwise _ => rfl
  | _ => rfl

/-! ## Nodes of a program -/

theorem Branches.not_mem_keywords {op : BinaryOp} {k : Keyword} (hop : op.keyword? = some k)
    (branches : Branches) : k ∉ branches.keywords := by
  cases branches with
  | done => simp [keywords]
  | otherwise _ => cases op <;> cases hop <;> simp [keywords]
  | branch _ _ rest =>
      have hrest := not_mem_keywords hop rest
      cases op <;> cases hop <;> simpa [keywords] using hrest

/-- The keyword of a connective is none of a statement. -/
theorem Stmt.not_mem_keywords {op : BinaryOp} {k : Keyword} (hop : op.keyword? = some k)
    (s : Stmt) : k ∉ s.keywords := by
  cases s with
  | choose _ branches =>
      cases branches with
      | branch _ _ rest =>
          have hrest := rest.not_mem_keywords hop
          cases op <;> cases hop <;> simpa [keywords] using hrest
      | done | otherwise _ => cases op <;> cases hop <;> simp [keywords]
  | _ => cases op <;> cases hop <;> simp [keywords]

/-- All keywords of a program: those of its statements, and those of its expressions. -/
def Program.keywords (p : Program) : List Keyword :=
  p.stmtNodes.flatMap Stmt.keywords ++ Expr.keywords p.exprs

theorem Program.count_allKeywords (p : Program) (k : Keyword) :
    (p.stmtNodes.flatMap Stmt.allKeywords).count k = p.keywords.count k := by
  have hnodes : ∀ nodes : List Stmt, (nodes.flatMap Stmt.allKeywords).count k =
      (nodes.flatMap Stmt.keywords).count k +
        (Expr.keywords (nodes.flatMap Stmt.exprs)).count k := by
    intro nodes
    induction nodes with
    | nil => rfl
    | cons s nodes ih =>
        simp only [List.flatMap_cons, Stmt.allKeywords, Expr.keywords_append, List.count_append, ih]
        omega
  rw [keywords, List.count_append]
  exact hnodes p.stmtNodes

theorem countP_or {α : Type} {p q : α → Bool} (h : ∀ a, p a = true → q a = false) (l : List α) :
    l.countP (fun a => p a || q a) = l.countP p + l.countP q := by
  induction l with
  | nil => rfl
  | cons a l ih =>
      rw [List.countP_cons, List.countP_cons, List.countP_cons, ih]
      cases hp : p a with
      | true => simp [h a hp, Nat.add_right_comm]
      | false => simp [Nat.add_assoc]

namespace Expr

/-- Does the node apply this operator? -/
def applies (op : BinaryOp) : Expr → Bool
  | binary _ applied _ _ => applied == op
  | _ => false

theorem applies_eq {op : BinaryOp} {k : Keyword} (hop : op.keyword? = some k) (e : Expr) :
    e.applies op = (e.keyword? == some k) := by
  cases op <;> cases hop <;> cases e with
  | binary _ applied _ _ => cases applied <;> rfl
  | bool _ b => cases b <;> rfl
  | unary _ sign _ => cases sign <;> rfl
  | _ => rfl

/-- The connectives of some nodes are counted by their keyword. -/
theorem countP_applies {op : BinaryOp} {k : Keyword} (hop : op.keyword? = some k)
    (es : List Expr) : es.countP (applies op) = (es.filterMap keyword?).count k := by
  rw [List.count_filterMap, funext (applies_eq hop)]

theorem countP_isConnective (es : List Expr) :
    es.countP isConnective = es.countP (applies .and) + es.countP (applies .or) := by
  rw [← countP_or]
  · congr 1
    funext e
    cases e <;> rfl
  · intro e he
    cases e with
    | binary _ op _ _ => cases op <;> simp_all [applies]
    | _ => rfl

end Expr

namespace Grammar

variable {w : List TokenKind}

@[simp] theorem count_keyword_lineEnds (k : Keyword) (n : Nat) :
    (lineEnds n).count (.keyword k) = 0 := by
  simp [lineEnds, List.count_replicate]

/-- The keywords of a node are its own and those inside it. -/
@[simp] theorem count_keyword_cons (k : Keyword) (n : Expr) (inner : List Expr) :
    ((n :: inner).filterMap Expr.keyword?).count k =
      n.keyword?.toList.count k + (inner.filterMap Expr.keyword?).count k := by
  cases hn : n.keyword? with
  | none => simp [hn]
  | some k' => simp [hn, List.count_cons, Nat.add_comm]

theorem Operator.count_keyword {L : Level} {t : TokenKind} {op : BinaryOp} (h : Operator L t op)
    (k : Keyword) (a b : Expr) :
    [t].count (.keyword k) = (Expr.binary .blank op a b).keyword?.toList.count k := by
  cases h <;> simp [Expr.keyword?, BinaryOp.keyword?, List.count_cons]

theorem Sign.count_keyword {t : TokenKind} {op : UnaryOp} (h : Sign t op) (k : Keyword)
    (e : Expr) :
    [t].count (.keyword k) = (Expr.unary .blank op e).keyword?.toList.count k := by
  cases h <;> simp [Expr.keyword?, List.count_cons]

mutual

theorem DerivesExpr.count_keyword {L : Level} {w : List TokenKind} {e : Expr}
    (h : DerivesExpr L w e) (k : Keyword) :
    w.count (.keyword k) = (e.folded.nodes.filterMap Expr.keyword?).count k := by
  match h with
  | .number _ | .text _ | .name _ => simp [Expr.folded, Expr.nodes, Expr.keyword?]
  | .truth | .falsity | .nothing =>
      simp [Expr.folded, Expr.nodes, Expr.keyword?, List.count_cons]
  | .call _ hinner | .builtin hinner _ | .list hinner =>
      simp [Expr.folded, Expr.nodes, Expr.keyword?, hinner.count_keyword k]
  | .paren _ _ he => simp [Expr.folded, Expr.nodes, Expr.keyword?, he.count_keyword k]
  | .index _ _ he hp =>
      simp [Expr.folded, Expr.nodes, Expr.keyword?, he.count_keyword k, hp.count_keyword k]
  | .sign hk he =>
      rw [Expr.folded, Expr.keywords_signed, Expr.nodes, count_keyword_cons, ← hk.count_keyword k,
        ← he.count_keyword k, List.count_cons, List.count_singleton, Nat.add_comm]
  | @DerivesExpr.chain _ t op u v a b _ ha hk hb | @DerivesExpr.join _ t op u v a b _ ha hk hb =>
      have hleft := ha.count_keyword k
      have hright := hb.count_keyword k
      have hop := hk.count_keyword k a.folded b.folded
      rw [List.count_singleton] at hop
      rw [Expr.folded, Expr.nodes, count_keyword_cons, List.filterMap_append, List.count_append,
        List.count_append, List.count_cons]
      omega
  | .ascend he => exact he.count_keyword k

theorem DerivesItems.count_keyword {w : List TokenKind} {items : List Expr}
    (h : DerivesItems w items) (k : Keyword) :
    w.count (.keyword k) =
      ((Expr.nodesAll (Expr.foldedAll items)).filterMap Expr.keyword?).count k := by
  match h with
  | .one _ _ he => simp [Expr.foldedAll, Expr.nodesAll, he.count_keyword k]
  | .more _ _ he hrest =>
      simp [Expr.foldedAll, Expr.nodesAll, he.count_keyword k, hrest.count_keyword k]

theorem DerivesList.count_keyword {w : List TokenKind} {items : List Expr}
    (h : DerivesList w items) (k : Keyword) :
    w.count (.keyword k) =
      ((Expr.nodesAll (Expr.foldedAll items)).filterMap Expr.keyword?).count k := by
  match h with
  | .empty n => exact count_keyword_lineEnds k n
  | .items hitems => exact hitems.count_keyword k

end

theorem DerivesWhole.count_keyword {e : Expr} (h : DerivesWhole w e) (k : Keyword) :
    w.count (.keyword k) = (e.folded.nodes.filterMap Expr.keyword?).count k :=
  h.1.count_keyword k

theorem DerivesNames.count_keyword {xs : List Ident} (h : DerivesNames w xs) (k : Keyword) :
    w.count (.keyword k) = 0 := by
  induction h with
  | one _ _ _ => simp
  | more _ _ _ _ ih => simp [ih]

theorem DerivesParams.count_keyword {xs : List Ident} (h : DerivesParams w xs) (k : Keyword) :
    w.count (.keyword k) = 0 := by
  cases h with
  | empty n => exact count_keyword_lineEnds k n
  | names h _ => exact h.count_keyword k

/-! ## Statements -/

theorem DerivesSimple.count_keyword {s : Stmt} (h : DerivesSimple w s) (k : Keyword) :
    w.count (.keyword k) = (s.folded.nodes.flatMap Stmt.allKeywords).count k := by
  cases h with
  | var he | assign he | giveBack he | expr he =>
      simp [Stmt.folded, Stmt.nodes, Stmt.allKeywords, Stmt.keywords, Stmt.exprs, List.count_cons,
        he.count_keyword k, Nat.add_comm]
  | giveBackNothing =>
      simp [Stmt.folded, Stmt.nodes, Stmt.allKeywords, Stmt.keywords, Stmt.exprs, List.count_cons]

theorem DerivesChoice.exists_branch {branches : Branches} (h : DerivesChoice w branches) :
    ∃ condition body rest, branches = .branch condition body rest := by
  cases h <;> exact ⟨_, _, _, rfl⟩

mutual

theorem DerivesCompound.count_keyword {w : List TokenKind} {s : Stmt}
    (h : DerivesCompound w s) (k : Keyword) :
    w.count (.keyword k) = (s.folded.nodes.flatMap Stmt.allKeywords).count k := by
  match h with
  | .func hparams hbody =>
      simp [Stmt.folded, Stmt.nodes, Stmt.allKeywords, Stmt.keywords, Stmt.exprs, List.count_cons,
        hparams.count_keyword k, hbody.count_keyword k, Nat.add_comm]
  | .choose hchoice => exact hchoice.count_keyword k
  | .loop he hbody =>
      simp [Stmt.folded, Stmt.nodes, Stmt.allKeywords, Stmt.keywords, Stmt.exprs, List.count_cons,
        he.count_keyword k, hbody.count_keyword k]

theorem DerivesChoice.count_keyword {w : List TokenKind} {branches : Branches}
    (h : DerivesChoice w branches) (k : Keyword) :
    (.keyword .ifWord :: w).count (.keyword k) =
      ((Stmt.choose .blank branches).folded.nodes.flatMap Stmt.allKeywords).count k := by
  match h with
  | .done he hbody =>
      simp [Stmt.folded, Stmt.foldedBranches, Stmt.nodes, Stmt.nodesOfBranches, Stmt.allKeywords,
        Stmt.keywords, Branches.keywords, Stmt.exprs, Branches.conditions, List.count_cons,
        he.count_keyword k, hbody.count_keyword k]
  | .otherwise _ he hbody hlast =>
      simp [Stmt.folded, Stmt.foldedBranches, Stmt.nodes, Stmt.nodesOfBranches, Stmt.allKeywords,
        Stmt.keywords, Branches.keywords, Stmt.exprs, Branches.conditions, List.count_cons,
        he.count_keyword k, hbody.count_keyword k, hlast.count_keyword k]
      omega
  | .again _ he hbody hrest =>
      have hothers := hrest.count_keyword k
      obtain ⟨_, _, _, rfl⟩ := hrest.exists_branch
      simp only [Stmt.folded, Stmt.foldedBranches, Stmt.nodes, Stmt.nodesOfBranches,
        Stmt.allKeywords, Stmt.keywords, Branches.keywords, Stmt.exprs, Branches.conditions,
        List.flatMap_cons, List.flatMap_append, Expr.keywords_cons, List.count_append,
        List.count_cons] at hothers ⊢
      rw [he.count_keyword k, hbody.count_keyword k]
      simp only [beq_iff_eq, TokenKind.keyword.injEq, count_keyword_lineEnds, Nat.zero_add]
        at hothers ⊢
      omega

theorem DerivesBlock.count_keyword {w : List TokenKind} {body : Block} (h : DerivesBlock w body)
    (k : Keyword) :
    w.count (.keyword k) =
      ((Stmt.nodesOfBlock (Stmt.foldedBlock body)).flatMap Stmt.allKeywords).count k := by
  match h with
  | .mk hbody => simp [Stmt.foldedBlock, Stmt.nodesOfBlock, hbody.count_keyword k]

/-- The keywords of a word are those of the statements of its tree. -/
theorem DerivesBody.count_keyword {w : List TokenKind} {stmts : List Stmt}
    (h : DerivesBody w stmts) (k : Keyword) :
    w.count (.keyword k) =
      ((Stmt.nodesAll (Stmt.foldedAll stmts)).flatMap Stmt.allKeywords).count k := by
  match h with
  | .done n => exact count_keyword_lineEnds k n
  | .simple _ hs _ hrest | .compound _ hs hrest =>
      simp [Stmt.foldedAll, Stmt.nodesAll, hs.count_keyword k, hrest.count_keyword k]

end

end Grammar

end KitchenScript
