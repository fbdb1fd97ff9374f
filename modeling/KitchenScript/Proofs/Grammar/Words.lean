import KitchenScript.Proofs.Grammar.Rules

/-!
# Words of the grammar

With which tokens the words of the grammar begin, and which tokens they leave out.  A reader that
looks at the token to come relies on these facts to choose the right rule.
-/

namespace KitchenScript.Grammar

/-- A word without the line ends at its front. -/
def dropLineEnds (w : List TokenKind) : List TokenKind :=
  w.dropWhile (· == .lineEnd)

@[simp] theorem dropLineEnds_nil : dropLineEnds [] = [] := rfl

@[simp] theorem dropLineEnds_lineEnd_cons (w : List TokenKind) :
    dropLineEnds (.lineEnd :: w) = dropLineEnds w := by
  simp [dropLineEnds]

theorem dropLineEnds_cons {k : TokenKind} (hk : k ≠ .lineEnd) (w : List TokenKind) :
    dropLineEnds (k :: w) = k :: w := by
  simp [dropLineEnds, hk]

@[simp] theorem lineEnds_zero : lineEnds 0 = [] := rfl

theorem lineEnds_succ (n : Nat) : lineEnds (n + 1) = .lineEnd :: lineEnds n := rfl

theorem lineEnds_add (m n : Nat) : lineEnds (m + n) = lineEnds m ++ lineEnds n := by
  simp [lineEnds, List.replicate_append_replicate]

@[simp] theorem dropLineEnds_lineEnds_append (n : Nat) (w : List TokenKind) :
    dropLineEnds (lineEnds n ++ w) = dropLineEnds w := by
  induction n with
  | zero => simp
  | succ n ih => simp [lineEnds_succ, ih]

theorem exists_lineEnds_append (w : List TokenKind) : ∃ n, w = lineEnds n ++ dropLineEnds w := by
  induction w with
  | nil => exact ⟨0, rfl⟩
  | cons k w ih =>
      by_cases hk : k = .lineEnd
      · subst hk
        obtain ⟨n, hn⟩ := ih
        refine ⟨n + 1, ?_⟩
        rw [lineEnds_succ, dropLineEnds_lineEnd_cons, List.cons_append, ← hn]
      · exact ⟨0, by simp [dropLineEnds_cons hk]⟩

theorem headD_dropLineEnds_ne (w : List TokenKind) :
    (dropLineEnds w).headD .fileEnd ≠ .lineEnd := by
  induction w with
  | nil => simp
  | cons k w ih =>
      by_cases hk : k = .lineEnd
      · subst hk
        simpa using ih
      · simpa [dropLineEnds_cons hk] using hk

theorem dropLineEnds_of_headD_ne {w : List TokenKind} (h : w.headD .fileEnd ≠ .lineEnd) :
    dropLineEnds w = w := by
  cases w with
  | nil => rfl
  | cons k w => exact dropLineEnds_cons (by simpa using h) w

@[simp] theorem dropLineEnds_dropLineEnds (w : List TokenKind) :
    dropLineEnds (dropLineEnds w) = dropLineEnds w :=
  dropLineEnds_of_headD_ne (headD_dropLineEnds_ne w)

theorem length_dropLineEnds_le (w : List TokenKind) : (dropLineEnds w).length ≤ w.length := by
  obtain ⟨n, hn⟩ := exists_lineEnds_append w
  have hlength := congrArg List.length hn
  rw [List.length_append] at hlength
  omega

/-- The tokens with which an expression may begin. -/
def opensExpr : TokenKind → Bool
  | .number _ | .text _ | .identifier _ | .builtin _ => true
  | .keyword word => word = .trueWord ∨ word = .falseWord ∨ word = .noneWord ∨ word = .notWord
  | .symbol mark =>
    mark = .leftBracket ∨ mark = .leftParen ∨ mark = .minus ∨ mark = .hash
  | .lineEnd | .fileEnd => false

/-- The tokens that may follow a whole expression. -/
def closesExpr : TokenKind → Bool
  | .lineEnd | .fileEnd => true
  | .symbol mark =>
    mark = .rightParen ∨ mark = .rightBracket ∨ mark = .comma ∨ mark = .leftBrace ∨
      mark = .rightBrace
  | _ => false

/-- The tokens with which a statement may begin. -/
def opensStmt : TokenKind → Bool
  | .keyword .varWord | .keyword .funcWord | .keyword .ifWord | .keyword .whileWord
  | .keyword .returnWord => true
  | k => opensExpr k

theorem opensStmt_of_opensExpr {k : TokenKind} (h : opensExpr k = true) : opensStmt k = true := by
  unfold opensStmt
  split <;> first | rfl | exact h

theorem Sign.opensExpr {k : TokenKind} {op : UnaryOp} (h : Sign k op) : opensExpr k = true := by
  cases h <;> rfl

theorem DerivesExpr.exists_head {L : Level} {w : List TokenKind} {e : Expr}
    (h : DerivesExpr L w e) : ∃ k v, w = k :: v ∧ Grammar.opensExpr k = true := by
  match h with
  | .number _ | .text _ | .truth | .falsity | .nothing | .name _ | .call _ _ | .builtin _ _
  | .list _ | .paren _ _ _ => exact ⟨_, _, rfl, rfl⟩
  | .sign hk _ => exact ⟨_, _, rfl, hk.opensExpr⟩
  | .index _ _ he _ | .chain _ he _ _ | .join _ he _ _ =>
      obtain ⟨k, v, rfl, hk⟩ := he.exists_head
      exact ⟨k, _, rfl, hk⟩
  | .ascend he => exact he.exists_head

theorem opensExpr.ne_lineEnd {k : TokenKind} (h : opensExpr k = true) : k ≠ .lineEnd := by
  rintro rfl
  simp [opensExpr] at h

theorem opensStmt.ne_lineEnd {k : TokenKind} (h : opensStmt k = true) : k ≠ .lineEnd := by
  rintro rfl
  simp [opensStmt, opensExpr] at h

theorem Operator.ne_fileEnd {L : Level} {k : TokenKind} {op : BinaryOp} (h : Operator L k op) :
    k ≠ .fileEnd := by
  cases h <;> simp

theorem Sign.ne_fileEnd {k : TokenKind} {op : UnaryOp} (h : Sign k op) : k ≠ .fileEnd := by
  cases h <;> simp

/-! ## Tokens left out -/

/-- All tokens but those that stand outside of every expression. -/
def inExpr : TokenKind → Bool
  | .symbol .assign | .fileEnd => false
  | _ => true

theorem all_inExpr_lineEnds (n : Nat) : (lineEnds n).all inExpr = true := by
  simp [lineEnds, inExpr]

theorem Operator.inExpr {L : Level} {k : TokenKind} {op : BinaryOp} (h : Operator L k op) :
    inExpr k = true := by
  cases h <;> rfl

theorem Sign.inExpr {k : TokenKind} {op : UnaryOp} (h : Sign k op) : inExpr k = true := by
  cases h <;> rfl

mutual

theorem DerivesExpr.all_inExpr {L : Level} {w : List TokenKind} {e : Expr}
    (h : DerivesExpr L w e) : w.all Grammar.inExpr = true := by
  match h with
  | .number _ | .text _ | .truth | .falsity | .nothing | .name _ => rfl
  | .call _ hargs | .builtin hargs _ | .list hargs =>
      simp [hargs.all_inExpr, Grammar.inExpr]
  | .paren _ _ he =>
      simp [he.all_inExpr, all_inExpr_lineEnds, Grammar.inExpr]
  | .index _ _ he hp =>
      simp [he.all_inExpr, hp.all_inExpr, all_inExpr_lineEnds, Grammar.inExpr]
  | .sign hk he => simp [he.all_inExpr, hk.inExpr]
  | .chain _ ha hk hb | .join _ ha hk hb =>
      simp [ha.all_inExpr, hb.all_inExpr, hk.inExpr]
  | .ascend he => exact he.all_inExpr

theorem DerivesItems.all_inExpr {w : List TokenKind} {items : List Expr}
    (h : DerivesItems w items) : w.all Grammar.inExpr = true := by
  match h with
  | .one _ _ he => simp [he.all_inExpr, all_inExpr_lineEnds]
  | .more _ _ he hrest =>
      simp [he.all_inExpr, hrest.all_inExpr, all_inExpr_lineEnds, Grammar.inExpr]

theorem DerivesList.all_inExpr {w : List TokenKind} {items : List Expr}
    (h : DerivesList w items) : w.all Grammar.inExpr = true := by
  match h with
  | .empty n => exact all_inExpr_lineEnds n
  | .items hitems => exact hitems.all_inExpr

end

/-! ## Lists -/

theorem DerivesItems.dropLineEnds_eq {w : List TokenKind} {items : List Expr}
    (h : DerivesItems w items) :
    ∃ k v, dropLineEnds w = k :: v ∧ Grammar.opensExpr k = true := by
  cases h with
  | one m n he =>
      obtain ⟨k, v, rfl, hk⟩ := he.exists_head
      refine ⟨k, v ++ lineEnds n, ?_, hk⟩
      rw [List.append_assoc, dropLineEnds_lineEnds_append, List.cons_append,
        dropLineEnds_cons (opensExpr.ne_lineEnd hk)]
  | @more _ u _ _ m n he hrest =>
      obtain ⟨k, v, rfl, hk⟩ := he.exists_head
      refine ⟨k, v ++ (lineEnds n ++ .symbol .comma :: u), ?_, hk⟩
      rw [List.append_assoc, List.append_assoc, dropLineEnds_lineEnds_append, List.cons_append,
        dropLineEnds_cons (opensExpr.ne_lineEnd hk)]

theorem DerivesItems.after_lineEnds {w : List TokenKind} {items : List Expr}
    (h : DerivesItems w items) (m : Nat) : DerivesItems (lineEnds m ++ w) items := by
  cases h with
  | one n k he =>
      rw [← List.append_assoc, ← List.append_assoc, ← lineEnds_add]
      exact .one (m + n) k he
  | more n k he hrest =>
      rw [← List.append_assoc, ← List.append_assoc, ← List.append_assoc, ← lineEnds_add]
      exact .more (m + n) k he hrest

theorem DerivesNames.dropLineEnds_eq {w : List TokenKind} {xs : List Ident}
    (h : DerivesNames w xs) : ∃ x v, dropLineEnds w = .identifier x :: v := by
  cases h with
  | one m n x => exact ⟨x, lineEnds n, by simp [dropLineEnds_cons]⟩
  | @more u _ m n x hrest =>
      exact ⟨x, lineEnds n ++ .symbol .comma :: u, by simp [dropLineEnds_cons]⟩

theorem DerivesNames.after_lineEnds {w : List TokenKind} {xs : List Ident}
    (h : DerivesNames w xs) (m : Nat) : DerivesNames (lineEnds m ++ w) xs := by
  cases h with
  | one n k x =>
      rw [← List.append_assoc, ← lineEnds_add]
      exact .one (m + n) k x
  | more n k x hrest =>
      rw [← List.append_assoc, ← lineEnds_add]
      exact .more (m + n) k x hrest

/-! ## First tokens of statements -/

theorem DerivesWhole.exists_head {w : List TokenKind} {e : Expr} (h : DerivesWhole w e) :
    ∃ k v, w = k :: v ∧ opensExpr k = true :=
  h.1.exists_head

theorem DerivesSimple.exists_head {w : List TokenKind} {s : Stmt} (h : DerivesSimple w s) :
    ∃ k v, w = k :: v ∧ opensStmt k = true := by
  cases h with
  | var _ | assign _ | giveBack _ | giveBackNothing => exact ⟨_, _, rfl, rfl⟩
  | expr he =>
      obtain ⟨k, v, rfl, hk⟩ := he.exists_head
      exact ⟨k, v, rfl, opensStmt_of_opensExpr hk⟩

theorem DerivesCompound.exists_head {w : List TokenKind} {s : Stmt} (h : DerivesCompound w s) :
    ∃ k v, w = k :: v ∧ opensStmt k = true := by
  cases h <;> exact ⟨_, _, rfl, rfl⟩

theorem DerivesBlock.exists_cons {w : List TokenKind} {t : Block} (h : DerivesBlock w t) :
    ∃ v, w = .symbol .leftBrace :: v := by
  cases h
  exact ⟨_, rfl⟩

/-- Past its line ends a body is empty or begins with a statement. -/
theorem DerivesBody.dropLineEnds_eq {w : List TokenKind} {stmts : List Stmt}
    (h : DerivesBody w stmts) :
    dropLineEnds w = [] ∨ ∃ k v, dropLineEnds w = k :: v ∧ opensStmt k = true := by
  cases h with
  | done n =>
      left
      simpa using dropLineEnds_lineEnds_append n []
  | simple n hs _ _ =>
      obtain ⟨k, v, rfl, hk⟩ := hs.exists_head
      right
      exact ⟨k, _, by rw [dropLineEnds_lineEnds_append, List.cons_append,
        dropLineEnds_cons (opensStmt.ne_lineEnd hk)], hk⟩
  | compound n hs _ =>
      obtain ⟨k, v, rfl, hk⟩ := hs.exists_head
      right
      exact ⟨k, _, by rw [dropLineEnds_lineEnds_append, List.cons_append,
        dropLineEnds_cons (opensStmt.ne_lineEnd hk)], hk⟩

theorem DerivesBody.head {w : List TokenKind} {stmts : List Stmt} (h : DerivesBody w stmts) :
    w = [] ∨ ∃ k v, w = k :: v ∧ (k = .lineEnd ∨ opensStmt k = true) := by
  obtain ⟨n, hn⟩ := exists_lineEnds_append w
  cases n with
  | zero =>
      change w = dropLineEnds w at hn
      rcases h.dropLineEnds_eq with hnil | ⟨k, v, hkv, hk⟩
      · exact .inl (hn.trans hnil)
      · exact .inr ⟨k, v, hn.trans hkv, .inr hk⟩
  | succ n => exact .inr ⟨.lineEnd, lineEnds n ++ dropLineEnds w, hn, .inl rfl⟩

theorem DerivesSimple.blockNesting_eq {w : List TokenKind} {s : Stmt} (h : DerivesSimple w s) :
    s.blockNesting = 0 := by
  cases h <;> rfl

theorem fileEnd_not_mem_lineEnds (n : Nat) : .fileEnd ∉ lineEnds n := by
  simp [lineEnds]

theorem DerivesWhole.fileEnd_not_mem {w : List TokenKind} {e : Expr} (h : DerivesWhole w e) :
    .fileEnd ∉ w := by
  intro hmem
  have := List.all_eq_true.mp h.1.all_inExpr _ hmem
  cases this

theorem DerivesNames.fileEnd_not_mem {w : List TokenKind} {xs : List Ident}
    (h : DerivesNames w xs) : .fileEnd ∉ w := by
  induction h with
  | one m n x => simp [fileEnd_not_mem_lineEnds]
  | more m n x hrest ih => simp [fileEnd_not_mem_lineEnds, ih]

theorem DerivesParams.fileEnd_not_mem {w : List TokenKind} {xs : List Ident}
    (h : DerivesParams w xs) : .fileEnd ∉ w := by
  cases h with
  | empty n => exact fileEnd_not_mem_lineEnds n
  | names h _ => exact h.fileEnd_not_mem

theorem DerivesSimple.fileEnd_not_mem {w : List TokenKind} {s : Stmt} (h : DerivesSimple w s) :
    .fileEnd ∉ w := by
  cases h with
  | var he | assign he | giveBack he => simp [he.fileEnd_not_mem]
  | giveBackNothing => simp
  | expr he => exact he.fileEnd_not_mem

mutual

theorem DerivesCompound.fileEnd_not_mem {w : List TokenKind} {s : Stmt}
    (h : DerivesCompound w s) : .fileEnd ∉ w := by
  match h with
  | .func hparams hbody => simp [hparams.fileEnd_not_mem, hbody.fileEnd_not_mem]
  | .choose h => simp [h.fileEnd_not_mem]
  | .loop he hbody => simp [he.fileEnd_not_mem, hbody.fileEnd_not_mem]

theorem DerivesChoice.fileEnd_not_mem {w : List TokenKind} {t : Branches}
    (h : DerivesChoice w t) : .fileEnd ∉ w := by
  match h with
  | .done he hbody => simp [he.fileEnd_not_mem, hbody.fileEnd_not_mem]
  | .otherwise n he hbody hlast =>
      simp [he.fileEnd_not_mem, hbody.fileEnd_not_mem, hlast.fileEnd_not_mem,
        fileEnd_not_mem_lineEnds]
  | .again n he hbody hrest =>
      simp [he.fileEnd_not_mem, hbody.fileEnd_not_mem, hrest.fileEnd_not_mem,
        fileEnd_not_mem_lineEnds]

theorem DerivesBlock.fileEnd_not_mem {w : List TokenKind} {t : Block} (h : DerivesBlock w t) :
    .fileEnd ∉ w := by
  match h with
  | .mk hbody => simp [hbody.fileEnd_not_mem]

/-- No word of the grammar goes past the end of the file. -/
theorem DerivesBody.fileEnd_not_mem {w : List TokenKind} {stmts : List Stmt}
    (h : DerivesBody w stmts) : .fileEnd ∉ w := by
  match h with
  | .done n => exact fileEnd_not_mem_lineEnds n
  | .simple n hs _ hrest =>
      simp [hs.fileEnd_not_mem, hrest.fileEnd_not_mem, fileEnd_not_mem_lineEnds]
  | .compound n hs hrest =>
      simp [hs.fileEnd_not_mem, hrest.fileEnd_not_mem, fileEnd_not_mem_lineEnds]

end

/-- Line ends may be added in front of a body. -/
theorem DerivesBody.after_lineEnds {w : List TokenKind} {stmts : List Stmt}
    (h : DerivesBody w stmts) (m : Nat) : DerivesBody (lineEnds m ++ w) stmts := by
  cases h with
  | done n =>
      rw [← lineEnds_add]
      exact .done (m + n)
  | simple n hs hends hrest =>
      rw [← List.append_assoc, ← lineEnds_add]
      exact .simple (m + n) hs hends hrest
  | compound n hs hrest =>
      rw [← List.append_assoc, ← lineEnds_add]
      exact .compound (m + n) hs hrest

end KitchenScript.Grammar
