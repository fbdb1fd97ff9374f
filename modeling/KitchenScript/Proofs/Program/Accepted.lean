import KitchenScript.Proofs.Compiling
import KitchenScript.Proofs.Grammar.Contents
import KitchenScript.Proofs.Grammar.Keywords
import KitchenScript.Proofs.Grammar.Programs
import KitchenScript.Proofs.Token.Scan
import KitchenScript.Puzzle.Violation

/-!
# Accepted programs

The program of a source that compiles is, up to spans and folded signs, a tree of the grammar over
the tokens of the source.  So what holds of the nodes of such trees holds of the nodes of the
program.
-/

namespace KitchenScript

/-! ## Identifiers -/

namespace TokenKind

theorem unreserved_ofWord? (word : String) :
    ((ofWord? word).getD (.identifier word)).Unreserved := by
  unfold ofWord?
  cases hfind : Keyword.all.find? fun k => k.spelling == word with
  | some k => trivial
  | none =>
      cases hbuiltin : Builtin.ofName? word with
      | some b => trivial
      | none =>
          rw [List.find?_eq_none] at hfind
          rw [Builtin.ofName?, List.find?_eq_none] at hbuiltin
          change word ∉ Keyword.all.map Keyword.spelling ++ Builtin.all.map Builtin.name
          simp only [List.mem_append, List.mem_map, not_or]
          constructor
          · rintro ⟨k, hk, rfl⟩
            exact hfind k hk (by simp)
          · rintro ⟨b, hb, rfl⟩
            exact hbuiltin b hb (by simp)

theorem name_mem_reservedWords (b : Builtin) : b.name ∈ reservedWords := by
  cases b <;> decide

end TokenKind

namespace Lexer

theorem unreserved_wordKind (word : List Char) : (wordKind word).Unreserved := by
  have hother := TokenKind.unreserved_ofWord? (String.ofList word)
  unfold wordKind
  dsimp only
  split
  · split
    · trivial
    · exact hother
  · exact hother

theorem unreserved_singleKind? {c : Char} {kind : TokenKind} (h : singleKind? c = some kind) :
    kind.Unreserved := by
  unfold singleKind? at h
  split at h <;> cases h <;> trivial

theorem unreserved_symbol? {cs : List Char} {kind : TokenKind} {n : Nat}
    (h : symbol? cs = some (kind, n)) : kind.Unreserved := by
  have hsingle : ∀ c, (singleKind? c).map (·, 1) = some (kind, n) → kind.Unreserved := by
    intro c hc
    obtain ⟨found, hfound, heq⟩ := Option.map_eq_some_iff.mp hc
    cases heq
    exact unreserved_singleKind? hfound
  unfold symbol? at h
  split at h
  · cases h
  · exact hsingle _ h
  · split at h
    · rename_i hpair
      cases h
      unfold pairKind? at hpair
      split at hpair <;> cases hpair <;> trivial
    · exact hsingle _ h

/-- Every reserved word begins with a word character. -/
theorem ofList_not_mem_reservedWords {c : Char} (hc : ¬isWordChar c) (cs : List Char) :
    String.ofList (c :: cs) ∉ TokenKind.reservedWords := by
  intro hmem
  have hall : ∀ word ∈ TokenKind.reservedWords, word.toList.head?.any isWordChar = true := by decide
  have hfirst := hall _ hmem
  simp [hc] at hfirst

theorem unreserved_lexeme (c : Char) (cs : List Char) : (lexeme c cs).1.Unreserved := by
  unfold lexeme
  split
  · trivial
  split
  · trivial
  split
  · split
    · trivial
    · change "\"" ∉ TokenKind.reservedWords
      decide
  split
  · exact unreserved_wordKind (c :: cs.takeWhile isWordChar)
  split
  · rename_i hsymbol
    exact unreserved_symbol? hsymbol
  · rename_i hword _ _
    exact ofList_not_mem_reservedWords hword _

/-- No token is an identifier with the spelling of a reserved word. -/
theorem unreserved_tokensFrom (p : Position) (cs : List Char) :
    ∀ t ∈ tokensFrom p cs, t.kind.Unreserved := by
  induction p, cs using tokensFrom.induct with
  | case1 p cs skipped h =>
      rw [tokensFrom_of_drop_nil h, List.forall_mem_singleton]
      trivial
  | case2 p cs skipped q c rest h kind length hlexeme ih =>
      rw [tokensFrom_of_drop_cons h hlexeme, List.forall_mem_cons]
      have hkind := unreserved_lexeme c rest
      rw [hlexeme] at hkind
      exact ⟨hkind, ih⟩

end Lexer

/-! ## The tree of a program -/

open Grammar

/-- The statements of a program are the tree of a word, up to spans and signs. -/
structure HasTree (p : Program) (w : List TokenKind) (tree : List Stmt) : Prop where
  derives : DerivesProgram w tree
  same : Stmt.bareAll p.stmts = Stmt.foldedAll tree

namespace HasTree

variable {p : Program} {w : List TokenKind} {tree : List Stmt}

theorem bare_mem_nodesAll (h : HasTree p w tree) {s : Stmt} (hs : s ∈ p.stmtNodes) :
    s.bare ∈ Stmt.nodesAll (Stmt.foldedAll tree) := by
  rw [← h.same, Stmt.nodesAll_bareAll]
  exact List.mem_map_of_mem hs

/-- A whole expression of the program was read from a part of the word. -/
theorem standsWhole (h : HasTree p w tree) {e : Expr} (he : e ∈ p.exprs) :
    StandsWhole w e.bare := by
  obtain ⟨s, hs, hes⟩ := List.mem_flatMap.mp he
  have hstands := h.derives.1.stands s.bare (h.bare_mem_nodesAll hs)
  apply hstands.2
  rw [Stmt.exprs_bare]
  exact List.mem_map_of_mem hes

theorem lawful_stmt (h : HasTree p w tree) {s : Stmt} (hs : s ∈ p.stmtNodes) : s.Lawful := by
  have hstands := h.derives.1.stands s.bare (h.bare_mem_nodesAll hs)
  exact Stmt.lawful_bare.mp hstands.1

theorem lawful_expr (h : HasTree p w tree) (hw : ∀ k ∈ w, k.Unreserved) {n : Expr}
    (hn : n ∈ p.exprNodes) : n.Lawful := by
  obtain ⟨e, he, hne⟩ := List.mem_flatMap.mp hn
  obtain ⟨v, t, hv, hwhole, heq⟩ := h.standsWhole he
  have hmem : n.bare ∈ e.bare.nodes := by
    rw [Expr.nodes_bare]
    exact List.mem_map_of_mem hne
  rw [heq] at hmem
  have htree := hwhole.1.lawful (fun k hk => hw k (hv hk)) n.bare hmem
  exact Expr.lawful_bare.mp htree

theorem nesting_lt (h : HasTree p w tree) {e : Expr} (he : e ∈ p.exprs) :
    e.nesting < maxExprDepth := by
  obtain ⟨v, t, -, hwhole, heq⟩ := h.standsWhole he
  calc
    e.nesting = e.bare.nesting := (Expr.nesting_bare e).symm
    _ = t.folded.nesting := by rw [heq]
    _ ≤ t.nesting := Expr.nesting_folded_le t
    _ < maxExprDepth := hwhole.2

theorem blockNesting_le (h : HasTree p w tree) :
    Stmt.blockNestingAll p.stmts ≤ maxBlockDepth := by
  rw [← Stmt.blockNestingAll_bareAll, h.same, Stmt.blockNestingAll_foldedAll]
  exact h.derives.2

/-- The keywords of the word are those of the program. -/
theorem count_keyword (h : HasTree p w tree) (k : Keyword) :
    w.count (.keyword k) = p.keywords.count k := by
  have hbare : (Stmt.nodesAll (Stmt.bareAll p.stmts)).flatMap Stmt.allKeywords =
      p.stmtNodes.flatMap Stmt.allKeywords := by
    simp only [Stmt.nodesAll_bareAll, List.flatMap_map, Stmt.allKeywords_bare]
    rfl
  rw [h.derives.1.count_keyword k, ← h.same, hbare, p.count_allKeywords]

end HasTree

/-- A program that was compiled has a tree over the tokens of its source. -/
theorem exists_hasTree {source : Source} {p : Program}
    (h : (compile source).program = some p) :
    ∃ tokens last tree, tokenize source.text = tokens ++ [last] ∧ last.kind = .fileEnd ∧
      HasTree p (tokens.map Token.kind) tree := by
  have hfindings : (Program.ofTokens (tokenize source.text)).2 = [] := by
    have hsucceeded := (Compiled.succeeded_iff source).mpr ⟨p, h⟩
    rwa [Compiled.succeeded_eq, List.isEmpty_iff] at hsucceeded
  have hread : Program.ofTokens (tokenize source.text) = (some p, []) := Prod.ext h hfindings
  obtain ⟨init, hinit, hends⟩ :=
    (Lexer.scan_tokensFrom .start source.text.toList).exists_concat
  have htokens : tokenize source.text = init ++ [_] := hinit
  rw [htokens] at hread
  obtain ⟨tree, hderives, hsame⟩ := Program.ofTokens_sound hends rfl hread
  exact ⟨init, _, tree, htokens, rfl, hderives, congrArg Program.stmts hsame⟩

namespace Program

variable {source : Source} {p : Program}

theorem lawful_of_compile (h : (compile source).program = some p) :
    (∀ s ∈ p.stmtNodes, s.Lawful) ∧ ∀ e ∈ p.exprNodes, e.Lawful := by
  obtain ⟨tokens, last, tree, htokens, -, htree⟩ := exists_hasTree h
  refine ⟨fun s hs => htree.lawful_stmt hs, fun e he => htree.lawful_expr ?_ he⟩
  intro k hk
  obtain ⟨t, ht, rfl⟩ := List.mem_map.mp hk
  apply Lexer.unreserved_tokensFrom .start source.text.toList
  change t ∈ tokenize source.text
  rw [htokens]
  exact List.mem_append_left _ ht

theorem nesting_of_compile (h : (compile source).program = some p) :
    Stmt.blockNestingAll p.stmts ≤ maxBlockDepth ∧ ∀ e ∈ p.exprs, e.nesting < maxExprDepth := by
  obtain ⟨tokens, last, tree, -, -, htree⟩ := exists_hasTree h
  exact ⟨htree.blockNesting_le, fun e he => htree.nesting_lt he⟩

/-- A source has as many tokens of a keyword as its program. -/
theorem countP_keyword_of_compile (h : (compile source).program = some p) (k : Keyword) :
    (compile source).tokens.countP (fun t => t.kind == .keyword k) = p.keywords.count k := by
  obtain ⟨tokens, last, tree, htokens, hlast, htree⟩ := exists_hasTree h
  calc
    (compile source).tokens.countP (fun t => t.kind == .keyword k) =
        (tokens ++ [last]).countP fun t => t.kind == .keyword k := by rw [← htokens]; rfl
    _ = tokens.countP fun t => t.kind == .keyword k := by
      rw [List.countP_append, List.countP_cons_of_neg (by simp [hlast])]
      rfl
    _ = (tokens.map Token.kind).count (.keyword k) := by
      rw [List.count, List.countP_map]
      rfl
    _ = p.keywords.count k := htree.count_keyword k

theorem countP_applies_of_compile (h : (compile source).program = some p) {op : BinaryOp}
    {k : Keyword} (hop : op.keyword? = some k) :
    (compile source).tokens.countP (fun t => t.kind == .keyword k) =
      p.exprNodes.countP (Expr.applies op) := by
  have hstmts : (p.stmtNodes.flatMap Stmt.keywords).count k = 0 := by
    rw [List.count_eq_zero]
    intro hmem
    obtain ⟨s, -, hs⟩ := List.mem_flatMap.mp hmem
    exact Stmt.not_mem_keywords hop s hs
  rw [countP_keyword_of_compile h, keywords, List.count_append, hstmts, Nat.zero_add,
    Expr.countP_applies hop]
  rfl

theorem countP_isConnective_of_compile (h : (compile source).program = some p) :
    p.exprNodes.countP Expr.isConnective = (compile source).tokens.countP Token.isConnective := by
  have hand := countP_applies_of_compile h BinaryOp.keyword?_and
  have hor := countP_applies_of_compile h BinaryOp.keyword?_or
  have htokens : (compile source).tokens.countP Token.isConnective =
      (compile source).tokens.countP (fun t => t.kind == .keyword .andWord) +
        (compile source).tokens.countP (fun t => t.kind == .keyword .orWord) :=
    countP_or (fun t ht => by simp_all) _
  rw [Expr.countP_isConnective, htokens, hand, hor]

end Program

end KitchenScript
