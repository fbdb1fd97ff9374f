import KitchenScript.Proofs.Compiling
import KitchenScript.Proofs.Joining.Statements
import KitchenScript.Proofs.Layout.Reading

/-!
# Sources one after the other

Two sources that compile also compile when one is put below the other.  The loop over the
statements of the joined source goes through the first as it did alone; past the line end between
them it goes through the second as it did alone, further down.  So the statements are those of the
first and then those of the second, moved down, and the figures are combined.
-/

namespace KitchenScript

open Grammar

namespace Parser

/-- Once the rounds of the loop suffice, more of them change nothing. -/
theorem statements_of_bounds {block : Parser Block} {n : Nat} {inBlock : Bool}
    (hread : ReadsBlocks block n) {bound bound' : List Token} {c d : Cursor} {stmts : List Stmt}
    (hbound : c.rest.length ≤ bound.length) (hbound' : c.rest.length ≤ bound'.length)
    (h : statements inBlock (statement inBlock block) bound c = (stmts, d))
    (hfindings : d.findings = []) :
    statements inBlock (statement inBlock block) bound' c = (stmts, d) := by
  have hhonest : Honest (statement inBlock block) := honest_statement hread.honest
  induction bound generalizing bound' c stmts with
  | nil =>
      cases h
      have hnil : d.rest = [] := by simpa using hbound
      apply statements_of_closes
      left
      rw [Cursor.kind, Cursor.peek, hnil]
      rfl
  | cons t bound ih =>
      rcases statements_cons hhonest h hfindings with
        ⟨rfl, rfl, hcloses⟩ | ⟨s, c₁, rest, hs, rfl, hrest⟩
      · exact statements_of_closes hcloses
      · have hfindings₁ : c₁.findings = [] := by
          have hgrow := findings_statements inBlock hhonest bound c₁.skipLineEnds
          rw [hrest, hfindings] at hgrow
          simpa using hgrow
        have hfindings₀ : c.findings = [] := hhonest.findings_eq_nil hs hfindings₁
        obtain ⟨hopens, hlt⟩ := statement_opens hread hs hfindings₁
        have hle := c₁.length_skipLineEnds_le
        obtain ⟨t', bound', rfl⟩ := List.exists_cons_of_length_pos (l := bound') (by omega)
        simp only [List.length_cons] at hbound hbound'
        have hroom : c₁.skipLineEnds.rest.length ≤ bound'.length := by omega
        rw [statements_round hopens hfindings₀ hs, ih (by omega) hroom hrest]

end Parser

namespace Program

open KitchenScript.Parser Cursor

theorem exists_statements_of_ofTokens {tokens : List Token} {p : Program}
    (h : ofTokens tokens = (some p, [])) :
    ∃ d, statements false (statement false (block maxBlockDepth))
        (Cursor.ofTokens tokens).skipLineEnds.rest (Cursor.ofTokens tokens).skipLineEnds =
          (p.stmts, d) ∧ d.findings = [] := by
  unfold ofTokens at h
  cases hread : statements false (statement false (block maxBlockDepth))
      (Cursor.ofTokens tokens).skipLineEnds.rest (Cursor.ofTokens tokens).skipLineEnds with
  | mk stmts d =>
      simp only [hread, Prod.mk.injEq] at h
      obtain ⟨hp, hfindings⟩ := h
      rw [hfindings] at hp
      cases hp
      exact ⟨d, rfl, hfindings⟩

theorem ofTokens_of_statements {tokens : List Token} {stmts : List Stmt} {d : Cursor}
    (h : statements false (statement false (block maxBlockDepth))
      (Cursor.ofTokens tokens).skipLineEnds.rest (Cursor.ofTokens tokens).skipLineEnds = (stmts, d))
    (hfindings : d.findings = []) :
    ofTokens tokens = (some ⟨(Cursor.ofTokens tokens).span.merge d.last, stmts⟩, []) := by
  simp [ofTokens, h, hfindings]

/-- A file that can be read on its own can follow a line end. -/
theorem goesOn_of_ofTokens (r : Relayout) {tokens : List Token} {eol eof : Token} {q : Program}
    (heol : eol.kind = .lineEnd) (htokens : ∀ t ∈ tokens, t.kind ≠ .fileEnd)
    (heof : eof.kind = .fileEnd) (hq : ofTokens (tokens ++ [eof]) = (some q, [])) :
    GoesOn (eol :: (tokens ++ [eof]).map (Token.respan r)) where
  head := heol
  ne_else := by
    obtain ⟨stmts, hstmts, -⟩ := ofTokens_sound htokens heof hq
    have hcloses : Closes false ([TokenKind.fileEnd].headD .fileEnd) := .inl rfl
    have hkinds : (eol :: (tokens ++ [eof]).map (Token.respan r)).map Token.kind =
        .lineEnd :: (tokens.map Token.kind ++ [.fileEnd]) := by
      rw [List.map_cons, Token.map_kind_respan, List.map_append, heol]
      simp [heof]
    rw [hkinds, dropLineEnds_lineEnd_cons]
    exact headD_ne_else hstmts.1 hcloses

/-- Two files that can be read on their own, with a line end between them and whatever spans in the
second. -/
theorem ofTokens_join (r : Relayout) {first second : List Token} {eol eof eof' : Token}
    {p q : Program} (hfirst : ∀ t ∈ first, t.kind ≠ .fileEnd) (heof : eof.kind = .fileEnd)
    (hp : ofTokens (first ++ [eof]) = (some p, [])) (heol : eol.kind = .lineEnd)
    (hsecond : ∀ t ∈ second, t.kind ≠ .fileEnd) (heof' : eof'.kind = .fileEnd)
    (hq : ofTokens (second ++ [eof']) = (some q, [])) :
    ∃ s, ofTokens (first ++ eol :: (second ++ [eof']).map (Token.respan r)) =
      (some ⟨s, p.stmts ++ Stmt.respanAll r q.stmts⟩, []) := by
  have hu := goesOn_of_ofTokens r heol hsecond heof' hq
  obtain ⟨d, hd, hdfindings⟩ := exists_statements_of_ofTokens hp
  obtain ⟨e, he, hefindings⟩ := exists_statements_of_ofTokens hq
  generalize htail : (second ++ [eof']).map (Token.respan r) = tail at hu ⊢
  have hfile : (Cursor.ofTokens (first ++ [eof])).InFile := ⟨first, eof, rfl, heof, hfirst⟩
  have hgo : (Cursor.ofTokens (first ++ [eof])).goOn (eol :: tail) =
      Cursor.ofTokens (first ++ eol :: tail) := by
    simp [goOn, Cursor.ofTokens]
  have hblock := readsBlocks_block maxBlockDepth
  obtain ⟨hdfile, -, hcloses, bound, hbound, hloop⟩ := statements_goOn hu hblock
    (carriesBlocks_block hu maxBlockDepth) hfile.skipLineEnds (Nat.le_refl _) (Nat.le_refl _) hd
    hdfindings
  rw [← hfile.skipLineEnds_both.2, hgo] at hloop
  -- where the first file has been read, the second one follows
  have hend : d.kind = .fileEnd := hcloses.resolve_right fun h => Bool.noConfusion h.1
  have hskip : (d.goOn (eol :: tail)).skipLineEnds =
      Cursor.skipLineEnds ⟨tail, eol.span, d.findings⟩ := by
    have hcursor : d.goOn (eol :: tail) = ⟨eol :: tail, d.last, d.findings⟩ :=
      congrArg (fun rest => (⟨rest, d.last, d.findings⟩ : Cursor)) (hdfile.rest_goOn_of_end hend)
    rw [hcursor, skipLineEnds_cons heol]
  have hstep : InStep r false (Cursor.ofTokens (second ++ [eof'])) ⟨tail, eol.span, d.findings⟩ :=
    ⟨htail.symm, by rw [hdfindings]; rfl, by simp⟩
  have hboth := statements_inStep (lockstep_toplevel r false) false
    (Cursor.ofTokens (second ++ [eof'])).skipLineEnds.rest hstep.skipLineEnds
  rw [he, ← hstep.skipLineEnds.rest, ← hskip] at hboth
  cases hrest : statements false (statement false (block maxBlockDepth))
      (d.goOn (eol :: tail)).skipLineEnds.rest (d.goOn (eol :: tail)).skipLineEnds with
  | mk stmts e' =>
      rw [hrest] at hboth
      obtain ⟨hstmts, hinStep⟩ := hboth
      have hfindings : e'.findings = [] := by
        have hproblems := hinStep.problems
        rw [hefindings] at hproblems
        simpa using hproblems
      rw [statements_of_bounds hblock (Nat.le_refl _) hbound hrest hfindings] at hloop
      rw [← hstmts]
      exact ⟨_, ofTokens_of_statements hloop hfindings⟩

end Program

/-! ## Figures -/

namespace Stats

theorem empty_join (a : Stats) : empty.join a = a := by
  simp [join, empty]

theorem join_assoc (a b c : Stats) : (a.join b).join c = a.join (b.join c) := by
  simp only [join, Nat.add_assoc, Nat.max_assoc]

theorem ofStmts_append (xs ys : List Stmt) :
    ofStmts (xs ++ ys) = (ofStmts xs).join (ofStmts ys) := by
  induction xs with
  | nil => rw [List.nil_append, ofStmts, empty_join]
  | cons s xs ih => rw [List.cons_append, ofStmts, ofStmts, ih, join_assoc]

theorem ofProgram_join {p q s : Program} (r : Relayout)
    (h : s.stmts = p.stmts ++ Stmt.respanAll r q.stmts) :
    ofProgram s = (ofProgram p).join (ofProgram q) := by
  rw [ofProgram, h, ofStmts_append, ofStmts_respan, List.length_append, Stmt.length_respanAll]
  rfl

end Stats

/-! ## Sources -/

/-- The tokens of two texts with a line feed between them. -/
theorem tokenize_feed (a b : String) :
    ∃ init s s', tokenize a = init ++ [⟨.fileEnd, s⟩] ∧ (∀ t ∈ init, t.kind ≠ .fileEnd) ∧
      tokenize (a ++ "\n" ++ b) = init ++ ⟨.lineEnd, s'⟩ ::
        (tokenize b).map (Token.respan (.down (1 + a.toList.count '\n'))) := by
  have hfeed : (a ++ "\n" ++ b).toList = a.toList ++ (Terminator.feed.chars ++ b.toList) := by
    simp [Terminator.chars]
  obtain ⟨init, hinit, hkinds⟩ := (Lexer.scan_tokensFrom .start a.toList).exists_concat
  obtain ⟨s', htokens, -⟩ := Lexer.tokensFrom_line .feed a.toList b.toList .start
  rw [Lexer.tokensFrom_below, hinit, List.dropLast_concat] at htokens
  exact ⟨init, _, s', hinit, hkinds, by rw [tokenize, hfeed, htokens]; rfl⟩

theorem ofTokens_of_succeeded {source : Source} (h : (compile source).succeeded = true) :
    ∃ p, (compile source).program = some p ∧
      Program.ofTokens (tokenize source.text) = (some p, []) := by
  obtain ⟨p, hp⟩ := (Compiled.succeeded_iff source).mp h
  rw [Compiled.succeeded_eq, List.isEmpty_iff] at h
  exact ⟨p, hp, Prod.ext hp h⟩

/-- Two sources that compile on their own compile one below the other: to the statements of the
first and then those of the second, moved down by the lines of the first, with the figures of both
combined. -/
theorem compile_below (a b : Source) (ha : (compile a).succeeded = true)
    (hb : (compile b).succeeded = true) (name : String) :
    (compile ⟨name, a.text ++ "\n" ++ b.text⟩).succeeded = true ∧
      ∃ p q r s t,
        (compile a).program = some p ∧ (compile a).stats = some s ∧
        (compile b).program = some q ∧ (compile b).stats = some t ∧
        (compile ⟨name, a.text ++ "\n" ++ b.text⟩).program = some r ∧
        r.stmts = p.stmts ++ q.stmts.map (Stmt.respan (.down (1 + a.text.toList.count '\n'))) ∧
        (compile ⟨name, a.text ++ "\n" ++ b.text⟩).stats = some
          { statements := s.statements + t.statements
            topLevelStatements := s.topLevelStatements + t.topLevelStatements
            functions := s.functions + t.functions
            maxParams := max s.maxParams t.maxParams
            longestFunction := max s.longestFunction t.longestFunction } := by
  obtain ⟨p, hpa, hp⟩ := ofTokens_of_succeeded ha
  obtain ⟨q, hqb, hq⟩ := ofTokens_of_succeeded hb
  obtain ⟨first, s, s', hfirst, hkinds, hjoined⟩ := tokenize_feed a.text b.text
  obtain ⟨second, t, -, hsecond, hkinds', -⟩ := tokenize_feed b.text ""
  rw [hsecond] at hq hjoined
  rw [hfirst] at hp
  have heol : (Token.mk .lineEnd s').kind = .lineEnd := rfl
  obtain ⟨span, hr⟩ := Program.ofTokens_join (.down (1 + a.text.toList.count '\n')) hkinds rfl hp
    heol hkinds' rfl hq
  rw [← hjoined] at hr
  have hprogram : (compile ⟨name, a.text ++ "\n" ++ b.text⟩).program =
      some ⟨span, p.stmts ++ Stmt.respanAll (.down (1 + a.text.toList.count '\n')) q.stmts⟩ :=
    congrArg Prod.fst hr
  refine ⟨(Compiled.succeeded_iff _).mpr ⟨_, hprogram⟩, p, q, _, Stats.ofProgram p,
    Stats.ofProgram q, hpa, ?_, hqb, ?_, hprogram, ?_, ?_⟩
  · rw [stats_compile, hpa, Option.map_some]
  · rw [stats_compile, hqb, Option.map_some]
  · rw [Stmt.respanAll_eq_map]
  · rw [stats_compile, hprogram, Option.map_some, Stats.ofProgram_join _ rfl]
    rfl

/-- The first source ends where an `else` could still come, the second starts with a line end. -/
theorem compile_below_branch :
    let a : Source := ⟨"a", "if true \x7b\n  var x = 1\n\x7d"⟩
    let b : Source := ⟨"b", "\nfunc f(x) \x7b\n  return\n\x7d"⟩
    (compile a).succeeded = true ∧ (compile b).succeeded = true ∧
      ∃ p q r, (compile a).program = some p ∧ (compile b).program = some q ∧
        (compile ⟨"ab", a.text ++ "\n" ++ b.text⟩).program = some r ∧
        r.stmts = p.stmts ++ q.stmts.map (Stmt.respan (.down 3)) := by
  intro a b
  have ha : (compile a).succeeded = true := by decide +kernel
  have hb : (compile b).succeeded = true := by decide +kernel
  have hlines : 1 + a.text.toList.count '\n' = 3 := by decide +kernel
  obtain ⟨-, p, q, r, -, -, hp, -, hq, -, hr, hstmts, -⟩ := compile_below a b ha hb "ab"
  rw [hlines] at hstmts
  exact ⟨ha, hb, p, q, r, hp, hq, hr, hstmts⟩

end KitchenScript
