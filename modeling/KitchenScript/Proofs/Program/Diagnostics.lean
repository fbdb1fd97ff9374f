import KitchenScript.Proofs.Spans.Programs

/-!
# Where diagnostics point

A finding applies to a token of the text, and tokens start on lines that the text has.  So every
diagnostic quotes the line it points to.  Reading never goes back before a token that it has blamed;
so the diagnostics come in the order of the text, also those that only count.
-/

namespace KitchenScript

/-! ## The lines of tokens -/

theorem length_splitLines (cs : List Char) : (splitLines cs).length = cs.count '\n' + 1 := by
  induction cs with
  | nil => rfl
  | cons c cs ih =>
      by_cases hc : c = '\n'
      · rw [splitLines, if_pos hc, List.length_cons, ih, hc, List.count_cons_self]
      · obtain ⟨lines, hlines⟩ := Lexer.exists_splitLines cs
        rw [hlines, List.length_cons] at ih
        rw [splitLines, if_neg hc, hlines, List.count_cons_of_ne hc]
        exact ih

/-- A token starts on a line that has begun. -/
theorem Lexer.Scan.line_le {p : Position} {cs : List Char} {ts : List Token} (h : Scan p cs ts) :
    ∀ t ∈ ts, t.span.first.line ≤ p.line + cs.count '\n' := by
  induction h with
  | @done p gap _ =>
      intro t ht
      rw [List.mem_singleton.mp ht]
      exact Nat.le_of_eq (Position.line_past p gap)
  | @lineEnd p gap rest ts u _ _ ih =>
      intro t ht
      rw [List.count_append, List.count_append]
      rcases List.mem_cons.mp ht with rfl | ht
      · rw [Span.point, Position.line_past]
        omega
      · have hrest := ih t ht
        rw [Position.line_past, List.count_append] at hrest
        omega
  | @lexeme p gap word rest kind ts _ _ _ _ ih =>
      intro t ht
      rw [List.count_append, List.count_append]
      rcases List.mem_cons.mp ht with rfl | ht
      · have hfirst : (wordSpan (p.past gap) word).first = p.past gap := rfl
        rw [hfirst, Position.line_past]
        omega
      · have hrest := ih t ht
        rw [Position.line_past, List.count_append] at hrest
        omega

theorem line_of_mem_tokenize {source : Source} {t : Token} (ht : t ∈ tokenize source.text) :
    1 ≤ t.span.first.line ∧ t.span.first.line ≤ source.lineCount := by
  have hscan := Lexer.scan_tokensFrom .start source.text.toList
  have hfirst := (hscan.le_first t ht).1
  have hline := hscan.line_le t ht
  have hcount : source.lineCount = source.text.toList.count '\n' + 1 := by
    rw [Source.lineCount, Source.lines, List.length_map, length_splitLines]
  have hstart : Position.start.line = 1 := rfl
  rw [Position.le_iff, hstart] at hfirst
  rw [hstart] at hline
  omega

theorem Source.line?_of_le {source : Source} {n : Nat} (hpos : 1 ≤ n)
    (hle : n ≤ source.lineCount) : ∃ line, source.line? n = some line := by
  obtain ⟨k, rfl⟩ : ∃ k, n = k + 1 := ⟨n - 1, by omega⟩
  exact ⟨source.lines[k], List.getElem?_eq_getElem hle⟩

/-! ## Findings of a whole text -/

/-- The token to come is one of the file as long as its end has not been taken. -/
theorem Cursor.Took.prefix_peek {c d : Cursor} {w : List Token} {fs : List Finding}
    (h : Took c w fs d) (hend : ∃ t ∈ c.rest, t.kind = .fileEnd) : w ++ [d.peek] <+: c.rest := by
  rcases hend with ⟨t, ht, hkind⟩
  rw [h.rest] at ht ⊢
  have hleft : t ∈ d.rest := by
    rcases List.mem_append.mp ht with ht | ht
    · exact absurd hkind (h.inside t ht)
    · exact ht
  rw [List.prefix_append_right_inj]
  cases hrest : d.rest with
  | nil =>
      rw [hrest] at hleft
      cases hleft
  | cons a rest =>
      have hpeek : d.peek = a := by rw [peek, hrest]; rfl
      rw [hpeek]
      exact ⟨rest, rfl⟩

theorem placed_findings (text : String) :
    Placed (tokenize text) (Program.ofTokens (tokenize text)).2 := by
  rcases Program.ofTokens_took (tokenize text) with ⟨v, w, d, -, htook, -, -⟩
  have hend : ∃ t ∈ tokenize text, t.kind = .fileEnd := by
    rw [tokenize, Lexer.tokensFrom_eq_concat]
    exact ⟨_, List.mem_append_right _ List.mem_cons_self, rfl⟩
  have hprefix := htook.prefix_peek hend
  have hplaced := htook.placed ((ordered_tokenize text).sublist hprefix.sublist)
  exact ⟨fun f hf => (hplaced.starts f hf).mono hprefix.subset, hplaced.sorted⟩

def Code.all : List Code :=
  [unexpectedToken, unclosedBlock, expectedLineEnd, invalidLiteral, danglingElse, nestingLimit,
    duplicateParameter]

theorem Problem.code_mem_all (problem : Problem) : problem.code ∈ Code.all := by
  unfold Problem.code
  split
  · split <;> decide
  all_goals decide

theorem Code.category_of_mem_all : ∀ code ∈ Code.all,
    (100 ≤ code.number ∧ code.number ≤ 199 ∧ code.category = .syntactic) ∨
      (200 ≤ code.number ∧ code.number ≤ 299 ∧ code.category = .structural) := by
  decide

/-- Diagnostics are kept from the first one on, up to twenty of them, and come in the order of the
text.  Each points to a line of the text and quotes it, and is of the category of its code. -/
theorem diagnostics_in_order (source : Source) :
    let reported := (Program.ofTokens (tokenize source.text)).2.map (Finding.diagnose source)
    let kept := (compile source).diagnostics
    kept.total = reported.length ∧
      kept.errors = reported.take (min kept.total 20) ∧
      (reported.Pairwise fun d e => d.span.first ≤ e.span.first) ∧
      ∀ d ∈ reported,
        1 ≤ d.span.first.line ∧ d.span.first.line ≤ source.lineCount ∧
        source.line? d.span.first.line = some d.sourceLine ∧
        ((100 ≤ d.code.number ∧ d.code.number ≤ 199 ∧ d.category = .syntactic) ∨
          (200 ≤ d.code.number ∧ d.code.number ≤ 299 ∧ d.category = .structural)) := by
  intro reported kept
  have hplaced := placed_findings source.text
  have hkept : kept = ⟨reported.take 20, reported.length⟩ :=
    (diagnostics_compile source).trans (Diagnostics.ofList_eq reported)
  refine ⟨by rw [hkept], ?_, ?_, ?_⟩
  · rw [hkept, Nat.min_comm, ← List.take_take, List.take_length]
  · rw [List.pairwise_map]
    exact hplaced.sorted
  · intro d hd
    rcases List.mem_map.mp hd with ⟨f, hf, rfl⟩
    rcases hplaced.starts f hf with ⟨t, ht, hfirst⟩
    have hlines := line_of_mem_tokenize ht
    rw [← hfirst] at hlines
    rcases Source.line?_of_le hlines.1 hlines.2 with ⟨line, hline⟩
    refine ⟨hlines.1, hlines.2, ?_, Code.category_of_mem_all _ f.problem.code_mem_all⟩
    show source.line? f.span.first.line = some ((source.line? f.span.first.line).getD "")
    rw [hline]
    rfl

end KitchenScript
