import KitchenScript.Proofs.Compiling
import KitchenScript.Proofs.Spans.Statements

/-!
# The spans of programs

A program that compiles is its tokens written out, statement by statement, so every node has a span
from its first token to its last one.  The tokens of a text do not overlap; so the spans of a node's
children lie inside its own, apart from each other and in the order of the text.
-/

namespace KitchenScript

open Piece

namespace Program

/-- Reading a program takes line ends and then its statements, and finds things in the order of the
tokens. -/
theorem ofTokens_took (tokens : List Token) :
    ∃ v w d stmts,
      Cursor.Took (.ofTokens tokens) (v ++ w) (ofTokens tokens).2 d ∧
      ((ofTokens tokens).2 = [] → Parser.LaysBody w stmts) ∧
      ∀ p, (ofTokens tokens).1 = some p → (ofTokens tokens).2 = [] ∧ p.stmts = stmts ∧
        p.span = (Cursor.ofTokens tokens).span.merge d.last := by
  rcases (Cursor.Took.refl (.ofTokens tokens)).skipLineEnds with ⟨v, -, hskip⟩
  rcases Parser.statements_reading (Parser.statement_block_reading false) false
    (Cursor.ofTokens tokens).skipLineEnds.rest (Cursor.ofTokens tokens).skipLineEnds with
    ⟨w, fs, hbody, hlays⟩
  have htook := hskip.trans hbody
  have hfindings : (ofTokens tokens).2 = fs := htook.findings
  rw [hfindings]
  refine ⟨v, w, _, _, htook, hlays, ?_⟩
  intro p hp
  unfold ofTokens at hp
  simp only at hp
  split at hp
  · rename_i hempty
    cases hp
    rw [List.isEmpty_iff] at hempty
    exact ⟨hfindings.symm.trans hempty, rfl, rfl⟩
  · cases hp

end Program

theorem Piece.filterMap_child?_body (stmts : List Stmt) :
    (stmts.flatMap fun s => [Piece.node (.stmt s), .lineEnds]).filterMap Piece.child? =
      stmts.map Node.stmt := by
  induction stmts with
  | nil => rfl
  | cons s stmts ih => simp [List.filterMap_cons, Piece.child?, ih]

namespace Program

variable {p : Program} {w : List Token}

theorem exists_written_of_hasNode
    (hfills : Fills Written w (p.stmts.flatMap fun s => [.node (.stmt s), .lineEnds])) {n : Node}
    (hn : p.HasNode n) : ∃ v, v <:+: w ∧ Written v n := by
  induction hn with
  | @top s hs =>
      apply hfills.exists_of_mem
      rw [Piece.filterMap_child?_body]
      exact List.mem_map_of_mem hs
  | child _ hm ih =>
      rcases ih with ⟨v, hv, hwritten⟩
      rcases hwritten.exists_of_mem_children hm with ⟨u, hu, hwritten'⟩
      exact ⟨u, hu.trans hv, hwritten'⟩

end Program

/-- Every node of a program that compiles is some of the tokens of its text written out, one after
the other, and its span runs from where the first of them starts to where the last one ends.  So its
span does not end before it starts, and the spans of its children lie inside it, apart from each
other and in the order of the text; the same holds of the statements of the program. -/
theorem spans_cover_tokens (source : Source) (p : Program)
    (h : (compile source).program = some p) :
    (∀ n, p.HasNode n →
      (∃ before w after, tokenize source.text = before ++ w ++ after ∧ Written w n ∧
        w.head?.map (·.span.first) = some n.span.first ∧
        w.getLast?.map (·.span.last) = some n.span.last) ∧
      n.span.first ≤ n.span.last ∧
      (∀ m ∈ n.children, m.span.Within n.span) ∧
      n.children.Pairwise fun m m' => m.span.last < m'.span.first) ∧
    (∀ s ∈ p.stmts, s.span.Within p.span) ∧
    p.stmts.Pairwise fun s t => s.span.last < t.span.first := by
  rw [program_compile] at h
  rcases Program.ofTokens_took (tokenize source.text) with ⟨v, w, d, stmts, htook, hlays, hp⟩
  rcases hp p h with ⟨hnone, rfl, hspan⟩
  have hordered := ordered_tokenize source.text
  have hrest : tokenize source.text = v ++ w ++ d.rest := htook.rest
  have hw : w <:+: tokenize source.text := ⟨v, d.rest, hrest.symm⟩
  have hfills := hlays hnone (hordered.sublist hw.sublist)
  refine ⟨?_, ?_, ?_⟩
  · intro n hn
    rcases Program.exists_written_of_hasNode hfills hn with ⟨u, hu, hwritten⟩
    have hordered' : Ordered u := hordered.sublist (hu.trans hw).sublist
    rcases hu.trans hw with ⟨before, after, htokens⟩
    exact ⟨⟨before, u, after, htokens.symm, hwritten, hwritten.covers⟩,
      hwritten.covers.first_le_last hordered', fun m => hwritten.within_of_mem_children hordered',
      hwritten.pairwise_children hordered'⟩
  · intro s hs
    rcases Program.exists_written_of_hasNode hfills (.top hs) with ⟨u, hu, hwritten⟩
    have hsub : u ⊆ v ++ w := List.Subset.trans hu.subset (List.subset_append_right v w)
    have hne : v ++ w ≠ [] := by
      rcases hwritten.covers.exists_first with ⟨t, ht, -⟩
      exact List.ne_nil_of_mem (hsub ht)
    have htaken : Ordered (v ++ w) := by
      rw [hrest] at hordered
      exact hordered.left
    rw [hspan]
    exact hwritten.covers.within (htook.covers hne htaken) htaken hsub
  · have hpairwise := hfills.pairwise (fun _ _ => Written.covers) (hordered.sublist hw.sublist)
    rw [Piece.filterMap_child?_body, List.pairwise_map] at hpairwise
    exact hpairwise

/-- Two signs in front of a number are part of it. -/
theorem spans_cover_tokens_signs :
    let source : Source := ⟨"signs", "\nPRINT(- -7)"⟩
    let number : Expr := .number ⟨⟨2, 7⟩, ⟨2, 10⟩⟩ ⟨7, by decide, by decide⟩
    let call : Span := ⟨⟨2, 1⟩, ⟨2, 11⟩⟩
    let p : Program := ⟨⟨⟨1, 1⟩, ⟨2, 11⟩⟩, [.expr call (.builtin call .print [number])]⟩
    (compile source).program = some p ∧ p.HasNode (.expr number) ∧
      ∃ before w after, tokenize source.text = before ++ w ++ after ∧ Written w (.expr number) ∧
        w.head?.map (·.span.first) = some ⟨2, 7⟩ ∧ w.getLast?.map (·.span.last) = some ⟨2, 10⟩ := by
  intro source number call p
  have htokens : tokenize source.text = [⟨.lineEnd, .point ⟨1, 1⟩⟩,
      ⟨.builtin .print, ⟨⟨2, 1⟩, ⟨2, 5⟩⟩⟩, ⟨.symbol .leftParen, .point ⟨2, 6⟩⟩,
      ⟨.symbol .minus, .point ⟨2, 7⟩⟩, ⟨.symbol .minus, .point ⟨2, 9⟩⟩,
      ⟨.number ⟨7, by decide, by decide⟩, .point ⟨2, 10⟩⟩,
      ⟨.symbol .rightParen, .point ⟨2, 11⟩⟩, ⟨.fileEnd, .point ⟨2, 12⟩⟩] := by
    decide +kernel
  have hp : (compile source).program = some p := by
    rw [program_compile, htokens]
    rfl
  have hnode : p.HasNode (.expr number) :=
    .child (.child (.top List.mem_cons_self) List.mem_cons_self) List.mem_cons_self
  exact ⟨hp, hnode, ((spans_cover_tokens source p hp).1 _ hnode).1⟩

end KitchenScript
