import KitchenScript.Proofs.Grammar.Brackets
import KitchenScript.Proofs.Program.Accepted
import KitchenScript.Proofs.Token.Seam

/-!
# Line breaks inside brackets

Breaking the line inside brackets, between two tokens of a source that compiles: where there is room
for line ends the program stays the same up to spans, and everywhere else the source no longer
compiles.  There is room behind an opening bracket, before a closing one, around a comma and next
to another line end, but not around the operators between the brackets.
-/

namespace KitchenScript

open Grammar

namespace Lexer

/-- Line breaks in front of a text are line ends in front of its tokens. -/
theorem kinds_breaks (breaks : List Terminator) (b : List Char) :
    kinds (breaks.flatMap Terminator.chars ++ b) = lineEnds breaks.length ++ kinds b := by
  induction breaks with
  | nil => rfl
  | cons t breaks ih =>
      apply kinds_eq_of_map_kind (p := .start)
      rw [List.flatMap_cons, List.append_assoc, tokensFrom_terminator, List.map_cons,
        map_kind_eq_kinds, ih]
      rfl

/-- What stands before line breaks and what stands behind them are read apart. -/
theorem kinds_broken (a b : List Char) {breaks : List Terminator} (h : breaks ≠ []) :
    kinds (a ++ (breaks.flatMap Terminator.chars ++ b)) =
      kinds a ++ (lineEnds breaks.length ++ kinds b) := by
  cases breaks with
  | nil => exact absurd rfl h
  | cons t breaks =>
      apply kinds_eq_of_map_kind (p := .start)
      rw [List.flatMap_cons, List.append_assoc, map_kind_line, map_kind_eq_kinds, kinds_breaks,
        List.length_cons, lineEnds_succ]
      simp [kinds]

end Lexer

/-! ## Sources and words -/

/-- The kinds of the tokens of a text, up to the end of the file. -/
def kindsOf (text : String) : List TokenKind :=
  Lexer.kinds text.toList

theorem exists_derives {source : Source} {p : Program} (h : (compile source).program = some p) :
    ∃ tree, DerivesProgram (kindsOf source.text) tree ∧ p.bare = ⟨.blank, Stmt.foldedAll tree⟩ := by
  obtain ⟨tokens, last, tree, htokens, -, htree⟩ := exists_hasTree h
  have hkinds : kindsOf source.text = tokens.map Token.kind := by
    change (tokenize source.text).dropLast.map Token.kind = _
    rw [htokens, List.dropLast_concat]
  refine ⟨tree, ?_, ?_⟩
  · rw [hkinds]
    exact htree.derives
  · rw [Program.bare, htree.same]

theorem exists_program {source : Source} {tree : List Stmt}
    (h : DerivesProgram (kindsOf source.text) tree) :
    ∃ p, (compile source).program = some p ∧ p.bare = ⟨.blank, Stmt.foldedAll tree⟩ := by
  have hlast : (⟨.fileEnd, .point (Position.start.past source.text.toList)⟩ : Token).kind =
      .fileEnd := rfl
  obtain ⟨p, hp, hbare⟩ := Program.ofTokens_complete hlast h
  refine ⟨p, ?_, hbare⟩
  rw [program_compile, tokenize, Lexer.tokensFrom_eq_concat]
  exact congrArg Prod.fst hp

/-! ## Breaking lines -/

/-- Line breaks as a text. -/
def lineBreaks (breaks : List Terminator) : String :=
  String.ofList (breaks.flatMap Terminator.chars)

/-- The text is cut between two of its tokens and inside brackets: the cut goes through no token and
no comment, so that the tokens of the two parts are the tokens of the text, and it lies between an
opening bracket and its partner. -/
structure CutInside (text a b : String) : Prop where
  text_eq : text = a ++ b
  between : kindsOf text = kindsOf a ++ kindsOf b
  inside : Enclosed (kindsOf a) (kindsOf b)

theorem kindsOf_broken (a b : String) {breaks : List Terminator} (h : breaks ≠ []) :
    kindsOf (a ++ lineBreaks breaks ++ b) =
      kindsOf a ++ (lineEnds breaks.length ++ kindsOf b) := by
  rw [kindsOf, lineBreaks, String.toList_append, String.toList_append, String.toList_ofList,
    List.append_assoc]
  exact Lexer.kinds_broken a.toList b.toList h

/-- A line can be broken inside brackets exactly where there is room for line ends: behind an
opening bracket, before a closing one, next to a comma or next to another line end.  There the
source keeps its program up to spans, and anywhere else it no longer compiles. -/
theorem line_breaks_inside_brackets (source broken : Source) (a b : String)
    (breaks : List Terminator) (hcut : CutInside source.text a b)
    (hcompiles : (compile source).succeeded = true) (hbreaks : breaks ≠ [])
    (hbroken : broken.text = a ++ lineBreaks breaks ++ b) :
    (hasRoom (kindsOf a) (kindsOf b) = true →
      ∃ p q, (compile source).program = some p ∧ (compile broken).program = some q ∧
        q.bare = p.bare) ∧
    (hasRoom (kindsOf a) (kindsOf b) = false →
      (compile broken).succeeded = false ∧ (compile broken).program = none) := by
  obtain ⟨p, hp⟩ := (Compiled.succeeded_iff source).mp hcompiles
  obtain ⟨tree, htree, hbare⟩ := exists_derives hp
  have hwords : kindsOf broken.text = kindsOf a ++ (lineEnds breaks.length ++ kindsOf b) := by
    rw [hbroken, kindsOf_broken a b hbreaks]
  rw [hcut.between] at htree
  constructor
  · intro hroom
    have hwide := htree.widen hroom breaks.length
    rw [← hwords] at hwide
    obtain ⟨q, hq, hq'⟩ := exists_program hwide
    exact ⟨p, q, hp, hq, by rw [hq', hbare]⟩
  · intro hroom
    have hnone : (compile broken).program = none := by
      cases hq : (compile broken).program with
      | none => rfl
      | some q =>
          obtain ⟨tree', htree', -⟩ := exists_derives hq
          rw [hwords] at htree'
          have hlength : breaks.length ≠ 0 := fun hzero => hbreaks (List.length_eq_zero_iff.mp hzero)
          rw [htree'.1.hasRoom hcut.inside hlength] at hroom
          cases hroom
    exact ⟨Compiled.succeeded_eq_false hnone, hnone⟩

theorem line_breaks_inside_brackets_list :
    let source : Source := ⟨"main.ks", "x = [1 + 2, 3]\n"⟩
    let broken : Source := ⟨"main.ks", "x = [1 + 2\n\r\n, 3]\n"⟩
    CutInside source.text "x = [1 + 2" ", 3]\n" ∧ (compile source).succeeded = true ∧
      ∃ p q, (compile source).program = some p ∧ (compile broken).program = some q ∧
        q.bare = p.bare := by
  intro source broken
  have hleft : kindsOf "x = [1 + 2" = [.identifier "x", .symbol .assign] ++ .symbol .leftBracket ::
      [.number ⟨1, by decide, by decide⟩, .symbol .plus, .number ⟨2, by decide, by decide⟩] := by
    decide +kernel
  have hright : kindsOf ", 3]\n" = [.symbol .comma, .number ⟨3, by decide, by decide⟩] ++
      .symbol .rightBracket :: [.lineEnd] := by
    decide +kernel
  have hcut : CutInside source.text "x = [1 + 2" ", 3]\n" := by
    refine ⟨rfl, by decide +kernel, ?_⟩
    rw [hleft, hright]
    exact .mk .square (.plain rfl (.plain rfl (.plain rfl (.plain rfl (.plain rfl .nil)))))
  have hcompiles : (compile source).succeeded = true := by decide +kernel
  have hroom : hasRoom (kindsOf "x = [1 + 2") (kindsOf ", 3]\n") = true := by decide +kernel
  exact ⟨hcut, hcompiles, (line_breaks_inside_brackets source broken "x = [1 + 2" ", 3]\n"
    [.feed, .returnFeed] hcut hcompiles nofun (by decide +kernel)).1 hroom⟩

/-- Before an operator between brackets the line cannot be broken. -/
theorem sum_in_brackets_not_broken :
    let source : Source := ⟨"main.ks", "(1 + 2)\n"⟩
    let broken : Source := ⟨"main.ks", "(1\n + 2)\n"⟩
    CutInside source.text "(1" " + 2)\n" ∧
      broken.text = "(1" ++ lineBreaks [.feed] ++ " + 2)\n" ∧
      (compile source).succeeded = true ∧ (compile broken).succeeded = false := by
  intro source broken
  have hleft : kindsOf "(1" = [] ++ .symbol .leftParen :: [.number ⟨1, by decide, by decide⟩] := by
    decide +kernel
  have hright : kindsOf " + 2)\n" = [.symbol .plus, .number ⟨2, by decide, by decide⟩] ++
      .symbol .rightParen :: [.lineEnd] := by
    decide +kernel
  refine ⟨⟨rfl, by decide +kernel, ?_⟩, by decide +kernel, by decide +kernel, by decide +kernel⟩
  rw [hleft, hright]
  exact .mk .round (.plain rfl (.plain rfl (.plain rfl .nil)))

end KitchenScript
