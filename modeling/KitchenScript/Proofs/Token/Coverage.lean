import KitchenScript.Proofs.Token.Scan
import KitchenScript.Source.Text

/-!
# Where tokens stand

The lexer and the lines of a source count independently of each other.  They agree: the columns of
a token select its lexeme in the line with its number.  Tokens do not overlap, and what lies between
them is blank or inside a comment.

Comments are found here by looking at a line alone, without reading tokens.
-/

namespace KitchenScript

/-! ## Order of positions -/

namespace Position

instance : LT Position where
  lt p q := ¬ q ≤ p

theorem le_iff (p q : Position) :
    p ≤ q ↔ p.line < q.line ∨ (p.line = q.line ∧ p.column ≤ q.column) := by
  show p.isUpTo q = true ↔ _
  simp [isUpTo]

theorem lt_iff (p q : Position) :
    p < q ↔ p.line < q.line ∨ (p.line = q.line ∧ p.column < q.column) := by
  show ¬ q ≤ p ↔ _
  rw [le_iff]
  omega

theorem le_past (p : Position) (cs : List Char) : p ≤ p.past cs := by
  induction cs generalizing p with
  | nil =>
      rw [le_iff]
      exact Or.inr ⟨rfl, Nat.le_refl _⟩
  | cons c cs ih =>
      have hrest := ih (if c = '\n' then ⟨p.line + 1, 1⟩ else ⟨p.line, p.column + 1⟩)
      rw [le_iff] at hrest ⊢
      rw [past]
      by_cases hc : c = '\n'
      · simp only [hc, ↓reduceIte] at hrest ⊢
        omega
      · simp only [hc, ↓reduceIte] at hrest ⊢
        omega

end Position

def Span.Covers (s : Span) (p : Position) : Prop :=
  s.first ≤ p ∧ p ≤ s.last

/-- The token is neither a line end nor the end of the file. -/
def Token.IsLexeme (t : Token) : Prop :=
  t.kind ≠ .lineEnd ∧ t.kind ≠ .fileEnd

/-! ## Comments of a line -/

/-- How many characters of a line stand before its comment.  A comment begins with two slashes
outside of texts; a quote opens a text if there is another one behind it. -/
def codeLength (inText : Bool) : List Char → Nat
  | [] => 0
  | c :: cs =>
    if inText then codeLength (c != '"') cs + 1
    else if c = '"' then codeLength (cs.contains '"') cs + 1
    else if c = '/' ∧ cs.head? = some '/' then 0
    else codeLength false cs + 1

/-- The character with this index, counted from zero, belongs to the comment of the line. -/
def InComment (line : List Char) (i : Nat) : Prop :=
  codeLength false line ≤ i

example : codeLength false "x \"//\" // y".toList = 7 := by decide

theorem codeLength_append_of_forall {a : List Char} (h : ∀ c ∈ a, c ≠ '"' ∧ c ≠ '/')
    (b : List Char) : codeLength false (a ++ b) = a.length + codeLength false b := by
  induction a with
  | nil => simp
  | cons c cs ih =>
      have hc := h c (by simp)
      have hcs := ih fun d hd => h d (by simp [hd])
      rw [List.cons_append, codeLength, if_neg (by simp), if_neg hc.1, if_neg (by simp [hc.2]), hcs,
        List.length_cons]
      omega

theorem codeLength_text {content : List Char} (h : '"' ∉ content) (b : List Char) :
    codeLength true (content ++ '"' :: b) = content.length + 1 + codeLength false b := by
  induction content with
  | nil =>
      rw [List.nil_append, codeLength, if_pos rfl]
      simp only [bne_self_eq_false, List.length_nil]
      omega
  | cons c cs ih =>
      rw [List.mem_cons, not_or] at h
      have hc : (c != '"') = true := by
        simpa using fun heq => h.1 heq.symm
      rw [List.cons_append, codeLength, if_pos rfl, hc, ih h.2, List.length_cons]
      omega

namespace Lexer

/-! ## Lines -/

/-- The line that a text begins with. -/
def firstLine (cs : List Char) : List Char :=
  cs.takeWhile (· != '\n')

theorem exists_splitLines (cs : List Char) : ∃ lines, splitLines cs = firstLine cs :: lines := by
  induction cs with
  | nil => exact ⟨[], rfl⟩
  | cons c cs ih =>
      by_cases hc : c = '\n'
      · exact ⟨splitLines cs, by simp [splitLines, firstLine, hc]⟩
      · obtain ⟨lines, hlines⟩ := ih
        refine ⟨lines, ?_⟩
        simp [splitLines, hlines, hc, firstLine]

theorem splitLines_append {a : List Char} (h : '\n' ∉ a) {b line : List Char}
    {lines : List (List Char)} (hb : splitLines b = line :: lines) :
    splitLines (a ++ b) = (a ++ line) :: lines := by
  induction a with
  | nil => exact hb
  | cons c cs ih =>
      rw [List.mem_cons, not_or] at h
      rw [List.cons_append, splitLines, if_neg fun heq => h.1 heq.symm, ih h.2]
      rfl

theorem splitLines_of_not_mem {a : List Char} (h : '\n' ∉ a) : splitLines a = [a] := by
  have hlines := splitLines_append h (b := []) rfl
  simpa using hlines

/-- The characters of a line end that still count as part of its line. -/
def returnsOf : Terminator → List Char
  | .feed => []
  | .returnFeed => ['\r']

theorem isSkipped_returnsOf {t : Terminator} {c : Char} (h : c ∈ returnsOf t) :
    isSkipped c = true := by
  cases t with
  | feed => simp [returnsOf] at h
  | returnFeed =>
      rw [returnsOf, List.mem_singleton] at h
      rw [h]
      rfl

theorem splitLines_terminator {gap : List Char} (h : '\n' ∉ gap) (t : Terminator)
    (rest : List Char) :
    splitLines (gap ++ (t.chars ++ rest)) = (gap ++ returnsOf t) :: splitLines rest := by
  apply splitLines_append h
  cases t <;> simp [Terminator.chars, returnsOf, splitLines]

theorem closedText?_eq_none_iff (cs : List Char) :
    closedText? cs = none ↔ '"' ∉ firstLine cs := by
  induction cs with
  | nil => simp [closedText?, firstLine]
  | cons c cs ih =>
      rw [closedText?]
      by_cases hquote : c = '"'
      · subst hquote
        simp [firstLine]
      · rw [if_neg hquote]
        by_cases hfeed : c = '\n'
        · simp [hfeed, firstLine]
        · rw [if_neg hfeed, Option.map_eq_none_iff, ih]
          simp [firstLine, hfeed, Ne.symm hquote]

theorem head?_firstLine_ne {cs : List Char} {c : Char} (h : cs.head? ≠ some c) :
    (firstLine cs).head? ≠ some c := by
  cases cs with
  | nil => simp [firstLine]
  | cons d ds =>
      by_cases hd : d = '\n'
      · simp [firstLine, hd]
      · simpa [firstLine, hd] using h

theorem codeLength_found {word rest : List Char} (h : Found word rest)
    (hstops : Stops (word ++ rest)) :
    codeLength false (word ++ firstLine rest) =
      word.length + codeLength false (firstLine rest) := by
  cases h with
  | plain _ hall => exact codeLength_append_of_forall (fun c hc => (hall c hc).2.2) _
  | slash =>
      have hnext := head?_firstLine_ne ((hstops _ _ rfl).2 rfl)
      rw [List.singleton_append, codeLength, if_neg (by simp), if_neg (by decide),
        if_neg fun hslash => hnext hslash.2, List.length_singleton]
      omega
  | @closed content _ _ hquote =>
      have hassoc : '"' :: (content ++ ['"']) ++ firstLine rest =
          '"' :: (content ++ '"' :: firstLine rest) := by
        simp
      have hcloses : (content ++ '"' :: firstLine rest).contains '"' = true := by
        simp
      rw [hassoc, codeLength, if_neg (by simp), if_pos rfl, hcloses, codeLength_text hquote]
      simp only [List.length_cons, List.length_append, List.length_nil]
      omega
  | opened hopen =>
      have hnone : (firstLine rest).contains '"' = false := by
        simpa using (closedText?_eq_none_iff rest).mp hopen
      rw [List.singleton_append, codeLength, if_neg (by simp), if_pos rfl, hnone,
        List.length_singleton]
      omega

theorem not_atLineEnd_of_found {word rest : List Char} (h : Found word rest) :
    ¬ AtLineEnd (word ++ rest) := by
  intro hend
  cases h with
  | plain hne hall =>
      cases word with
      | nil => exact hne rfl
      | cons c cs =>
          have hc := hall c (by simp)
          rcases hend with hnil | ⟨t, b, hline⟩
          · cases hnil
          · cases t with
            | feed => exact hc.1 (List.cons.inj hline).1
            | returnFeed => exact hc.2.1 (List.cons.inj hline).1
  | slash | closed _ _ | opened _ =>
      rcases hend with hnil | ⟨t, b, hline⟩
      · cases hnil
      · cases t <;> simp [Terminator.chars] at hline

theorem isSkipped_ne {c : Char} (h : isSkipped c = true) : c ≠ '"' ∧ c ≠ '/' := by
  constructor <;> intro hc <;> rw [hc] at h <;> exact absurd h (by decide)

/-- In front of a lexeme there is no comment. -/
theorem Gap.isSkipped_of_mem {gap front : List Char} (h : Gap gap front)
    (hfront : ¬ AtLineEnd front) : ∀ c ∈ gap, isSkipped c = true := by
  induction h with
  | stop _ => simp
  | blank hc _ ih => simpa [hc] using ih hfront
  | comment _ hend => exact absurd hend hfront

/-- Every character of a gap is blank or belongs to a comment. -/
theorem Gap.skipped_or_inComment {gap front : List Char} (h : Gap gap front) (after : List Char)
    {i : Nat} {c : Char} (hi : gap[i]? = some c) :
    isSkipped c = true ∨ InComment (gap ++ after) i := by
  induction h generalizing i with
  | stop _ => simp at hi
  | @blank d gap rest hd _ ih =>
      cases i with
      | zero =>
          rw [List.getElem?_cons_zero, Option.some.injEq] at hi
          exact Or.inl (hi ▸ hd)
      | succ i =>
          rw [List.getElem?_cons_succ] at hi
          have hne := isSkipped_ne hd
          apply Or.imp_right _ (ih hi)
          intro hcomment
          unfold InComment at hcomment ⊢
          rw [List.cons_append, codeLength, if_neg (by simp), if_neg hne.1,
            if_neg (by simp [hne.2])]
          exact Nat.succ_le_succ hcomment
  | comment _ _ =>
      apply Or.inr
      simp [InComment, codeLength]

/-! ## Tokens in their lines -/

/-- The token is read from this line, whose first character has the given column. -/
structure ReadFrom (t : Token) (column : Nat) (line before word after : List Char) : Prop where
  parts : line = before ++ (word ++ after)
  spells : Spells t.kind word
  ne_nil : word ≠ []
  last_ne : word.getLast? ≠ some '\r'
  first : t.span.first.column = column + before.length
  last : t.span.last.column + 1 = column + before.length + word.length
  code : before.length + word.length ≤ codeLength false line

/-- The column at which line `n` of a text begins, when the text itself begins at `p`. -/
def columnOfLine (p : Position) : Nat → Nat
  | 0 => p.column
  | _ + 1 => 1

theorem past_of_found {gap word rest : List Char} (hgap : Gap gap (word ++ rest))
    (hfound : Found word rest) (p : Position) :
    p.past (gap ++ word) = ⟨p.line, p.column + gap.length + word.length⟩ := by
  rw [Position.past_append, Position.past_of_not_mem hgap.feed_not_mem,
    Position.past_of_not_mem hfound.feed_not_mem]

theorem past_of_terminator {gap : List Char} (t : Terminator) (hgap : '\n' ∉ gap) (p : Position) :
    p.past (gap ++ t.chars) = ⟨p.line + 1, 1⟩ := by
  rw [Position.past_append, t.past_chars, Position.past_of_not_mem hgap]

theorem wordSpan_of_gap {gap front : List Char} (hgap : Gap gap front) (p : Position)
    (word : List Char) :
    wordSpan (p.past gap) word =
      ⟨⟨p.line, p.column + gap.length⟩, ⟨p.line, p.column + gap.length + word.length - 1⟩⟩ := by
  rw [wordSpan, Position.past_of_not_mem hgap.feed_not_mem]

theorem exists_splitLines_found {gap word rest : List Char} (hgap : Gap gap (word ++ rest))
    (hfound : Found word rest) :
    ∃ lines, splitLines rest = firstLine rest :: lines ∧
      splitLines (gap ++ (word ++ rest)) = (gap ++ (word ++ firstLine rest)) :: lines := by
  obtain ⟨lines, hlines⟩ := exists_splitLines rest
  have hword := splitLines_append hfound.feed_not_mem hlines
  exact ⟨lines, hlines, splitLines_append hgap.feed_not_mem hword⟩

theorem codeLength_gap_found {gap word rest : List Char} (hgap : Gap gap (word ++ rest))
    (hfound : Found word rest) :
    codeLength false (gap ++ (word ++ firstLine rest)) =
      gap.length + (word.length + codeLength false (firstLine rest)) := by
  have hblank := hgap.isSkipped_of_mem (not_atLineEnd_of_found hfound)
  rw [codeLength_append_of_forall fun c hc => isSkipped_ne (hblank c hc),
    codeLength_found hfound hgap.stops]

/-- Every lexeme stands in the line with its number. -/
theorem Scan.exists_readFrom {p : Position} {cs : List Char} {ts : List Token} (h : Scan p cs ts)
    {t : Token} (ht : t ∈ ts) (hlexeme : t.IsLexeme) :
    ∃ n line before word after, (splitLines cs)[n]? = some line ∧
      t.span.first.line = p.line + n ∧ t.span.last.line = p.line + n ∧
      ReadFrom t (columnOfLine p n) line before word after := by
  induction h with
  | done _ =>
      rw [List.mem_singleton] at ht
      exact absurd (by rw [ht]) hlexeme.2
  | @lineEnd p gap rest ts u hgap _ ih =>
      rcases List.mem_cons.mp ht with rfl | ht
      · exact absurd rfl hlexeme.1
      obtain ⟨n, line, before, word, after, hline, hfirst, hlast, hread⟩ := ih ht
      rw [past_of_terminator u hgap.feed_not_mem] at hfirst hlast hread
      refine ⟨n + 1, line, before, word, after, ?_, ?_, ?_, ?_⟩
      · rw [splitLines_terminator hgap.feed_not_mem, List.getElem?_cons_succ, hline]
      · simp only at hfirst
        omega
      · simp only at hlast
        omega
      · cases n <;> exact hread
  | @lexeme p gap word rest kind ts hgap hspells hfound _ ih =>
      obtain ⟨lines, hrest, hlines⟩ := exists_splitLines_found hgap hfound
      have hcode := codeLength_gap_found hgap hfound
      rw [hlines]
      rcases List.mem_cons.mp ht with rfl | ht
      · rw [wordSpan_of_gap hgap]
        have hlength : 0 < word.length := List.length_pos_iff.mpr hfound.ne_nil
        have hlast : p.column + gap.length + word.length - 1 + 1 =
            p.column + gap.length + word.length := by omega
        exact ⟨0, _, gap, word, firstLine rest, rfl, rfl, rfl, rfl, hspells, hfound.ne_nil,
          hfound.getLast?_ne, rfl, hlast, by omega⟩
      · obtain ⟨n, line, before, word', after, hline, hfirst, hlast, hread⟩ := ih ht
        rw [past_of_found hgap hfound] at hfirst hlast hread
        rw [hrest] at hline
        cases n with
        | zero =>
            rw [List.getElem?_cons_zero, Option.some.injEq] at hline
            subst hline
            refine ⟨0, _, gap ++ (word ++ before), word', after, rfl, hfirst, hlast, ?_,
              hread.spells, hread.ne_nil, hread.last_ne, ?_, ?_, ?_⟩
            · rw [hread.parts]
              simp
            · rw [hread.first]
              simp only [columnOfLine, List.length_append]
              omega
            · rw [hread.last]
              simp only [columnOfLine, List.length_append]
              omega
            · have hbound := hread.code
              simp only [List.length_append]
              omega
        | succ n => exact ⟨n + 1, line, before, word', after, hline, hfirst, hlast, hread⟩

/-- Every character of a line is part of a lexeme, blank, or inside the comment of the line. -/
theorem Scan.covered {p : Position} {cs : List Char} {ts : List Token} (h : Scan p cs ts)
    {n i : Nat} {chars : List Char} {c : Char} (hline : (splitLines cs)[n]? = some chars)
    (hi : chars[i]? = some c) :
    isSkipped c = true ∨ InComment chars i ∨
      ∃ t ∈ ts, t.IsLexeme ∧ t.span.Covers ⟨p.line + n, columnOfLine p n + i⟩ := by
  induction h generalizing n i chars with
  | @done p gap hgap =>
      rw [splitLines_of_not_mem hgap.feed_not_mem] at hline
      cases n with
      | zero =>
          rw [List.getElem?_cons_zero, Option.some.injEq] at hline
          subst hline
          have hgapped := hgap.skipped_or_inComment [] hi
          rw [List.append_nil] at hgapped
          exact hgapped.imp_right Or.inl
      | succ n => simp at hline
  | @lineEnd p gap rest ts u hgap _ ih =>
      rw [splitLines_terminator hgap.feed_not_mem] at hline
      cases n with
      | zero =>
          rw [List.getElem?_cons_zero, Option.some.injEq] at hline
          subst hline
          by_cases hgapped : i < gap.length
          · rw [List.getElem?_append_left hgapped] at hi
            exact (hgap.skipped_or_inComment _ hi).imp_right Or.inl
          · rw [List.getElem?_append_right (Nat.le_of_not_lt hgapped)] at hi
            exact Or.inl (isSkipped_returnsOf (List.mem_of_getElem? hi))
      | succ n =>
          rw [List.getElem?_cons_succ] at hline
          have hrest := ih hline hi
          rw [past_of_terminator u hgap.feed_not_mem] at hrest
          apply hrest.imp_right (Or.imp_right _)
          rintro ⟨t, ht, hlexeme, hcovers⟩
          refine ⟨t, List.mem_cons_of_mem _ ht, hlexeme, ?_⟩
          have hposition : (⟨p.line + 1 + n, columnOfLine ⟨p.line + 1, 1⟩ n + i⟩ : Position) =
              ⟨p.line + (n + 1), columnOfLine p (n + 1) + i⟩ := by
            have hcolumn : columnOfLine ⟨p.line + 1, 1⟩ n = 1 := by cases n <;> rfl
            rw [hcolumn, Nat.add_assoc, Nat.add_comm 1 n]
            rfl
          rwa [← hposition]
  | @lexeme p gap word rest kind ts hgap hspells hfound _ ih =>
      obtain ⟨lines, hrest, hlines⟩ := exists_splitLines_found hgap hfound
      have hcode := codeLength_gap_found hgap hfound
      rw [past_of_found hgap hfound, hrest] at ih
      rw [hlines] at hline
      cases n with
      | zero =>
          rw [List.getElem?_cons_zero, Option.some.injEq] at hline
          subst hline
          by_cases hgapped : i < gap.length
          · rw [List.getElem?_append_left hgapped] at hi
            exact (hgap.skipped_or_inComment _ hi).imp_right Or.inl
          rw [List.getElem?_append_right (Nat.le_of_not_lt hgapped)] at hi
          by_cases hworded : i - gap.length < word.length
          · refine Or.inr (Or.inr ⟨_, List.mem_cons_self,
              ⟨hspells.ne_lineEnd, hspells.ne_fileEnd⟩, ?_⟩)
            rw [wordSpan_of_gap hgap]
            simp only [Span.Covers, Position.le_iff, columnOfLine]
            omega
          · rw [List.getElem?_append_right (Nat.le_of_not_lt hworded)] at hi
            rcases ih (n := 0) rfl hi with hskipped | hcomment | ⟨t, ht, hlexeme, hcovers⟩
            · exact Or.inl hskipped
            · refine Or.inr (Or.inl ?_)
              unfold InComment at hcomment ⊢
              omega
            · refine Or.inr (Or.inr ⟨t, List.mem_cons_of_mem _ ht, hlexeme, ?_⟩)
              have hcolumn : p.column + gap.length + word.length + (i - gap.length - word.length) =
                  p.column + i := by omega
              simpa only [columnOfLine, hcolumn] using hcovers
      | succ n =>
          apply (ih (n := n + 1) hline hi).imp_right (Or.imp_right _)
          rintro ⟨t, ht, hlexeme, hcovers⟩
          exact ⟨t, List.mem_cons_of_mem _ ht, hlexeme, hcovers⟩

/-! ## All tokens -/

theorem Scan.le_first {p : Position} {cs : List Char} {ts : List Token} (h : Scan p cs ts) :
    ∀ t ∈ ts, p ≤ t.span.first ∧ t.span.first ≤ t.span.last := by
  have hrefl : ∀ q : Position, q ≤ q := fun q => (Position.le_iff q q).mpr (by omega)
  induction h with
  | @done p gap _ =>
      intro t ht
      rw [List.mem_singleton] at ht
      subst ht
      exact ⟨p.le_past gap, hrefl _⟩
  | @lineEnd p gap rest ts u hgap _ ih =>
      intro t ht
      rcases List.mem_cons.mp ht with rfl | ht
      · exact ⟨p.le_past gap, hrefl _⟩
      · have hbehind := ih t ht
        rw [past_of_terminator u hgap.feed_not_mem] at hbehind
        refine ⟨?_, hbehind.2⟩
        have hfirst := (Position.le_iff _ _).mp hbehind.1
        simp only at hfirst
        rw [Position.le_iff]
        omega
  | @lexeme p gap word rest kind ts hgap _ hfound _ ih =>
      intro t ht
      rcases List.mem_cons.mp ht with rfl | ht
      · have hlength : 0 < word.length := List.length_pos_iff.mpr hfound.ne_nil
        rw [wordSpan_of_gap hgap]
        constructor
        · rw [Position.le_iff]
          exact Or.inr ⟨rfl, Nat.le_add_right _ _⟩
        · rw [Position.le_iff]
          exact Or.inr ⟨rfl, Nat.le_sub_one_of_lt (Nat.lt_add_of_pos_right hlength)⟩
      · have hbehind := ih t ht
        rw [past_of_found hgap hfound] at hbehind
        refine ⟨?_, hbehind.2⟩
        have hfirst := (Position.le_iff _ _).mp hbehind.1
        simp only at hfirst
        rw [Position.le_iff]
        omega

theorem Scan.pairwise {p : Position} {cs : List Char} {ts : List Token} (h : Scan p cs ts) :
    ts.Pairwise fun t u => t.span.last < u.span.first := by
  induction h with
  | done _ => simp
  | @lineEnd p gap rest ts u hgap hrest ih =>
      rw [List.pairwise_cons]
      refine ⟨?_, ih⟩
      intro t ht
      have hbehind := (hrest.le_first t ht).1
      rw [past_of_terminator u hgap.feed_not_mem, Position.le_iff] at hbehind
      rw [Span.point, Position.past_of_not_mem hgap.feed_not_mem, Position.lt_iff]
      simp only at hbehind ⊢
      omega
  | @lexeme p gap word rest kind ts hgap _ hfound hrest ih =>
      rw [List.pairwise_cons]
      refine ⟨?_, ih⟩
      intro t ht
      have hlength : 0 < word.length := List.length_pos_iff.mpr hfound.ne_nil
      have hbehind := (hrest.le_first t ht).1
      rw [past_of_found hgap hfound, Position.le_iff] at hbehind
      rw [wordSpan_of_gap hgap, Position.lt_iff]
      simp only at hbehind ⊢
      omega

theorem Scan.countP_lineEnd {p : Position} {cs : List Char} {ts : List Token} (h : Scan p cs ts) :
    ts.countP (fun t => t.kind == .lineEnd) = cs.count '\n' := by
  induction h with
  | done hgap => simp [List.count_eq_zero.mpr hgap.feed_not_mem]
  | @lineEnd p gap rest ts u hgap _ ih =>
      have hchars : u.chars.count '\n' = 1 := by
        cases u <;> decide
      rw [List.countP_cons, ih, List.count_append, List.count_append,
        List.count_eq_zero.mpr hgap.feed_not_mem, hchars]
      simp
      omega
  | @lexeme p gap word rest kind ts hgap hspells hfound _ ih =>
      rw [List.countP_cons, ih, List.count_append, List.count_append,
        List.count_eq_zero.mpr hgap.feed_not_mem, List.count_eq_zero.mpr hfound.feed_not_mem]
      simp [hspells.ne_lineEnd]

end Lexer

/-! ## Trimmed lines -/

theorem trimReturns_append {a : List Char} (hlast : a.getLast? ≠ some '\r') (b : List Char) :
    trimReturns (a ++ b) = a ++ trimReturns b := by
  have hkept : a.reverse.dropWhile (· == '\r') = a.reverse := by
    cases hrev : a.reverse with
    | nil => rfl
    | cons c cs =>
        have hc : c ≠ '\r' := by
          intro heq
          apply hlast
          rw [List.getLast?_eq_head?_reverse, hrev, heq]
          rfl
        simp [hc]
  unfold trimReturns
  rw [List.reverse_append, List.dropWhile_append, hkept]
  by_cases hall : (b.reverse.dropWhile (· == '\r')).isEmpty
  · rw [if_pos hall, List.isEmpty_iff.mp hall]
    simp
  · rw [if_neg hall]
    simp

theorem Source.line?_eq_some {source : Source} {n : Nat} {line : List Char}
    (h : (splitLines source.text.toList)[n]? = some line) :
    source.line? (n + 1) = some (String.ofList (trimReturns line)) := by
  simp [Source.line?, Source.lines, h]

theorem exists_readFrom {text : String} {t : Token} (ht : t ∈ tokenize text)
    (hlexeme : t.IsLexeme) :
    ∃ n line before word after, (splitLines text.toList)[n]? = some line ∧
      t.span.first.line = n + 1 ∧ t.span.last.line = n + 1 ∧
      Lexer.ReadFrom t 1 line before word after := by
  obtain ⟨n, line, before, word, after, hline, hfirst, hlast, hread⟩ :=
    (Lexer.scan_tokensFrom .start text.toList).exists_readFrom ht hlexeme
  have hcolumn : Lexer.columnOfLine .start n = 1 := by
    cases n <;> rfl
  rw [hcolumn] at hread
  refine ⟨n, line, before, word, after, hline, ?_, ?_, hread⟩
  · rw [hfirst, Nat.add_comm]
    rfl
  · rw [hlast, Nat.add_comm]
    rfl

theorem covered_or_skipped {text : String} {n i : Nat} {chars : List Char} {c : Char}
    (hline : (splitLines text.toList)[n]? = some chars) (hi : chars[i]? = some c) :
    (∃ t ∈ tokenize text, t.IsLexeme ∧ t.span.Covers ⟨n + 1, i + 1⟩) ∨
      c ∈ [' ', '\t', '\r', '\u200B', '\uFEFF'] ∨ InComment chars i := by
  have hposition : (⟨Position.start.line + n, Lexer.columnOfLine .start n + i⟩ : Position) =
      ⟨n + 1, i + 1⟩ := by
    have hcolumn : Lexer.columnOfLine .start n = 1 := by
      cases n <;> rfl
    rw [hcolumn, Nat.add_comm 1 i, Nat.add_comm n 1]
    rfl
  have hcovered := (Lexer.scan_tokensFrom .start text.toList).covered hline hi
  rw [hposition] at hcovered
  rcases hcovered with hskipped | hcomment | hcovered
  · refine Or.inr (Or.inl ?_)
    simpa [Lexer.isSkipped, or_assoc] using hskipped
  · exact Or.inr (Or.inr hcomment)
  · exact Or.inl hcovered

/-- Token spans are exact and nothing is lost.  The file ends once, at the end; there is a line end
for every line feed; the columns of every other token select its lexeme in the line with its number;
spans follow each other without overlapping; and what is outside of lexemes is blank or, as no
lexeme is, inside a comment. -/
theorem tokenize_exact (source : Source) :
    (∃ init s, tokenize source.text = init ++ [⟨.fileEnd, s⟩] ∧ ∀ t ∈ init, t.kind ≠ .fileEnd) ∧
    (tokenize source.text).countP (fun t => t.kind == .lineEnd) = source.text.toList.count '\n' ∧
    (∀ t ∈ tokenize source.text, t.IsLexeme →
      ∃ line before word after, source.line? t.span.first.line = some line ∧
        line.toList = before ++ (word ++ after) ∧ Spells t.kind word ∧ word ≠ [] ∧
        t.span.last.line = t.span.first.line ∧
        t.span.first.column = before.length + 1 ∧
        t.span.last.column = before.length + word.length) ∧
    (∀ t ∈ tokenize source.text, t.span.first ≤ t.span.last) ∧
    ((tokenize source.text).Pairwise fun t u => t.span.last < u.span.first) ∧
    ∀ n chars, (splitLines source.text.toList)[n]? = some chars →
      (∀ i c, chars[i]? = some c →
        (∃ t ∈ tokenize source.text, t.IsLexeme ∧ t.span.Covers ⟨n + 1, i + 1⟩) ∨
          c ∈ [' ', '\t', '\r', '\u200B', '\uFEFF'] ∨ InComment chars i) ∧
      ∀ i t, InComment chars i → t ∈ tokenize source.text → t.IsLexeme →
        ¬ t.span.Covers ⟨n + 1, i + 1⟩ := by
  have hscan := Lexer.scan_tokensFrom .start source.text.toList
  refine ⟨?_, hscan.countP_lineEnd, ?_, fun t ht => (hscan.le_first t ht).2, hscan.pairwise, ?_⟩
  · obtain ⟨init, htokens, hinit⟩ := hscan.exists_concat
    exact ⟨init, _, htokens, hinit⟩
  · intro t ht hlexeme
    obtain ⟨n, line, before, word, after, hline, hfirst, hlast, hread⟩ :=
      exists_readFrom ht hlexeme
    have hkept : (before ++ word).getLast? ≠ some '\r' := by
      rw [List.getLast?_append, Option.or_of_isSome (by simp [hread.ne_nil])]
      exact hread.last_ne
    have htrim : trimReturns line = before ++ (word ++ trimReturns after) := by
      rw [hread.parts, ← List.append_assoc, trimReturns_append hkept, List.append_assoc]
    refine ⟨String.ofList (trimReturns line), before, word, trimReturns after, ?_, ?_,
      hread.spells, hread.ne_nil, ?_, ?_, ?_⟩
    · rw [hfirst]
      exact Source.line?_eq_some hline
    · rw [String.toList_ofList, htrim]
    · rw [hlast, hfirst]
    · rw [hread.first, Nat.add_comm]
    · have hcolumn := hread.last
      omega
  · intro n chars hline
    constructor
    · intro i c hi
      exact covered_or_skipped hline hi
    · intro i t hcomment ht hlexeme hcovers
      obtain ⟨m, line', before, word, after, hline', hfirst, hlast, hread⟩ :=
        exists_readFrom ht hlexeme
      have hfrom := (Position.le_iff _ _).mp hcovers.1
      have hupto := (Position.le_iff _ _).mp hcovers.2
      have hsame : m = n := by
        simp only at hfrom hupto
        omega
      subst hsame
      rw [hline, Option.some.injEq] at hline'
      subst hline'
      have hcode := hread.code
      have hcolumn := hread.last
      unfold InComment at hcomment
      simp only at hupto
      omega

end KitchenScript
