import KitchenScript.Token.Lexer

/-!
# What the lexer finds

A text is taken apart into gaps, line ends and lexemes.  `Scan` says which tokens belong to which
parts, without saying how the parts are found, and the tokens of every text are such a list.
-/

namespace KitchenScript

namespace Position

/-- The position after some characters. -/
def past (p : Position) : List Char → Position
  | [] => p
  | c :: cs => past (if c = '\n' then ⟨p.line + 1, 1⟩ else ⟨p.line, p.column + 1⟩) cs

theorem past_append (p : Position) (a b : List Char) : p.past (a ++ b) = (p.past a).past b := by
  induction a generalizing p with
  | nil => rfl
  | cons c cs ih => exact ih _

theorem line_past (p : Position) (cs : List Char) :
    (p.past cs).line = p.line + cs.count '\n' := by
  induction cs generalizing p with
  | nil => rfl
  | cons c cs ih =>
      rw [past, ih]
      by_cases hc : c = '\n'
      · simp only [hc, ↓reduceIte, List.count_cons_self]
        omega
      · simp [hc]

/-- Within a line only the column moves. -/
theorem past_of_not_mem {cs : List Char} (h : '\n' ∉ cs) (p : Position) :
    p.past cs = ⟨p.line, p.column + cs.length⟩ := by
  induction cs generalizing p with
  | nil => rfl
  | cons c cs ih =>
      rw [List.mem_cons, not_or] at h
      have hc : ¬c = '\n' := fun hc => h.1 hc.symm
      rw [past, if_neg hc, ih h.2, List.length_cons]
      simp only [Position.mk.injEq, true_and]
      omega

end Position

/-- The two forms of a line end. -/
inductive Terminator where
  | feed
  | returnFeed

namespace Terminator

def chars : Terminator → List Char
  | feed => ['\n']
  | returnFeed => ['\r', '\n']

theorem past_chars (t : Terminator) (p : Position) : p.past t.chars = ⟨p.line + 1, 1⟩ := by
  cases t <;> rfl

end Terminator

/-- The texts that a token can be read from. -/
inductive Spells : TokenKind → List Char → Prop where
  | number {n : Number} {digits : List Char} (hne : digits ≠ [])
      (hdigits : ∀ c ∈ digits, c.isDigit) (hvalue : (Nat.ofDigitChars 10 digits 0 : Int) = n.val) :
      Spells (.number n) digits
  | text (s : String) : Spells (.text s) ('"' :: (s.toList ++ ['"']))
  | identifier (x : String) : Spells (.identifier x) x.toList
  | keyword (k : Keyword) : Spells (.keyword k) k.spelling.toList
  | andMark : Spells (.keyword .andWord) "&&".toList
  | orMark : Spells (.keyword .orWord) "||".toList
  | notMark : Spells (.keyword .notWord) "!".toList
  | builtin (b : Builtin) : Spells (.builtin b) b.name.toList
  | symbol (s : Symbol) : Spells (.symbol s) s.spelling.toList

theorem Spells.ne_lineEnd {kind : TokenKind} {word : List Char} (h : Spells kind word) :
    kind ≠ .lineEnd := by
  cases h <;> simp

theorem Spells.ne_fileEnd {kind : TokenKind} {word : List Char} (h : Spells kind word) :
    kind ≠ .fileEnd := by
  cases h <;> simp

namespace Lexer

/-- A character that neither ends a line nor begins a text or a comment. -/
def Plain (c : Char) : Prop :=
  c ≠ '\n' ∧ c ≠ '\r' ∧ c ≠ '"' ∧ c ≠ '/'

/-- A lexeme in front of the rest of its text. -/
inductive Found : List Char → List Char → Prop where
  | plain {word rest : List Char} (hne : word ≠ []) (h : ∀ c ∈ word, Plain c) : Found word rest
  | slash {rest : List Char} : Found ['/'] rest
  | closed {content rest : List Char} (hfeed : '\n' ∉ content) (hquote : '"' ∉ content) :
      Found ('"' :: (content ++ ['"'])) rest
  | opened {rest : List Char} (h : closedText? rest = none) : Found ['"'] rest

namespace Found

variable {word rest : List Char}

theorem ne_nil (h : Found word rest) : word ≠ [] := by
  cases h with
  | plain hne _ => exact hne
  | slash | closed _ _ | opened _ => simp

theorem feed_not_mem (h : Found word rest) : '\n' ∉ word := by
  cases h with
  | plain _ hall => exact fun hmem => (hall _ hmem).1 rfl
  | slash | opened _ => simp
  | closed hfeed _ => simp [hfeed]

theorem getLast?_ne (h : Found word rest) : word.getLast? ≠ some '\r' := by
  cases h with
  | plain _ hall => exact fun hlast => (hall _ (List.mem_of_getLast? hlast)).2.1 rfl
  | slash | opened _ => simp
  | closed _ _ => simp [List.getLast?_cons]

end Found

theorem closedText?_eq_some {cs content : List Char} (h : closedText? cs = some content) :
    ∃ rest, cs = content ++ '"' :: rest ∧ '\n' ∉ content ∧ '"' ∉ content := by
  induction cs generalizing content with
  | nil => simp [closedText?] at h
  | cons c cs ih =>
      rw [closedText?] at h
      by_cases hquote : c = '"'
      · rw [if_pos hquote] at h
        cases h
        exact ⟨cs, by simp [hquote], by simp, by simp⟩
      · rw [if_neg hquote] at h
        by_cases hfeed : c = '\n'
        · simp [hfeed] at h
        · rw [if_neg hfeed, Option.map_eq_some_iff] at h
          obtain ⟨inner, hinner, rfl⟩ := h
          obtain ⟨rest, hcs, hno, hopen⟩ := ih hinner
          refine ⟨rest, by simp [hcs], ?_, ?_⟩
          · simp [hno, Ne.symm hfeed]
          · simp [hopen, Ne.symm hquote]

theorem spells_of_ofWord? {word : List Char} {kind : TokenKind}
    (h : TokenKind.ofWord? (String.ofList word) = some kind) : Spells kind word := by
  unfold TokenKind.ofWord? at h
  cases hfind : Keyword.all.find? fun k => k.spelling == String.ofList word with
  | some k =>
      rw [hfind, Option.some.injEq] at h
      have hspelling : k.spelling = String.ofList word := by
        simpa using List.find?_some hfind
      have hspells := Spells.keyword k
      rw [hspelling, String.toList_ofList] at hspells
      rwa [← h]
  | none =>
      rw [hfind] at h
      simp only [Option.map_eq_some_iff] at h
      obtain ⟨b, hb, rfl⟩ := h
      have hname : b.name = String.ofList word := by
        simpa using List.find?_some hb
      have hspells := Spells.builtin b
      rwa [hname, String.toList_ofList] at hspells

theorem spells_wordKind {word : List Char} (hne : word ≠ []) : Spells (wordKind word) word := by
  have hother : Spells
      ((TokenKind.ofWord? (String.ofList word)).getD (.identifier (String.ofList word))) word := by
    cases hword : TokenKind.ofWord? (String.ofList word) with
    | some kind => exact spells_of_ofWord? hword
    | none =>
        have hspells := Spells.identifier (String.ofList word)
        rwa [String.toList_ofList] at hspells
  unfold wordKind
  by_cases hdigits : word.all Char.isDigit
  · simp only [hdigits, ↓reduceIte]
    cases hnumber : Number.ofDigits? word with
    | some n =>
        exact .number hne (List.all_eq_true.mp hdigits) (Number.val_of_ofInt? hnumber).symm
    | none => exact hother
  · simp only [hdigits]
    exact hother

theorem spells_of_pairKind? {c d : Char} {kind : TokenKind} (h : pairKind? c d = some kind) :
    Spells kind [c, d] := by
  unfold pairKind? at h
  split at h <;> cases h
  · exact .symbol .equal
  · exact .symbol .notEqual
  · exact .symbol .lessEqual
  · exact .symbol .greaterEqual
  · exact .andMark
  · exact .orMark

theorem spells_of_singleKind? {c : Char} {kind : TokenKind} (h : singleKind? c = some kind) :
    Spells kind [c] := by
  unfold singleKind? at h
  split at h <;> cases h
  · exact .symbol .assign
  · exact .notMark
  all_goals exact .symbol _

theorem plain_of_isWordChar {c : Char} (h : isWordChar c = true) : Plain c := by
  refine ⟨?_, ?_, ?_, ?_⟩ <;> intro hc <;> rw [hc] at h <;> exact absurd h (by decide)

theorem plain_of_pairKind? {c d : Char} {kind : TokenKind} (h : pairKind? c d = some kind) :
    Plain c ∧ Plain d := by
  unfold pairKind? at h
  unfold Plain
  split at h
  · decide
  · decide
  · decide
  · decide
  · decide
  · decide
  · cases h

theorem singleKind?_ne {c : Char} {kind : TokenKind} (h : singleKind? c = some kind) :
    c ≠ '\n' ∧ c ≠ '\r' ∧ c ≠ '"' := by
  refine ⟨?_, ?_, ?_⟩ <;> intro hc <;> rw [hc] at h <;> simp [singleKind?] at h

theorem lexeme_of_symbol {c : Char} {cs : List Char} {kind : TokenKind} {n : Nat}
    (h : symbol? (c :: cs) = some (kind, n)) :
    ∃ word rest, c :: cs = word ++ rest ∧ n = word.length ∧ Spells kind word ∧ Found word rest := by
  have hsingle : (singleKind? c).map (·, 1) = some (kind, n) →
      ∃ word rest, c :: cs = word ++ rest ∧ n = word.length ∧ Spells kind word ∧
        Found word rest := by
    intro hone
    rw [Option.map_eq_some_iff] at hone
    obtain ⟨found, hfound, hpair⟩ := hone
    cases hpair
    refine ⟨[c], cs, rfl, rfl, spells_of_singleKind? hfound, ?_⟩
    by_cases hslash : c = '/'
    · subst hslash
      exact .slash
    · have hne := singleKind?_ne hfound
      exact .plain (by simp) (by simp [Plain, hne, hslash])
  cases cs with
  | nil => exact hsingle h
  | cons d rest =>
      rw [symbol?] at h
      cases hpair : pairKind? c d with
      | none =>
          rw [hpair] at h
          exact hsingle h
      | some found =>
          rw [hpair] at h
          cases h
          have hplain := plain_of_pairKind? hpair
          exact ⟨[c, d], rest, rfl, rfl, spells_of_pairKind? hpair,
            .plain (by simp) (by simp [hplain])⟩

/-- What is neither blank nor a quote and begins no symbol is plain. -/
theorem plain_of_symbol?_eq_none {c : Char} {cs : List Char} (hfeed : c ≠ '\n')
    (hreturn : c ≠ '\r') (hquote : c ≠ '"') (h : symbol? (c :: cs) = none) : Plain c := by
  refine ⟨hfeed, hreturn, hquote, ?_⟩
  intro hslash
  subst hslash
  cases cs with
  | nil => exact absurd h (by decide)
  | cons d rest =>
      have hpair : pairKind? '/' d = none := by
        unfold pairKind?
        split <;> simp_all
      simp [symbol?, hpair, singleKind?] at h

theorem plain_of_not_endsUnknown {c : Char} {cs : List Char} (h : ¬ endsUnknown (c :: cs)) :
    Plain c := by
  simp only [endsUnknown, Bool.or_eq_true, not_or, beq_iff_eq, Bool.not_eq_true,
    Option.isSome_eq_false_iff, Option.isNone_iff_eq_none] at h
  have hblank : ∀ d, Text.isBlank d = true → c ≠ d := by
    intro d hd hc
    rw [hc, hd] at h
    exact absurd h.1.1.1.1.1 (by decide)
  exact plain_of_symbol?_eq_none (hblank _ (by decide)) (hblank _ (by decide)) h.1.1.1.2 h.2

theorem exists_unknownRun (cs : List Char) :
    ∃ rest, cs = unknownRun cs ++ rest ∧ ∀ c ∈ unknownRun cs, Plain c := by
  induction cs with
  | nil => exact ⟨[], rfl, by simp [unknownRun]⟩
  | cons c cs ih =>
      rw [unknownRun]
      by_cases hends : endsUnknown (c :: cs)
      · rw [if_pos hends]
        exact ⟨c :: cs, rfl, by simp⟩
      · rw [if_neg hends]
        obtain ⟨rest, hcs, hplain⟩ := ih
        refine ⟨rest, congrArg (c :: ·) hcs, ?_⟩
        intro d hd
        rcases List.mem_cons.mp hd with rfl | hd
        · exact plain_of_not_endsUnknown hends
        · exact hplain d hd

/-- Where no line ends, the lexer finds a lexeme that spells its kind. -/
theorem lexeme_spec {c : Char} (hfeed : c ≠ '\n') (hreturn : c ≠ '\r') (cs : List Char) :
    ∃ kind word rest, c :: cs = word ++ rest ∧ lexeme c cs = (kind, word.length) ∧
      Spells kind word ∧ Found word rest := by
  unfold lexeme
  rw [if_neg hfeed, if_neg hreturn]
  by_cases hquote : c = '"'
  · subst hquote
    rw [if_pos rfl]
    cases hclosed : closedText? cs with
    | some content =>
        obtain ⟨rest, rfl, hno, hopen⟩ := closedText?_eq_some hclosed
        refine ⟨.text (String.ofList content), '"' :: (content ++ ['"']), rest, by simp, by simp,
          ?_, .closed hno hopen⟩
        have hspells := Spells.text (String.ofList content)
        rwa [String.toList_ofList] at hspells
    | none => exact ⟨_, ['"'], cs, rfl, rfl, .identifier "\"", .opened hclosed⟩
  · rw [if_neg hquote]
    by_cases hword : isWordChar c
    · rw [if_pos hword]
      refine ⟨_, c :: cs.takeWhile isWordChar, cs.dropWhile isWordChar, ?_, rfl,
        spells_wordKind (by simp), .plain (by simp) ?_⟩
      · rw [List.cons_append, List.takeWhile_append_dropWhile]
      · intro d hd
        rcases List.mem_cons.mp hd with rfl | hd
        · exact plain_of_isWordChar hword
        · exact plain_of_isWordChar (List.all_eq_true.mp List.all_takeWhile d hd)
    · rw [if_neg hword]
      cases hsymbol : symbol? (c :: cs) with
      | some found =>
          obtain ⟨word, rest, hcs, hlength, hspells, hfound⟩ := lexeme_of_symbol hsymbol
          exact ⟨found.1, word, rest, hcs, by rw [← hlength], hspells, hfound⟩
      | none =>
          obtain ⟨rest, hcs, hplain⟩ := exists_unknownRun cs
          refine ⟨_, c :: unknownRun cs, rest, congrArg (c :: ·) hcs, rfl, ?_,
            .plain (by simp) ?_⟩
          · have hspells := Spells.identifier (String.ofList (c :: unknownRun cs))
            rwa [String.toList_ofList] at hspells
          · intro d hd
            rcases List.mem_cons.mp hd with rfl | hd
            · exact plain_of_symbol?_eq_none hfeed hreturn hquote hsymbol
            · exact hplain d hd

/-! ## Gaps -/

theorem commentLength_cons (c : Char) (cs : List Char) :
    commentLength (c :: cs) =
      if c = '\n' ∨ (c = '\r' ∧ cs.head? = some '\n') then 0 else commentLength cs + 1 := by
  by_cases hfeed : c = '\n'
  · subst hfeed
    rw [commentLength, if_pos (Or.inl rfl)]
  · by_cases hreturn : c = '\r' ∧ cs.head? = some '\n'
    · obtain ⟨rest, rfl⟩ := List.head?_eq_some_iff.mp hreturn.2
      rw [if_pos (Or.inr hreturn), hreturn.1, commentLength]
    · rw [if_neg (by simp [hfeed, hreturn]), commentLength]
      · exact hfeed
      · intro rest hc hcs
        exact hreturn ⟨hc, by rw [hcs]; rfl⟩

theorem skipLength_cons (c : Char) (cs : List Char) :
    skipLength (c :: cs) =
      if c = '\r' ∧ cs.head? = some '\n' then 0
      else if c = '/' ∧ cs.head? = some '/' then commentLength cs.tail + 2
      else if isSkipped c then skipLength cs + 1
      else 0 := by
  by_cases hreturn : c = '\r' ∧ cs.head? = some '\n'
  · obtain ⟨rest, rfl⟩ := List.head?_eq_some_iff.mp hreturn.2
    rw [if_pos hreturn, hreturn.1, skipLength]
  · by_cases hslash : c = '/' ∧ cs.head? = some '/'
    · obtain ⟨rest, rfl⟩ := List.head?_eq_some_iff.mp hslash.2
      rw [if_neg hreturn, if_pos hslash, hslash.1, skipLength]
      rfl
    · rw [if_neg hreturn, if_neg hslash, skipLength]
      · intro rest hc hcs
        exact hreturn ⟨hc, by rw [hcs]; rfl⟩
      · intro rest hc hcs
        exact hslash ⟨hc, by rw [hcs]; rfl⟩

theorem commentLength_le (cs : List Char) : commentLength cs ≤ cs.length := by
  induction cs with
  | nil => exact Nat.le_refl 0
  | cons c cs ih =>
      rw [commentLength_cons, List.length_cons]
      by_cases h : c = '\n' ∨ (c = '\r' ∧ cs.head? = some '\n')
      · rw [if_pos h]
        exact Nat.zero_le _
      · rw [if_neg h]
        exact Nat.succ_le_succ ih

theorem skipLength_le (cs : List Char) : skipLength cs ≤ cs.length := by
  induction cs with
  | nil => exact Nat.le_refl 0
  | cons c cs ih =>
      rw [skipLength_cons, List.length_cons]
      by_cases hreturn : c = '\r' ∧ cs.head? = some '\n'
      · simp [hreturn]
      · rw [if_neg hreturn]
        by_cases hslash : c = '/' ∧ cs.head? = some '/'
        · obtain ⟨rest, rfl⟩ := List.head?_eq_some_iff.mp hslash.2
          have hrest := commentLength_le rest
          rw [if_pos hslash, List.tail_cons, List.length_cons]
          omega
        · rw [if_neg hslash]
          by_cases hc : isSkipped c
          · rw [if_pos hc]
            exact Nat.succ_le_succ ih
          · rw [if_neg hc]
            exact Nat.zero_le _

/-- No more can be skipped in front of the text. -/
def Stops (rest : List Char) : Prop :=
  ∀ c cs, rest = c :: cs →
    (c = '\r' → cs.head? = some '\n') ∧ (c = '/' → cs.head? ≠ some '/')

/-- The text has come to its end or to the end of a line. -/
def AtLineEnd (rest : List Char) : Prop :=
  rest = [] ∨ ∃ t b, rest = Terminator.chars t ++ b

theorem AtLineEnd.stops {rest : List Char} (h : AtLineEnd rest) : Stops rest := by
  intro c cs hrest
  rcases h with hnil | ⟨t, b, hline⟩
  · rw [hnil] at hrest
    cases hrest
  · rw [hrest] at hline
    cases t with
    | feed =>
        cases hline
        simp
    | returnFeed =>
        cases hline
        simp

/-- Characters that are skipped in front of the rest of a text. -/
inductive Gap : List Char → List Char → Prop where
  | stop {rest : List Char} (h : Stops rest) : Gap [] rest
  | blank {c : Char} {gap rest : List Char} (hc : isSkipped c = true) (h : Gap gap rest) :
      Gap (c :: gap) rest
  | comment {body rest : List Char} (hbody : '\n' ∉ body) (h : AtLineEnd rest) :
      Gap ('/' :: '/' :: body) rest

theorem Gap.stops {gap rest : List Char} (h : Gap gap rest) : Stops rest := by
  induction h with
  | stop h => exact h
  | blank _ _ ih => exact ih
  | comment _ h => exact h.stops

theorem Gap.feed_not_mem {gap rest : List Char} (h : Gap gap rest) : '\n' ∉ gap := by
  induction h with
  | stop _ => simp
  | @blank c _ _ hc _ ih =>
      have hfeed : '\n' ≠ c := by
        intro heq
        rw [← heq] at hc
        exact absurd hc (by decide)
      simp [hfeed, ih]
  | comment hbody _ => simp [hbody]

theorem exists_comment (cs : List Char) :
    ∃ body rest, cs = body ++ rest ∧ commentLength cs = body.length ∧ '\n' ∉ body ∧
      AtLineEnd rest := by
  induction cs with
  | nil => exact ⟨[], [], rfl, rfl, by simp, Or.inl rfl⟩
  | cons c cs ih =>
      rw [commentLength_cons]
      by_cases hend : c = '\n' ∨ (c = '\r' ∧ cs.head? = some '\n')
      · refine ⟨[], c :: cs, rfl, if_pos hend, by simp, Or.inr ?_⟩
        rcases hend with rfl | hreturn
        · exact ⟨.feed, cs, rfl⟩
        · obtain ⟨rest, rfl⟩ := List.head?_eq_some_iff.mp hreturn.2
          exact ⟨.returnFeed, rest, by rw [hreturn.1]; rfl⟩
      · obtain ⟨body, rest, hcs, hlength, hbody, hend'⟩ := ih
        have hfeed : '\n' ≠ c := fun heq => hend (Or.inl heq.symm)
        refine ⟨c :: body, rest, congrArg (c :: ·) hcs, ?_, by simp [hfeed, hbody], hend'⟩
        rw [if_neg hend, hlength, List.length_cons]

theorem exists_gap (cs : List Char) :
    ∃ gap rest, cs = gap ++ rest ∧ skipLength cs = gap.length ∧ Gap gap rest := by
  induction cs with
  | nil => exact ⟨[], [], rfl, rfl, .stop (by simp [Stops])⟩
  | cons c cs ih =>
      rw [skipLength_cons]
      by_cases hreturn : c = '\r' ∧ cs.head? = some '\n'
      · refine ⟨[], c :: cs, rfl, if_pos hreturn, .stop ?_⟩
        intro d ds heq
        cases heq
        exact ⟨fun _ => hreturn.2, by simp [hreturn.1]⟩
      rw [if_neg hreturn]
      by_cases hslash : c = '/' ∧ cs.head? = some '/'
      · obtain ⟨tail, rfl⟩ := List.head?_eq_some_iff.mp hslash.2
        obtain ⟨body, rest, rfl, hlength, hbody, hend⟩ := exists_comment tail
        refine ⟨'/' :: '/' :: body, rest, by simp [hslash.1], ?_, .comment hbody hend⟩
        rw [if_pos hslash, List.tail_cons, hlength]
        rfl
      rw [if_neg hslash]
      by_cases hc : isSkipped c
      · obtain ⟨gap, rest, hcs, hlength, hgap⟩ := ih
        refine ⟨c :: gap, rest, congrArg (c :: ·) hcs, ?_, .blank hc hgap⟩
        rw [if_pos hc, hlength, List.length_cons]
      · refine ⟨[], c :: cs, rfl, if_neg hc, .stop ?_⟩
        intro d ds heq
        cases heq
        refine ⟨?_, fun hd hds => hslash ⟨hd, hds⟩⟩
        intro hd
        rw [hd] at hc
        exact absurd rfl hc

/-! ## The whole text -/

/-- The span of a word that starts at a position. -/
def wordSpan (p : Position) (word : List Char) : Span :=
  ⟨p, ⟨p.line, p.column + word.length - 1⟩⟩

/-- The tokens of a text that starts at a position. -/
inductive Scan : Position → List Char → List Token → Prop where
  | done {p : Position} {gap : List Char} (hgap : Gap gap []) :
      Scan p gap [⟨.fileEnd, .point (p.past gap)⟩]
  | lineEnd {p : Position} {gap rest : List Char} {ts : List Token} (t : Terminator)
      (hgap : Gap gap (t.chars ++ rest)) (hrest : Scan (p.past (gap ++ t.chars)) rest ts) :
      Scan p (gap ++ (t.chars ++ rest)) (⟨.lineEnd, .point (p.past gap)⟩ :: ts)
  | lexeme {p : Position} {gap word rest : List Char} {kind : TokenKind} {ts : List Token}
      (hgap : Gap gap (word ++ rest)) (hspells : Spells kind word) (hfound : Found word rest)
      (hrest : Scan (p.past (gap ++ word)) rest ts) :
      Scan p (gap ++ (word ++ rest)) (⟨kind, wordSpan (p.past gap) word⟩ :: ts)

theorem tokensFrom_of_drop_nil {cs : List Char} (h : cs.drop (skipLength cs) = []) (p : Position) :
    tokensFrom p cs = [⟨.fileEnd, .point ⟨p.line, p.column + skipLength cs⟩⟩] := by
  rw [tokensFrom]
  split
  · rfl
  · rename_i hcons
    rw [h] at hcons
    cases hcons

theorem tokensFrom_of_drop_cons {cs rest : List Char} {c : Char} {kind : TokenKind} {length : Nat}
    (h : cs.drop (skipLength cs) = c :: rest) (hlexeme : lexeme c rest = (kind, length))
    (p : Position) :
    tokensFrom p cs =
      ⟨kind, lexemeSpan ⟨p.line, p.column + skipLength cs⟩ kind length⟩ ::
        tokensFrom (lexemeEnd ⟨p.line, p.column + skipLength cs⟩ kind length)
          (rest.drop (length - 1)) := by
  rw [tokensFrom]
  split
  · rename_i hnil
    rw [h] at hnil
    cases hnil
  · rename_i hcons
    rw [h] at hcons
    cases hcons
    rw [hlexeme]

/-- What stands at the front of a text: a line end, or a lexeme of its kind. -/
inductive Front : TokenKind → List Char → List Char → Prop where
  | lineEnd (t : Terminator) (rest : List Char) : Front .lineEnd t.chars rest
  | lexeme {kind : TokenKind} {word rest : List Char} (hspells : Spells kind word)
      (hfound : Found word rest) : Front kind word rest

theorem Front.ne_nil {kind : TokenKind} {word rest : List Char} (h : Front kind word rest) :
    word ≠ [] := by
  cases h with
  | lineEnd t _ => cases t <;> simp [Terminator.chars]
  | lexeme _ hfound => exact hfound.ne_nil

theorem exists_front {c : Char} {cs : List Char} {kind : TokenKind} {length : Nat}
    (hstops : Stops (c :: cs)) (hlexeme : lexeme c cs = (kind, length)) :
    ∃ word rest, c :: cs = word ++ rest ∧ length = word.length ∧ Front kind word rest := by
  by_cases hfeed : c = '\n'
  · subst hfeed
    cases hlexeme
    exact ⟨['\n'], cs, rfl, rfl, .lineEnd .feed cs⟩
  by_cases hreturn : c = '\r'
  · subst hreturn
    obtain ⟨rest, rfl⟩ := List.head?_eq_some_iff.mp ((hstops _ _ rfl).1 rfl)
    cases hlexeme
    exact ⟨['\r', '\n'], rest, rfl, rfl, .lineEnd .returnFeed rest⟩
  obtain ⟨found, word, rest, hcs, hfound, hspells, hrest⟩ := lexeme_spec hfeed hreturn cs
  rw [hlexeme, Prod.mk.injEq] at hfound
  obtain ⟨rfl, rfl⟩ := hfound
  exact ⟨word, rest, hcs, rfl, .lexeme hspells hrest⟩

/-- One round of the lexer: a gap, and what stands behind it. -/
theorem exists_round {cs tail : List Char} {c : Char} {kind : TokenKind} {length : Nat}
    (h : cs.drop (skipLength cs) = c :: tail) (hlexeme : lexeme c tail = (kind, length)) :
    ∃ gap word rest, cs = gap ++ (word ++ rest) ∧ Gap gap (word ++ rest) ∧ Front kind word rest ∧
      skipLength cs = gap.length ∧ length = word.length ∧ c :: tail = word ++ rest := by
  obtain ⟨gap, front, hcs, hskip, hgap⟩ := exists_gap cs
  have hfront : front = c :: tail := by
    rw [hskip] at h
    rw [← h, hcs, List.drop_left]
  subst hfront
  obtain ⟨word, rest, hword, hlength, hkind⟩ := exists_front hgap.stops hlexeme
  exact ⟨gap, word, rest, by rw [hcs, hword], by rwa [← hword], hkind, hskip, hlength, hword⟩

/-- The characters behind a lexeme. -/
theorem drop_of_cons_eq {c : Char} {tail word rest : List Char} (h : c :: tail = word ++ rest)
    (hne : word ≠ []) : tail.drop (word.length - 1) = rest := by
  cases word with
  | nil => exact absurd rfl hne
  | cons d word =>
      rw [List.cons_append, List.cons.injEq] at h
      rw [h.2, List.length_cons, Nat.add_sub_cancel, List.drop_left]

theorem lexemeSpan_of_front {kind : TokenKind} {gap word rest front : List Char}
    (hgap : Gap gap front) (hfront : Front kind word rest) (p : Position) :
    lexemeSpan ⟨p.line, p.column + gap.length⟩ kind word.length =
      if kind = .lineEnd then .point (p.past gap) else wordSpan (p.past gap) word := by
  rw [Position.past_of_not_mem hgap.feed_not_mem]
  cases hfront <;> rfl

theorem lexemeEnd_of_front {kind : TokenKind} {gap word rest front : List Char}
    (hgap : Gap gap front) (hfront : Front kind word rest) (p : Position) :
    lexemeEnd ⟨p.line, p.column + gap.length⟩ kind word.length = p.past (gap ++ word) := by
  rw [Position.past_append, Position.past_of_not_mem hgap.feed_not_mem]
  cases hfront with
  | lineEnd t _ => exact (t.past_chars _).symm
  | lexeme hspells hfound =>
      rw [lexemeEnd, if_neg hspells.ne_lineEnd, Position.past_of_not_mem hfound.feed_not_mem]

/-- The tokens of every text belong to its parts. -/
theorem scan_tokensFrom (p : Position) (cs : List Char) : Scan p cs (tokensFrom p cs) := by
  induction p, cs using tokensFrom.induct with
  | case1 p cs skipped h =>
      obtain ⟨gap, rest, hcs, hskip, hgap⟩ := exists_gap cs
      have hrest : rest = [] := by
        rw [← h, show skipped = gap.length from hskip, hcs, List.drop_left]
      rw [tokensFrom_of_drop_nil h, hskip, ← Position.past_of_not_mem hgap.feed_not_mem]
      rw [hrest] at hcs hgap
      rw [hcs, List.append_nil]
      exact .done hgap
  | case2 p cs skipped q c tail h kind length hlexeme ih =>
      obtain ⟨gap, word, rest, hcs, hgap, hfront, hskip, hlength, htail⟩ := exists_round h hlexeme
      have hend : lexemeEnd q kind length = p.past (gap ++ word) := by
        rw [← lexemeEnd_of_front hgap hfront, hlength, ← hskip]
      have hdrop : tail.drop (length - 1) = rest := by
        rw [hlength, drop_of_cons_eq htail hfront.ne_nil]
      rw [hend, hdrop] at ih
      rw [tokensFrom_of_drop_cons h hlexeme, hskip, hlength, lexemeSpan_of_front hgap hfront,
        lexemeEnd_of_front hgap hfront, drop_of_cons_eq htail hfront.ne_nil, hcs]
      cases hfront with
      | lineEnd t _ => exact .lineEnd t hgap ih
      | lexeme hspells hfound =>
          rw [if_neg hspells.ne_lineEnd]
          exact .lexeme hgap hspells hfound ih

/-- The file ends once, behind all characters. -/
theorem Scan.exists_concat {p : Position} {cs : List Char} {ts : List Token} (h : Scan p cs ts) :
    ∃ init, ts = init ++ [⟨.fileEnd, .point (p.past cs)⟩] ∧ ∀ t ∈ init, t.kind ≠ .fileEnd := by
  induction h with
  | done _ => exact ⟨[], rfl, by simp⟩
  | @lineEnd p gap rest ts t _ _ ih =>
      obtain ⟨init, hts, hinit⟩ := ih
      rw [← List.append_assoc, Position.past_append, hts]
      exact ⟨⟨.lineEnd, .point (p.past gap)⟩ :: init, rfl, by simpa using hinit⟩
  | @lexeme p gap word rest kind ts _ hspells _ _ ih =>
      obtain ⟨init, hts, hinit⟩ := ih
      rw [← List.append_assoc, Position.past_append, hts]
      exact ⟨⟨kind, wordSpan (p.past gap) word⟩ :: init, rfl,
        by simpa using ⟨hspells.ne_fileEnd, hinit⟩⟩

theorem tokensFrom_eq_concat (p : Position) (cs : List Char) :
    tokensFrom p cs = (tokensFrom p cs).dropLast ++ [⟨.fileEnd, .point (p.past cs)⟩] := by
  obtain ⟨init, hts, -⟩ := (scan_tokensFrom p cs).exists_concat
  rw [hts, List.dropLast_concat]

theorem tokensFrom_ne_nil (p : Position) (cs : List Char) : tokensFrom p cs ≠ [] := by
  rw [tokensFrom_eq_concat]
  simp

end Lexer

end KitchenScript
