import KitchenScript.Proofs.Token.Coverage
import KitchenScript.Proofs.Token.Seam
import Mathlib.Data.List.TakeWhile

/-!
# Tokens are read back from their print

The tokens of a text, written one behind the other with a space between them, are read as the same
tokens.  Each kind that the lexer gives has a print from which it is read again wherever a space or
the end of the text follows.  Only a quote without a partner asks for more: that no other quote
follows on its line, which holds of its own text and then of the print of all that follows.
-/

namespace KitchenScript

namespace TokenKind

/-- How a token is written into a text: a line end as a line feed, the end of the file not at all,
and every other kind as it is shown. -/
def print : TokenKind → String
  | lineEnd => "\n"
  | fileEnd => ""
  | kind => kind.render

end TokenKind

/-- The tokens as a text, with a single space between neighbours. -/
def printTokens (tokens : List Token) : String :=
  " ".intercalate (tokens.map fun t => t.kind.print)

namespace Lexer

/-! ## The kinds of a text -/

@[simp] theorem kinds_nil : kinds [] = [] := by
  rw [kinds, tokensFrom_of_drop_nil rfl]
  rfl

@[simp] theorem kinds_space (cs : List Char) : kinds (' ' :: cs) = kinds cs := by
  have hskip : skipLength ([' '] ++ cs) = [' '].length + skipLength cs := by
    simp [skipLength_cons, isSkipped, Nat.add_comm]
  apply kinds_eq_of_map_kind (p := .start)
  rw [← List.singleton_append, tokensFrom_skip (by decide) hskip, map_kind_eq_kinds]

theorem kinds_of_lexeme {c : Char} {cs u : List Char} {kind : TokenKind}
    (hskip : skipLength (c :: (cs ++ u)) = 0)
    (hlexeme : lexeme c (cs ++ u) = (kind, cs.length + 1)) :
    kinds (c :: cs ++ u) = kind :: kinds u := by
  have hdrop : (c :: (cs ++ u)).drop (skipLength (c :: (cs ++ u))) = c :: (cs ++ u) := by
    rw [hskip, List.drop_zero]
  apply kinds_eq_of_map_kind (p := .start)
  rw [List.cons_append, tokensFrom_of_drop_cons hdrop hlexeme, Nat.add_sub_cancel, List.drop_left,
    List.map_cons, map_kind_eq_kinds]
  rfl

theorem skipLength_eq_zero {c : Char} (hc : isSkipped c = false) (hslash : c ≠ '/')
    (cs : List Char) : skipLength (c :: cs) = 0 := by
  have hreturn : c ≠ '\r' := by
    rintro rfl
    exact absurd hc (by decide)
  rw [skipLength_cons, if_neg fun h => hreturn h.1, if_neg fun h => hslash h.1, hc]
  rfl

/-! ## Kinds that are read back -/

/-- The kinds of tokens, with what the lexer knows about each. -/
inductive Printable : TokenKind → Prop where
  | lineEnd : Printable .lineEnd
  | number {n : Number} (h : 0 ≤ n.val) : Printable (.number n)
  | text {content : List Char} (hfeed : '\n' ∉ content) (hquote : '"' ∉ content) :
      Printable (.text (String.ofList content))
  | openQuote : Printable (.identifier "\"")
  | keyword (k : Keyword) : Printable (.keyword k)
  | builtin (b : Builtin) : Printable (.builtin b)
  | symbol (s : Symbol) : Printable (.symbol s)
  | word {word : List Char} (hne : word ≠ []) (hword : ∀ c ∈ word, isWordChar c = true)
      (hkind : wordKind word = .identifier (String.ofList word)) :
      Printable (.identifier (String.ofList word))
  | unknown {c : Char} {run : List Char} (hc : isSkipped c = false) (hfeed : c ≠ '\n')
      (hquote : c ≠ '"') (hword : isWordChar c = false) (hsymbol : symbol? (c :: run) = none)
      (hrun : unknownRun run = run) : Printable (.identifier (String.ofList (c :: run)))

theorem printable_wordKind {word : List Char} (hne : word ≠ [])
    (hword : ∀ c ∈ word, isWordChar c = true) : Printable (wordKind word) := by
  have hspells := spells_wordKind hne
  cases hkind : wordKind word with
  | number n =>
      rw [hkind] at hspells
      cases hspells with
      | number _ _ hvalue => exact .number (hvalue ▸ Int.natCast_nonneg _)
  | identifier x =>
      rw [hkind] at hspells
      cases hspells
      rw [← String.ofList_toList (s := x)] at hkind ⊢
      rw [String.toList_ofList] at hkind
      exact .word hne hword hkind
  | text s =>
      rw [hkind] at hspells
      cases hspells
      have hquote := hword '"' (by simp)
      exact absurd hquote (by decide)
  | keyword k => exact .keyword k
  | builtin b => exact .builtin b
  | symbol s => exact .symbol s
  | lineEnd => exact absurd hkind hspells.ne_lineEnd
  | fileEnd => exact absurd hkind hspells.ne_fileEnd

theorem printable_of_pairKind? {c d : Char} {kind : TokenKind} (h : pairKind? c d = some kind) :
    Printable kind := by
  unfold pairKind? at h
  split at h <;> cases h
  · exact .symbol .equal
  · exact .symbol .notEqual
  · exact .symbol .lessEqual
  · exact .symbol .greaterEqual
  · exact .keyword .andWord
  · exact .keyword .orWord

theorem printable_of_singleKind? {c : Char} {kind : TokenKind} (h : singleKind? c = some kind) :
    Printable kind := by
  unfold singleKind? at h
  split at h <;> cases h
  · exact .symbol .assign
  · exact .keyword .notWord
  all_goals exact .symbol _

theorem printable_of_symbol? {cs : List Char} {kind : TokenKind} {n : Nat}
    (h : symbol? cs = some (kind, n)) : Printable kind := by
  have hsingle : ∀ c, (singleKind? c).map (·, 1) = some (kind, n) → Printable kind := by
    intro c hc
    rw [Option.map_eq_some_iff] at hc
    obtain ⟨found, hfound, hpair⟩ := hc
    cases hpair
    exact printable_of_singleKind? hfound
  unfold symbol? at h
  split at h
  · cases h
  · exact hsingle _ h
  · split at h
    · rename_i hpair
      cases h
      exact printable_of_pairKind? hpair
    · exact hsingle _ h

/-- What begins no symbol begins none when less follows. -/
theorem symbol?_eq_none_of_append {a b : List Char} (h : symbol? (a ++ b) = none) :
    symbol? a = none := by
  match a with
  | [] => rfl
  | c :: d :: rest => exact h
  | [c] =>
      cases b with
      | nil => exact h
      | cons d rest =>
          rw [List.singleton_append, symbol?] at h
          cases hpair : pairKind? c d with
          | some kind => simp [hpair] at h
          | none =>
              rw [hpair] at h
              exact h

theorem unknownRun_unknownRun (cs : List Char) : unknownRun (unknownRun cs) = unknownRun cs := by
  induction cs with
  | nil => rfl
  | cons c cs ih =>
      by_cases hends : endsUnknown (c :: cs)
      · rw [unknownRun, if_pos hends]
        rfl
      · rw [unknownRun, if_neg hends]
        have hends' : ¬ endsUnknown (c :: unknownRun cs) := by
          obtain ⟨rest, hcs, -⟩ := exists_unknownRun cs
          rw [hcs, ← List.cons_append] at hends
          simp only [endsUnknown, Bool.or_eq_true, not_or, Option.not_isSome_iff_eq_none,
            List.cons_append] at hends ⊢
          exact ⟨hends.1, symbol?_eq_none_of_append (a := c :: unknownRun cs) hends.2⟩
        rw [unknownRun, if_neg hends', ih]

theorem printable_lexeme {c : Char} (hc : isSkipped c = false ∨ c = '\r') (cs : List Char) :
    Printable (lexeme c cs).1 := by
  unfold lexeme
  by_cases hfeed : c = '\n'
  · rw [if_pos hfeed]
    exact .lineEnd
  rw [if_neg hfeed]
  by_cases hreturn : c = '\r'
  · rw [if_pos hreturn]
    exact .lineEnd
  rw [if_neg hreturn]
  by_cases hquote : c = '"'
  · rw [if_pos hquote]
    cases hclosed : closedText? cs with
    | some content =>
        obtain ⟨rest, -, hcontent⟩ := closedText?_eq_some hclosed
        exact .text hcontent.1 hcontent.2
    | none => exact .openQuote
  rw [if_neg hquote]
  by_cases hword : isWordChar c
  · rw [if_pos hword]
    have hrun : ∀ d ∈ cs.takeWhile isWordChar, isWordChar d = true :=
      List.all_eq_true.mp List.all_takeWhile
    change Printable (wordKind (c :: cs.takeWhile isWordChar))
    exact printable_wordKind (List.cons_ne_nil _ _) (List.forall_mem_cons.mpr ⟨hword, hrun⟩)
  rw [if_neg hword]
  cases hsymbol : symbol? (c :: cs) with
  | some found => exact printable_of_symbol? hsymbol
  | none =>
      obtain ⟨rest, hcs, -⟩ := exists_unknownRun cs
      have hsymbol' : symbol? (c :: unknownRun cs) = none := by
        rw [hcs, ← List.cons_append] at hsymbol
        exact symbol?_eq_none_of_append hsymbol
      exact .unknown (hc.resolve_right hreturn) hfeed hquote (by simpa using hword) hsymbol'
        (unknownRun_unknownRun cs)

/-- Behind all that is skipped nothing more is skipped; a carriage return there ends the line. -/
theorem isSkipped_of_drop {cs tail : List Char} {c : Char}
    (h : cs.drop (skipLength cs) = c :: tail) : isSkipped c = false ∨ c = '\r' := by
  induction cs with
  | nil => simp at h
  | cons d ds ih =>
      rw [skipLength_cons] at h
      by_cases hreturn : d = '\r' ∧ ds.head? = some '\n'
      · rw [if_pos hreturn, List.drop_zero, List.cons.injEq] at h
        exact Or.inr (h.1 ▸ hreturn.1)
      rw [if_neg hreturn] at h
      by_cases hslash : d = '/' ∧ ds.head? = some '/'
      · obtain ⟨rest, rfl⟩ := List.head?_eq_some_iff.mp hslash.2
        obtain ⟨body, after, rfl, hlength, -, hend⟩ := exists_comment rest
        rw [if_pos hslash, List.tail_cons, hlength, List.drop_succ_cons, List.drop_succ_cons,
          List.drop_left] at h
        rcases hend with hnil | ⟨t, b, ht⟩
        · rw [hnil] at h
          cases h
        · rw [ht] at h
          cases t with
          | feed =>
              cases h
              exact Or.inl rfl
          | returnFeed =>
              cases h
              exact Or.inr rfl
      rw [if_neg hslash] at h
      by_cases hd : isSkipped d
      · rw [if_pos hd, List.drop_succ_cons] at h
        exact ih h
      · rw [if_neg hd, List.drop_zero, List.cons.injEq] at h
        rw [← h.1]
        exact Or.inl (by simpa using hd)

/-- A text in rounds: a gap and the front of what is behind it, until only a gap is left. -/
inductive Rounds : List Char → List TokenKind → Prop where
  | done (gap : List Char) : Rounds gap []
  | round {gap word rest : List Char} {k : TokenKind} {ks : List TokenKind} (hgap : '\n' ∉ gap)
      (hfront : Front k word rest) (hk : Printable k) (h : Rounds rest ks) :
      Rounds (gap ++ (word ++ rest)) (k :: ks)

theorem rounds_kinds (cs : List Char) : Rounds cs (kinds cs) := by
  suffices hall : ∀ p, Rounds cs ((tokensFrom p cs).dropLast.map Token.kind) from hall .start
  intro p
  induction p, cs using tokensFrom.induct with
  | case1 p cs skipped hdrop =>
      rw [tokensFrom_of_drop_nil hdrop]
      exact .done cs
  | case2 p cs skipped q c tail hdrop kind length hlexeme ih =>
      obtain ⟨gap, word, rest, hcs, hgap, hfront, hskip, hlength, htail⟩ :=
        exists_round hdrop hlexeme
      have hkind : Printable kind := by
        have hfirst := printable_lexeme (isSkipped_of_drop hdrop) tail
        rwa [hlexeme] at hfirst
      rw [hlength, drop_of_cons_eq htail hfront.ne_nil] at ih
      have hround := Rounds.round hgap.feed_not_mem hfront hkind ih
      rw [← hcs] at hround
      rwa [tokensFrom_of_drop_cons hdrop hlexeme, hlength, drop_of_cons_eq htail hfront.ne_nil,
        List.dropLast_cons_of_ne_nil (tokensFrom_ne_nil _ _)]

/-! ## Reading one print -/

theorem closedText?_append_quote {content : List Char} (hfeed : '\n' ∉ content)
    (hquote : '"' ∉ content) (u : List Char) :
    closedText? (content ++ '"' :: u) = some content := by
  induction content with
  | nil => rfl
  | cons c cs ih =>
      rw [List.mem_cons, not_or] at hfeed hquote
      rw [List.cons_append, closedText?, if_neg (Ne.symm hquote.1), if_neg (Ne.symm hfeed.1),
        ih hfeed.2 hquote.2]
      rfl

theorem isSkipped_of_isWordChar {c : Char} (h : isWordChar c = true) :
    isSkipped c = false ∧ c ≠ '/' := by
  refine ⟨?_, (plain_of_isWordChar h).2.2.2⟩
  rw [← Bool.not_eq_true]
  intro hskipped
  simp only [isSkipped, Bool.or_eq_true, beq_iff_eq] at hskipped
  rcases hskipped with (((rfl | rfl) | rfl) | rfl) | rfl <;> exact absurd h (by decide)

variable {u : List Char}

theorem kinds_word {word : List Char} (hne : word ≠ [])
    (hword : ∀ c ∈ word, isWordChar c = true) (hu : Parted u) :
    kinds (word ++ u) = wordKind word :: kinds u := by
  cases word with
  | nil => exact absurd rfl hne
  | cons c cs =>
      obtain ⟨hc, hcs⟩ := List.forall_mem_cons.mp hword
      have hplain := plain_of_isWordChar hc
      have hrun : (cs ++ u).takeWhile isWordChar = cs := by
        rw [hu.takeWhile_append, List.takeWhile_eq_self_iff.mpr hcs]
      have hskipped := isSkipped_of_isWordChar hc
      apply kinds_of_lexeme (skipLength_eq_zero hskipped.1 hskipped.2 _)
      rw [lexeme, if_neg hplain.1, if_neg hplain.2.1, if_neg hplain.2.2.1, if_pos hc, hrun]
      rfl

theorem kinds_symbol (s : Symbol) (hu : Parted u) :
    kinds (s.spelling.toList ++ u) = .symbol s :: kinds u := by
  have hspelling : ∃ c cs, s.spelling.toList = c :: cs ∧ isSkipped c = false ∧ c ≠ '\n' ∧
      c ≠ '\r' ∧ c ≠ '"' ∧ isWordChar c = false ∧
      symbol? (c :: cs) = some (.symbol s, cs.length + 1) ∧ (c = '/' → cs = []) := by
    cases s <;> exact ⟨_, _, rfl, by decide⟩
  obtain ⟨c, cs, hs, hskipped, hfeed, hreturn, hquote, hword, hsymbol, hslash⟩ := hspelling
  have hskip : skipLength (c :: (cs ++ u)) = 0 := by
    by_cases hc : c = '/'
    · -- a second slash would begin a comment
      have hhead : u.head? ≠ some '/' := fun h => absurd (hu _ h) (by decide)
      rw [hslash hc, List.nil_append, skipLength_cons, if_neg fun h => hreturn h.1,
        if_neg fun h => hhead h.2, hskipped]
      rfl
    · exact skipLength_eq_zero hskipped hc _
  rw [hs]
  apply kinds_of_lexeme hskip
  rw [lexeme, if_neg hfeed, if_neg hreturn, if_neg hquote, hword, hu.symbol?_append, hsymbol]
  rfl

theorem kinds_unknown {c : Char} {run : List Char} (hc : isSkipped c = false) (hfeed : c ≠ '\n')
    (hquote : c ≠ '"') (hword : isWordChar c = false) (hsymbol : symbol? (c :: run) = none)
    (hrun : unknownRun run = run) (hu : Parted u) :
    kinds (c :: run ++ u) = .identifier (String.ofList (c :: run)) :: kinds u := by
  have hreturn : c ≠ '\r' := by
    rintro rfl
    exact absurd hc (by decide)
  have hplain := plain_of_symbol?_eq_none hfeed hreturn hquote hsymbol
  apply kinds_of_lexeme (skipLength_eq_zero hc hplain.2.2.2 _)
  rw [lexeme, if_neg hfeed, if_neg hreturn, if_neg hquote, hword, hu.symbol?_append, hsymbol,
    hu.unknownRun_append, hrun]
  rfl

theorem wordKind_toDigits {n : Number} (h : 0 ≤ n.val) :
    wordKind (Nat.toDigits 10 n.val.toNat) = .number n := by
  have hdigits : (Nat.toDigits 10 n.val.toNat).all Char.isDigit = true :=
    List.all_eq_true.mpr fun c hc => Nat.isDigit_of_mem_toDigits (by decide) (by decide) hc
  have hvalue : Number.ofDigits? (Nat.toDigits 10 n.val.toNat) = some n := by
    rw [Number.ofDigits?, Nat.ofDigitChars_toDigits (by decide) (by decide), Int.toNat_of_nonneg h,
      Number.ofInt?_val]
  simp only [wordKind, hdigits, ↓reduceIte, hvalue]

theorem toList_render {n : Number} (h : 0 ≤ n.val) :
    n.render.toList = Nat.toDigits 10 n.val.toNat := by
  rw [Number.render, Int.toString_eq_repr]
  obtain ⟨m, hm⟩ := Int.eq_ofNat_of_zero_le h
  rw [hm]
  exact Nat.toList_repr

/-- A number is written with the digits of its value. -/
theorem kinds_number {n : Number} (h : 0 ≤ n.val) (hu : Parted u) :
    kinds (n.render.toList ++ u) = .number n :: kinds u := by
  have hword : ∀ c ∈ Nat.toDigits 10 n.val.toNat, isWordChar c = true := by
    intro c hc
    have hdigit := Nat.isDigit_of_mem_toDigits (by decide) (by decide) hc
    simp [isWordChar, Char.isAlphanum, hdigit]
  rw [toList_render h, kinds_word Nat.toDigits_ne_nil hword hu, wordKind_toDigits h]

theorem kinds_keyword (k : Keyword) (hu : Parted u) :
    kinds (k.spelling.toList ++ u) = .keyword k :: kinds u := by
  have hspelling : k.spelling.toList ≠ [] ∧ k.spelling.toList.all isWordChar = true ∧
      wordKind k.spelling.toList = .keyword k := by
    cases k <;> decide
  rw [kinds_word hspelling.1 (List.all_eq_true.mp hspelling.2.1) hu, hspelling.2.2]

theorem kinds_builtin (b : Builtin) (hu : Parted u) :
    kinds (b.name.toList ++ u) = .builtin b :: kinds u := by
  have hname : b.name.toList ≠ [] ∧ b.name.toList.all isWordChar = true ∧
      wordKind b.name.toList = .builtin b := by
    cases b <;> decide
  rw [kinds_word hname.1 (List.all_eq_true.mp hname.2.1) hu, hname.2.2]

theorem kinds_text {content : List Char} (hfeed : '\n' ∉ content) (hquote : '"' ∉ content) :
    kinds ('"' :: (content ++ ['"']) ++ u) = .text (String.ofList content) :: kinds u := by
  apply kinds_of_lexeme (skipLength_eq_zero rfl (by decide) _)
  have hclosed : closedText? (content ++ ['"'] ++ u) = some content := by
    rw [List.append_assoc]
    exact closedText?_append_quote hfeed hquote u
  rw [lexeme, if_neg (by decide), if_neg (by decide), if_pos rfl, hclosed]
  simp

theorem kinds_openQuote (hu : closedText? u = none) :
    kinds ('"' :: u) = .identifier "\"" :: kinds u := by
  have hlexeme : lexeme '"' ([] ++ u) = (.identifier "\"", 1) := by
    rw [List.nil_append, lexeme, if_neg (by decide), if_neg (by decide), if_pos rfl, hu]
  exact kinds_of_lexeme (skipLength_eq_zero rfl (by decide) _) hlexeme

/-- The print of a kind is read as the kind, and then what follows is read. -/
theorem Printable.kinds_append {k : TokenKind} (h : Printable k) (hu : Parted u)
    (hopen : k = .identifier "\"" → closedText? u = none) :
    kinds (k.print.toList ++ u) = k :: kinds u := by
  cases h with
  | lineEnd =>
      have hlexeme : lexeme '\n' ([] ++ u) = (.lineEnd, 1) := rfl
      exact kinds_of_lexeme (skipLength_eq_zero rfl (by decide) _) hlexeme
  | number hn => exact kinds_number hn hu
  | @text content hfeed hquote =>
      have hprint : (TokenKind.text (String.ofList content)).print.toList =
          '"' :: (content ++ ['"']) := by
        simp [TokenKind.print, TokenKind.render]
      rw [hprint, kinds_text hfeed hquote]
  | openQuote => exact kinds_openQuote (hopen rfl)
  | keyword k => exact kinds_keyword k hu
  | builtin b => exact kinds_builtin b hu
  | symbol s => exact kinds_symbol s hu
  | @word word hne hword hkind =>
      have hprint : (TokenKind.identifier (String.ofList word)).print.toList = word :=
        String.toList_ofList
      rw [hprint, kinds_word hne hword hu, hkind]
  | @unknown c run hc hfeed hquote hword hsymbol hrun =>
      have hprint : (TokenKind.identifier (String.ofList (c :: run))).print.toList = c :: run :=
        String.toList_ofList
      rw [hprint, kinds_unknown hc hfeed hquote hword hsymbol hrun hu]

/-! ## Reading all prints -/

/-- The prints of some kinds, with a single space between neighbours. -/
def printed (ks : List TokenKind) : List Char :=
  [' '].intercalate (ks.map fun k => k.print.toList)

/-- What stands behind a print. -/
def following (ks : List TokenKind) : List Char :=
  if ks = [] then [] else ' ' :: printed ks

theorem printed_cons (k : TokenKind) (ks : List TokenKind) :
    printed (k :: ks) = k.print.toList ++ following ks := by
  cases ks with
  | nil => simp [printed, following]
  | cons l ls => simp [printed, following, List.intercalate_cons_cons]

theorem parted_following (ks : List TokenKind) : Parted (following ks) := by
  intro c hc
  by_cases hks : ks = []
  · simp [following, hks] at hc
  · rw [following, if_neg hks] at hc
    exact Or.inl (Option.some.inj hc).symm

theorem kinds_following (ks : List TokenKind) : kinds (following ks) = kinds (printed ks) := by
  by_cases hks : ks = []
  · rw [following, if_pos hks, hks]
    rfl
  · rw [following, if_neg hks, kinds_space]

theorem firstLine_append_of_not_mem {a : List Char} (h : '\n' ∉ a) (b : List Char) :
    firstLine (a ++ b) = a ++ firstLine b := by
  apply List.takeWhile_append_of_pos
  intro c hc
  simpa using ne_of_mem_of_not_mem hc h

theorem mem_firstLine_append {c : Char} {a b : List Char} (h : c ∈ firstLine (a ++ b)) :
    c ∈ a ∨ c ∈ firstLine b := by
  rw [firstLine, List.takeWhile_append] at h
  split at h
  · exact List.mem_append.mp h
  · exact Or.inl (List.takeWhile_subset _ h)

theorem quote_not_mem_print {k : TokenKind} {word : List Char} (h : Spells k word)
    (hword : '"' ∉ word) : '"' ∉ k.print.toList := by
  cases h with
  | @number n _ _ hdigits hvalue =>
      have hn : 0 ≤ n.val := hvalue ▸ Int.natCast_nonneg _
      intro hquote
      have hprint : (TokenKind.number n).print.toList = Nat.toDigits 10 n.val.toNat :=
        toList_render hn
      rw [hprint] at hquote
      have hdigit := Nat.isDigit_of_mem_toDigits (by decide) (by decide) hquote
      exact absurd hdigit (by decide)
  | text s => simp at hword
  | identifier x => exact hword
  | keyword k => exact hword
  | builtin b => exact hword
  | symbol s => exact hword
  | andMark | orMark | notMark => decide

theorem quote_not_mem_following {ks : List TokenKind} (h : '"' ∉ firstLine (printed ks)) :
    '"' ∉ firstLine (following ks) := by
  by_cases hks : ks = []
  · simp [following, hks, firstLine]
  · rw [following, if_neg hks]
    simpa [firstLine] using h

variable {cs : List Char} {ks tail : List TokenKind}

/-- A line without quotes is printed without quotes. -/
theorem Rounds.quote_not_mem (h : Rounds cs ks) (htail : tail = [] ∨ tail = [.fileEnd])
    (hcs : '"' ∉ firstLine cs) : '"' ∉ firstLine (printed (ks ++ tail)) := by
  induction h with
  | done _ => rcases htail with rfl | rfl <;> simp [printed, firstLine, TokenKind.print]
  | @round gap word rest k ks hgap hfront hk hrest ih =>
      rw [List.cons_append, printed_cons]
      cases hfront with
      | lineEnd t _ => simp [firstLine, TokenKind.print]
      | lexeme hspells hfound =>
          rw [firstLine_append_of_not_mem hgap, firstLine_append_of_not_mem hfound.feed_not_mem,
            List.mem_append, List.mem_append, not_or, not_or] at hcs
          intro hquote
          rcases mem_firstLine_append hquote with hprint | hfollowing
          · exact quote_not_mem_print hspells hcs.2.1 hprint
          · exact quote_not_mem_following (ih hcs.2.2) hfollowing

/-- A quote without a partner has no quote behind it. -/
theorem closedText?_of_front {word rest : List Char} (h : Front (.identifier "\"") word rest) :
    closedText? rest = none := by
  cases h with
  | lexeme hspells hfound =>
      cases hspells with
      | identifier _ =>
          generalize hword : "\"".toList = word at hfound
          cases hfound with
          | plain _ hplain => exact absurd rfl (hplain '"' (by simp [← hword])).2.2.1
          | slash => exact absurd hword (by decide)
          | closed _ _ => simp at hword
          | opened hopen => exact hopen

/-- The print of the kinds of a text has these kinds, whether the end of the file counts among the
neighbours or not. -/
theorem Rounds.kinds_printed (h : Rounds cs ks) (htail : tail = [] ∨ tail = [.fileEnd]) :
    kinds (printed (ks ++ tail)) = ks := by
  induction h with
  | done _ => rcases htail with rfl | rfl <;> simp [printed, TokenKind.print]
  | @round gap word rest k ks hgap hfront hk hrest ih =>
      have hopen : k = .identifier "\"" → closedText? (following (ks ++ tail)) = none := by
        rintro rfl
        rw [closedText?_eq_none_iff]
        apply quote_not_mem_following
        exact hrest.quote_not_mem htail
          ((closedText?_eq_none_iff rest).mp (closedText?_of_front hfront))
      rw [List.cons_append, printed_cons, hk.kinds_append (parted_following _) hopen,
        kinds_following, ih]

theorem toList_printTokens (tokens : List Token) :
    (printTokens tokens).toList = printed (tokens.map Token.kind) := by
  rw [printTokens, String.toList_intercalate, printed, List.map_map, List.map_map]
  rfl

end Lexer

/-- The tokens of a text are read back from their print: written one behind the other with a single
space between neighbours, they are read as tokens of the same kinds.  It does not matter whether the
end of the file, of which nothing is written, counts as a neighbour. -/
theorem tokenize_printTokens (text : String) :
    (tokenize (printTokens (tokenize text))).map Token.kind = (tokenize text).map Token.kind ∧
    (tokenize (printTokens (tokenize text).dropLast)).map Token.kind =
      (tokenize text).map Token.kind := by
  have hread : ∀ tail, tail = [] ∨ tail = [TokenKind.fileEnd] →
      Lexer.kinds (Lexer.printed (Lexer.kinds text.toList ++ tail)) = Lexer.kinds text.toList :=
    fun tail htail => (Lexer.rounds_kinds text.toList).kinds_printed htail
  constructor
  · rw [tokenize, Lexer.map_kind_eq_kinds, Lexer.toList_printTokens, tokenize,
      Lexer.map_kind_eq_kinds, hread _ (Or.inr rfl)]
  · rw [tokenize, Lexer.map_kind_eq_kinds, Lexer.toList_printTokens, tokenize,
      Lexer.map_kind_eq_kinds]
    have hread' := hread [] (Or.inl rfl)
    rw [List.append_nil] at hread'
    exact congrArg (· ++ [TokenKind.fileEnd]) hread'

example : printTokens (tokenize "x=007&&\"a b\" // c\n@\"") =
    "x = 7 and \"a b\" \n @ \" " := by decide +kernel

end KitchenScript
