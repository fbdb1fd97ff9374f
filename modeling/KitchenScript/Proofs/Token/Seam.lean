import KitchenScript.Proofs.Token.Scan

/-!
# Texts are read line by line

Reading looks ahead: for the closing quote of a text, the second mark of an operator, the rest of a
word or of a comment.  No look goes past a line end, so the tokens of two texts with a line end
between them are the tokens of the first, the line end, and the tokens of the second further down.
-/

namespace KitchenScript

/-- The position `k` lines further down. -/
def Position.down (k : Nat) (p : Position) : Position :=
  ⟨p.line + k, p.column⟩

def Span.down (k : Nat) (s : Span) : Span :=
  ⟨s.first.down k, s.last.down k⟩

def Token.down (k : Nat) (t : Token) : Token :=
  ⟨t.kind, t.span.down k⟩

namespace Lexer

/-! ## Where words and symbols end -/

/-- Nothing that begins with a space or a line end goes on with a word, a symbol or an unknown
run. -/
def Parted (u : List Char) : Prop :=
  ∀ c, u.head? = some c → c = ' ' ∨ c = '\r' ∨ c = '\n'

theorem pairKind?_eq_none {c d : Char} (h : d ≠ '=' ∧ d ≠ '&' ∧ d ≠ '|') :
    pairKind? c d = none := by
  unfold pairKind?
  split <;> simp_all

namespace Parted

variable {u : List Char}

theorem takeWhile_append (h : Parted u) (a : List Char) :
    (a ++ u).takeWhile isWordChar = a.takeWhile isWordChar := by
  induction a with
  | nil =>
      cases u with
      | nil => rfl
      | cons c rest => rcases h c rfl with rfl | rfl | rfl <;> rfl
  | cons c cs ih => simp only [List.cons_append, List.takeWhile_cons, ih]

theorem symbol?_append (h : Parted u) (c : Char) (a : List Char) :
    symbol? (c :: (a ++ u)) = symbol? (c :: a) := by
  cases a with
  | nil =>
      cases u with
      | nil => rfl
      | cons d rest => rcases h d rfl with rfl | rfl | rfl <;> simp [symbol?, pairKind?_eq_none]
  | cons d rest => rfl

theorem unknownRun_append (h : Parted u) (a : List Char) : unknownRun (a ++ u) = unknownRun a := by
  induction a with
  | nil =>
      cases u with
      | nil => rfl
      | cons c rest => rcases h c rfl with rfl | rfl | rfl <;> rfl
  | cons c cs ih =>
      have hends : endsUnknown (c :: (cs ++ u)) = endsUnknown (c :: cs) := by
        simp only [endsUnknown, h.symbol?_append]
      rw [List.cons_append, unknownRun, unknownRun, hends, ih]

end Parted

/-! ## Seams -/

/-- Behind `a` nothing is gained by looking into `u`: it begins with a carriage return or a line
feed, closes no text, and does not turn a carriage return at the end of `a` into a line end. -/
structure Seam (a u : List Char) : Prop where
  head : u.head? = some '\r' ∨ u.head? = some '\n'
  unclosed : closedText? u = none
  comment : commentLength u = skipLength u
  apart : a.getLast? = some '\r' → u.head? ≠ some '\n'

theorem seam_returnFeed (a b : List Char) : Seam a ('\r' :: '\n' :: b) where
  head := Or.inl rfl
  unclosed := rfl
  comment := rfl
  apart := by
    intro _ h
    cases h

theorem seam_feed {a : List Char} (h : a.getLast? ≠ some '\r') (b : List Char) :
    Seam a ('\n' :: b) where
  head := Or.inr rfl
  unclosed := rfl
  comment := rfl
  apart hlast := absurd hlast h

theorem seam_return (a : List Char) : Seam a ['\r'] where
  head := Or.inl rfl
  unclosed := rfl
  comment := rfl
  apart := by
    intro _ h
    cases h

section Seam

variable {a u : List Char}

theorem Seam.tail {c : Char} (h : Seam (c :: a) u) : Seam a u where
  head := h.head
  unclosed := h.unclosed
  comment := h.comment
  apart := by
    intro hlast
    apply h.apart
    rw [List.getLast?_cons, hlast]
    rfl

theorem Seam.parted (h : Seam a u) : Parted u := by
  intro c hc
  rcases h.head with hu | hu
  · rw [hc, Option.some.injEq] at hu
    exact Or.inr (Or.inl hu)
  · rw [hc, Option.some.injEq] at hu
    exact Or.inr (Or.inr hu)

theorem Seam.drop (h : Seam a u) (n : Nat) : Seam (a.drop n) u := by
  induction n generalizing a with
  | zero => exact h
  | succ n ih =>
      cases a with
      | nil => exact h
      | cons c cs => exact ih h.tail

theorem Seam.isLineEnd_iff {c : Char} (h : Seam (c :: a) u) :
    (c = '\r' ∧ (a ++ u).head? = some '\n') ↔ (c = '\r' ∧ a.head? = some '\n') := by
  cases a with
  | nil =>
      have hapart : c = '\r' → u.head? ≠ some '\n' := by
        intro hc
        exact h.apart (by rw [hc]; rfl)
      simp only [List.nil_append, List.head?_nil, reduceCtorEq, and_false, iff_false, not_and]
      exact hapart
  | cons d rest => rfl

theorem Seam.head?_append_iff (h : Seam a u) {d : Char} (hr : d ≠ '\r') (hn : d ≠ '\n') :
    (a ++ u).head? = some d ↔ a.head? = some d := by
  cases a with
  | nil =>
      rcases h.head with hu | hu
      · simp [hu, hr.symm]
      · simp [hu, hn.symm]
  | cons e rest => rfl

theorem Seam.commentLength_append (h : Seam a u) :
    commentLength (a ++ u) =
      if commentLength a = a.length then a.length + commentLength u else commentLength a := by
  induction a with
  | nil => simp [commentLength]
  | cons c cs ih =>
      rw [List.cons_append, commentLength_cons, commentLength_cons]
      simp only [h.isLineEnd_iff]
      by_cases hend : c = '\n' ∨ (c = '\r' ∧ cs.head? = some '\n')
      · simp [hend]
      · rw [if_neg hend, if_neg hend, ih h.tail, List.length_cons]
        by_cases hall : commentLength cs = cs.length
        · rw [if_pos hall, if_pos (by omega)]
          omega
        · rw [if_neg hall, if_neg (by omega)]

theorem Seam.skipLength_append (h : Seam a u) :
    skipLength (a ++ u) =
      if skipLength a = a.length then a.length + skipLength u else skipLength a := by
  induction a with
  | nil => simp [skipLength]
  | cons c cs ih =>
      rw [List.cons_append, skipLength_cons, skipLength_cons]
      simp only [h.isLineEnd_iff,
        h.tail.head?_append_iff (d := '/') (by decide) (by decide)]
      by_cases hreturn : c = '\r' ∧ cs.head? = some '\n'
      · simp [hreturn]
      rw [if_neg hreturn, if_neg hreturn]
      by_cases hslash : c = '/' ∧ cs.head? = some '/'
      · obtain ⟨rest, rfl⟩ := List.head?_eq_some_iff.mp hslash.2
        rw [if_pos hslash, if_pos hslash, List.cons_append, List.tail_cons, List.tail_cons,
          h.tail.tail.commentLength_append, h.comment]
        simp only [List.length_cons]
        by_cases hall : commentLength rest = rest.length
        · rw [if_pos hall, if_pos (by omega)]
          omega
        · rw [if_neg hall, if_neg (by omega)]
      rw [if_neg hslash, if_neg hslash]
      by_cases hc : isSkipped c
      · rw [if_pos hc, if_pos hc, ih h.tail, List.length_cons]
        by_cases hall : skipLength cs = cs.length
        · rw [if_pos hall, if_pos (by omega)]
          omega
        · rw [if_neg hall, if_neg (by omega)]
      · simp [hc]

theorem Seam.closedText?_append (h : Seam a u) : closedText? (a ++ u) = closedText? a := by
  induction a with
  | nil => exact h.unclosed
  | cons c cs ih => simp only [List.cons_append, closedText?, ih h.tail]

theorem Seam.lexeme_append (h : Seam a u) (c : Char) : lexeme c (a ++ u) = lexeme c a := by
  simp only [lexeme, h.closedText?_append, h.parted.takeWhile_append, h.parted.symbol?_append,
    h.parted.unknownRun_append]

end Seam

/-! ## Tokens across a seam -/

/-- Where everything is skipped, reading goes on behind it. -/
theorem tokensFrom_skip {gap u : List Char} (hfeed : '\n' ∉ gap)
    (h : skipLength (gap ++ u) = gap.length + skipLength u) (p : Position) :
    tokensFrom p (gap ++ u) = tokensFrom (p.past gap) u := by
  have hdrop : (gap ++ u).drop (skipLength (gap ++ u)) = u.drop (skipLength u) := by
    rw [h, List.drop_length_add_append]
  have hpast := Position.past_of_not_mem hfeed p
  cases hu : u.drop (skipLength u) with
  | nil =>
      rw [tokensFrom_of_drop_nil (hdrop.trans hu), tokensFrom_of_drop_nil hu, hpast, h,
        Nat.add_assoc]
  | cons c rest =>
      cases hlexeme : lexeme c rest with
      | mk kind length =>
          rw [tokensFrom_of_drop_cons (hdrop.trans hu) hlexeme, tokensFrom_of_drop_cons hu hlexeme,
            hpast, h, Nat.add_assoc]

theorem feed_not_mem_of_skipLength {cs : List Char} (h : skipLength cs = cs.length) :
    '\n' ∉ cs := by
  obtain ⟨gap, rest, rfl, hskip, hgap⟩ := exists_gap cs
  have hrest : rest = [] := by
    apply List.eq_nil_of_length_eq_zero
    rw [hskip, List.length_append] at h
    omega
  simpa [hrest] using hgap.feed_not_mem

/-- A text behind a seam is read as if it stood alone, from where the text before it ends. -/
theorem Seam.tokensFrom_append {a u : List Char} (h : Seam a u) (p : Position) :
    tokensFrom p (a ++ u) = (tokensFrom p a).dropLast ++ tokensFrom (p.past a) u := by
  induction p, a using tokensFrom.induct with
  | case1 p cs skipped hdrop =>
      have hall : skipLength cs = cs.length :=
        Nat.le_antisymm (skipLength_le cs) (List.drop_eq_nil_iff.mp hdrop)
      have hskip : skipLength (cs ++ u) = cs.length + skipLength u := by
        rw [h.skipLength_append, if_pos hall]
      rw [tokensFrom_skip (feed_not_mem_of_skipLength hall) hskip, tokensFrom_of_drop_nil hdrop]
      rfl
  | case2 p cs skipped q c tail hdrop kind length hlexeme ih =>
      obtain ⟨gap, word, rest, hcs, hgap, hfront, hskip, hlength, htail⟩ :=
        exists_round hdrop hlexeme
      have hpart : skipLength cs ≠ cs.length := by
        intro hall
        rw [show skipped = cs.length from hall, List.drop_length] at hdrop
        cases hdrop
      have hskip' : skipLength (cs ++ u) = skipLength cs := by
        rw [h.skipLength_append, if_neg hpart]
      have hdrop' : (cs ++ u).drop (skipLength (cs ++ u)) = c :: (tail ++ u) := by
        rw [hskip', List.drop_append_of_le_length (skipLength_le cs), hdrop, List.cons_append]
      have hseam : Seam tail u := by
        have hdropped := h.drop skipped
        rw [hdrop] at hdropped
        exact hdropped.tail
      have hlexeme' : lexeme c (tail ++ u) = (kind, length) := by
        rw [hseam.lexeme_append, hlexeme]
      have htail' : c :: (tail ++ u) = word ++ (rest ++ u) := by
        rw [← List.cons_append, htail, List.append_assoc]
      have hend : lexemeEnd q kind length = p.past (gap ++ word) := by
        rw [← lexemeEnd_of_front hgap hfront, hlength, ← hskip]
      have hrest : tail.drop (length - 1) = rest := by
        rw [hlength, drop_of_cons_eq htail hfront.ne_nil]
      have hih := ih (hseam.drop _)
      rw [hend, hrest, ← Position.past_append, List.append_assoc, ← hcs] at hih
      rw [tokensFrom_of_drop_cons hdrop' hlexeme', tokensFrom_of_drop_cons hdrop hlexeme, hskip',
        hlength, drop_of_cons_eq htail' hfront.ne_nil, drop_of_cons_eq htail hfront.ne_nil, hskip,
        lexemeEnd_of_front hgap hfront, hih, List.dropLast_cons_of_ne_nil (tokensFrom_ne_nil _ _),
        List.cons_append]

/-! ## Lines -/

/-- The lexer counts lines from wherever it starts. -/
theorem tokensFrom_down (k : Nat) (p : Position) (cs : List Char) :
    tokensFrom (p.down k) cs = (tokensFrom p cs).map (Token.down k) := by
  induction p, cs using tokensFrom.induct with
  | case1 p cs skipped h =>
      rw [tokensFrom_of_drop_nil h, tokensFrom_of_drop_nil h]
      rfl
  | case2 p cs skipped q c tail h kind length hlexeme ih =>
      have hspan : lexemeSpan (q.down k) kind length = (lexemeSpan q kind length).down k := by
        unfold lexemeSpan
        split <;> rfl
      have hend : lexemeEnd (q.down k) kind length = (lexemeEnd q kind length).down k := by
        unfold lexemeEnd
        split
        · simp only [Position.down, Position.mk.injEq, and_true]
          omega
        · rfl
      rw [tokensFrom_of_drop_cons h hlexeme, tokensFrom_of_drop_cons h hlexeme, List.map_cons,
        ← ih, ← hend]
      exact congrArg (fun span => (⟨kind, span⟩ : Token) :: _) hspan

theorem map_kind_tokensFrom (p q : Position) (cs : List Char) :
    (tokensFrom p cs).map Token.kind = (tokensFrom q cs).map Token.kind := by
  induction p, cs using tokensFrom.induct generalizing q with
  | case1 p cs skipped h =>
      rw [tokensFrom_of_drop_nil h, tokensFrom_of_drop_nil h]
      rfl
  | case2 p cs skipped r c tail h kind length hlexeme ih =>
      rw [tokensFrom_of_drop_cons h hlexeme, tokensFrom_of_drop_cons h hlexeme, List.map_cons,
        List.map_cons]
      exact congrArg (kind :: ·) (ih _)

/-- The kinds of the tokens of a text, without the end of the file. -/
def kinds (cs : List Char) : List TokenKind :=
  (tokensFrom .start cs).dropLast.map Token.kind

theorem map_kind_eq_kinds (p : Position) (cs : List Char) :
    (tokensFrom p cs).map Token.kind = kinds cs ++ [.fileEnd] := by
  rw [map_kind_tokensFrom p .start, tokensFrom_eq_concat, List.map_append]
  rfl

theorem kinds_eq_of_map_kind {p : Position} {cs : List Char} {ks : List TokenKind}
    (h : (tokensFrom p cs).map Token.kind = ks ++ [.fileEnd]) : kinds cs = ks := by
  rw [map_kind_eq_kinds] at h
  exact List.append_cancel_right h

theorem tokensFrom_terminator (t : Terminator) (b : List Char) (p : Position) :
    tokensFrom p (t.chars ++ b) = ⟨.lineEnd, .point p⟩ :: tokensFrom ⟨p.line + 1, 1⟩ b := by
  cases t with
  | feed =>
      have hdrop : ('\n' :: b).drop (skipLength ('\n' :: b)) = '\n' :: b := by
        simp [skipLength_cons, isSkipped]
      exact tokensFrom_of_drop_cons hdrop rfl p
  | returnFeed =>
      have hdrop : ('\r' :: '\n' :: b).drop (skipLength ('\r' :: '\n' :: b)) =
          '\r' :: '\n' :: b := rfl
      exact tokensFrom_of_drop_cons hdrop rfl p

theorem dropLast_tokensFrom_return (a : List Char) (p : Position) :
    (tokensFrom p (a ++ ['\r'])).dropLast = (tokensFrom p a).dropLast := by
  have hreturn : tokensFrom (p.past a) ['\r'] =
      [⟨.fileEnd, .point ⟨(p.past a).line, (p.past a).column + 1⟩⟩] :=
    tokensFrom_of_drop_nil rfl _
  rw [(seam_return a).tokensFrom_append, hreturn, List.dropLast_concat]

/-- The tokens of two texts with a line end between them.  Where a line feed follows a carriage
return, the two make one line end, which then starts before the end of the first text. -/
theorem tokensFrom_line (t : Terminator) (a b : List Char) (p : Position) :
    ∃ s, tokensFrom p (a ++ (t.chars ++ b)) =
        (tokensFrom p a).dropLast ++ ⟨.lineEnd, s⟩ :: tokensFrom ⟨(p.past a).line + 1, 1⟩ b ∧
      (t = .returnFeed → s = .point (p.past a)) := by
  cases t with
  | returnFeed =>
      refine ⟨.point (p.past a), ?_, fun _ => rfl⟩
      rw [← tokensFrom_terminator .returnFeed b]
      exact (seam_returnFeed a b).tokensFrom_append p
  | feed =>
      by_cases hlast : a.getLast? = some '\r'
      · obtain ⟨init, rfl⟩ := List.getLast?_eq_some_iff.mp hlast
        refine ⟨.point (p.past init), ?_, fun h => by cases h⟩
        have hline : (p.past (init ++ ['\r'])).line = (p.past init).line := by
          rw [Position.past_append]
          rfl
        rw [dropLast_tokensFrom_return, hline, List.append_assoc,
          ← tokensFrom_terminator .returnFeed b]
        exact (seam_returnFeed init b).tokensFrom_append p
      · refine ⟨.point (p.past a), ?_, fun h => by cases h⟩
        rw [← tokensFrom_terminator .feed b]
        exact (seam_feed hlast b).tokensFrom_append p

theorem map_kind_line (t : Terminator) (a b : List Char) (p : Position) :
    (tokensFrom p (a ++ (t.chars ++ b))).map Token.kind =
      ((tokensFrom p a).dropLast).map Token.kind ++
        .lineEnd :: (tokensFrom p b).map Token.kind := by
  obtain ⟨s, hs, -⟩ := tokensFrom_line t a b p
  rw [hs, List.map_append, List.map_cons, map_kind_tokensFrom _ p b]

/-- A text that begins on the line below another is read as it is alone, but further down. -/
theorem tokensFrom_below (a b : List Char) :
    tokensFrom ⟨(Position.start.past a).line + 1, 1⟩ b =
      (tokensFrom .start b).map (Token.down (1 + a.count '\n')) := by
  have hnext : (⟨(Position.start.past a).line + 1, 1⟩ : Position) =
      Position.start.down (1 + a.count '\n') := by
    simp only [Position.line_past, Position.down, Position.start, Position.mk.injEq, and_true]
    omega
  rw [hnext, tokensFrom_down]

/-! ## Other line ends -/

/-- The text with every line end in the form that is given for its own form. -/
def relined (form : Terminator → Terminator) : List Char → List Char
  | [] => []
  | '\r' :: '\n' :: cs => (form .returnFeed).chars ++ relined form cs
  | c :: cs => if c = '\n' then (form .feed).chars ++ relined form cs else c :: relined form cs

/-- A text is one line, or a first line with its line end and a rest. -/
theorem relined_cases (form : Terminator → Terminator) (cs : List Char) :
    relined form cs = cs ∨
      ∃ a t b, cs = a ++ (Terminator.chars t ++ b) ∧
        relined form cs = a ++ ((form t).chars ++ relined form b) := by
  fun_induction relined form cs with
  | case1 => exact Or.inl rfl
  | case2 cs => exact Or.inr ⟨[], .returnFeed, cs, rfl, rfl⟩
  | case3 cs => exact Or.inr ⟨[], .feed, cs, rfl, rfl⟩
  | case4 c cs _ hc ih =>
      rcases ih with hsame | ⟨a, t, b, hcs, hrelined⟩
      · exact Or.inl (congrArg (c :: ·) hsame)
      · exact Or.inr ⟨c :: a, t, b, congrArg (c :: ·) hcs, congrArg (c :: ·) hrelined⟩

theorem map_kind_relined (form : Terminator → Terminator) (p : Position) (cs : List Char) :
    (tokensFrom p (relined form cs)).map Token.kind = (tokensFrom p cs).map Token.kind := by
  rcases relined_cases form cs with hsame | ⟨a, t, b, hcs, hrelined⟩
  · rw [hsame]
  · have hshorter : b.length < cs.length := by
      rw [hcs]
      cases t <;> simp only [Terminator.chars, List.length_append, List.length_cons] <;> omega
    rw [hrelined, map_kind_line, map_kind_relined form p b, hcs, map_kind_line]
termination_by cs.length

end Lexer

/-- Texts are read line by line.  Behind a line end in its long form, which starts where the first
text ends, all tokens of the second text have moved down; with the short form the kinds are the
same.  So the forms of the line ends do not matter to the kinds. -/
theorem tokenize_line_by_line (a b : String) :
    (∃ init s, tokenize a = init ++ [⟨.fileEnd, s⟩] ∧
      tokenize (a ++ "\r\n" ++ b) = init ++ ⟨.lineEnd, s⟩ ::
        (tokenize b).map (Token.down (1 + a.toList.count '\n')) ∧
      (tokenize (a ++ "\n" ++ b)).map Token.kind =
        init.map Token.kind ++ .lineEnd :: (tokenize b).map Token.kind) ∧
    ∀ (form : Terminator → Terminator) (text : String),
      (tokenize (String.ofList (Lexer.relined form text.toList))).map Token.kind =
        (tokenize text).map Token.kind := by
  have hlong : (a ++ "\r\n" ++ b).toList =
      a.toList ++ (Terminator.returnFeed.chars ++ b.toList) := by
    simp [Terminator.chars]
  have hshort : (a ++ "\n" ++ b).toList = a.toList ++ (Terminator.feed.chars ++ b.toList) := by
    simp [Terminator.chars]
  constructor
  · refine ⟨(tokenize a).dropLast, .point (Position.start.past a.toList),
      Lexer.tokensFrom_eq_concat _ _, ?_, ?_⟩
    · obtain ⟨s, htokens, hspan⟩ :=
        Lexer.tokensFrom_line .returnFeed a.toList b.toList .start
      rw [tokenize, hlong, htokens, hspan rfl, Lexer.tokensFrom_below]
      rfl
    · rw [tokenize, hshort]
      exact Lexer.map_kind_line .feed a.toList b.toList .start
  · intro form text
    rw [tokenize, String.toList_ofList]
    exact Lexer.map_kind_relined form .start text.toList

end KitchenScript
