import KitchenScript.Proofs.Program.Diagnostics
import KitchenScript.Proofs.Recovery.Lines
import KitchenScript.Proofs.Token.Seam
import Mathlib.Data.List.Induction

/-!
# Recovery from line to line

A text is read line by line, and a line without brackets gives a statement or one finding, as it
does alone.  After either of them reading goes on at the next line that has tokens.  So the findings
of a text without brackets are those of its lines, each on its line and in their order, as far as
findings are looked for; and a text whose lines all compile has one statement for each line that is
not blank.
-/

namespace KitchenScript

namespace Lexer

/-! ## The tokens of lines -/

theorem dropLast_tokensFrom_trimReturns (a : List Char) (p : Position) :
    (tokensFrom p (trimReturns a)).dropLast = (tokensFrom p a).dropLast := by
  induction a using List.reverseRecOn with
  | nil => rfl
  | append_singleton a x ih =>
      by_cases hx : x = '\r'
      · subst hx
        have htrim : trimReturns (a ++ ['\r']) = trimReturns a := by simp [trimReturns]
        rw [htrim, ih, dropLast_tokensFrom_return]
      · have htrim : trimReturns (a ++ [x]) = a ++ [x] := by simp [trimReturns, hx]
        rw [htrim]

theorem tokensFrom_feed {a : List Char} (ha : '\n' ∉ a) (b : List Char) (p : Position) :
    ∃ q : Position, q.line = p.line ∧ tokensFrom p (a ++ '\n' :: b) =
      (tokensFrom p a).dropLast ++ ⟨.lineEnd, .point q⟩ :: tokensFrom ⟨p.line + 1, 1⟩ b := by
  -- a carriage return in front of the line feed belongs to the line end and not to the line
  by_cases hlast : a.getLast? = some '\r'
  · rcases List.getLast?_eq_some_iff.mp hlast with ⟨init, rfl⟩
    have hinit : (p.past init).line = p.line := by
      rw [Position.past_of_not_mem fun h => ha (List.mem_append_left _ h)]
    refine ⟨p.past init, hinit, ?_⟩
    have happend := (seam_returnFeed init b).tokensFrom_append p
    have hend := tokensFrom_terminator .returnFeed b (p.past init)
    rw [hinit] at hend
    rw [dropLast_tokensFrom_return, ← hend, List.append_assoc]
    exact happend
  · have hline : (p.past a).line = p.line := by rw [Position.past_of_not_mem ha]
    refine ⟨p.past a, hline, ?_⟩
    have hend := tokensFrom_terminator .feed b (p.past a)
    rw [hline] at hend
    rw [← hend]
    exact (seam_feed hlast b).tokensFrom_append p

theorem not_endsLine_of_mem {a : List Char} (ha : '\n' ∉ a) {p : Position} {t : Token}
    (ht : t ∈ (tokensFrom p a).dropLast) : ¬ t.kind.EndsLine := by
  have hscan := scan_tokensFrom p a
  have hcount := hscan.countP_lineEnd
  rw [List.count_eq_zero.mpr ha, List.countP_eq_zero] at hcount
  rintro (hk | hk)
  · exact hcount t ((List.dropLast_sublist _).subset ht) (by simp [hk])
  · rcases hscan.exists_concat with ⟨init, hts, hinit⟩
    rw [hts, List.dropLast_concat] at ht
    exact hinit t ht hk

theorem line_of_mem {a : List Char} (ha : '\n' ∉ a) {p : Position} {t : Token}
    (ht : t ∈ tokensFrom p a) : t.span.first.line = p.line := by
  have hscan := scan_tokensFrom p a
  have hfirst := (hscan.le_first t ht).1
  have hline := hscan.line_le t ht
  rw [Position.le_iff] at hfirst
  rw [List.count_eq_zero.mpr ha] at hline
  omega

end Lexer

/-- The tokens of a line with a number, and the token that ends it. -/
structure LaidLine (n : Nat) (line : String) (w : List Token) (stop : Token) : Prop where
  kinds : w.map Token.kind = (tokenize line).dropLast.map Token.kind
  inside : ∀ t ∈ w, ¬ t.kind.EndsLine
  number : ∀ t ∈ w, t.span.first.line = n
  stop : stop.span.first.line = n

/-- The tokens of lines, of which the first has a number. -/
inductive Laid : Nat → List String → List Token → Prop where
  | last {n : Nat} {line : String} {w : List Token} {stop : Token}
      (hline : LaidLine n line w stop) (hstop : stop.kind = .fileEnd) : Laid n [line] (w ++ [stop])
  | next {n : Nat} {line : String} {lines : List String} {w ts : List Token} {stop : Token}
      (hline : LaidLine n line w stop) (hstop : stop.kind = .lineEnd)
      (hlines : Laid (n + 1) lines ts) : Laid n (line :: lines) (w ++ stop :: ts)

theorem laidLine_tokensFrom {a : List Char} (ha : '\n' ∉ a) (p : Position) {stop : Token}
    (hstop : stop.span.first.line = p.line) :
    LaidLine p.line (String.ofList (trimReturns a)) (Lexer.tokensFrom p a).dropLast stop where
  kinds := by
    rw [tokenize, String.toList_ofList, Lexer.dropLast_tokensFrom_trimReturns, List.map_dropLast,
      List.map_dropLast, Lexer.map_kind_tokensFrom p .start]
  inside _ ht := Lexer.not_endsLine_of_mem ha ht
  number _ ht := Lexer.line_of_mem ha ((List.dropLast_sublist _).subset ht)
  stop := hstop

theorem laid_tokensFrom (p : Position) (cs : List Char) :
    Laid p.line ((splitLines cs).map fun line => String.ofList (trimReturns line))
      (Lexer.tokensFrom p cs) := by
  -- by recursion on the text below the first line feed
  by_cases hfeed : '\n' ∈ cs
  · rcases List.eq_append_cons_of_mem hfeed with ⟨a, b, hcs, ha⟩
    have hshorter : b.length < cs.length := by
      rw [hcs, List.length_append, List.length_cons]
      omega
    rcases Lexer.tokensFrom_feed ha b p with ⟨q, hq, htokens⟩
    have hlines : splitLines (a ++ '\n' :: b) = a :: splitLines b := by
      have hsplit := Lexer.splitLines_terminator ha .feed b
      rwa [Lexer.returnsOf, List.append_nil] at hsplit
    rw [hcs, htokens, hlines, List.map_cons]
    exact .next (laidLine_tokensFrom ha p hq) rfl (laid_tokensFrom ⟨p.line + 1, 1⟩ b)
  · rw [Lexer.splitLines_of_not_mem hfeed, Lexer.tokensFrom_eq_concat]
    exact .last (laidLine_tokensFrom hfeed p (by rw [Position.past_of_not_mem hfeed]; rfl)) rfl
termination_by cs.length

/-! ## A line of a file -/

/-- What is reported of a line on its own. -/
def alone (line : String) : List Finding :=
  (Program.ofTokens (tokenize line)).2.take Diagnostics.capacity

def hasToken (line : String) : Bool :=
  (tokenize line).any fun t => t.kind != .fileEnd

/-- A line opens and closes nothing. -/
def IsFlat (line : String) : Prop :=
  ∀ t ∈ tokenize line, t.kind.isBracket = false

/-- The reader of statements outside of blocks. -/
abbrev topStatement : Parser Stmt :=
  Parser.statement false (Parser.block maxBlockDepth)

namespace Parser

theorem statements_of_fileEnd {inBlock : Bool} {stmt : Parser Stmt} {bound : List Token}
    {c : Cursor} (h : c.kind = .fileEnd) : statements inBlock stmt bound c = ([], c) := by
  cases bound with
  | nil => rfl
  | cons _ bound => rw [statements, if_pos (.inl h)]

theorem statements_of_isFull {inBlock : Bool} {stmt : Parser Stmt} {bound : List Token}
    {c : Cursor} (h : c.isFull = true) : statements inBlock stmt bound c = ([], c) := by
  cases bound with
  | nil => rfl
  | cons _ bound => rw [statements, if_pos (.inr (.inr h))]

theorem statements_of_flat {stmt : Parser Stmt} {t : Token} {bound : List Token} {c : Cursor}
    (h : c.kind.Flat) (hroom : c.isFull = false) :
    statements false stmt (t :: bound) c =
      ((stmt c).1.toList ++ (statements false stmt bound (resume (stmt c))).1,
        (statements false stmt bound (resume (stmt c))).2) := by
  have hends := not_endsStmt_of_flat h
  have hstop : ¬ (c.kind = .fileEnd ∨ (false = true ∧ c.kind = .symbol .rightBrace) ∨
      c.isFull = true) := by
    rintro (hk | ⟨hk, -⟩ | hk)
    · exact hends (.inr (.inl hk))
    · cases hk
    · rw [hroom] at hk
      cases hk
  rw [statements, if_neg hstop, if_neg fun hk => hends (.inr (.inr hk))]
  rcases stmt c with ⟨_ | s, d⟩ <;> rfl

end Parser

open KitchenScript.Parser

section Line

variable {n : Nat} {line : String} {w below : List Token} {stop : Token} {c : Cursor}

theorem exists_tokenize_eq (line : String) :
    ∃ stop, tokenize line = (tokenize line).dropLast ++ [stop] ∧ stop.kind = .fileEnd :=
  ⟨_, Lexer.tokensFrom_eq_concat _ _, rfl⟩

theorem LaidLine.flat (h : LaidLine n line w stop) (hline : IsFlat line) :
    ∀ t ∈ w, t.kind.Flat := by
  intro t ht
  refine ⟨h.inside t ht, ?_⟩
  have hmem : t.kind ∈ (tokenize line).dropLast.map Token.kind := h.kinds ▸ List.mem_map_of_mem ht
  rcases List.mem_map.mp hmem with ⟨u, hu, hkind⟩
  rw [← hkind]
  exact hline u ((List.dropLast_sublist _).subset hu)

/-- A cursor at the beginning of a line in its file, beside one at the beginning of the same line
alone. -/
theorem LaidLine.abreast (h : LaidLine n line w stop) (hline : IsFlat line)
    (hstop : stop.kind.EndsLine) (hc : c.rest = w ++ stop :: below) :
    ∃ q : Place, q.onward = [q.stop] ∧ q.stop.kind = .fileEnd ∧
      Abreast ⟨n, stop, below⟩ q w.length c (.ofTokens (tokenize line)) := by
  rcases exists_tokenize_eq line with ⟨stop', htokens, hstop'⟩
  refine ⟨⟨n, stop', []⟩, ?_, hstop', ⟨hstop, h.stop⟩, .inr hstop', w, (tokenize line).dropLast,
    hc, htokens, h.kinds, rfl, fun t ht => ⟨h.flat hline t ht, h.number t ht⟩⟩
  exact List.dropWhile_cons_of_neg (by simp [hstop'])

theorem LaidLine.hasToken_eq (h : LaidLine n line w stop) : hasToken line = !w.isEmpty := by
  rcases exists_tokenize_eq line with ⟨stop', htokens, hstop'⟩
  have hany : hasToken line =
      ((tokenize line).dropLast.map Token.kind).any fun k => k != .fileEnd := by
    rw [hasToken, htokens, List.any_append, List.dropLast_concat, List.any_map]
    simp [hstop', Function.comp_def]
  rw [hany, ← h.kinds]
  cases w with
  | nil => rfl
  | cons t w =>
      have hne : t.kind ≠ .fileEnd := fun hk => h.inside t List.mem_cons_self (.inr hk)
      simp [hne]

theorem LaidLine.alone_of_nil (h : LaidLine n line [] stop) : alone line = [] := by
  rcases exists_tokenize_eq line with ⟨stop', htokens, hstop'⟩
  have hnil : (tokenize line).dropLast = [] := List.map_eq_nil_iff.mp h.kinds.symm
  rw [hnil, List.nil_append] at htokens
  have hkind : (Cursor.ofTokens [stop']).kind = .fileEnd := hstop'
  have hskip : (Cursor.ofTokens [stop']).skipLineEnds = .ofTokens [stop'] :=
    Cursor.skipLineEnds_of_kind_ne (by simp [hkind])
  rw [alone, htokens, Program.ofTokens]
  simp only [hskip, statements_of_fileEnd hkind]
  rfl

theorem alone_of_flat {stop' : Token} (hflat : (Cursor.ofTokens (tokenize line)).kind.Flat)
    (hrest : (resume (topStatement (.ofTokens (tokenize line)))).rest = [stop'])
    (hstop : stop'.kind = .fileEnd) :
    alone line =
      (resume (topStatement (.ofTokens (tokenize line)))).findings.take Diagnostics.capacity := by
  have hskip : (Cursor.ofTokens (tokenize line)).skipLineEnds = .ofTokens (tokenize line) :=
    Cursor.skipLineEnds_of_kind_ne fun hk => hflat.inside (.inl hk)
  have hend : (resume (topStatement (.ofTokens (tokenize line)))).kind = .fileEnd := by
    rw [Cursor.kind, Cursor.peek, hrest]
    exact hstop
  rw [alone, Program.ofTokens]
  simp only [hskip]
  cases hbound : (Cursor.ofTokens (tokenize line)).rest with
  | nil => exact absurd hbound (Lexer.tokensFrom_ne_nil _ _)
  | cons t bound => rw [statements_of_flat hflat rfl, statements_of_fileEnd hend]

/-- A line with tokens is passed over in one round, with what is reported of the line alone. -/
theorem LaidLine.round (h : LaidLine n line w stop) (hline : IsFlat line)
    (hstop : stop.kind.EndsLine) (hw : w ≠ []) (hc : c.rest = w ++ stop :: below) :
    (resume (topStatement c)).rest = (stop :: below).dropWhile (fun t => t.kind == .lineEnd) ∧
      ((alone line = [] ∧ (topStatement c).1.isSome = true ∧
          (resume (topStatement c)).findings = c.findings) ∨
        ∃ f g, alone line = [g] ∧ f.problem.code = g.problem.code ∧ f.span.first.line = n ∧
          (resume (topStatement c)).findings = c.findings ++ [f]) := by
  rcases h.abreast hline hstop hc with ⟨q, honward, hend, habreast⟩
  obtain ⟨m, hm⟩ : ∃ m, w.length = m + 1 :=
    Nat.exists_eq_add_one_of_ne_zero (mt List.length_eq_zero_iff.mp hw)
  rw [hm] at habreast
  rcases habreast.step with ⟨hkind, hflat, -⟩
  have hresumes := resumes_statement (asksFor_block maxBlockDepth) habreast
  have halone : alone line = _ :=
    alone_of_flat (hkind ▸ hflat) (hresumes.rest'.trans honward) hend
  refine ⟨hresumes.rest, ?_⟩
  rcases hresumes.outcome with ⟨hsome, hfindings, hfindings'⟩ | ⟨f, g, hf, hg, hcode, hnumber⟩
  · left
    refine ⟨?_, hsome, hfindings⟩
    rw [halone, hfindings']
    rfl
  · right
    refine ⟨f, g, ?_, hcode, hnumber, hf⟩
    rw [halone, hg]
    rfl

/-- A statement starts with the token to come. -/
theorem first_of_topStatement {s : Stmt} (hordered : Ordered c.rest)
    (hs : (topStatement c).1 = some s)
    (hfindings : (resume (topStatement c)).findings = c.findings) :
    s.span.first = c.span.first := by
  have hread : Reading WritesLine c (topStatement c) := statement_block_reading false c
  generalize topStatement c = x at hread hs hfindings
  cases hread with
  | @read w fs d a h ha =>
      cases hs
      have hfs : fs = [] := by
        have hsame : (resume (some s, d)).findings = d.findings := d.findings_skipLineEnds
        rw [hsame, h.findings] at hfindings
        exact List.append_right_eq_self.mp hfindings
      rcases ha hfs with ⟨v, u, rfl, hv, -⟩
      have hrest : c.rest = v ++ (u ++ d.rest) := by rw [h.rest, List.append_assoc]
      rw [hrest] at hordered
      have hfirst := (hv hordered.left).covers.1
      cases v with
      | nil => cases hfirst
      | cons t v =>
          have hpeek : c.peek = t := by rw [Cursor.peek, hrest]; rfl
          rw [Cursor.span, hpeek]
          exact (Option.some.inj hfirst).symm
  | failed => cases hs

end Line

/-! ## All lines -/

/-- The lines of which something is reported alone, by their numbers, with the codes reported. -/
def expected (n : Nat) (lines : List String) : List (Nat × List Code) :=
  ((lines.zipIdx n).filter fun x => !(alone x.1).isEmpty).map fun x =>
    (x.2, (alone x.1).map fun f => f.problem.code)

/-- The numbers of the lines that are not blank. -/
def numbered (n : Nat) (lines : List String) : List Nat :=
  ((lines.zipIdx n).filter fun x => hasToken x.1).map Prod.snd

theorem expected_cons (n : Nat) (line : String) (lines : List String) :
    expected n (line :: lines) =
      (if (alone line).isEmpty then [] else [(n, (alone line).map fun f => f.problem.code)]) ++
        expected (n + 1) lines := by
  rw [expected, List.zipIdx_cons, List.filter_cons]
  by_cases h : (alone line).isEmpty = true
  · simp [h, expected]
  · simp [h, expected]

theorem numbered_cons (n : Nat) (line : String) (lines : List String) :
    numbered n (line :: lines) =
      (if hasToken line then [n] else []) ++ numbered (n + 1) lines := by
  rw [numbered, List.zipIdx_cons, List.filter_cons]
  by_cases h : hasToken line = true
  · simp [h, numbered]
  · simp [h, numbered]

/-- What reading lines from a cursor leads to. -/
structure ReadsLines (n : Nat) (lines : List String) (c : Cursor) (r : List Stmt × Cursor) :
    Prop where
  findings : ∃ news, r.2.findings = c.findings ++ news ∧
    news.map (fun f => (f.span.first.line, [f.problem.code])) =
      (expected n lines).take (Diagnostics.capacity - c.findings.length)
  stmts : expected n lines = [] → c.isFull = false →
    r.1.map (fun s => s.span.first.line) = numbered n lines

theorem readsLines_of_isFull {n : Nat} {lines : List String} {c : Cursor} (h : c.isFull = true) :
    ReadsLines n lines c ([], c) where
  findings := by
    have hfull : Diagnostics.capacity ≤ c.findings.length := by simpa [Cursor.isFull] using h
    refine ⟨[], (List.append_nil _).symm, ?_⟩
    rw [Nat.sub_eq_zero_of_le hfull]
    rfl
  stmts _ hroom := by
    rw [h] at hroom
    cases hroom

theorem readsLines_nil (n : Nat) (c : Cursor) : ReadsLines n [] c ([], c) where
  findings := ⟨[], (List.append_nil _).symm, by simp [expected]⟩
  stmts _ _ := rfl

section Step

variable {n : Nat} {line : String} {lines : List String} {w below : List Token} {stop : Token}
  {c : Cursor} {r : List Stmt × Cursor}

theorem LaidLine.reads_blank (h : LaidLine n line [] stop) (hr : ReadsLines (n + 1) lines c r) :
    ReadsLines n (line :: lines) c r := by
  have hexpected : expected n (line :: lines) = expected (n + 1) lines := by
    rw [expected_cons, h.alone_of_nil]
    rfl
  have hnumbered : numbered n (line :: lines) = numbered (n + 1) lines := by
    rw [numbered_cons, h.hasToken_eq]
    rfl
  exact ⟨by rw [hexpected]; exact hr.findings, by rw [hexpected, hnumbered]; exact hr.stmts⟩

/-- A line with a finding, before lines that are read. -/
theorem readsLines_of_finding {f g : Finding} {d : Cursor} (ss : List Stmt)
    (halone : alone line = [g]) (hcode : f.problem.code = g.problem.code)
    (hnumber : f.span.first.line = n) (hroom : c.isFull = false)
    (hd : d.findings = c.findings ++ [f]) (hr : ReadsLines (n + 1) lines d r) :
    ReadsLines n (line :: lines) c (ss ++ r.1, r.2) := by
  have hexpected : expected n (line :: lines) =
      (f.span.first.line, [f.problem.code]) :: expected (n + 1) lines := by
    rw [expected_cons, halone, hnumber, hcode]
    rfl
  have hcapacity : c.findings.length < Diagnostics.capacity := by
    simpa [Cursor.isFull] using hroom
  refine ⟨?_, fun hnil => ?_⟩
  · rcases hr.findings with ⟨rest, hrest, hplaces⟩
    have hleft : Diagnostics.capacity - c.findings.length =
        Diagnostics.capacity - d.findings.length + 1 := by
      rw [hd, List.length_append, List.length_singleton]
      omega
    refine ⟨f :: rest, ?_, ?_⟩
    · rw [hrest, hd, List.append_assoc]
      rfl
    · rw [hexpected, hleft, List.take_succ_cons, List.map_cons, hplaces]
  · rw [hexpected] at hnil
    cases hnil

/-- A line with a statement, before lines that are read. -/
theorem readsLines_of_stmt {s : Stmt} {d : Cursor} (halone : alone line = [])
    (htoken : hasToken line = true) (hs : s.span.first.line = n)
    (hd : d.findings = c.findings) (hr : ReadsLines (n + 1) lines d r) :
    ReadsLines n (line :: lines) c (s :: r.1, r.2) := by
  have hexpected : expected n (line :: lines) = expected (n + 1) lines := by
    rw [expected_cons, halone]
    rfl
  have hfindings := hr.findings
  have hstmts := hr.stmts
  rw [Cursor.isFull, hd] at hstmts
  rw [hd] at hfindings
  refine ⟨by rwa [hexpected], fun hnil hroom => ?_⟩
  rw [hexpected] at hnil
  rw [numbered_cons, if_pos htoken, List.map_cons, hs, hstmts hnil hroom]
  rfl

/-- One line with tokens, and then the lines below it. -/
theorem LaidLine.reads_line (h : LaidLine n line w stop) (hline : IsFlat line)
    (hstop : stop.kind.EndsLine) (hw : w ≠ []) (hc : c.rest = w ++ stop :: below)
    (hordered : Ordered c.rest) (hroom : c.isFull = false)
    (hr : ReadsLines (n + 1) lines (resume (topStatement c)) r) :
    ReadsLines n (line :: lines) c ((topStatement c).1.toList ++ r.1, r.2) := by
  rcases h.round hline hstop hw hc with
    ⟨-, ⟨halone, hsome, hfindings⟩ | ⟨f, g, halone, hcode, hnumber, hf⟩⟩
  · rcases Option.isSome_iff_exists.mp hsome with ⟨s, hs⟩
    have hfirst := first_of_topStatement hordered hs hfindings
    have hnumber : s.span.first.line = n := by
      cases w with
      | nil => exact absurd rfl hw
      | cons t w =>
          rw [hfirst, Cursor.span, Cursor.peek, hc]
          exact h.number t List.mem_cons_self
    have htoken : hasToken line = true := by
      rw [h.hasToken_eq]
      simpa using hw
    rw [hs]
    exact readsLines_of_stmt halone htoken hnumber hfindings hr
  · exact readsLines_of_finding _ halone hcode hnumber hroom hf hr

theorem LaidLine.reads (h : LaidLine n line w stop) (hline : IsFlat line)
    (hstop : stop.kind.EndsLine) (hordered : Ordered (w ++ stop :: below))
    (hlines : ∀ bound (c : Cursor), c.rest = (stop :: below).dropWhile (·.kind == .lineEnd) →
      c.rest.length ≤ bound.length →
        ReadsLines (n + 1) lines c (statements false topStatement bound c))
    (bound : List Token) (hc : c.rest = (w ++ stop :: below).dropWhile (·.kind == .lineEnd))
    (hbound : c.rest.length ≤ bound.length) :
    ReadsLines n (line :: lines) c (statements false topStatement bound c) := by
  cases hw : w with
  | nil =>
      subst hw
      exact h.reads_blank (hlines bound c hc hbound)
  | cons t rest =>
      have hflat := h.flat hline
      have hne : w ≠ [] := by rw [hw]; exact List.cons_ne_nil t rest
      have hrest : c.rest = w ++ stop :: below := by
        have hinside := (hflat t (hw ▸ List.mem_cons_self)).inside
        rw [hc, hw]
        exact List.dropWhile_cons_of_neg (by simpa using fun hk => hinside (.inl hk))
      have hkind : c.kind.Flat := by
        rw [Cursor.kind, Cursor.peek, hrest, hw]
        exact hflat t (hw ▸ List.mem_cons_self)
      by_cases hroom : c.isFull = true
      · rw [statements_of_isFull hroom]
        exact readsLines_of_isFull hroom
      · rw [Bool.not_eq_true] at hroom
        cases bound with
        | nil =>
            rw [hrest, hw] at hbound
            cases hbound
        | cons u bound =>
            -- the line takes a token at least, so one round less is enough for what is below it
            have hround := (h.round hline hstop hne hrest).1
            have hshorter : (resume (topStatement c)).rest.length ≤ bound.length := by
              have hdropped := (List.dropWhile_sublist (l := stop :: below)
                (fun t => t.kind == .lineEnd)).length_le
              rw [hrest, hw] at hbound
              rw [hround]
              simp only [List.length_append, List.length_cons] at hbound hdropped
              omega
            rw [statements_of_flat hkind hroom]
            exact h.reads_line hline hstop hne hrest (hrest ▸ hordered) hroom
              (hlines bound _ hround hshorter)

end Step

theorem Laid.reads {n : Nat} {lines : List String} {ts : List Token} (h : Laid n lines ts)
    (hflat : ∀ line ∈ lines, IsFlat line) (hordered : Ordered ts) (bound : List Token) (c : Cursor)
    (hc : c.rest = ts.dropWhile (·.kind == .lineEnd)) (hbound : c.rest.length ≤ bound.length) :
    ReadsLines n lines c (statements false topStatement bound c) := by
  induction h generalizing bound c with
  | @last n line w stop hline hstop =>
      refine hline.reads (hflat _ List.mem_cons_self) (.inr hstop) hordered ?_ bound hc hbound
      intro bound c hc hbound
      rw [List.dropWhile_cons_of_neg (by simp [hstop])] at hc
      have hkind : c.kind = .fileEnd := by
        rw [Cursor.kind, Cursor.peek, hc]
        exact hstop
      rw [statements_of_fileEnd hkind]
      exact readsLines_nil _ c
  | @next n line lines w ts stop hline hstop hlines ih =>
      refine hline.reads (hflat _ List.mem_cons_self) (.inl hstop) hordered ?_ bound hc hbound
      intro bound c hc hbound
      rw [List.dropWhile_cons_of_pos (by simp [hstop])] at hc
      exact ih (fun line hmem => hflat line (List.mem_cons_of_mem _ hmem))
        (hordered.sublist ((List.sublist_cons_self _ _).trans (List.sublist_append_right _ _)))
        bound c hc hbound

/-! ## Whole texts -/

theorem succeeded_eq_isEmpty_alone (name line : String) :
    (compile ⟨name, line⟩).succeeded = (alone line).isEmpty := by
  rw [Compiled.succeeded_eq, alone]
  cases (Program.ofTokens (tokenize line)).2 <;> rfl

theorem map_code_compile (name line : String) :
    (compile ⟨name, line⟩).diagnostics.errors.map Diagnostic.code =
      (alone line).map fun f => f.problem.code := by
  rw [diagnostics_compile, Diagnostics.ofList_eq, alone, ← List.map_take, List.map_map]
  rfl

section Source

variable {source : Source} (hflat : ∀ line ∈ source.lines, IsFlat line)
include hflat

theorem readsLines_source :
    ReadsLines 1 source.lines (Cursor.ofTokens (tokenize source.text)).skipLineEnds
      (statements false topStatement (Cursor.ofTokens (tokenize source.text)).skipLineEnds.rest
        (Cursor.ofTokens (tokenize source.text)).skipLineEnds) := by
  have hlaid : Laid 1 source.lines (tokenize source.text) :=
    laid_tokensFrom .start source.text.toList
  exact hlaid.reads hflat (ordered_tokenize source.text) _ _ (rest_skipLineEnds _) (Nat.le_refl _)

theorem map_findings_source :
    (Program.ofTokens (tokenize source.text)).2.map
        (fun f => (f.span.first.line, [f.problem.code])) =
      (expected 1 source.lines).take Diagnostics.capacity := by
  have hnone : (Cursor.ofTokens (tokenize source.text)).skipLineEnds.findings = [] :=
    Cursor.findings_skipLineEnds _
  rcases (readsLines_source hflat).findings with ⟨news, hnews, hplaces⟩
  rw [hnone, List.nil_append] at hnews
  rw [hnone] at hplaces
  rw [Program.ofTokens]
  simp only [hnews]
  exact hplaces

theorem map_stmts_source (hnone : expected 1 source.lines = []) :
    ∃ p, (compile source).program = some p ∧
      p.stmts.map (fun s => s.span.first.line) = numbered 1 source.lines := by
  have hfindings := map_findings_source hflat
  rw [hnone, List.take_nil, List.map_eq_nil_iff] at hfindings
  have hsucceeded : (compile source).succeeded = true := by
    rw [Compiled.succeeded_eq, hfindings]
    rfl
  rcases (Compiled.succeeded_iff source).mp hsucceeded with ⟨p, hp⟩
  refine ⟨p, hp, ?_⟩
  have hroom : (Cursor.ofTokens (tokenize source.text)).skipLineEnds.isFull = false := by
    rw [Cursor.isFull, Cursor.findings_skipLineEnds]
    rfl
  have hstmts := (readsLines_source hflat).stmts hnone hroom
  rw [program_compile, Program.ofTokens] at hp
  simp only at hp
  split at hp
  · cases hp
    exact hstmts
  · cases hp

end Source

/-- Recovery goes from line to line.  When every line of a text without brackets compiles alone, the
text has a statement for each line that is not blank.  Otherwise it has an error for each of the
first twenty lines that fail alone, in their order, on that line and of the code it has alone. -/
theorem recovery_is_line_local (source : Source)
    (hflat : ∀ line ∈ source.lines, ∀ t ∈ tokenize line, t.kind.isBracket = false) :
    let failing := (source.lines.zipIdx 1).filter fun x =>
      !(compile ⟨source.name, x.1⟩).succeeded
    let written := (source.lines.zipIdx 1).filter fun x =>
      (tokenize x.1).any fun t => t.kind != .fileEnd
    (failing = [] → ∃ p, (compile source).program = some p ∧
      p.stmts.map (fun s => s.span.first.line) = written.map Prod.snd) ∧
    (failing ≠ [] →
      (compile source).diagnostics.total = min failing.length 20 ∧
      (compile source).diagnostics.errors.map (fun d => (d.span.first.line, [d.code])) =
        (failing.take 20).map fun x =>
          (x.2, (compile ⟨source.name, x.1⟩).diagnostics.errors.map Diagnostic.code)) := by
  intro failing written
  have hexpected : failing.map (fun x =>
      (x.2, (compile ⟨source.name, x.1⟩).diagnostics.errors.map Diagnostic.code)) =
        expected 1 source.lines := by
    simp only [failing, expected, succeeded_eq_isEmpty_alone, map_code_compile]
  have hfindings := map_findings_source hflat
  refine ⟨fun hnone => ?_, fun _ => ⟨?_, ?_⟩⟩
  · rw [hnone] at hexpected
    exact map_stmts_source hflat hexpected.symm
  · have hlengths := congrArg List.length hfindings
    rw [List.length_map, List.length_take, ← hexpected, List.length_map] at hlengths
    rw [diagnostics_compile, Diagnostics.ofList_eq, List.length_map, hlengths, Nat.min_comm]
    rfl
  · rw [List.map_take, hexpected, diagnostics_compile, Diagnostics.ofList_eq, List.map_take,
      List.map_map]
    have hplaces : (Program.ofTokens (tokenize source.text)).2.map
        ((fun d : Diagnostic => (d.span.first.line, [d.code])) ∘ Finding.diagnose source) =
          (expected 1 source.lines).take Diagnostics.capacity := hfindings
    rw [hplaces, List.take_take, Nat.min_self]
    rfl

/-- Three bad lines of three kinds, among good and blank ones. -/
theorem recovery_is_line_local_mixed :
    let source : Source := ⟨"mixed.ks", "var x = 1\nvar = 2\n\nx = 3 4\r\nelse\nreturn - x"⟩
    let failing := [("var = 2", 2), ("x = 3 4", 4), ("else", 5)]
    (∀ line ∈ source.lines, ∀ t ∈ tokenize line, t.kind.isBracket = false) ∧
      (source.lines.zipIdx 1).filter (fun x => !(compile ⟨source.name, x.1⟩).succeeded) =
        failing ∧
      (compile source).diagnostics.total = min failing.length 20 ∧
      (compile source).diagnostics.errors.map (fun d => (d.span.first.line, [d.code])) =
        (failing.take 20).map fun x =>
          (x.2, (compile ⟨source.name, x.1⟩).diagnostics.errors.map Diagnostic.code) := by
  intro source failing
  have hflat : ∀ line ∈ source.lines, ∀ t ∈ tokenize line, t.kind.isBracket = false := by
    decide +kernel
  have hfailing : (source.lines.zipIdx 1).filter
      (fun x => !(compile ⟨source.name, x.1⟩).succeeded) = failing := by
    decide +kernel
  have hlocal := (recovery_is_line_local source hflat).2
  rw [hfailing] at hlocal
  exact ⟨hflat, hfailing, hlocal (List.cons_ne_nil _ _)⟩

end KitchenScript
