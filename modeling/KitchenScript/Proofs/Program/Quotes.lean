import KitchenScript.Proofs.Program.Accepted
import KitchenScript.Proofs.Token.Coverage

/-!
# Quotes without a partner

A quote that has no other behind it on its line is handed on as an identifier.  The grammar refuses
this identifier in expressions, as a variable and as the name of a call, but it looks at no name
that a statement binds.  So the quotes without a partner of a source that compiles are exactly the
quotes among the names that its program binds.
-/

namespace KitchenScript

/-- Does the line hold a quote, outside of its comment and behind the texts before it, that has no
other quote behind it? -/
def opensQuote (inText : Bool) : List Char → Bool
  | [] => false
  | c :: cs =>
    if inText then opensQuote (c != '"') cs
    else if c = '"' then !cs.contains '"' || opensQuote true cs
    else if c = '/' ∧ cs.head? = some '/' then false
    else opensQuote false cs

example : opensQuote false "f(\"a\", \") // b".toList = true := by decide

example : opensQuote false "f(\"a\") // \"b".toList = false := by decide

/-- The identifier that stands for a quote without a partner. -/
def TokenKind.openQuote : TokenKind :=
  .identifier "\""

/-- The lines of a text that have a quote without a partner. -/
def openQuotes (cs : List Char) : Nat :=
  (splitLines cs).countP (opensQuote false)

/-! ## Lines -/

theorem opensQuote_append_of_forall {a : List Char} (h : ∀ c ∈ a, c ≠ '"' ∧ c ≠ '/')
    (b : List Char) : opensQuote false (a ++ b) = opensQuote false b := by
  induction a with
  | nil => rfl
  | cons c cs ih =>
      obtain ⟨⟨hquote, hslash⟩, hcs⟩ := List.forall_mem_cons.mp h
      rw [List.cons_append, opensQuote, if_neg (by simp), if_neg hquote,
        if_neg fun hcomment => hslash hcomment.1, ih hcs]

theorem opensQuote_of_not_mem {line : List Char} (h : '"' ∉ line) :
    opensQuote false line = false := by
  induction line with
  | nil => rfl
  | cons c cs ih =>
      rw [List.mem_cons, not_or] at h
      rw [opensQuote, if_neg (by simp), if_neg (Ne.symm h.1), ih h.2]
      split <;> rfl

theorem opensQuote_text {content : List Char} (h : '"' ∉ content) (b : List Char) :
    opensQuote true (content ++ '"' :: b) = opensQuote false b := by
  induction content with
  | nil => simp [opensQuote]
  | cons c cs ih =>
      rw [List.mem_cons, not_or] at h
      have hc : (c != '"') = true := by
        simpa using Ne.symm h.1
      rw [List.cons_append, opensQuote, if_pos rfl, hc, ih h.2]

namespace Lexer

/-- A comment and what is skipped before it hold no quote without a partner. -/
theorem Gap.opensQuote {gap front : List Char} (h : Gap gap front) (after : List Char)
    (hafter : ∀ c ∈ after, isSkipped c = true) : opensQuote false (gap ++ after) = false := by
  induction h with
  | stop _ => exact opensQuote_of_not_mem fun hquote => (isSkipped_ne (hafter _ hquote)).1 rfl
  | @blank c gap _ hc _ ih =>
      have hne := isSkipped_ne hc
      rw [List.cons_append, KitchenScript.opensQuote, if_neg (by simp), if_neg hne.1,
        if_neg fun hcomment => hne.2 hcomment.1, ih]
  | comment _ _ => simp [KitchenScript.opensQuote]

theorem eq_openQuote_of_spells {kind : TokenKind} {word : List Char} (h : Spells kind word)
    (hword : word = ['"']) : kind = .openQuote := by
  cases h with
  | number _ hdigits _ =>
      have hquote := hdigits '"' (by simp [hword])
      exact absurd hquote (by decide)
  | text s => simp at hword
  | identifier x => exact congrArg TokenKind.identifier (String.toList_inj.mp hword)
  | keyword k => cases k <;> exact absurd hword (by decide)
  | builtin b => cases b <;> exact absurd hword (by decide)
  | symbol s => cases s <;> exact absurd hword (by decide)
  | andMark | orMark | notMark => exact absurd hword (by decide)

theorem ne_openQuote_of_spells {kind : TokenKind} {word : List Char} (h : Spells kind word)
    (hword : word ≠ ['"']) : kind ≠ .openQuote := by
  rintro rfl
  cases h
  exact hword rfl

/-- A lexeme opens a quote on its line just if it is one itself. -/
theorem opensQuote_found {kind : TokenKind} {word rest : List Char} (hspells : Spells kind word)
    (hfound : Found word rest) (hstops : Stops (word ++ rest)) :
    (opensQuote false (word ++ firstLine rest)).toNat =
      (opensQuote false (firstLine rest)).toNat + (kind == .openQuote).toNat := by
  have hother : word ≠ ['"'] →
      opensQuote false (word ++ firstLine rest) = opensQuote false (firstLine rest) →
      (opensQuote false (word ++ firstLine rest)).toNat =
        (opensQuote false (firstLine rest)).toNat + (kind == .openQuote).toNat := by
    intro hword hsame
    rw [hsame, beq_false_of_ne (ne_openQuote_of_spells hspells hword)]
    rfl
  cases hfound with
  | plain _ hall =>
      apply hother
      · rintro rfl
        exact (hall '"' (by simp)).2.2.1 rfl
      · exact opensQuote_append_of_forall (fun c hc => (hall c hc).2.2) _
  | slash =>
      have hnext := head?_firstLine_ne ((hstops _ _ rfl).2 rfl)
      apply hother (by decide)
      rw [List.singleton_append, opensQuote, if_neg (by simp), if_neg (by decide),
        if_neg fun hcomment => hnext hcomment.2]
  | @closed content _ _ hquote =>
      have hassoc : '"' :: (content ++ ['"']) ++ firstLine rest =
          '"' :: (content ++ '"' :: firstLine rest) := by
        simp
      apply hother (by simp)
      rw [hassoc, opensQuote, if_neg (by simp), if_pos rfl, opensQuote_text hquote]
      simp
  | opened hopen =>
      -- no quote stands behind this one, so the rest of the line opens none
      have hnone := (closedText?_eq_none_iff rest).mp hopen
      rw [eq_openQuote_of_spells hspells rfl, opensQuote_of_not_mem hnone, List.singleton_append,
        opensQuote, if_neg (by simp), if_pos rfl]
      simp [hnone]

theorem openQuotes_cons {cs line : List Char} {lines : List (List Char)}
    (h : splitLines cs = line :: lines) :
    openQuotes cs = (opensQuote false line).toNat + lines.countP (opensQuote false) := by
  rw [openQuotes, h, List.countP_cons, Nat.add_comm]
  cases opensQuote false line <;> rfl

/-- The lexer hands on one such identifier for each line that has a quote without a partner. -/
theorem Scan.countP_openQuote {p : Position} {cs : List Char} {ts : List Token}
    (h : Scan p cs ts) : ts.countP (fun t => t.kind == .openQuote) = openQuotes cs := by
  induction h with
  | @done p gap hgap =>
      have hline := hgap.opensQuote [] nofun
      rw [List.append_nil] at hline
      rw [openQuotes_cons (splitLines_of_not_mem hgap.feed_not_mem), hline]
      rfl
  | @lineEnd p gap rest ts t hgap _ ih =>
      have hline := hgap.opensQuote (returnsOf t) fun c hc => isSkipped_returnsOf hc
      rw [openQuotes_cons (splitLines_terminator hgap.feed_not_mem t rest), hline,
        List.countP_cons_of_neg (by simp [TokenKind.openQuote]), ih]
      exact (Nat.zero_add _).symm
  | @lexeme p gap word rest kind ts hgap hspells hfound _ ih =>
      obtain ⟨lines, hrest⟩ := exists_splitLines rest
      have hgapped : ∀ c ∈ gap, c ≠ '"' ∧ c ≠ '/' := fun c hc =>
        isSkipped_ne (hgap.isSkipped_of_mem (not_atLineEnd_of_found hfound) c hc)
      have hsplit : splitLines (gap ++ (word ++ rest)) =
          (gap ++ (word ++ firstLine rest)) :: lines :=
        splitLines_append hgap.feed_not_mem (splitLines_append hfound.feed_not_mem hrest)
      have hword := opensQuote_found hspells hfound hgap.stops
      rw [openQuotes_cons hsplit, opensQuote_append_of_forall hgapped, hword, List.countP_cons, ih,
        openQuotes_cons hrest]
      cases hkind : kind == .openQuote with
      | false =>
          simp
      | true =>
          simp
          omega

end Lexer

/-! ## Names that statements bind -/

namespace Stmt

/-- The names that a statement declares or assigns to, without those in its blocks. -/
def binds : Stmt → List String
  | var _ name _ => [name.name]
  | assign _ name _ => [name.name]
  | func _ name params _ => name.name :: params.map Ident.name
  | _ => []

theorem binds_bare (s : Stmt) : s.bare.binds = s.binds := by
  cases s with
  | func _ _ params _ => simp only [bare, binds, map_name_map_bare, Ident.bare]
  | _ => rfl

end Stmt

/-- All names that a program declares or assigns to, at every depth. -/
def Program.binds (p : Program) : List String :=
  p.stmtNodes.flatMap Stmt.binds

namespace TokenKind

@[simp] theorem identifier_beq_openQuote (x : String) :
    (identifier x == openQuote) = (x == "\"") := by
  rw [Bool.eq_iff_iff]
  simp [openQuote]

@[simp] theorem keyword_beq_openQuote (k : Keyword) : (keyword k == openQuote) = false := rfl

@[simp] theorem builtin_beq_openQuote (b : Builtin) : (builtin b == openQuote) = false := rfl

@[simp] theorem symbol_beq_openQuote (s : Symbol) : (symbol s == openQuote) = false := rfl

end TokenKind

namespace Grammar

open TokenKind (openQuote)

@[simp] theorem count_openQuote_lineEnds (n : Nat) : (lineEnds n).count openQuote = 0 := by
  simp [lineEnds, List.count_replicate, openQuote]

theorem Operator.beq_openQuote {L : Level} {k : TokenKind} {op : BinaryOp}
    (h : Operator L k op) : (k == openQuote) = false := by
  cases h <;> rfl

theorem Sign.beq_openQuote {k : TokenKind} {op : UnaryOp} (h : Sign k op) :
    (k == openQuote) = false := by
  cases h <;> rfl

mutual

/-- The grammar has no place for a quote in an expression. -/
theorem DerivesExpr.count_openQuote {L : Level} {w : List TokenKind} {e : Expr}
    (h : DerivesExpr L w e) : w.count openQuote = 0 := by
  match h with
  | .number _ | .text _ | .truth | .falsity | .nothing => rfl
  | .name hx => simp [List.count_cons, hx]
  | .call hx hinner => simp [List.count_cons, hx, hinner.count_openQuote]
  | .builtin hinner _ | .list hinner => simp [List.count_cons, hinner.count_openQuote]
  | .paren _ _ he => simp [List.count_cons, he.count_openQuote]
  | .index _ _ he hp => simp [List.count_cons, he.count_openQuote, hp.count_openQuote]
  | .sign hk he => simp [List.count_cons, hk.beq_openQuote, he.count_openQuote]
  | .chain _ ha hk hb | .join _ ha hk hb =>
      simp [List.count_cons, hk.beq_openQuote, ha.count_openQuote, hb.count_openQuote]
  | .ascend he => exact he.count_openQuote

theorem DerivesItems.count_openQuote {w : List TokenKind} {items : List Expr}
    (h : DerivesItems w items) : w.count openQuote = 0 := by
  match h with
  | .one _ _ he => simp [he.count_openQuote]
  | .more _ _ he hrest =>
      simp [List.count_cons, he.count_openQuote, hrest.count_openQuote]

theorem DerivesList.count_openQuote {w : List TokenKind} {items : List Expr}
    (h : DerivesList w items) : w.count openQuote = 0 := by
  match h with
  | .empty n => exact count_openQuote_lineEnds n
  | .items hitems => exact hitems.count_openQuote

end

theorem DerivesWhole.count_openQuote {w : List TokenKind} {e : Expr} (h : DerivesWhole w e) :
    w.count openQuote = 0 :=
  h.1.count_openQuote

theorem DerivesNames.count_openQuote {w : List TokenKind} {xs : List Ident}
    (h : DerivesNames w xs) : w.count openQuote = (xs.map Ident.name).count "\"" := by
  induction h with
  | one _ _ _ => simp [List.count_cons]
  | more _ _ _ _ ih => simp [List.count_cons, ih]

theorem DerivesParams.count_openQuote {w : List TokenKind} {xs : List Ident}
    (h : DerivesParams w xs) : w.count openQuote = (xs.map Ident.name).count "\"" := by
  cases h with
  | empty n => exact count_openQuote_lineEnds n
  | names h _ => exact h.count_openQuote

theorem DerivesSimple.count_openQuote {w : List TokenKind} {s : Stmt} (h : DerivesSimple w s) :
    w.count openQuote = (s.folded.nodes.flatMap Stmt.binds).count "\"" := by
  cases h with
  | var he | assign he | giveBack he =>
      simp [Stmt.folded, Stmt.nodes, Stmt.binds, List.count_cons, he.count_openQuote]
  | giveBackNothing => rfl
  | expr he => simp [Stmt.folded, Stmt.nodes, Stmt.binds, he.count_openQuote]

mutual

theorem DerivesCompound.count_openQuote {w : List TokenKind} {s : Stmt}
    (h : DerivesCompound w s) :
    w.count openQuote = (s.folded.nodes.flatMap Stmt.binds).count "\"" := by
  match h with
  | .func hparams hbody =>
      simp [Stmt.folded, Stmt.nodes, Stmt.binds, List.count_cons, hparams.count_openQuote,
        hbody.count_openQuote]
  | .choose hchoice =>
      simp [Stmt.folded, Stmt.nodes, Stmt.binds, List.count_cons, hchoice.count_openQuote]
  | .loop he hbody =>
      simp [Stmt.folded, Stmt.nodes, Stmt.binds, List.count_cons, he.count_openQuote,
        hbody.count_openQuote]

theorem DerivesChoice.count_openQuote {w : List TokenKind} {branches : Branches}
    (h : DerivesChoice w branches) :
    w.count openQuote =
      ((Stmt.nodesOfBranches (Stmt.foldedBranches branches)).flatMap Stmt.binds).count "\"" := by
  match h with
  | .done he hbody =>
      simp [Stmt.foldedBranches, Stmt.nodesOfBranches, he.count_openQuote, hbody.count_openQuote]
  | .otherwise _ he hbody hlast =>
      simp [Stmt.foldedBranches, Stmt.nodesOfBranches, List.count_cons, he.count_openQuote,
        hbody.count_openQuote, hlast.count_openQuote]
  | .again _ he hbody hrest =>
      simp [Stmt.foldedBranches, Stmt.nodesOfBranches, List.count_cons, he.count_openQuote,
        hbody.count_openQuote, hrest.count_openQuote]

theorem DerivesBlock.count_openQuote {w : List TokenKind} {body : Block}
    (h : DerivesBlock w body) :
    w.count openQuote =
      ((Stmt.nodesOfBlock (Stmt.foldedBlock body)).flatMap Stmt.binds).count "\"" := by
  match h with
  | .mk hbody =>
      simp [Stmt.foldedBlock, Stmt.nodesOfBlock, List.count_cons, hbody.count_openQuote]

/-- The quotes of a word are those among the names that its tree binds. -/
theorem DerivesBody.count_openQuote {w : List TokenKind} {stmts : List Stmt}
    (h : DerivesBody w stmts) :
    w.count openQuote =
      ((Stmt.nodesAll (Stmt.foldedAll stmts)).flatMap Stmt.binds).count "\"" := by
  match h with
  | .done n => exact count_openQuote_lineEnds n
  | .simple _ hs _ hrest | .compound _ hs hrest =>
      simp [Stmt.foldedAll, Stmt.nodesAll, hs.count_openQuote, hrest.count_openQuote]

end

end Grammar

/-! ## Sources -/

open TokenKind (openQuote)

theorem HasTree.count_binds {p : Program} {w : List TokenKind} {tree : List Stmt}
    (h : HasTree p w tree) : p.binds.count "\"" = w.count openQuote := by
  have hbinds : (Stmt.nodesAll (Stmt.bareAll p.stmts)).flatMap Stmt.binds = p.binds := by
    simp only [Stmt.nodesAll_bareAll, List.flatMap_map, Stmt.binds_bare]
    rfl
  rw [h.derives.1.count_openQuote, ← h.same, hbinds]

theorem countP_openQuote_compile (source : Source) :
    (compile source).tokens.countP (fun t => t.kind == openQuote) =
      openQuotes source.text.toList :=
  (Lexer.scan_tokensFrom .start source.text.toList).countP_openQuote

theorem Program.count_binds_of_compile {source : Source} {p : Program}
    (h : (compile source).program = some p) :
    p.binds.count "\"" = openQuotes source.text.toList := by
  obtain ⟨tokens, last, tree, htokens, hlast, htree⟩ := exists_hasTree h
  have hend : (last.kind == openQuote) = false := by
    rw [hlast]
    rfl
  calc
    p.binds.count "\"" = (tokens.map Token.kind).count openQuote := htree.count_binds
    _ = tokens.countP fun t => t.kind == openQuote := List.countP_map
    _ = (tokens ++ [last]).countP fun t => t.kind == openQuote := by
      rw [List.countP_append, List.countP_cons_of_neg (by simp [hend])]
      rfl
    _ = openQuotes source.text.toList := by
      rw [← htokens]
      exact countP_openQuote_compile source

/-- A quote without a partner is reported, except where it stands for a name that a statement
binds.  The lexer hands on one quote for each line that has one.  A source that compiles has a
program that binds as many of them as names of variables, functions or parameters, and any other
source has an error and no program. -/
theorem unmatched_quotes (source : Source) :
    (compile source).tokens.countP (fun t => t.kind == openQuote) =
        openQuotes source.text.toList ∧
      ((compile source).succeeded = false ∧ (compile source).program = none ∨
        ∃ p, (compile source).program = some p ∧
          p.binds.count "\"" = openQuotes source.text.toList) := by
  refine ⟨countP_openQuote_compile source, ?_⟩
  cases hprogram : (compile source).program with
  | some p => exact .inr ⟨p, rfl, Program.count_binds_of_compile hprogram⟩
  | none =>
      refine .inl ⟨?_, rfl⟩
      have hnone : ¬(compile source).succeeded = true := by
        rw [Compiled.succeeded_iff, hprogram]
        nofun
      simpa using hnone

/-- The name of a variable may be a quote without a partner. -/
theorem unmatched_quote_declared :
    let source : Source := ⟨"main.ks", "var \" = 5\n"⟩
    openQuotes source.text.toList = 1 ∧ (compile source).succeeded = true ∧
      (compile source).program.map Program.binds = some ["\""] := by
  decide +kernel

end KitchenScript
