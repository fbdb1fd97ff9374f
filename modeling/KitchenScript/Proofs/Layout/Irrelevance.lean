import KitchenScript.Proofs.Compiling
import KitchenScript.Proofs.Layout.Evaluation
import KitchenScript.Proofs.Layout.Reading
import KitchenScript.Puzzle.Submission

/-!
# Layout never matters

Two sources with the same kinds of tokens mean the same, whatever their blanks and comments, their
line ends and the spelling of their operators.  Both have the tokens of one blank text, and reading
follows the relayout to it; so they are read as the same program up to spans or with the same
complaints, their programs run alike, and their solutions are graded alike.
-/

namespace KitchenScript

/-- What a diagnostic says, without where it says it. -/
def Diagnostic.complaint (d : Diagnostic) : Code × String × Option String :=
  (d.code, d.message, d.suggestion)

namespace Program

/-- Tokens of the same kinds are read alike, up to spans. -/
theorem ofTokens_of_kinds_eq {tokens tokens' : List Token}
    (h : tokens.map Token.kind = tokens'.map Token.kind) :
    (ofTokens tokens).1.map bare = (ofTokens tokens').1.map bare ∧
      (ofTokens tokens).2.map Finding.problem = (ofTokens tokens').2.map Finding.problem := by
  have hblank : tokens.map (Token.respan .blank) = tokens'.map (Token.respan .blank) := by
    rw [Token.map_respan_blank, Token.map_respan_blank, h]
  have hbare : ∀ p : Program, p.bare = ⟨.blank, Stmt.respanAll .blank p.stmts⟩ := by
    intro p
    rw [bare, Stmt.respanAll_blank]
  have hleft := ofTokens_respan .blank tokens
  have hright := ofTokens_respan .blank tokens'
  rw [hblank] at hleft
  have hstmts := hleft.1.symm.trans hright.1
  constructor
  · have hmap := congrArg (Option.map (Program.mk .blank)) hstmts
    simpa only [Option.map_map, Function.comp_def, ← hbare] using hmap
  · exact hleft.2.symm.trans hright.2

end Program

section SameKinds

variable {a b : Source} (h : (tokenize a.text).map Token.kind = (tokenize b.text).map Token.kind)

include h

theorem program_of_kinds_eq :
    (compile a).program.map Program.bare = (compile b).program.map Program.bare :=
  (Program.ofTokens_of_kinds_eq h).1

theorem complaints_of_kinds_eq :
    (compile a).diagnostics.total = (compile b).diagnostics.total ∧
      (compile a).diagnostics.errors.map Diagnostic.complaint =
        (compile b).diagnostics.errors.map Diagnostic.complaint := by
  have hproblems := (Program.ofTokens_of_kinds_eq h).2
  have hlength := congrArg List.length hproblems
  have hcomplaints : ∀ source : Source,
      ((Program.ofTokens (tokenize source.text)).2.map (Finding.diagnose source)).map
          Diagnostic.complaint =
        ((Program.ofTokens (tokenize source.text)).2.map Finding.problem).map fun problem =>
          (problem.code, problem.message, problem.suggestion?) := by
    intro source
    rw [List.map_map, List.map_map]
    rfl
  simp only [List.length_map] at hlength
  rw [diagnostics_compile, diagnostics_compile, Diagnostics.ofList_eq, Diagnostics.ofList_eq]
  simp only [List.map_take, List.length_map, hcomplaints, hproblems, hlength, and_self]

theorem exists_program_of_kinds_eq {p : Program} (hp : (compile a).program = some p) :
    ∃ q, (compile b).program = some q ∧ p.bare = q.bare := by
  have hsame := program_of_kinds_eq h
  rw [hp, Option.map_some, eq_comm, Option.map_eq_some_iff] at hsame
  obtain ⟨q, hq, hbare⟩ := hsame
  exact ⟨q, hq, hbare.symm⟩

end SameKinds

/-! ## Violations -/

/-- A violation without the line at which it was noticed. -/
def Violation.unplaced : Violation → Violation
  | .compoundCondition _ => .compoundCondition 0
  | v => v

theorem Rule.check_plainConditions_unplaced (stations : List Station) (stats : Stats)
    (tokens : List Token) :
    (Rule.plainConditions.check stations stats tokens).map Violation.unplaced =
      if tokens.any Token.isConnective then [.compoundCondition 0] else [] := by
  rw [Rule.check, ← List.isSome_find?]
  cases tokens.find? Token.isConnective <;> rfl

theorem Token.any_isConnective_of_kinds_eq {tokens tokens' : List Token}
    (h : tokens.map Token.kind = tokens'.map Token.kind) :
    tokens.any isConnective = tokens'.any isConnective := by
  have hkinds : ∀ tokens : List Token, tokens.any isConnective =
      (tokens.map kind).any fun k => k == .keyword .andWord || k == .keyword .orWord := by
    intro tokens
    rw [List.any_map]
    rfl
  rw [hkinds, hkinds, h]

theorem Constraints.check_of_kinds_eq (c : Constraints) (stations : List Station) (stats : Stats)
    (log : List Entry) {tokens tokens' : List Token}
    (h : tokens.map Token.kind = tokens'.map Token.kind) :
    (c.check stations stats tokens log).map Violation.unplaced =
      (c.check stations stats tokens' log).map Violation.unplaced := by
  have hrule : ∀ rule : Rule, (rule.check stations stats tokens).map Violation.unplaced =
      (rule.check stations stats tokens').map Violation.unplaced := by
    intro rule
    cases rule with
    | plainConditions =>
        rw [Rule.check_plainConditions_unplaced, Rule.check_plainConditions_unplaced,
          Token.any_isConnective_of_kinds_eq h]
    | _ => rfl
  simp only [check, List.map_append]
  cases c.rule? with
  | none => rfl
  | some rule => simp only [hrule rule]

theorem Stats.ofProgram_of_bare_eq {p q : Program} (h : p.bare = q.bare) :
    Stats.ofProgram p = Stats.ofProgram q := by
  have hbare : ∀ p : Program, Stats.ofProgram p.bare = Stats.ofProgram p := by
    intro p
    simp only [ofProgram, Program.bare, ← Stmt.respanAll_blank, ofStmts_respan,
      Stmt.length_respanAll]
  rw [← hbare p, h, hbare q]

/-! ## Submissions -/

/-- A result without the lines at which violations were noticed. -/
def CaseResult.unplaced (r : CaseResult) : CaseResult :=
  { r with violations := r.violations.map Violation.unplaced }

/-- How a solution was graded, without the lines at which anything was noticed. -/
def Submission.grading (s : Submission) : Option Stats × List CaseResult :=
  (s.stats, s.cases.map CaseResult.unplaced)

theorem CaseResult.unplaced_grade {check check' : List Entry → List Violation}
    (h : ∀ log, (check log).map Violation.unplaced = (check' log).map Violation.unplaced)
    (r : CaseResult) : (r.grade check).unplaced = (r.grade check').unplaced := by
  unfold grade
  split
  · simp only [unplaced, h]
  · rfl

namespace Puzzle

theorem runCases_of_bare_eq (puzzle : Puzzle) {p q : Program} (h : p.bare = q.bare)
    (limits : Limits) (cases : List Nat) :
    puzzle.runCases p limits cases = puzzle.runCases q limits cases := by
  have hcase : ∀ index, puzzle.runCase p limits index = puzzle.runCase q limits index := by
    intro index
    simp only [runCase, Program.run_eq_of_bare_eq h]
  induction cases with
  | nil => rfl
  | cons index rest ih => rw [runCases, runCases, hcase, ih]

theorem submit_of_kinds_eq (puzzle : Puzzle) (limits : Limits) {a b : Source}
    (h : (tokenize a.text).map Token.kind = (tokenize b.text).map Token.kind) :
    (puzzle.submit a limits).map Submission.grading =
      (puzzle.submit b limits).map Submission.grading := by
  unfold submit
  cases hp : (compile a).program with
  | none =>
      have hnone := program_of_kinds_eq h
      rw [hp, Option.map_none, eq_comm, Option.map_eq_none_iff] at hnone
      simp only [hp, hnone]
      rfl
  | some p =>
      obtain ⟨q, hq, hbare⟩ := exists_program_of_kinds_eq h hp
      have hruns : puzzle.runAll p limits = puzzle.runAll q limits :=
        puzzle.runCases_of_bare_eq hbare limits _
      simp only [hp, hq, hruns, Stats.ofProgram_of_bare_eq hbare]
      cases puzzle.buildStations with
      | error e => rfl
      | ok stations =>
          cases puzzle.runAll q limits with
          | error e => rfl
          | ok results =>
              have hgraded := CaseResult.unplaced_grade fun log =>
                puzzle.constraints.check_of_kinds_eq stations (Stats.ofProgram q) log h
              change Except.ok (_, _) = Except.ok (_, _)
              rw [List.map_map, List.map_map]
              exact congrArg _ (congrArg _ (List.map_congr_left fun r _ => hgraded r))

end Puzzle

/-- Sources with the same kinds of tokens compile both or neither, with the same complaints; their
programs differ in spans only, have the same figures and run alike in every kitchen, and as
solutions of any puzzle they are graded alike, but for the line at which a combined condition is
noticed. -/
theorem layout_never_matters (a b : Source)
    (h : (tokenize a.text).map Token.kind = (tokenize b.text).map Token.kind) :
    (compile a).succeeded = (compile b).succeeded ∧
    (compile a).diagnostics.total = (compile b).diagnostics.total ∧
    (compile a).diagnostics.errors.map Diagnostic.complaint =
      (compile b).diagnostics.errors.map Diagnostic.complaint ∧
    ((compile a).succeeded = true →
      ∃ p q, (compile a).program = some p ∧ (compile b).program = some q ∧ p.bare = q.bare ∧
        (∃ stats, (compile a).stats = some stats ∧ (compile b).stats = some stats) ∧
        ∀ (limits : Limits) (k : Kitchen), p.run limits k = q.run limits k) ∧
    (∀ (c : Constraints) (stations : List Station) (stats : Stats) (log : List Entry),
      (c.check stations stats (compile a).tokens log).map Violation.unplaced =
        (c.check stations stats (compile b).tokens log).map Violation.unplaced) ∧
    ∀ (puzzle : Puzzle) (limits : Limits),
      (puzzle.submit a limits).map Submission.grading =
        (puzzle.submit b limits).map Submission.grading := by
  have hcomplaints := complaints_of_kinds_eq h
  have hsucceeded : (compile a).succeeded = (compile b).succeeded := by
    rw [Compiled.succeeded, Compiled.succeeded, Diagnostics.hasErrors, Diagnostics.hasErrors,
      hcomplaints.1]
  refine ⟨hsucceeded, hcomplaints.1, hcomplaints.2, ?_, ?_, ?_⟩
  · intro ha
    obtain ⟨p, hp⟩ := (Compiled.succeeded_iff a).mp ha
    obtain ⟨q, hq, hbare⟩ := exists_program_of_kinds_eq h hp
    refine ⟨p, q, hp, hq, hbare, ⟨Stats.ofProgram p, ?_, ?_⟩, ?_⟩
    · rw [stats_compile, hp, Option.map_some]
    · rw [stats_compile, hq, Option.map_some, Stats.ofProgram_of_bare_eq hbare]
    · exact Program.run_eq_of_bare_eq hbare
  · intro c stations stats log
    exact c.check_of_kinds_eq stations stats log h
  · intro puzzle limits
    exact puzzle.submit_of_kinds_eq limits h

theorem layout_never_matters_spelling :
    let a : Source := ⟨"a", "var t = true && false\r\n"⟩
    let b : Source := ⟨"b", "  var t=true and false // both\n"⟩
    (tokenize a.text).map Token.kind = (tokenize b.text).map Token.kind ∧
      (compile a).succeeded = true ∧
      ∃ p q, (compile a).program = some p ∧ (compile b).program = some q ∧ p.bare = q.bare ∧
        ∀ (limits : Limits) (k : Kitchen), p.run limits k = q.run limits k := by
  intro a b
  have hkinds : (tokenize a.text).map Token.kind = (tokenize b.text).map Token.kind := by
    decide +kernel
  have hsucceeded : (compile a).succeeded = true := by decide +kernel
  obtain ⟨p, q, hp, hq, hbare, -, hrun⟩ :=
    (layout_never_matters a b hkinds).2.2.2.1 hsucceeded
  exact ⟨hkinds, hsucceeded, p, q, hp, hq, hbare, hrun⟩

end KitchenScript
