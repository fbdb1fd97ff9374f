import KitchenScript.Proofs.Kitchen.Conservation
import KitchenScript.Proofs.Program.Accepted
import KitchenScript.Proofs.Program.Figures
import KitchenScript.Proofs.Run.Verdict
import KitchenScript.Puzzle.Submission

/-!
# What is graded

A submission is solved when every case is, and a case is solved by the rules that the puzzle
declares: the deliveries of its own run, the nodes of the program, the entries of the log and the
modules of the layout.  Figures, tokens, built stations and violations are only the way to get there.

No case sees another one, since each is run in a kitchen that was set up for its own orders.
-/

namespace KitchenScript

/-! ## The modules of a layout -/

/-- A plan for a module that is not an empty bay. -/
def ModulePlan.isReal (plan : ModulePlan) : Bool :=
  plan.kind != "None"

def StationPlan.realModules (plan : StationPlan) : List ModulePlan :=
  plan.modules.filter ModulePlan.isReal

theorem ModuleKind.signature_of_ofSignature {name : String} {kind : ModuleKind}
    (h : ofSignature name = .ok kind) : kind.signature = name := by
  unfold ofSignature at h
  split at h
  · rename_i found hfound
    cases h
    have hsignature := List.find?_some hfound
    exact eq_of_beq hsignature
  · cases h

theorem ModuleKind.signature_eq_none_iff (kind : ModuleKind) :
    kind.signature = "None" ↔ kind = .none := by
  cases kind <;> decide

theorem ModulePlan.isReal_iff {plan : ModulePlan} {kind : ModuleKind}
    (h : ModuleKind.ofSignature plan.kind = .ok kind) : plan.isReal = true ↔ kind ≠ .none := by
  rw [isReal, bne_iff_ne, ← ModuleKind.signature_of_ofSignature h, ne_eq,
    ModuleKind.signature_eq_none_iff]

theorem ModulePlan.isReal_of_build {plan : ModulePlan} {station : String} {index : Nat}
    {m : Module} (h : plan.build station index = .ok m) : m.isReal = plan.isReal := by
  obtain ⟨kind, hkind, h⟩ := exists_of_bind_eq_ok h
  cases h
  rw [Bool.eq_iff_iff, isReal_iff hkind, Module.isReal, Module.fresh, bne_iff_ne]

namespace StationPlan

theorem countP_isReal_of_buildModules {station : String} {plans : List ModulePlan} {index : Nat}
    {modules : List Module} (h : buildModules station plans index = .ok modules) :
    modules.length = plans.length ∧
      modules.countP Module.isReal = plans.countP ModulePlan.isReal := by
  induction plans generalizing index modules with
  | nil =>
      cases h
      exact ⟨rfl, rfl⟩
  | cons plan plans ih =>
      obtain ⟨first, hfirst, h⟩ := exists_of_bind_eq_ok h
      obtain ⟨rest, hrest, h⟩ := exists_of_bind_eq_ok h
      cases h
      obtain ⟨hlength, hcount⟩ := ih hrest
      rw [List.length_cons, List.length_cons, List.countP_cons, List.countP_cons, hlength, hcount,
        ModulePlan.isReal_of_build hfirst]
      exact ⟨rfl, rfl⟩

/-- A station has the real modules of its plan, and at most as many as it has bays. -/
theorem length_realModules_of_build {plan : StationPlan} {s : Station} (h : plan.build = .ok s) :
    s.realModules.length = plan.realModules.length ∧ plan.realModules.length ≤ 3 := by
  obtain ⟨modules, hmodules, h⟩ := exists_of_bind_eq_ok h
  obtain ⟨hlength, hcount⟩ := countP_isReal_of_buildModules hmodules
  unfold Station.build at h
  split at h
  · cases h
  · rename_i hroom
    cases h
    simp only [Station.realModules, realModules, ← List.countP_eq_length_filter]
    constructor
    · have hpadding : ∀ name, (Module.fresh .none name false).isReal = false := fun _ => rfl
      rw [List.countP_append, List.countP_map, hcount]
      simp [Function.comp_def, hpadding]
    · have hle := plan.modules.countP_le_length (p := ModulePlan.isReal)
      have hbays : ¬3 < modules.length := hroom
      omega

theorem realModules_of_buildAll {plans : List StationPlan} {stations : List Station}
    (h : buildAll plans = .ok stations) :
    stations.map (fun s => s.realModules.length) =
        plans.map (fun plan => plan.realModules.length) ∧
      ∀ plan ∈ plans, plan.realModules.length ≤ 3 := by
  induction plans generalizing stations with
  | nil =>
      cases h
      exact ⟨rfl, nofun⟩
  | cons plan plans ih =>
      obtain ⟨first, hfirst, h⟩ := exists_of_bind_eq_ok h
      obtain ⟨rest, hrest, h⟩ := exists_of_bind_eq_ok h
      cases h
      obtain ⟨hsame, hroom⟩ := ih hrest
      obtain ⟨hcount, hbays⟩ := length_realModules_of_build hfirst
      rw [List.map_cons, List.map_cons, hsame, hcount]
      exact ⟨rfl, List.forall_mem_cons.mpr ⟨hbays, hroom⟩⟩

end StationPlan

/-! ## Violations -/

theorem overLimit_eq_nil_iff {limit found : Nat} {violation : Nat → Nat → Violation} :
    overLimit limit found violation = [] ↔ found ≤ limit := by
  unfold overLimit
  split
  · simp only [List.cons_ne_nil, false_iff]
    omega
  · simp only [true_iff]
    omega

theorem overOptionalLimit_eq_nil_iff {limit : Number} {found : Nat}
    {violation : Nat → Nat → Violation} :
    overOptionalLimit limit found violation = [] ↔ (0 ≤ limit.val → (found : Int) ≤ limit.val) := by
  unfold overOptionalLimit Number.toCount?
  by_cases hlimit : 0 ≤ limit.val
  · simp only [if_pos hlimit, overLimit_eq_nil_iff]
    omega
  · simp [hlimit]

/-! ## The rules of a puzzle -/

namespace Rule

/-- The name by which a puzzle sets the rule. -/
def name : Rule → String
  | fewModules => "LessModules"
  | airyStations => "IndustrialKitchen"
  | fewParams => "LessParams"
  | shortFunctions => "maxFiveLinesPerMethodMaxSevenMethods"
  | plainConditions => "maxOneIfComparison"

theorem ofName?_eq_some_iff {text : String} {rule : Rule} :
    ofName? text = some rule ↔ text = rule.name := by
  constructor
  · intro h
    unfold ofName? at h
    split at h <;> cases h <;> rfl
  · rintro rfl
    cases rule <;> rfl

/-- What a rule asks of a layout and a program. -/
def Holds (plans : List StationPlan) (p : Program) : Rule → Prop
  | fewModules => (plans.flatMap StationPlan.realModules).length ≤ 3
  | airyStations => ∀ plan ∈ plans, plan.realModules.length ≠ 3
  | fewParams => ∀ d ∈ p.declarations, d.1.length ≤ 3
  | shortFunctions =>
    (6 ≤ p.declarations.length ∧ p.declarations.length ≤ 7) ∧
      ∀ d ∈ p.declarations, (Stmt.nodesOfBlock d.2).length ≤ 5
  | plainConditions => ∀ e ∈ p.exprNodes, e.isConnective = false

theorem check_eq_nil_iff {plans : List StationPlan} {stations : List Station} {source : Source}
    {p : Program} (hstations : StationPlan.buildAll plans = .ok stations)
    (hp : (compile source).program = some p) (rule : Rule) :
    rule.check stations (Stats.ofProgram p) (compile source).tokens = [] ↔ rule.Holds plans p := by
  obtain ⟨hreal, hbays⟩ := StationPlan.realModules_of_buildAll hstations
  rw [Stats.ofProgram_eq]
  cases rule with
  | fewModules =>
      rw [check, overLimit_eq_nil_iff, List.length_flatMap, hreal, Holds, List.length_flatMap]
      rfl
  | airyStations =>
      have hcounts : (∀ s ∈ stations, s.realModules.length ≤ maxModulesPerStation) ↔
          ∀ plan ∈ plans, plan.realModules.length ≤ maxModulesPerStation := by
        rw [← List.forall_mem_map (P := (· ≤ maxModulesPerStation)), hreal, List.forall_mem_map]
      simp only [check, List.flatMap_eq_nil_iff, overLimit_eq_nil_iff, hcounts, Holds]
      -- a station has three bays, so it is over two exactly when it is full
      refine forall₂_congr fun plan hplan => ?_
      have hle := hbays plan hplan
      have hmost : maxModulesPerStation = 2 := rfl
      omega
  | fewParams =>
      rw [check, overLimit_eq_nil_iff, Stats.ofNodes, largest_le_iff, List.forall_mem_map]
      rfl
  | shortFunctions =>
      rw [check, List.append_eq_nil_iff, overLimit_eq_nil_iff, Stats.ofNodes, largest_le_iff,
        List.forall_mem_map, ite_eq_left_iff]
      simp only [List.cons_ne_nil, imp_false, not_not]
      rfl
  | plainConditions =>
      have hfind : check stations (Stats.ofProgram p) (compile source).tokens plainConditions = [] ↔
          (compile source).tokens.find? Token.isConnective = none := by
        unfold check
        cases (compile source).tokens.find? Token.isConnective <;> simp
      rw [← Stats.ofProgram_eq, hfind, List.find?_eq_none, ← List.countP_eq_zero,
        ← Program.countP_isConnective_of_compile hp, List.countP_eq_zero]
      simp only [Bool.not_eq_true]
      rfl

end Rule

namespace Puzzle

/-- A run that delivers the orders, with all that the puzzle asks of a solution. -/
structure Meets (puzzle : Puzzle) (p : Program) (orders : List String) (run : Run) : Prop where
  completed : ∀ fault, run.report.outcome ≠ .aborted fault
  delivered : run.kitchen.delivered = orders.map Food.mk
  statements : 0 ≤ puzzle.constraints.maxStatements.val →
    (p.stmtNodes.length : Int) ≤ puzzle.constraints.maxStatements.val
  actions : 0 ≤ puzzle.constraints.maxActions.val →
    ((run.report.log.filter fun entry => !entry.action.isTerminal).length : Int) ≤
      puzzle.constraints.maxActions.val
  additional : ∀ rule : Rule, puzzle.constraints.additional = rule.name →
    rule.Holds puzzle.stations p

theorem buildAll_of_buildStations {puzzle : Puzzle} {stations : List Station}
    (h : puzzle.buildStations = .ok stations) :
    StationPlan.buildAll puzzle.stations = .ok stations := by
  unfold buildStations at h
  dsimp only at h
  split at h
  · cases h
  · exact inLayout_eq_ok h

variable {puzzle : Puzzle} {source : Source} {limits : Limits} {p : Program}

theorem check_eq_nil_iff {stations : List Station} (hstations : puzzle.buildStations = .ok stations)
    (hp : (compile source).program = some p) (log : List Entry) :
    puzzle.constraints.check stations (Stats.ofProgram p) (compile source).tokens log = [] ↔
      (0 ≤ puzzle.constraints.maxStatements.val →
        (p.stmtNodes.length : Int) ≤ puzzle.constraints.maxStatements.val) ∧
      (0 ≤ puzzle.constraints.maxActions.val →
        ((log.filter fun entry => !entry.action.isTerminal).length : Int) ≤
          puzzle.constraints.maxActions.val) ∧
      ∀ rule : Rule, puzzle.constraints.additional = rule.name → rule.Holds puzzle.stations p := by
  have hstatements : (Stats.ofProgram p).statements = p.stmtNodes.length := by
    rw [Stats.ofProgram_eq]
    rfl
  have hcheck := Rule.check_eq_nil_iff (buildAll_of_buildStations hstations) hp
  rw [Constraints.check, List.append_eq_nil_iff, List.append_eq_nil_iff,
    overOptionalLimit_eq_nil_iff, overOptionalLimit_eq_nil_iff, hstatements, actionCount,
    List.countP_eq_length_filter, and_assoc]
  refine and_congr_right fun _ => and_congr_right fun _ => ?_
  simp only [← Rule.ofName?_eq_some_iff, ← hcheck, Constraints.rule?]
  cases Rule.ofName? puzzle.constraints.additional with
  | none => simp
  | some rule => simp

end Puzzle

/-! ## Cases -/

namespace CaseResult

theorem report_grade (check : List Entry → List Violation) (r : CaseResult) :
    (r.grade check).report = r.report ∧ (r.grade check).index = r.index ∧
      (r.grade check).orders = r.orders := by
  unfold grade
  split <;> exact ⟨rfl, rfl, rfl⟩

theorem status_grade_eq_passed_iff {check : List Entry → List Violation} {r : CaseResult} :
    (r.grade check).status = .passed ↔
      r.report.outcome = .success ∧ check r.report.log = [] := by
  unfold grade Report.succeeded status
  cases houtcome : r.report.outcome with
  | success => simp [houtcome]
  | failure | aborted _ => simp [houtcome]

end CaseResult

theorem Program.success_iff (limits : Limits) (k : Kitchen) (p : Program) :
    (p.run limits k).report.outcome = .success ↔
      (∀ fault, (p.run limits k).report.outcome ≠ .aborted fault) ∧
        (p.run limits k).kitchen.delivered = (p.run limits k).kitchen.required := by
  cases p.judged_run limits k with
  | aborted houtcome _ => simp [houtcome]
  | success houtcome hdelivered _ _ _ => simp [houtcome, hdelivered]
  | failure houtcome hdelivered _ _ _ => simp [houtcome, hdelivered]

namespace Puzzle

variable {puzzle : Puzzle} {source : Source} {limits : Limits} {p : Program}

/-- A kitchen as it is set up for some orders, with the layout and the pantry of the puzzle. -/
def FreshKitchen (puzzle : Puzzle) (orders : List String) (k : Kitchen) : Prop :=
  ∃ stations, puzzle.buildStations = .ok stations ∧
    Kitchen.build stations (.ofItems (puzzle.starterPantry.map Food.mk)) (orders.map Food.mk) =
      .ok k

theorem freshKitchen_of_kitchenFor {index : Nat} {k : Kitchen}
    (h : puzzle.kitchenFor index = .ok k) :
    ∃ orders, puzzle.testCases[index]? = some orders ∧ puzzle.FreshKitchen orders k := by
  unfold kitchenFor at h
  cases horders : puzzle.testCases[index]? with
  | none =>
      rw [horders] at h
      cases h
  | some orders =>
      rw [horders] at h
      obtain ⟨stations, hstations, hbuild⟩ := exists_of_bind_eq_ok h
      exact ⟨orders, rfl, stations, hstations, inLayout_eq_ok hbuild⟩

theorem FreshKitchen.unique {orders : List String} {k k' : Kitchen}
    (h : puzzle.FreshKitchen orders k) (h' : puzzle.FreshKitchen orders k') : k = k' := by
  obtain ⟨stations, hstations, hbuild⟩ := h
  obtain ⟨stations', hstations', hbuild'⟩ := h'
  rw [hstations] at hstations'
  cases hstations'
  rw [hbuild] at hbuild'
  exact Except.ok.inj hbuild'

theorem FreshKitchen.required_run {orders : List String} {k : Kitchen}
    (h : puzzle.FreshKitchen orders k) (limits : Limits) (p : Program) :
    (p.run limits k).kitchen.required = orders.map Food.mk := by
  obtain ⟨stations, hstations, hbuild⟩ := h
  have hfresh : k.IsFresh := ⟨stations, _, _, isFresh_of_buildStations hstations, hbuild⟩
  have hrequired : k.required = orders.map Food.mk := by
    obtain ⟨-, rfl⟩ := Kitchen.build_eq_ok_iff.mp hbuild
    rfl
  rw [(Program.supplies_run hfresh.wellFormed limits p).continues.required, hrequired]

theorem exists_of_runCase {index : Nat} {r : CaseResult}
    (h : puzzle.runCase p limits index = .ok r) :
    ∃ orders k, puzzle.testCases[index]? = some orders ∧ puzzle.FreshKitchen orders k ∧
      r = ⟨index, orders, (p.run limits k).report, []⟩ := by
  obtain ⟨k, hk, h⟩ := exists_of_bind_eq_ok h
  obtain ⟨orders, horders, hfresh⟩ := freshKitchen_of_kitchenFor hk
  cases h
  exact ⟨orders, k, horders, hfresh, by rw [horders, Option.getD_some]⟩

theorem getElem?_of_runCases {indices : List Nat} {results : List CaseResult}
    (h : puzzle.runCases p limits indices = .ok results) :
    results.length = indices.length ∧
      ∀ (j i : Nat), indices[j]? = some i →
        ∃ r, results[j]? = some r ∧ puzzle.runCase p limits i = .ok r := by
  induction indices generalizing results with
  | nil =>
      cases h
      exact ⟨rfl, by simp⟩
  | cons i indices ih =>
      obtain ⟨first, hfirst, h⟩ := exists_of_bind_eq_ok h
      obtain ⟨rest, hrest, h⟩ := exists_of_bind_eq_ok h
      cases h
      obtain ⟨hlength, hcases⟩ := ih hrest
      refine ⟨congrArg (· + 1) hlength, fun j i' hj => ?_⟩
      cases j with
      | zero =>
          cases hj
          exact ⟨first, rfl, hfirst⟩
      | succ j => exact hcases j i' hj

/-! ## Submissions -/

variable {s : Submission}

theorem submit_cases (h : puzzle.submit source limits = .ok s) :
    s.diagnostics = (compile source).diagnostics ∧
      ((compile source).program = none ∧ s.cases = [] ∨
        ∃ p stations results, (compile source).program = some p ∧
          puzzle.buildStations = .ok stations ∧ puzzle.runAll p limits = .ok results ∧
          s.cases = results.map (CaseResult.grade (puzzle.constraints.check stations
            (Stats.ofProgram p) (compile source).tokens))) := by
  unfold submit at h
  dsimp only at h
  split at h
  · rename_i hnone
    cases h
    exact ⟨rfl, .inl ⟨hnone, rfl⟩⟩
  · rename_i p hp
    obtain ⟨stations, hstations, h⟩ := exists_of_bind_eq_ok h
    obtain ⟨results, hresults, h⟩ := exists_of_bind_eq_ok h
    cases h
    exact ⟨rfl, .inr ⟨p, stations, results, hp, hstations, hresults, rfl⟩⟩

/-- The case with a number, its report, and what it takes to pass it. -/
theorem exists_case (h : puzzle.submit source limits = .ok s)
    (hp : (compile source).program = some p) {i : Nat} {orders : List String}
    (horders : puzzle.testCases[i]? = some orders) :
    ∃ r k, s.cases[i]? = some r ∧ r.index = i ∧ r.orders = orders ∧
      puzzle.FreshKitchen orders k ∧ r.report = (p.run limits k).report ∧
      (r.status = .passed ↔ puzzle.Meets p orders (p.run limits k)) := by
  rcases (submit_cases h).2 with ⟨hnone, -⟩ | ⟨q, stations, results, hq, hstations, hresults, hcases⟩
  · rw [hp] at hnone
    cases hnone
  rw [hp, Option.some.injEq] at hq
  subst hq
  -- the cases are run in the order of their numbers, so the result in a place is the one with it
  have hi : i < puzzle.testCases.length := (List.getElem?_eq_some_iff.mp horders).1
  have hindex : (List.range puzzle.testCases.length)[i]? = some i := List.getElem?_range hi
  obtain ⟨r, hr, hrun⟩ := (getElem?_of_runCases hresults).2 i i hindex
  obtain ⟨orders', k, horders', hk, rfl⟩ := exists_of_runCase hrun
  rw [horders, Option.some.injEq] at horders'
  subst horders'
  refine ⟨_, k, by rw [hcases, List.getElem?_map, hr, Option.map_some], ?_, ?_, hk, ?_, ?_⟩
  · exact (CaseResult.report_grade _ _).2.1
  · exact (CaseResult.report_grade _ _).2.2
  · exact (CaseResult.report_grade _ _).1
  · rw [CaseResult.status_grade_eq_passed_iff, check_eq_nil_iff hstations hp, Program.success_iff,
      hk.required_run]
    constructor
    · rintro ⟨⟨hcompleted, hdelivered⟩, hstatements, hactions, hrule⟩
      exact ⟨hcompleted, hdelivered, hstatements, hactions, hrule⟩
    · rintro ⟨hcompleted, hdelivered, hstatements, hactions, hrule⟩
      exact ⟨⟨hcompleted, hdelivered⟩, hstatements, hactions, hrule⟩

theorem length_cases (h : puzzle.submit source limits = .ok s)
    (hp : (compile source).program = some p) : s.cases.length = puzzle.testCases.length := by
  rcases (submit_cases h).2 with ⟨hnone, -⟩ | ⟨q, stations, results, -, -, hresults, hcases⟩
  · rw [hp] at hnone
    cases hnone
  · rw [hcases, List.length_map, (getElem?_of_runCases hresults).1, List.length_range]

theorem cases_eq_nil (h : puzzle.submit source limits = .ok s)
    (hp : (compile source).program = none) : s.cases = [] := by
  rcases (submit_cases h).2 with ⟨-, hcases⟩ | ⟨q, stations, results, hq, -⟩
  · exact hcases
  · rw [hp] at hq
    cases hq

theorem solved_iff_passed (h : puzzle.submit source limits = .ok s) :
    s.solved = true ↔ (∃ p, (compile source).program = some p) ∧ s.cases ≠ [] ∧
      ∀ r ∈ s.cases, r.status = .passed := by
  rw [Submission.solved, (submit_cases h).1, ← Compiled.succeeded_iff, Compiled.succeeded]
  simp [and_assoc]

theorem passed_iff_meets (h : puzzle.submit source limits = .ok s)
    (hp : (compile source).program = some p) :
    (∀ r ∈ s.cases, r.status = .passed) ↔
      ∀ orders ∈ puzzle.testCases, ∃ k, puzzle.FreshKitchen orders k ∧
        puzzle.Meets p orders (p.run limits k) := by
  have hlength := length_cases h hp
  constructor
  · intro hpassed orders hmem
    obtain ⟨i, hi⟩ := List.mem_iff_getElem?.mp hmem
    obtain ⟨r, k, hr, -, -, hk, -, hmeets⟩ := exists_case h hp hi
    exact ⟨k, hk, hmeets.mp (hpassed r (List.mem_of_getElem? hr))⟩
  · intro hmet r hmem
    obtain ⟨i, hi⟩ := List.mem_iff_getElem?.mp hmem
    have hlt : i < puzzle.testCases.length := by
      rw [← hlength]
      exact (List.getElem?_eq_some_iff.mp hi).1
    obtain ⟨r', k, hr', -, -, hk, -, hmeets⟩ := exists_case h hp (List.getElem?_eq_getElem hlt)
    obtain ⟨k', hk', hrun⟩ := hmet _ (List.getElem_mem hlt)
    rw [hi, Option.some.injEq] at hr'
    rw [hr', hmeets, hk.unique hk']
    exact hrun

/-- Grading is by the declared rules alone.  A source that does not compile has no cases.  Otherwise
there is a result for each test case, in order, with the report of a run in a fresh kitchen for its
orders, so it is the same wherever and beside whichever other cases it stands.  The submission is
solved exactly when the source compiles, there is a case, and every case meets the rules. -/
theorem submit_grades_declared_rules (puzzle : Puzzle) (source : Source) (limits : Limits)
    (s : Submission) (h : puzzle.submit source limits = .ok s) :
    ((compile source).succeeded = false → s.cases = []) ∧
    (∀ p, (compile source).program = some p →
      s.cases.length = puzzle.testCases.length ∧
      ∀ (i : Nat) (orders : List String), puzzle.testCases[i]? = some orders →
        ∃ r k, s.cases[i]? = some r ∧ r.index = i ∧ r.orders = orders ∧
          puzzle.FreshKitchen orders k ∧ r.report = (p.run limits k).report) ∧
    (∀ (others : List (List String)) (t : Submission),
      { puzzle with testCases := others }.submit source limits = .ok t →
      ∀ (i j : Nat) (orders : List String), puzzle.testCases[i]? = some orders →
        others[j]? = some orders →
        t.cases[j]?.map CaseResult.report = s.cases[i]?.map CaseResult.report) ∧
    (s.solved = true ↔
      ∃ p, (compile source).program = some p ∧ puzzle.testCases ≠ [] ∧
        ∀ orders ∈ puzzle.testCases, ∃ k, puzzle.FreshKitchen orders k ∧
          puzzle.Meets p orders (p.run limits k)) := by
  refine ⟨?_, ?_, ?_, ?_⟩
  · intro hfailed
    apply cases_eq_nil h
    rw [Option.eq_none_iff_forall_ne_some]
    intro p hp
    rw [(Compiled.succeeded_iff source).mpr ⟨p, hp⟩] at hfailed
    cases hfailed
  · intro p hp
    refine ⟨length_cases h hp, fun i orders horders => ?_⟩
    obtain ⟨r, k, hr, hindex, hsame, hk, hreport, -⟩ := exists_case h hp horders
    exact ⟨r, k, hr, hindex, hsame, hk, hreport⟩
  · intro others t ht i j orders hi hj
    cases hp : (compile source).program with
    | none => rw [cases_eq_nil h hp, cases_eq_nil ht hp, List.getElem?_nil, List.getElem?_nil]
    | some p =>
        obtain ⟨r, k, hr, -, -, hk, hreport, -⟩ := exists_case h hp hi
        obtain ⟨r', k', hr', -, -, hk', hreport', -⟩ := exists_case ht hp hj
        -- the two puzzles set up the same kitchen for the same orders
        have hother : puzzle.FreshKitchen orders k' := hk'
        rw [hr, hr', Option.map_some, Option.map_some, hreport, hreport', hother.unique hk]
  · have hsome : ∀ p, (compile source).program = some p →
        (s.cases ≠ [] ↔ puzzle.testCases ≠ []) := by
      intro p hp
      rw [← List.length_pos_iff, length_cases h hp, List.length_pos_iff]
    rw [solved_iff_passed h]
    constructor
    · rintro ⟨⟨p, hp⟩, hcases, hpassed⟩
      exact ⟨p, hp, (hsome p hp).mp hcases, (passed_iff_meets h hp).mp hpassed⟩
    · rintro ⟨p, hp, htests, hmet⟩
      exact ⟨⟨p, hp⟩, (hsome p hp).mpr htests, (passed_iff_meets h hp).mpr hmet⟩

theorem submit_grades_declared_rules_egg :
    let puzzle : Puzzle := ⟨"egg", 1, [["Egg"]], ["Egg"], "", 0, [], false,
      ⟨⟨3, by decide, by decide⟩, .minusOne, "LessModules"⟩, ""⟩
    let source : Source := ⟨"egg", "GET(\"Egg\")\nGOTO(\"Window\")\nDELIVER()\n"⟩
    let limits : Limits := ⟨9, 1, 10⟩
    ∃ s p k, puzzle.submit source limits = .ok s ∧ s.solved = true ∧
      (compile source).program = some p ∧ puzzle.FreshKitchen ["Egg"] k ∧
      puzzle.Meets p ["Egg"] (p.run limits k) := by
  intro puzzle source limits
  have hgraded : (match puzzle.submit source limits with
      | .ok s => s.solved
      | .error _ => false) = true := by decide +kernel
  cases hs : puzzle.submit source limits with
  | error e =>
      rw [hs] at hgraded
      cases hgraded
  | ok s =>
      rw [hs] at hgraded
      obtain ⟨-, -, -, hsolved⟩ := submit_grades_declared_rules puzzle source limits s hs
      obtain ⟨p, hp, -, hmet⟩ := hsolved.mp hgraded
      obtain ⟨k, hk, hmeets⟩ := hmet ["Egg"] List.mem_cons_self
      exact ⟨s, p, k, rfl, hgraded, hp, hk, hmeets⟩

end Puzzle

end KitchenScript
