import KitchenScript.Proofs.Puzzle.Layouts

/-!
# Saved layouts

The plan that is written for a station is the plan that the station was built from, completed: all
bays are listed, and the empty ones have the names of their places.  A completed plan is built into
the same station, or is refused for the same reason, so writing a layout and building it again gives
the station back, and nothing is left to complete in a plan that was written once.
-/

namespace KitchenScript

namespace ModulePlan

def emptyBay (station : String) (index : Nat) : ModulePlan :=
  ⟨"None", bayName station index, false⟩

end ModulePlan

namespace StationPlan

/-- Plans for the bays behind the first `listed` of a station. -/
def emptyBaysFrom (station : String) (listed : Nat) : List ModulePlan :=
  (List.range' listed (baysPerStation - listed)).map (ModulePlan.emptyBay station)

/-- The plan with all bays listed, the empty ones under the names of their places. -/
def completed (plan : StationPlan) : StationPlan :=
  ⟨plan.name,
    namedModules plan.name plan.modules 0 ++ emptyBaysFrom plan.name plan.modules.length⟩

/-- The plan that is written for the station that a plan is built into. -/
def normalized (plan : StationPlan) : Except KitchenError StationPlan := do
  let s ← plan.build
  .ok (ofStation s)

/-! ## What is written -/

/-- A station is written as the completed plan that it was built from. -/
theorem ofStation_of_build {plan : StationPlan} {s : Station} (h : plan.build = .ok s) :
    ofStation s = plan.completed := by
  obtain ⟨modules, hmodules, h⟩ := exists_of_bind_eq_ok h
  rw [Station.eq_of_build h, ofStation, completed, List.map_append, List.map_map,
    map_ofModule_of_buildModules hmodules, (countP_isReal_of_buildModules hmodules).1]
  rfl

theorem length_namedModules (station : String) (plans : List ModulePlan) (index : Nat) :
    (namedModules station plans index).length = plans.length := by
  rw [namedModules, List.length_map, List.length_zipIdx]

theorem length_modules_completed {plan : StationPlan} (h : plan.modules.length ≤ 3) :
    plan.completed.modules.length = 3 := by
  have hbays : baysPerStation = 3 := rfl
  simp only [completed, emptyBaysFrom, List.length_append, length_namedModules, List.length_map,
    List.length_range']
  omega

/-- Completing keeps the listed modules in their bays, with the names they have there. -/
theorem getElem?_completed {plan : StationPlan} {index : Nat} {listed : ModulePlan}
    (h : plan.modules[index]? = some listed) :
    plan.completed.modules[index]? = some (listed.inBay plan.name index) := by
  obtain ⟨hindex, -⟩ := List.getElem?_eq_some_iff.mp h
  have hnamed : index < (namedModules plan.name plan.modules 0).length := by
    rwa [length_namedModules]
  rw [completed, List.getElem?_append_left hnamed, namedModules, List.getElem?_map,
    List.getElem?_zipIdx, h, Nat.zero_add]
  rfl

end StationPlan

/-! ## Building what was written -/

theorem ModulePlan.build_inBay (plan : ModulePlan) (station : String) (index : Nat) :
    (plan.inBay station index).build station index = plan.build station index := by
  unfold build inBay
  cases hkind : ModuleKind.ofSignature plan.kind with
  | error e => rfl
  | ok kind =>
      simp only [bind, Except.bind]
      by_cases hnone : kind = .none
      · rw [if_pos hnone, if_pos hnone]
      · rw [if_neg hnone, if_neg hnone, nameAt, if_pos ((isReal_iff hkind).mpr hnone)]

theorem ModulePlan.build_emptyBay (station : String) (index : Nat) :
    (emptyBay station index).build station index =
      .ok (Module.fresh .none (bayName station index) false) :=
  rfl

/-- The bays that building a station would fill are filled already. -/
theorem Station.build_padded (name : String) (modules : List Module) :
    build name (modules ++ (List.range' modules.length (baysPerStation - modules.length)).map
      fun index => Module.fresh .none (bayName name index) false) = build name modules := by
  by_cases hmany : baysPerStation < modules.length
  · have hfull : baysPerStation - modules.length = 0 := by omega
    rw [hfull, List.range'_zero, List.map_nil, List.append_nil]
  · have hlength : (modules ++ (List.range' modules.length (baysPerStation - modules.length)).map
        fun index => Module.fresh .none (bayName name index) false).length = baysPerStation := by
      rw [List.length_append, List.length_map, List.length_range']
      omega
    unfold build
    simp only [hlength, if_neg hmany, if_neg (Nat.lt_irrefl _), Nat.sub_self, List.range'_zero,
      List.map_nil, List.append_nil]

namespace StationPlan

theorem buildModules_namedModules (station : String) (plans : List ModulePlan) (index : Nat) :
    buildModules station (namedModules station plans index) index =
      buildModules station plans index := by
  induction plans generalizing index with
  | nil => rfl
  | cons plan plans ih =>
      rw [namedModules, List.zipIdx_cons, List.map_cons, buildModules, buildModules,
        ModulePlan.build_inBay]
      have hrest := ih (index + 1)
      rw [namedModules] at hrest
      rw [hrest]

theorem buildModules_append (station : String) (plans more : List ModulePlan) (index : Nat) :
    buildModules station (plans ++ more) index =
      (buildModules station plans index >>= fun modules =>
        buildModules station more (index + plans.length) >>= fun others =>
          .ok (modules ++ others)) := by
  induction plans generalizing index with
  | nil =>
      rw [List.nil_append, buildModules, List.length_nil, Nat.add_zero]
      cases buildModules station more index <;> rfl
  | cons plan plans ih =>
      have hindex : index + (plan :: plans).length = index + 1 + plans.length := by
        rw [List.length_cons]
        omega
      rw [List.cons_append, buildModules, buildModules, ih, hindex]
      cases plan.build station index with
      | error e => rfl
      | ok m =>
          cases buildModules station plans (index + 1) with
          | error e => rfl
          | ok modules => cases buildModules station more (index + 1 + plans.length) <;> rfl

theorem buildModules_emptyBays (station : String) (index count : Nat) :
    buildModules station ((List.range' index count).map (ModulePlan.emptyBay station)) index =
      .ok ((List.range' index count).map fun i => Module.fresh .none (bayName station i) false) := by
  induction count generalizing index with
  | zero => rfl
  | succ count ih =>
      rw [List.range'_succ, List.map_cons, List.map_cons, buildModules, ModulePlan.build_emptyBay,
        ih]
      rfl

/-- Completing a plan does not change what it is built into, nor why it is refused. -/
theorem build_completed (plan : StationPlan) : plan.completed.build = plan.build := by
  rw [build, build, completed, buildModules_append, buildModules_namedModules,
    length_namedModules, Nat.zero_add, emptyBaysFrom, buildModules_emptyBays]
  cases hmodules : buildModules plan.name plan.modules 0 with
  | error e => rfl
  | ok modules =>
      rw [← (countP_isReal_of_buildModules hmodules).1]
      exact Station.build_padded plan.name modules

theorem build_ofStation {plan : StationPlan} {s : Station} (h : plan.build = .ok s) :
    (ofStation s).build = .ok s := by
  rw [ofStation_of_build h, build_completed, h]

theorem normalized_eq {plan : StationPlan} {s : Station} (h : plan.build = .ok s) :
    plan.normalized = .ok (ofStation s) := by
  rw [normalized, h]
  rfl

/-- Writing the plan of a station and building it again gives the station back.  The written plan
lists every bay; the bays that were listed before keep their kinds and locks, and their names unless
they are empty.  So a plan is normalized once and for all. -/
theorem saved_plan_rebuilds (plan : StationPlan) :
    (∀ s, plan.build = .ok s →
      (ofStation s).build = .ok s ∧
      (ofStation s).modules.length = 3 ∧
      (ofStation s).name = plan.name ∧
      ∀ (index : Nat) (listed : ModulePlan), plan.modules[index]? = some listed →
        ∃ saved, (ofStation s).modules[index]? = some saved ∧
          saved.kind = listed.kind ∧ saved.locked = listed.locked ∧
          (listed.kind ≠ "None" → saved.name = listed.name)) ∧
    (plan.normalized >>= normalized) = plan.normalized := by
  constructor
  · intro s h
    have hroom := (exists_build_iff.mp ⟨s, h⟩).2
    refine ⟨build_ofStation h, ?_⟩
    rw [ofStation_of_build h]
    refine ⟨length_modules_completed hroom, rfl, ?_⟩
    intro index listed hlisted
    refine ⟨_, getElem?_completed hlisted, rfl, rfl, ?_⟩
    intro hkind
    have hreal : listed.isReal = true := bne_iff_ne.mpr hkind
    exact if_pos hreal
  · cases h : plan.build with
    | error e =>
        rw [normalized, h]
        rfl
    | ok s =>
        rw [normalized_eq h]
        exact normalized_eq (build_ofStation h)

/-- A locked empty bay with a name of its own, a maker that is called like another bay, and a bay
that is not listed: the plan is not the one that is written, but both are built into the same
station. -/
theorem saved_plan_rebuilds_stove :
    let plan : StationPlan :=
      ⟨"Stove", [⟨"None", "shelf", true⟩, ⟨"SoupMaker", "Stove C A", false⟩]⟩
    let s : Station :=
      ⟨"Stove", [.fresh .none "Stove A" true, .fresh .soupMaker "Stove C A" false,
        .fresh .none "Stove C" false]⟩
    plan.build = .ok s ∧ ofStation s ≠ plan ∧ (ofStation s).build = .ok s ∧
      (ofStation s).modules.length = 3 ∧
      (∃ saved, (ofStation s).modules[0]? = some saved ∧ saved.locked = true) ∧
      (∃ saved, (ofStation s).modules[1]? = some saved ∧ saved.name = "Stove C A") ∧
      (plan.normalized >>= normalized) = plan.normalized := by
  intro plan s
  have hbuild : plan.build = .ok s := rfl
  obtain ⟨hsaved, hnormalized⟩ := saved_plan_rebuilds plan
  obtain ⟨hagain, hbays, -, hlisted⟩ := hsaved s hbuild
  obtain ⟨shelf, hshelf, -, hlocked, -⟩ := hlisted 0 _ rfl
  obtain ⟨maker, hmaker, -, -, hname⟩ := hlisted 1 _ rfl
  exact ⟨hbuild, by decide, hagain, hbays, ⟨shelf, hshelf, hlocked⟩,
    ⟨maker, hmaker, hname (by decide)⟩, hnormalized⟩

end StationPlan

end KitchenScript
