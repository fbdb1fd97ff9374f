import KitchenScript.Proofs.Puzzle.Grading
import Mathlib.Data.List.Nodup

/-!
# Layouts that are accepted

A kitchen can be built for a case of a puzzle exactly when the case exists and the layout is in
order: the stations are as many as declared, every kind of module is known and no station has more
modules than bays, and names tell apart whatever has a name.  The conditions are about the plans as
they are written; on the way to the kitchen plans are parsed, empty bays named and missing ones
added.

Names of empty bays are made from the name of the station and a letter.  Both can be read off such a
name, whatever the station is called, so empty bays need no condition among themselves.
-/

namespace KitchenScript

/-! ## The names of a layout -/

namespace StationPlan

/-- No module is planned for this bay: none is listed, or an empty one. -/
def isEmptyAt (plan : StationPlan) (index : Nat) : Bool :=
  !plan.modules[index]?.any ModulePlan.isReal

def emptyBays (plan : StationPlan) : List Nat :=
  (List.range baysPerStation).filter plan.isEmptyAt

def realNames (plan : StationPlan) : List String :=
  plan.realModules.map ModulePlan.name

def emptyNames (plan : StationPlan) : List String :=
  plan.emptyBays.map (bayName plan.name)

end StationPlan

/-- What a puzzle has to fulfil in order to be played. -/
structure Puzzle.InOrder (p : Puzzle) (index : Nat) : Prop where
  hasCase : index < p.testCases.length
  stationCount : p.stationCount = 0 ∨ p.stationCount.toNat = p.stations.length
  kinds : ∀ plan ∈ p.stations, ∀ m ∈ plan.modules, m.kind ∈ ModuleKind.all.map ModuleKind.signature
  bays : ∀ plan ∈ p.stations, plan.modules.length ≤ 3
  stationNames : (p.stations.map StationPlan.name).Nodup
  notReserved : ∀ plan ∈ p.stations, plan.name ≠ "Pantry" ∧ plan.name ≠ "Window"
  moduleNames : (p.stations.flatMap StationPlan.realNames).Nodup
  noClash : ∀ name ∈ p.stations.flatMap StationPlan.realNames,
    name ∉ p.stations.flatMap StationPlan.emptyNames

/-! ## Names of empty bays -/

def bayLetter : Nat → Char
  | 0 => 'A'
  | 1 => 'B'
  | _ => 'C'

theorem bayLetter_inj : ∀ i < 3, ∀ j < 3, bayLetter i = bayLetter j → i = j := by
  decide

theorem toList_bayName (station : String) {index : Nat} (h : index < 3) :
    (bayName station index).toList = station.toList ++ [' ', bayLetter index] := by
  match index with
  | 0 | 1 | 2 => simp [bayName, bayLetter]
  | _ + 3 => omega

theorem bayName_inj {s t : String} {i j : Nat} (hi : i < 3) (hj : j < 3)
    (h : bayName s i = bayName t j) : s = t ∧ i = j := by
  have hchars := congrArg String.toList h
  rw [toList_bayName s hi, toList_bayName t hj] at hchars
  obtain ⟨hname, hletter⟩ := List.append_inj' hchars rfl
  have hletter' : bayLetter i = bayLetter j := by simpa using hletter
  exact ⟨String.toList_inj.mp hname, bayLetter_inj i hi j hj hletter'⟩

namespace StationPlan

theorem lt_three_of_mem_emptyBays {plan : StationPlan} {i : Nat} (h : i ∈ plan.emptyBays) :
    i < 3 :=
  List.mem_range.mp (List.mem_filter.mp h).1

/-- Empty bays have different names if the stations have. -/
theorem nodup_emptyNames {plans : List StationPlan} (h : (plans.map StationPlan.name).Nodup) :
    (plans.flatMap emptyNames).Nodup := by
  rw [List.nodup_flatMap]
  constructor
  · intro plan _
    apply List.Nodup.map_on
    · intro i hi j hj hname
      exact (bayName_inj (lt_three_of_mem_emptyBays hi) (lt_three_of_mem_emptyBays hj) hname).2
    · exact List.nodup_range.filter _
  · have hpairwise := List.pairwise_map.mp h
    apply hpairwise.imp
    intro plan plan' hne name hname hname'
    obtain ⟨i, hi, rfl⟩ := List.mem_map.mp hname
    obtain ⟨j, hj, hsame⟩ := List.mem_map.mp hname'
    have hlt := lt_three_of_mem_emptyBays hi
    have hlt' := lt_three_of_mem_emptyBays hj
    exact hne (bayName_inj hlt hlt' hsame.symm).1

end StationPlan

/-! ## Building stations -/

theorem exists_bind_eq_ok_iff {ε α β : Type} {x : Except ε α} {f : α → Except ε β} :
    (∃ b, (x >>= f) = .ok b) ↔ ∃ a, x = .ok a ∧ ∃ b, f a = .ok b := by
  cases x with
  | error e => simp [bind, Except.bind]
  | ok a => simp [bind, Except.bind]

theorem ModuleKind.exists_ofSignature_iff {name : String} :
    (∃ kind, ofSignature name = .ok kind) ↔ name ∈ all.map signature := by
  constructor
  · rintro ⟨kind, hkind⟩
    rw [← signature_of_ofSignature hkind]
    apply List.mem_map_of_mem
    cases kind <;> decide
  · intro hname
    obtain ⟨kind, hkind, rfl⟩ := List.mem_map.mp hname
    cases kind <;> exact ⟨_, rfl⟩

namespace ModulePlan

/-- The name that a planned module has in its bay. -/
def nameAt (plan : ModulePlan) (station : String) (index : Nat) : String :=
  if plan.isReal then plan.name else bayName station index

/-- The plan with the name that its module has in a bay. -/
def inBay (plan : ModulePlan) (station : String) (index : Nat) : ModulePlan :=
  { plan with name := plan.nameAt station index }

theorem exists_build_iff {plan : ModulePlan} {station : String} {index : Nat} :
    (∃ m, plan.build station index = .ok m) ↔
      plan.kind ∈ ModuleKind.all.map ModuleKind.signature := by
  rw [← ModuleKind.exists_ofSignature_iff]
  constructor
  · rintro ⟨m, hm⟩
    obtain ⟨kind, hkind, -⟩ := exists_of_bind_eq_ok hm
    exact ⟨kind, hkind⟩
  · rintro ⟨kind, hkind⟩
    simp only [build, hkind]
    exact ⟨_, rfl⟩

theorem name_of_build {plan : ModulePlan} {station : String} {index : Nat} {m : Module}
    (h : plan.build station index = .ok m) : m.name = plan.nameAt station index := by
  have hreal := isReal_of_build h
  obtain ⟨kind, -, h⟩ := exists_of_bind_eq_ok h
  cases h
  rw [nameAt, ← hreal, Module.isReal, Module.fresh]
  by_cases hkind : kind = .none
  · simp [hkind]
  · simp [hkind]

/-- What is built is written down as it was planned, but for the name. -/
theorem ofModule_of_build {plan : ModulePlan} {station : String} {index : Nat}
    {m : Module} (h : plan.build station index = .ok m) :
    ofModule m = plan.inBay station index := by
  have hname := name_of_build h
  obtain ⟨kind, hkind, h⟩ := exists_of_bind_eq_ok h
  cases h
  rw [ofModule, inBay, ← hname, ← ModuleKind.signature_of_ofSignature hkind]
  rfl

end ModulePlan

theorem Station.exists_build_iff {name : String} {modules : List Module} :
    (∃ s, build name modules = .ok s) ↔ modules.length ≤ 3 := by
  have hbays : baysPerStation = 3 := rfl
  unfold build
  by_cases hmany : baysPerStation < modules.length
  · rw [if_pos hmany]
    simp only [reduceCtorEq, exists_false, false_iff]
    omega
  · rw [if_neg hmany]
    simp only [Except.ok.injEq, exists_eq', true_iff]
    omega

theorem Station.eq_of_build {name : String} {modules : List Module} {s : Station}
    (h : build name modules = .ok s) :
    s = ⟨name, modules ++ (List.range' modules.length (baysPerStation - modules.length)).map
      fun index => Module.fresh .none (bayName name index) false⟩ := by
  unfold build at h
  by_cases hmany : baysPerStation < modules.length
  · rw [if_pos hmany] at h
    cases h
  · rw [if_neg hmany] at h
    cases h
    rfl

namespace StationPlan

theorem exists_buildModules_iff (station : String) (plans : List ModulePlan) (index : Nat) :
    (∃ modules, buildModules station plans index = .ok modules) ↔
      ∀ plan ∈ plans, plan.kind ∈ ModuleKind.all.map ModuleKind.signature := by
  induction plans generalizing index with
  | nil => simp [buildModules]
  | cons plan plans ih =>
      have hfirst : (∃ m, plan.build station index = .ok m) ↔ _ := ModulePlan.exists_build_iff
      rw [List.forall_mem_cons, ← hfirst, ← ih (index + 1), buildModules,
        exists_bind_eq_ok_iff]
      simp only [exists_bind_eq_ok_iff, Except.ok.injEq, exists_eq', and_true, exists_and_right]

/-- The modules of a plan from a bay on, each with its name there. -/
def namedModules (station : String) (plans : List ModulePlan) (index : Nat) : List ModulePlan :=
  (plans.zipIdx index).map fun listed => listed.1.inBay station listed.2

theorem map_ofModule_of_buildModules {station : String} {plans : List ModulePlan} {index : Nat}
    {modules : List Module} (h : buildModules station plans index = .ok modules) :
    modules.map ModulePlan.ofModule = namedModules station plans index := by
  induction plans generalizing index modules with
  | nil =>
      cases h
      rfl
  | cons plan plans ih =>
      obtain ⟨first, hfirst, h⟩ := exists_of_bind_eq_ok h
      obtain ⟨rest, hrest, h⟩ := exists_of_bind_eq_ok h
      cases h
      rw [List.map_cons, ih hrest, ModulePlan.ofModule_of_build hfirst]
      rfl

theorem map_name_of_buildModules {station : String} {plans : List ModulePlan} {index : Nat}
    {modules : List Module} (h : buildModules station plans index = .ok modules) :
    modules.map Module.name =
      (plans.zipIdx index).map fun listed => listed.1.nameAt station listed.2 := by
  have hnames := congrArg (List.map ModulePlan.name) (map_ofModule_of_buildModules h)
  rw [namedModules, List.map_map, List.map_map] at hnames
  exact hnames

theorem exists_build_iff {plan : StationPlan} :
    (∃ s, plan.build = .ok s) ↔
      (∀ m ∈ plan.modules, m.kind ∈ ModuleKind.all.map ModuleKind.signature) ∧
        plan.modules.length ≤ 3 := by
  rw [build, exists_bind_eq_ok_iff, ← exists_buildModules_iff plan.name plan.modules 0,
    ← exists_and_right]
  apply exists_congr
  intro modules
  apply and_congr_right
  intro hmodules
  rw [Station.exists_build_iff, (countP_isReal_of_buildModules hmodules).1]

/-- The empty bays are those that are listed as empty and those that are not listed. -/
theorem emptyBays_eq {plan : StationPlan} (h : plan.modules.length ≤ 3) :
    plan.emptyBays = (plan.modules.zipIdx.filter fun listed => !listed.1.isReal).map Prod.snd ++
      List.range' plan.modules.length (baysPerStation - plan.modules.length) := by
  have hbays : List.range baysPerStation = plan.modules.zipIdx.map Prod.snd ++
      List.range' plan.modules.length (baysPerStation - plan.modules.length) := by
    have hthree : plan.modules.length + (baysPerStation - plan.modules.length) = baysPerStation :=
      Nat.add_sub_cancel' h
    rw [List.zipIdx_map_snd, List.range_eq_range', ← hthree, ← List.range'_append_1, Nat.zero_add,
      hthree]
  have hlisted : ∀ listed ∈ plan.modules.zipIdx,
      plan.isEmptyAt listed.2 = !listed.1.isReal := by
    intro listed hmem
    rw [isEmptyAt, List.mem_zipIdx_iff_getElem?.mp hmem]
    rfl
  have hmissing : ∀ i ∈ List.range' plan.modules.length (baysPerStation - plan.modules.length),
      plan.isEmptyAt i = true := by
    intro i hi
    have hle : plan.modules.length ≤ i := (List.mem_range'_1.mp hi).1
    rw [isEmptyAt, List.getElem?_eq_none hle]
    rfl
  rw [emptyBays, hbays, List.filter_append, List.filter_map, List.filter_eq_self.mpr hmissing]
  congr 2
  exact List.filter_congr hlisted

theorem name_of_build {plan : StationPlan} {s : Station} (h : plan.build = .ok s) :
    s.name = plan.name := by
  obtain ⟨modules, -, h⟩ := exists_of_bind_eq_ok h
  rw [Station.eq_of_build h]

/-- The modules of a station have the names of the real modules and of the empty bays of its
plan. -/
theorem perm_names_of_build {plan : StationPlan} {s : Station} (h : plan.build = .ok s) :
    (s.modules.map Module.name).Perm (plan.realNames ++ plan.emptyNames) := by
  have hroom := (exists_build_iff.mp ⟨s, h⟩).2
  obtain ⟨modules, hmodules, h⟩ := exists_of_bind_eq_ok h
  let listedName (listed : ModulePlan × Nat) := listed.1.nameAt plan.name listed.2
  let missing := List.range' plan.modules.length (baysPerStation - plan.modules.length)
  have hnames : s.modules.map Module.name =
      plan.modules.zipIdx.map listedName ++ missing.map (bayName plan.name) := by
    rw [Station.eq_of_build h, List.map_append, map_name_of_buildModules hmodules, List.map_map,
      (countP_isReal_of_buildModules hmodules).1]
    rfl
  have hreal : (plan.modules.zipIdx.filter fun listed => listed.1.isReal).map listedName =
      plan.realNames := by
    have hlisted : plan.realModules =
        (plan.modules.zipIdx.filter fun listed => listed.1.isReal).map Prod.fst := by
      rw [realModules]
      nth_rewrite 1 [← List.zipIdx_map_fst 0 plan.modules]
      rw [List.filter_map]
      rfl
    rw [realNames, hlisted, List.map_map]
    apply List.map_congr_left
    intro listed hmem
    exact if_pos (List.mem_filter.mp hmem).2
  have hempty : (plan.modules.zipIdx.filter fun listed => !listed.1.isReal).map listedName ++
      missing.map (bayName plan.name) = plan.emptyNames := by
    rw [emptyNames, emptyBays_eq hroom, List.map_append, List.map_map]
    congr 1
    apply List.map_congr_left
    intro listed hmem
    have hnot : ¬listed.1.isReal := by simpa using (List.mem_filter.mp hmem).2
    exact if_neg hnot
  rw [hnames, ← hreal, ← hempty, ← List.append_assoc, ← List.map_append]
  exact (List.filter_append_perm _ _).symm.map listedName |>.append_right _

theorem exists_buildAll_iff (plans : List StationPlan) :
    (∃ stations, buildAll plans = .ok stations) ↔ ∀ plan ∈ plans, ∃ s, plan.build = .ok s := by
  induction plans with
  | nil => simp [buildAll]
  | cons plan plans ih =>
      rw [List.forall_mem_cons, ← ih, buildAll, exists_bind_eq_ok_iff]
      simp only [exists_bind_eq_ok_iff, Except.ok.injEq, exists_eq', and_true, exists_and_right]

theorem names_of_buildAll {plans : List StationPlan} {stations : List Station}
    (h : buildAll plans = .ok stations) :
    stations.map Station.name = plans.map StationPlan.name ∧
      ((stations.flatMap Station.modules).map Module.name).Perm
        (plans.flatMap realNames ++ plans.flatMap emptyNames) := by
  induction plans generalizing stations with
  | nil =>
      cases h
      exact ⟨rfl, .refl _⟩
  | cons plan plans ih =>
      obtain ⟨first, hfirst, h⟩ := exists_of_bind_eq_ok h
      obtain ⟨rest, hrest, h⟩ := exists_of_bind_eq_ok h
      cases h
      obtain ⟨hnames, hmodules⟩ := ih hrest
      refine ⟨by rw [List.map_cons, List.map_cons, hnames, name_of_build hfirst], ?_⟩
      rw [List.flatMap_cons, List.flatMap_cons, List.flatMap_cons, List.map_append]
      refine ((perm_names_of_build hfirst).append hmodules).trans ?_
      -- the empty bays of the first station change places with the modules of the others
      rw [List.append_assoc, List.append_assoc]
      apply List.Perm.append_left
      rw [← List.append_assoc, ← List.append_assoc]
      exact List.perm_append_comm.append_right _

end StationPlan

/-! ## Checking names -/

namespace Kitchen

theorem exists_checkModules {ms : List Module} {seen : List String}
    (hnodup : (ms.map Module.name).Nodup) (hnew : ∀ m ∈ ms, m.name ∉ seen) :
    ∃ seen', checkModules ms seen = .ok seen' := by
  induction ms generalizing seen with
  | nil => exact ⟨seen, rfl⟩
  | cons m ms ih =>
      rw [List.map_cons, List.nodup_cons] at hnodup
      obtain ⟨hfirst, hrest⟩ := List.forall_mem_cons.mp hnew
      rw [checkModules, if_neg hfirst]
      apply ih hnodup.2
      intro other hother hmem
      rcases List.mem_cons.mp hmem with hsame | hseen
      · apply hnodup.1
        rw [← hsame]
        exact List.mem_map_of_mem hother
      · exact hrest other hother hseen

theorem checkStations_of_names {stations : List Station} {seen seenModules : List String}
    (hnames : (stations.map Station.name).Nodup)
    (hnew : ∀ s ∈ stations, s.name ∉ reservedNames ∧ s.name ∉ seen)
    (hnodup : ((stations.flatMap Station.modules).map Module.name).Nodup)
    (hmodulesNew : ∀ m ∈ stations.flatMap Station.modules, m.name ∉ seenModules) :
    checkStations stations seen seenModules = .ok () := by
  induction stations generalizing seen seenModules with
  | nil => rfl
  | cons s stations ih =>
      rw [List.map_cons, List.nodup_cons] at hnames
      rw [List.flatMap_cons, List.map_append, List.nodup_append] at hnodup
      rw [List.flatMap_cons, List.forall_mem_append] at hmodulesNew
      obtain ⟨⟨hreserved, hunseen⟩, hothers⟩ := List.forall_mem_cons.mp hnew
      obtain ⟨seenModules', hchecked⟩ := exists_checkModules hnodup.1 hmodulesNew.1
      obtain ⟨-, -, hseen'⟩ := names_of_checkModules hchecked
      rw [checkStations, if_neg hreserved, if_neg hunseen, hchecked]
      apply ih hnames.2
      · intro other hother
        refine ⟨(hothers other hother).1, ?_⟩
        intro hmem
        rcases List.mem_cons.mp hmem with hsame | hseen
        · apply hnames.1
          rw [← hsame]
          exact List.mem_map_of_mem hother
        · exact (hothers other hother).2 hseen
      · exact hnodup.2.1
      · intro m hm hmem
        rcases (hseen' m.name).mp hmem with hown | hseen
        · exact hnodup.2.2 _ hown _ (List.mem_map_of_mem hm) rfl
        · exact hmodulesNew.2 m hm hseen

theorem exists_build_iff {stations : List Station} {pantry : Pantry} {orders : List Food} :
    (∃ k, build stations pantry orders = .ok k) ↔
      (stations.map Station.name).Nodup ∧
        (∀ name ∈ stations.map Station.name, name ≠ "Pantry" ∧ name ≠ "Window") ∧
        ((stations.flatMap Station.modules).map Module.name).Nodup := by
  simp only [build_eq_ok_iff, exists_and_left, exists_eq, and_true]
  constructor
  · intro hcheck
    obtain ⟨hnames, hnew, hnodup, -⟩ := names_of_checkStations hcheck
    refine ⟨hnames, ?_, hnodup⟩
    rw [List.forall_mem_map]
    intro s hs
    simpa [reservedNames] using (hnew s hs).1
  · rintro ⟨hnames, hreserved, hnodup⟩
    rw [List.forall_mem_map] at hreserved
    apply checkStations_of_names hnames ?_ hnodup ?_
    · intro s hs
      exact ⟨by simpa [reservedNames] using hreserved s hs, List.not_mem_nil⟩
    · exact fun _ _ => List.not_mem_nil

end Kitchen

/-! ## Accepted puzzles -/

theorem exists_inLayout_iff {α : Type} {result : Except KitchenError α} :
    (∃ a, inLayout result = .ok a) ↔ ∃ a, result = .ok a := by
  cases result with
  | error e => simp [inLayout]
  | ok a => simp [inLayout]

namespace Puzzle

theorem buildStations_eq_ok_iff {p : Puzzle} {stations : List Station} :
    p.buildStations = .ok stations ↔
      (p.stationCount = 0 ∨ p.stationCount.toNat = p.stations.length) ∧
        StationPlan.buildAll p.stations = .ok stations := by
  have hopen : p.stationCount = 0 ↔ p.stationCount.toNat = 0 := by
    rw [← UInt64.toNat_inj]
    rfl
  have hlayout : inLayout (StationPlan.buildAll p.stations) = .ok stations ↔
      StationPlan.buildAll p.stations = .ok stations :=
    ⟨inLayout_eq_ok, fun h => by rw [h, inLayout]⟩
  unfold buildStations
  rw [hopen, ← hlayout]
  by_cases hcount : p.stationCount.toNat ≠ 0 ∧ p.stationCount.toNat ≠ p.stations.length
  · simp [hcount]
  · have hcount' : p.stationCount.toNat = 0 ∨ p.stationCount.toNat = p.stations.length := by
      simpa [or_iff_not_imp_left] using hcount
    simp only [if_neg hcount, hcount', true_and]

/-- With different names for the stations, the modules of the kitchen have different names exactly
if the real modules have and none is called like an empty bay. -/
theorem nodup_modules_iff {plans : List StationPlan} {stations : List Station}
    (h : StationPlan.buildAll plans = .ok stations)
    (hnames : (plans.map StationPlan.name).Nodup) :
    ((stations.flatMap Station.modules).map Module.name).Nodup ↔
      (plans.flatMap StationPlan.realNames).Nodup ∧
        ∀ name ∈ plans.flatMap StationPlan.realNames,
          name ∉ plans.flatMap StationPlan.emptyNames := by
  rw [(StationPlan.names_of_buildAll h).2.nodup_iff, List.nodup_append]
  constructor
  · rintro ⟨hreal, -, hapart⟩
    exact ⟨hreal, fun name hname hempty => hapart name hname name hempty rfl⟩
  · rintro ⟨hreal, hclash⟩
    refine ⟨hreal, StationPlan.nodup_emptyNames hnames, ?_⟩
    rintro name hname _ hempty rfl
    exact hclash name hname hempty

/-- A kitchen is built for a case exactly if the puzzle is in order.  Empty bays do not clash with
each other if the stations have different names. -/
theorem kitchenFor_accepts_iff (p : Puzzle) (index : Nat) :
    ((∃ k, p.kitchenFor index = .ok k) ↔ p.InOrder index) ∧
      ((p.stations.map StationPlan.name).Nodup →
        (p.stations.flatMap StationPlan.emptyNames).Nodup) := by
  refine ⟨?_, StationPlan.nodup_emptyNames⟩
  have hcase : index < p.testCases.length ↔ ∃ orders, p.testCases[index]? = some orders := by
    rw [← Option.isSome_iff_exists]
    simp
  constructor
  · rintro ⟨k, hk⟩
    unfold kitchenFor at hk
    cases horders : p.testCases[index]? with
    | none =>
        rw [horders] at hk
        cases hk
    | some orders =>
        rw [horders] at hk
        obtain ⟨stations, hstations, hk⟩ := exists_of_bind_eq_ok hk
        obtain ⟨hcount, hall⟩ := buildStations_eq_ok_iff.mp hstations
        have hplans := (StationPlan.exists_buildAll_iff p.stations).mp ⟨stations, hall⟩
        obtain ⟨hnames, hreserved, hmodules⟩ := Kitchen.exists_build_iff.mp ⟨k, inLayout_eq_ok hk⟩
        rw [(StationPlan.names_of_buildAll hall).1] at hnames hreserved
        obtain ⟨hreal, hclash⟩ := (nodup_modules_iff hall hnames).mp hmodules
        exact {
          hasCase := hcase.mpr ⟨orders, horders⟩
          stationCount := hcount
          kinds := fun plan hplan => (StationPlan.exists_build_iff.mp (hplans plan hplan)).1
          bays := fun plan hplan => (StationPlan.exists_build_iff.mp (hplans plan hplan)).2
          stationNames := hnames
          notReserved := List.forall_mem_map.mp hreserved
          moduleNames := hreal
          noClash := hclash }
  · intro h
    obtain ⟨orders, horders⟩ := hcase.mp h.hasCase
    have hplans : ∀ plan ∈ p.stations, ∃ s, plan.build = .ok s := fun plan hplan =>
      StationPlan.exists_build_iff.mpr ⟨h.kinds plan hplan, h.bays plan hplan⟩
    obtain ⟨stations, hall⟩ := (StationPlan.exists_buildAll_iff p.stations).mpr hplans
    have hstations := buildStations_eq_ok_iff.mpr ⟨h.stationCount, hall⟩
    have hmodules := (nodup_modules_iff hall h.stationNames).mpr ⟨h.moduleNames, h.noClash⟩
    have hnames := (StationPlan.names_of_buildAll hall).1
    unfold kitchenFor
    rw [horders]
    dsimp only
    rw [exists_bind_eq_ok_iff]
    refine ⟨stations, hstations, exists_inLayout_iff.mpr (Kitchen.exists_build_iff.mpr ?_)⟩
    rw [hnames]
    exact ⟨h.stationNames, List.forall_mem_map.mpr h.notReserved, hmodules⟩

/-- A module may be called like the bay it stands in, and a station like a bay of another one; like
an empty bay no module may be called. -/
theorem kitchenFor_accepts_iff_stoves :
    let stoves (maker : String) : Puzzle :=
      { name := "Soup"
        difficulty := 1
        testCases := [["Tomato Soup"]]
        starterPantry := ["Broth", "Tomato"]
        starterCode := ""
        stationCount := 2
        stations := [⟨"Stove", [⟨"SoupMaker", maker, false⟩]⟩, ⟨"Stove A", [⟨"None", "", false⟩]⟩]
        modulesLocked := false
        constraints := .standard
        storyPrompt := "" }
    (∃ k, (stoves "Stove A").kitchenFor 0 = .ok k) ∧
      ((stoves "Stove B").stations.flatMap StationPlan.emptyNames).Nodup ∧
      ¬∃ k, (stoves "Stove B").kitchenFor 0 = .ok k := by
  intro stoves
  refine ⟨?_, (kitchenFor_accepts_iff (stoves "Stove B") 0).2 (by decide), ?_⟩
  · rw [(kitchenFor_accepts_iff (stoves "Stove A") 0).1]
    constructor <;> decide
  · rw [(kitchenFor_accepts_iff (stoves "Stove B") 0).1]
    intro h
    exact h.noClash "Stove B" (by decide) (by decide)

end Puzzle

end KitchenScript
