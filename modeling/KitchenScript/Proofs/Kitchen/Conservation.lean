import KitchenScript.Proofs.Kitchen.WellFormed
import KitchenScript.Puzzle.Submission
import Mathlib.Algebra.BigOperators.Group.List.Basic

/-!
# Conservation of food

The food of a kitchen is in the pantry, in the hands, in the modules or delivered.  No operation adds
to it: each moves food from one of these places to another, and what it does not move it discards,
an amount that can be told before the operation.  So a run cannot deliver more than the pantry held
at its start.
-/

namespace KitchenScript

/-! ## Modules -/

/-- The amount of food in a place that has room for one item. -/
def Food.amount (place : Option Food) : Nat :=
  if place.isSome then 1 else 0

namespace Module

variable {m : Module}

/-- The items in the slots and the output of a module. -/
def food (m : Module) : Nat :=
  m.slots.countP Option.isSome + Food.amount m.output

/-- What is in the slot with this number, if there is one. -/
def inSlot (m : Module) (slot : Number) : Option Food :=
  (slot.toCount?.bind fun i => m.slots[i]?).join

theorem food_place {slot : Number} {i : Nat} (hslot : slot.val = i) (hi : i < m.slots.length)
    (item : Food) :
    food { m with slots := m.slots.set i (some item) } + Food.amount (m.inSlot slot) =
      m.food + 1 := by
  have hcount : slot.toCount? = some i := Number.toCount?_eq_some_iff.mpr hslot
  have hinSlot : m.inSlot slot = m.slots[i] := by
    simp [inSlot, hcount, hi]
  have hset : (m.slots.set i (some item)).countP Option.isSome =
      m.slots.countP Option.isSome - Food.amount m.slots[i] + 1 :=
    List.countP_set hi
  have hle : Food.amount m.slots[i] ≤ m.slots.countP Option.isSome :=
    List.boole_getElem_le_countP hi
  rw [hinSlot]
  unfold food
  dsimp only
  omega

theorem food_take (m : Module) : food { m with output := none } + Food.amount m.output = m.food :=
  rfl

theorem mem_slots_of_filled {slot : Nat} {item : Food} (h : m.filled slot = .ok item) :
    m.slots[slot]? = some (some item) := by
  unfold filled at h
  split at h
  · cases h
    assumption
  · cases h

/-- Each check of a slot begins with what is in it. -/
theorem exists_filled {slot : Nat} {item : Food} {check : Food → Except KitchenError Food}
    (h : (m.filled slot >>= check) = .ok item) : ∃ item, m.slots[slot]? = some (some item) := by
  obtain ⟨found, hfound, -⟩ := exists_of_bind_eq_ok h
  exact ⟨found, mem_slots_of_filled hfound⟩

/-- A recipe looks into every slot of its kind. -/
theorem exists_of_product {made : Food} (h : m.product = .ok made) {i : Nat}
    (hi : i < m.kind.slotCount) : ∃ item, m.slots[i]? = some (some item) := by
  unfold product at h
  cases hkind : m.kind with
  | slicer | grinder =>
      rw [hkind] at h hi
      obtain ⟨_, hfirst, -⟩ := exists_of_bind_eq_ok h
      have hzero : i = 0 := Nat.lt_one_iff.mp hi
      rw [hzero]
      exact exists_filled hfirst
  | soupMaker | fryer | griddle =>
      rw [hkind] at h hi
      obtain ⟨_, hfirst, h⟩ := exists_of_bind_eq_ok h
      obtain ⟨_, hsecond, -⟩ := exists_of_bind_eq_ok h
      match i, hi with
      | 0, _ => exact exists_filled hfirst
      | 1, _ => exact exists_filled hsecond
  | barbecueSaucer =>
      rw [hkind] at h hi
      obtain ⟨_, hfirst, h⟩ := exists_of_bind_eq_ok h
      obtain ⟨_, hsecond, h⟩ := exists_of_bind_eq_ok h
      obtain ⟨_, hthird, -⟩ := exists_of_bind_eq_ok h
      match i, hi with
      | 0, _ => exact exists_filled hfirst
      | 1, _ => exact exists_filled hsecond
      | 2, _ => exact exists_filled hthird
  | burgerBuilder =>
      rw [hkind] at h hi
      obtain ⟨_, hfirst, h⟩ := exists_of_bind_eq_ok h
      obtain ⟨filling, hsecond, h⟩ := exists_of_bind_eq_ok h
      obtain ⟨_, hthird, h⟩ := exists_of_bind_eq_ok h
      obtain ⟨_, hfourth, -⟩ := exists_of_bind_eq_ok h
      match i, hi with
      | 0, _ => exact exists_filled hfirst
      | 1, _ => exact ⟨filling, mem_slots_of_filled hsecond⟩
      | 2, _ => exact exists_filled hthird
      | 3, _ => exact exists_filled hfourth
  | none =>
      rw [hkind] at hi
      cases hi

theorem food_activate (hm : m.WellFormed) {made : Food} (h : m.product = .ok made) :
    food { m with slots := m.slots.map fun _ => none, output := some made } +
      (m.kind.slotCount - 1 + Food.amount m.output) = m.food := by
  -- every slot was looked into, so every slot was filled and all of it is used up
  have hfilled : m.slots.countP Option.isSome = m.slots.length := by
    rw [List.countP_eq_length]
    intro place hplace
    obtain ⟨i, hi, rfl⟩ := List.mem_iff_getElem.mp hplace
    obtain ⟨item, hitem⟩ := exists_of_product h (hm.slots ▸ hi)
    rw [List.getElem?_eq_getElem hi, Option.some.injEq] at hitem
    rw [hitem]
    rfl
  have hempty : (m.slots.map fun _ => (none : Option Food)).countP Option.isSome = 0 := by
    simp
  have hslots : 0 < m.kind.slotCount := by
    have hkind := kind_ne_none_of_product h
    cases hkind' : m.kind with
    | none => exact absurd hkind' hkind
    | _ => decide
  have hmade : Food.amount (some made) = 1 := rfl
  unfold food
  dsimp only
  rw [hfilled, hempty, hm.slots, hmade]
  omega

theorem IsFresh.food_eq_zero (h : m.IsFresh) : m.food = 0 := by
  obtain ⟨kind, name, locked, rfl⟩ := h
  simp [food, fresh, Food.amount]

end Module

theorem Bay.sum_food_fill (bay : Bay) (m m' : Module) :
    (((bay.fill m').flatMap Station.modules).map Module.food).sum + m.food =
      (((bay.fill m).flatMap Station.modules).map Module.food).sum + m'.food := by
  rw [bay.modules_fill, bay.modules_fill]
  simp only [List.map_append, List.map_cons, List.sum_append, List.sum_cons]
  omega

/-! ## Operations -/

namespace Kitchen

/-- All food of the kitchen. -/
def size (k : Kitchen) : Nat :=
  k.pantry.units + Food.amount k.hands + (k.modules.map Module.food).sum + k.delivered.length

end Kitchen

/-- The food that is gone after an operation if the operation succeeds: what the chef drops for
another item, what another item replaces in a slot, and of the items that a recipe uses up all but
one, together with a product that was still waiting. -/
def Operation.discards (k : Kitchen) : Operation → Nat
  | goto _ | deliver => 0
  | get _ | take _ => Food.amount k.hands
  | place name _ slot =>
    match k.module name with
    | .ok m => Food.amount (m.inSlot slot)
    | .error _ => 0
  | activate name =>
    match k.module name with
    | .ok m => m.kind.slotCount - 1 + Food.amount m.output
    | .error _ => 0

namespace Kitchen

variable {k k' : Kitchen}

theorem Changes.size_eq (h : k.WellFormed) {op : Operation} (hchange : Changes k op k') :
    k'.size + op.discards k = k.size := by
  have hnone : Food.amount none = 0 := rfl
  have hsome : ∀ item, Food.amount (some item) = 1 := fun _ => rfl
  cases hchange with
  | goto _ => rfl
  | @get name pantry hat hpantry =>
      have hunits : k.pantry.units = pantry.units + 1 :=
        (Pantry.oneMore_of_take h.stocked hpantry).sum_eq
      simp only [size, Operation.discards, modules, hsome]
      omega
  | @place name item slot bay m i hm hbay hhands hkind hslot hi =>
      have hplace := Module.food_place hslot hi ⟨item⟩
      have hsum := bay.sum_food_fill m { m with slots := m.slots.set i (some ⟨item⟩) }
      simp only [size, modules, Operation.discards, hm, hbay, hhands, hnone, hsome]
      omega
  | @activate name bay m made hm hbay hmade =>
      have hactivate := Module.food_activate (h.module hbay) hmade
      have hsum := bay.sum_food_fill m
        { m with slots := m.slots.map fun _ => none, output := some made }
      simp only [size, modules, Operation.discards, hm, hbay]
      omega
  | @take name bay m hm hbay =>
      have htake := m.food_take
      have hsum := bay.sum_food_fill m { m with output := none }
      simp only [size, modules, Operation.discards, hbay]
      omega
  | deliver hat hhands =>
      simp only [size, Operation.discards, modules, hhands, hnone, hsome, List.length_append,
        List.length_singleton]
      omega

theorem Changes.size_le (h : k.WellFormed) {op : Operation} (hchange : Changes k op k') :
    k'.size ≤ k.size := by
  have heq := hchange.size_eq h
  omega

theorem size_of_build {stations : List Station} {pantry : Pantry} {orders : List Food}
    (hstations : ∀ s ∈ stations, s.IsFresh) (h : build stations pantry orders = .ok k) :
    k.size = pantry.units := by
  obtain ⟨-, rfl⟩ := build_eq_ok_iff.mp h
  have hfood : ((stations.flatMap Station.modules).map Module.food).sum = 0 := by
    apply List.sum_eq_zero
    intro n hn
    obtain ⟨m, hm, rfl⟩ := List.mem_map.mp hn
    obtain ⟨s, hs, hmem⟩ := List.mem_flatMap.mp hm
    exact ((hstations s hs).modules.2 m hmem).food_eq_zero
  simp only [size, modules, hfood]
  rfl

end Kitchen

/-! ## Runs -/

/-- A kitchen in the course of a run: well-formed, and with no more food than at the start. -/
structure Kitchen.Supplies (start k : Kitchen) : Prop where
  wellFormed : k.WellFormed
  continues : Kitchen.Continues start k
  size : k.size ≤ start.size

theorem Kitchen.Supplies.occurs {start k k' : Kitchen} {request : Request} {entry : Entry}
    (h : start.Supplies k) (hoccurs : Occurs k request entry k') : start.Supplies k' := by
  cases request with
  | print v =>
      cases hoccurs
      exact h
  | operation op =>
      have hchange := Kitchen.changes_of_occurs h.wellFormed.moduleNames hoccurs
      exact ⟨h.wellFormed.changes hchange, h.continues.trans hchange.continues,
        Nat.le_trans (hchange.size_le h.wellFormed) h.size⟩

theorem Program.supplies_run {k : Kitchen} (h : k.WellFormed) (limits : Limits) (p : Program) :
    k.Supplies (p.run limits k).kitchen := by
  obtain ⟨last, hlast, hrun⟩ := Config.exists_endsIn limits k p
  have hstart : k.Supplies (Config.initial k p).machine.kitchen :=
    ⟨h, Kitchen.Continues.refl k, Nat.le_refl _⟩
  have hstep : ∀ c c' : Config, Config.Change limits c c' →
      k.Supplies c.machine.kitchen → k.Supplies c'.machine.kitchen := by
    intro c c' hchange hc
    rcases hchange.occurs with ⟨request, entry, hoccurs, -⟩ | ⟨hsame, -⟩
    · exact hc.occurs hoccurs
    · rw [hsame]
      exact hc
  rw [← hrun, Config.run_kitchen]
  exact hlast.1.invariant hstep hstart

theorem Program.delivered_of_success {limits : Limits} {k : Kitchen} {p : Program}
    (h : (p.run limits k).report.outcome = .success) :
    (p.run limits k).kitchen.delivered = (p.run limits k).kitchen.required := by
  unfold run at h ⊢
  cases hexecute : execute limits p.stmts (.forKitchen k) with
  | mk result m =>
      rw [hexecute] at h
      cases result with
      | error e => cases h
      | ok flow =>
          dsimp only at h ⊢
          unfold Kitchen.verdict at h
          by_cases hmet : m.kitchen.ordersMet
          · exact eq_of_beq hmet
          · rw [if_neg hmet] at h
            cases h

/-! ## Puzzles -/

theorem ModulePlan.isFresh_of_build {plan : ModulePlan} {station : String} {index : Nat}
    {m : Module} (h : plan.build station index = .ok m) : m.IsFresh := by
  obtain ⟨kind, -, h⟩ := exists_of_bind_eq_ok h
  cases h
  exact ⟨_, _, _, rfl⟩

namespace StationPlan

theorem isFresh_of_buildModules {station : String} {plans : List ModulePlan} {index : Nat}
    {modules : List Module} (h : buildModules station plans index = .ok modules) :
    ∀ m ∈ modules, m.IsFresh := by
  induction plans generalizing index modules with
  | nil =>
      cases h
      simp
  | cons plan plans ih =>
      obtain ⟨first, hfirst, h⟩ := exists_of_bind_eq_ok h
      obtain ⟨rest, hrest, h⟩ := exists_of_bind_eq_ok h
      cases h
      exact List.forall_mem_cons.mpr ⟨ModulePlan.isFresh_of_build hfirst, ih hrest⟩

theorem isFresh_of_buildAll {plans : List StationPlan} {stations : List Station}
    (h : buildAll plans = .ok stations) : ∀ s ∈ stations, s.IsFresh := by
  induction plans generalizing stations with
  | nil =>
      cases h
      simp
  | cons plan plans ih =>
      obtain ⟨first, hfirst, h⟩ := exists_of_bind_eq_ok h
      obtain ⟨rest, hrest, h⟩ := exists_of_bind_eq_ok h
      cases h
      obtain ⟨modules, hmodules, hbuild⟩ := exists_of_bind_eq_ok hfirst
      exact List.forall_mem_cons.mpr
        ⟨⟨_, modules, isFresh_of_buildModules hmodules, hbuild⟩, ih hrest⟩

end StationPlan

theorem inLayout_eq_ok {α : Type} {result : Except KitchenError α} {a : α}
    (h : inLayout result = .ok a) : result = .ok a := by
  cases result with
  | error e => cases h
  | ok a' =>
      cases h
      rfl

namespace Puzzle

theorem isFresh_of_buildStations {p : Puzzle} {stations : List Station}
    (h : p.buildStations = .ok stations) : ∀ s ∈ stations, s.IsFresh := by
  unfold buildStations at h
  dsimp only at h
  split at h
  · cases h
  · exact StationPlan.isFresh_of_buildAll (inLayout_eq_ok h)

theorem exists_of_kitchenFor {p : Puzzle} {index : Nat} {k : Kitchen}
    (h : p.kitchenFor index = .ok k) :
    ∃ orders stations, p.testCases[index]? = some orders ∧ (∀ s ∈ stations, s.IsFresh) ∧
      Kitchen.build stations (.ofItems (p.starterPantry.map Food.mk)) (orders.map Food.mk) =
        .ok k := by
  unfold kitchenFor at h
  cases horders : p.testCases[index]? with
  | none =>
      rw [horders] at h
      cases h
  | some orders =>
      rw [horders] at h
      obtain ⟨stations, hstations, hbuild⟩ := exists_of_bind_eq_ok h
      exact ⟨orders, stations, rfl, isFresh_of_buildStations hstations, inLayout_eq_ok hbuild⟩

theorem length_orders_le {p : Puzzle} {program : Program} {limits : Limits} {index : Nat}
    {result : CaseResult} (h : p.runCase program limits index = .ok result)
    (hsuccess : result.report.outcome = .success) :
    result.orders.length ≤ p.starterPantry.length := by
  obtain ⟨k, hk, h⟩ := exists_of_bind_eq_ok h
  cases h
  obtain ⟨orders, stations, horders, hstations, hbuild⟩ := exists_of_kitchenFor hk
  have hfresh : k.IsFresh := ⟨stations, _, _, hstations, hbuild⟩
  have hrequired : k.required.length = orders.length := by
    obtain ⟨_, -, hbuild⟩ := exists_of_bind_eq_ok hbuild
    cases hbuild
    exact List.length_map _
  have hrun := Program.supplies_run hfresh.wellFormed limits program
  have hdelivered := Program.delivered_of_success hsuccess
  -- the orders were delivered, and what is delivered was in the pantry at the start
  calc
    ((p.testCases[index]?).getD []).length = k.required.length := by
      rw [horders, Option.getD_some, hrequired]
    _ = (program.run limits k).kitchen.delivered.length := by
      rw [hdelivered, hrun.continues.required]
    _ ≤ (program.run limits k).kitchen.size := Nat.le_add_left _ _
    _ ≤ k.size := hrun.size
    _ = p.starterPantry.length := by
      rw [Kitchen.size_of_build hstations hbuild, (Pantry.ofItems_spec _).2.2, List.length_map]

end Puzzle

/-- Food is moved and used up, and never made from nothing: no call adds to the food of a kitchen,
one that fails leaves it as it is, and one that succeeds takes away exactly what it discards.  So
no case of a puzzle can be solved that has more orders than the pantry has items. -/
theorem food_never_duplicated :
    (∀ (start : Kitchen) (ops : List Operation) (op : Operation), start.IsFresh →
      let k := start.attempts ops
      (k.attempt op).size ≤ k.size ∧
        (∀ e, op.carryOut k = .error e → (k.attempt op).size = k.size) ∧
        ∀ effect, op.carryOut k = .ok effect →
          k.attempt op = effect.kitchen ∧ (k.attempt op).size + op.discards k = k.size) ∧
      ∀ (p : Puzzle) (program : Program) (limits : Limits) (index : Nat) (result : CaseResult),
        p.runCase program limits index = .ok result → result.report.outcome = .success →
          result.orders.length ≤ p.starterPantry.length := by
  constructor
  · intro start ops op hstart k
    have hk : k.WellFormed := (hstart.wellFormed.attempts ops).1
    have hattempt := Kitchen.attempt_eq hk.moduleNames op
    rw [hattempt]
    cases heffect : op.carryOut k with
    | error e =>
        refine ⟨Nat.le_refl _, fun _ _ => rfl, ?_⟩
        intro effect heq
        cases heq
    | ok effect =>
        have hchange := Kitchen.changes_of_carryOut hk.moduleNames heffect
        refine ⟨hchange.size_le hk, ?_, ?_⟩
        · intro e heq
          cases heq
        · intro effect' heq
          cases heq
          exact ⟨rfl, hchange.size_eq hk⟩
  · intro p program limits index result
    exact Puzzle.length_orders_le

/-- Making the soup uses up two ingredients for one product; the egg that is ordered is delivered
from a pantry with one egg. -/
theorem food_never_duplicated_soup :
    let k := Kitchen.soup.attempts (Kitchen.soupCalls.take 4)
    let p : Puzzle := ⟨"Breakfast", 1, [["Egg"]], ["Egg"], "", 0, [], false, .standard, ""⟩
    let call : Builtin → List String → Stmt := fun callee args =>
      .expr (.point .start) (.builtin (.point .start) callee (args.map (.text (.point .start))))
    let program : Program := ⟨.point .start,
      [call .get ["Egg"], call .goto ["Window"], call .deliver []]⟩
    ∃ result, Kitchen.soup.IsFresh ∧ (k.attempt (.activate "soup")).size + 1 = k.size ∧
      p.runCase program .standard 0 = .ok result ∧ result.report.outcome = .success ∧
      result.orders.length ≤ 1 := by
  intro k p call program
  have hsoup := food_never_duplicated.1 Kitchen.soup (Kitchen.soupCalls.take 4)
    (.activate "soup") Kitchen.isFresh_soup
  have hcase := food_never_duplicated.2 p program .standard 0 _ rfl rfl
  exact ⟨_, Kitchen.isFresh_soup, (hsoup.2.2 _ rfl).2, rfl, rfl, hcase⟩

end KitchenScript
