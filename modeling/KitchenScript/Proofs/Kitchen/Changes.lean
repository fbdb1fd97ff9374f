import KitchenScript.Proofs.Run.Record

/-!
# What a kitchen operation changes

Every operation that succeeds makes one of six changes.  Three of them put another module in the
place of one; modules have different names, so this happens in a single bay, and the changes are
stated with the stations around that bay.
-/

namespace KitchenScript

theorem Number.toCount?_eq_some_iff {a : Number} {i : Nat} : a.toCount? = some i ↔ a.val = i := by
  unfold toCount?
  by_cases ha : 0 ≤ a.val
  · rw [if_pos ha, Option.some.injEq]
    omega
  · rw [if_neg ha]
    constructor
    · intro h
      cases h
    · intro h
      omega

/-! ## Bays -/

/-- Stations of which one bay is left open. -/
structure Bay where
  before : List Station
  station : String
  left : List Module
  right : List Module
  after : List Station

namespace Bay

def fill (bay : Bay) (m : Module) : List Station :=
  bay.before ++ ⟨bay.station, bay.left ++ m :: bay.right⟩ :: bay.after

def modulesBefore (bay : Bay) : List Module :=
  bay.before.flatMap Station.modules ++ bay.left

def modulesAfter (bay : Bay) : List Module :=
  bay.right ++ bay.after.flatMap Station.modules

theorem modules_fill (bay : Bay) (m : Module) :
    (bay.fill m).flatMap Station.modules = bay.modulesBefore ++ m :: bay.modulesAfter := by
  simp [fill, modulesBefore, modulesAfter]

end Bay

theorem map_eq_self {α : Type} {f : α → α} {l : List α} (h : ∀ a ∈ l, f a = a) : l.map f = l := by
  have hid : l.map f = l.map id := List.map_congr_left h
  rw [hid, List.map_id]

theorem Station.exchange_of_forall_ne {s : Station} {name : String}
    (h : ∀ old ∈ s.modules, old.name ≠ name) (m : Module) : s.exchange name m = s := by
  have hmap : s.modules.map (fun old => if old.name = name then m else old) = s.modules :=
    map_eq_self fun old hold => if_neg (h old hold)
  unfold exchange
  rw [hmap]

/-- An exchange by name goes into the open bay and nowhere else, if no other module has the name. -/
theorem Bay.map_exchange_fill (bay : Bay) {m : Module}
    (hbefore : ∀ other ∈ bay.modulesBefore, other.name ≠ m.name)
    (hafter : ∀ other ∈ bay.modulesAfter, other.name ≠ m.name) (m' : Module) :
    (bay.fill m).map (Station.exchange m.name m') = bay.fill m' := by
  have hstations : ∀ stations : List Station,
      (∀ other ∈ stations.flatMap Station.modules, other.name ≠ m.name) →
      stations.map (Station.exchange m.name m') = stations := by
    intro stations h
    apply map_eq_self
    intro s hs
    apply Station.exchange_of_forall_ne
    intro old hold
    exact h old (List.mem_flatMap.mpr ⟨s, hs, hold⟩)
  have hfirst := hstations bay.before fun other hother =>
    hbefore other (List.mem_append_left _ hother)
  have hlast := hstations bay.after fun other hother =>
    hafter other (List.mem_append_right _ hother)
  have hleft : bay.left.map (fun old => if old.name = m.name then m' else old) = bay.left :=
    map_eq_self fun old hold => if_neg (hbefore old (List.mem_append_right _ hold))
  have hright : bay.right.map (fun old => if old.name = m.name then m' else old) = bay.right :=
    map_eq_self fun old hold => if_neg (hafter old (List.mem_append_left _ hold))
  unfold fill
  rw [List.map_append, List.map_cons, hfirst, hlast, Station.exchange, List.map_append,
    List.map_cons, hleft, hright, if_pos rfl]

namespace Kitchen

variable {k : Kitchen} {name : String} {m : Module}

theorem module_eq_ok_iff : k.module name = .ok m ↔
    k.modules.find? (fun m => m.name == name) = some m := by
  unfold module
  cases k.modules.find? (fun m => m.name == name) with
  | none => simp
  | some found => simp

/-- A module that is looked up stands in a bay, and no module in front of it has its name. -/
theorem exists_bay (h : k.module name = .ok m) :
    ∃ bay : Bay, k.stations = bay.fill m ∧ m.name = name ∧
      ∀ other ∈ bay.modulesBefore, other.name ≠ m.name := by
  rw [module_eq_ok_iff, modules, List.find?_flatMap, List.findSome?_eq_some_iff] at h
  obtain ⟨before, s, after, hstations, hs, hnone⟩ := h
  obtain ⟨hname, left, right, hmodules, hleft⟩ := List.find?_eq_some_iff_append.mp hs
  have hname' : m.name = name := by simpa using hname
  refine ⟨⟨before, s.name, left, right, after⟩, ?_, hname', ?_⟩
  · rw [hstations, Bay.fill, ← hmodules]
  · intro other hother
    rw [hname']
    rcases List.mem_append.mp hother with hmem | hmem
    · obtain ⟨s', hs', hother'⟩ := List.mem_flatMap.mp hmem
      have hnot := List.find?_eq_none.mp (hnone s' hs') other hother'
      simpa using hnot
    · simpa using hleft other hmem

theorem name_of_module (hm : k.module name = .ok m) : m.name = name := by
  obtain ⟨-, -, hname, -⟩ := exists_bay hm
  exact hname

/-- Where modules have different names, no other module has the name of one that stands in a bay. -/
theorem name_ne_of_nodup (hk : (k.modules.map Module.name).Nodup) {bay : Bay}
    (hbay : k.stations = bay.fill m) :
    (∀ other ∈ bay.modulesBefore, other.name ≠ m.name) ∧
      ∀ other ∈ bay.modulesAfter, other.name ≠ m.name := by
  rw [modules, hbay, bay.modules_fill, List.map_append, List.map_cons] at hk
  have hsplit := List.nodup_append.mp hk
  have hrest := List.nodup_cons.mp hsplit.2.1
  constructor
  · intro other hother
    exact hsplit.2.2 _ (List.mem_map_of_mem hother) _ List.mem_cons_self
  · intro other hother heq
    apply hrest.1
    rw [← heq]
    exact List.mem_map_of_mem hother

theorem exchange_eq (hk : (k.modules.map Module.name).Nodup) {bay : Bay}
    (hbay : k.stations = bay.fill m) (m' : Module) :
    k.exchange m.name m' = { k with stations := bay.fill m' } := by
  have hothers := name_ne_of_nodup hk hbay
  have hmap := bay.map_exchange_fill hothers.1 hothers.2 m'
  unfold exchange
  rw [hbay, hmap]

theorem requireAt_eq_ok_iff {action : String} {required : Location} :
    k.requireAt action required = .ok () ↔ k.location = required := by
  unfold requireAt
  by_cases hat : k.location = required
  · simp [hat]
  · simp [hat]

theorem holding_eq_ok_iff {item : String} {held : Food} :
    k.holding item = .ok held ↔ k.hands = some ⟨item⟩ ∧ held = ⟨item⟩ := by
  unfold holding
  cases hhands : k.hands with
  | none => simp
  | some food =>
      obtain ⟨foodName⟩ := food
      by_cases hname : foodName = item
      · simp [hname, eq_comm]
      · simp [hname]

end Kitchen

theorem Module.place_eq_ok_iff {m m' : Module} {item : Food} {slot : Number} :
    m.place item slot = .ok m' ↔ m.kind ≠ .none ∧ ∃ i : Nat, slot.val = i ∧ i < m.slots.length ∧
      m' = { m with slots := m.slots.set i (some item) } := by
  unfold place
  by_cases hkind : m.kind = .none
  · simp [hkind]
  · cases hcount : slot.toCount? with
    | none =>
        have hslot : ∀ i : Nat, slot.val ≠ i := by
          intro i hi
          rw [Number.toCount?_eq_some_iff.mpr hi] at hcount
          cases hcount
        simp [hkind, hslot]
    | some i =>
        have hslot : slot.val = i := Number.toCount?_eq_some_iff.mp hcount
        have hunique : ∀ j : Nat, slot.val = j → j = i := by
          intro j hj
          omega
        simp only [hkind, if_false]
        by_cases hi : i < m.slots.length
        · rw [if_pos hi]
          constructor
          · intro h
            cases h
            exact ⟨hkind, i, hslot, hi, rfl⟩
          · rintro ⟨-, j, hj, -, rfl⟩
            rw [hunique j hj]
        · rw [if_neg hi]
          constructor
          · intro h
            cases h
          · rintro ⟨-, j, hj, hlt, -⟩
            rw [hunique j hj] at hlt
            exact absurd hlt hi

theorem Module.activate_eq_ok_iff {m m' : Module} {made : Food} :
    m.activate = .ok (made, m') ↔ m.product = .ok made ∧
      m' = { m with slots := m.slots.map fun _ => none, output := some made } := by
  unfold activate
  cases hproduct : m.product with
  | error e => simp [bind, Except.bind]
  | ok food =>
      constructor
      · intro h
        cases h
        exact ⟨rfl, rfl⟩
      · rintro ⟨h, rfl⟩
        cases h
        rfl

/-! ## The changes -/

namespace Kitchen

/-- An operation that succeeds, with what made it possible and the kitchen after it. -/
inductive Changes (k : Kitchen) : Operation → Kitchen → Prop where
  | goto {name : String} {target : Location} (htarget : k.locate name = .ok target) :
      Changes k (.goto name) { k with location := target }
  | get {name : String} {pantry : Pantry} (hat : k.location = .pantry)
      (hpantry : k.pantry.take ⟨name⟩ = .ok pantry) :
      Changes k (.get name) { k with pantry := pantry, hands := some ⟨name⟩ }
  | place {name item : String} {slot : Number} {bay : Bay} {m : Module} {i : Nat}
      (hm : k.module name = .ok m) (hbay : k.stations = bay.fill m)
      (hhands : k.hands = some ⟨item⟩) (hkind : m.kind ≠ .none) (hslot : slot.val = i)
      (hi : i < m.slots.length) :
      Changes k (.place name item slot)
        { k with
          hands := none
          stations := bay.fill { m with slots := m.slots.set i (some ⟨item⟩) } }
  | activate {name : String} {bay : Bay} {m : Module} {made : Food}
      (hm : k.module name = .ok m) (hbay : k.stations = bay.fill m)
      (hmade : m.product = .ok made) :
      Changes k (.activate name)
        { k with
          stations := bay.fill
            { m with slots := m.slots.map fun _ => none, output := some made } }
  | take {name : String} {bay : Bay} {m : Module} (hm : k.module name = .ok m)
      (hbay : k.stations = bay.fill m) :
      Changes k (.take name)
        { k with hands := m.output, stations := bay.fill { m with output := none } }
  | deliver {item : Food} (hat : k.location = .window) (hhands : k.hands = some item) :
      Changes k .deliver { k with hands := none, delivered := k.delivered ++ [item] }

variable {k k' : Kitchen}

theorem changes_of_goto {name : String} {target : Location} (h : k.goto name = .ok (target, k')) :
    Changes k (.goto name) k' := by
  obtain ⟨place, hplace, h⟩ := exists_of_bind_eq_ok h
  cases h
  exact .goto hplace

theorem changes_of_get {name : String} {item : Food} (h : k.get name = .ok (item, k')) :
    Changes k (.get name) k' := by
  obtain ⟨_, hat, h⟩ := exists_of_bind_eq_ok h
  obtain ⟨pantry, hpantry, h⟩ := exists_of_bind_eq_ok h
  cases h
  exact .get (requireAt_eq_ok_iff.mp hat) hpantry

theorem changes_of_deliver {item : Food} (h : k.deliver = .ok (item, k')) :
    Changes k .deliver k' := by
  obtain ⟨_, hat, h⟩ := exists_of_bind_eq_ok h
  cases hhands : k.hands with
  | none =>
      rw [hhands] at h
      cases h
  | some held =>
      rw [hhands] at h
      cases h
      exact .deliver (requireAt_eq_ok_iff.mp hat) hhands

variable (hk : (k.modules.map Module.name).Nodup)

include hk

theorem changes_of_place {name item : String} {slot : Number}
    (h : k.place name item slot = .ok k') : Changes k (.place name item slot) k' := by
  obtain ⟨m, hm, h⟩ := exists_of_bind_eq_ok h
  obtain ⟨held, hheld, h⟩ := exists_of_bind_eq_ok h
  obtain ⟨m', hm', h⟩ := exists_of_bind_eq_ok h
  obtain ⟨bay, hbay, hname, -⟩ := exists_bay hm
  obtain ⟨hhands, rfl⟩ := holding_eq_ok_iff.mp hheld
  obtain ⟨hkind, i, hslot, hi, rfl⟩ := Module.place_eq_ok_iff.mp hm'
  rw [← hname, exchange_eq hk hbay] at h
  cases h
  exact .place hm hbay hhands hkind hslot hi

theorem changes_of_activate {name : String} {made : Food}
    (h : k.activate name = .ok (made, k')) : Changes k (.activate name) k' := by
  obtain ⟨m, hm, h⟩ := exists_of_bind_eq_ok h
  obtain ⟨⟨food, m'⟩, hm', h⟩ := exists_of_bind_eq_ok h
  obtain ⟨bay, hbay, hname, -⟩ := exists_bay hm
  obtain ⟨hmade, rfl⟩ := Module.activate_eq_ok_iff.mp hm'
  rw [← hname] at h
  dsimp only at h
  rw [exchange_eq hk hbay] at h
  cases h
  exact .activate hm hbay hmade

theorem changes_of_take {name : String} {output : Option Food}
    (h : k.take name = .ok (output, k')) : Changes k (.take name) k' := by
  obtain ⟨m, hm, h⟩ := exists_of_bind_eq_ok h
  obtain ⟨bay, hbay, hname, -⟩ := exists_bay hm
  rw [Module.take, ← hname] at h
  dsimp only at h
  rw [exchange_eq hk hbay] at h
  cases h
  exact .take hm hbay

theorem changes_of_occurs {op : Operation} {entry : Entry}
    (h : Occurs k (.operation op) entry k') : Changes k op k' := by
  cases h with
  | goto h => exact changes_of_goto h
  | get h => exact changes_of_get h
  | place h => exact changes_of_place hk h
  | activate h => exact changes_of_activate hk h
  | take h => exact changes_of_take hk h
  | takeNothing h => exact changes_of_take hk h
  | deliver h => exact changes_of_deliver h

theorem changes_of_carryOut {op : Operation} {effect : Effect}
    (h : op.carryOut k = .ok effect) : Changes k op effect.kitchen :=
  changes_of_occurs hk (occurs_of_carryOut h)

end Kitchen

end KitchenScript
