import KitchenScript.Proofs.Kitchen.InPlace
import KitchenScript.Proofs.Kitchen.Stock

/-!
# Well-formed kitchens

What holds of a kitchen however it is used: its layout is the one it was built with, names tell
stations and modules apart, every module has the slots of its kind, and the chef is at a place that
exists.  A kitchen that is built from fresh modules and a filled pantry starts out that way, and no
call, whether it succeeds or fails, changes it.
-/

namespace KitchenScript

/-! ## Layouts -/

/-- What is fixed about a module. -/
def Module.fixture (m : Module) : ModuleKind × String × Bool :=
  (m.kind, m.name, m.locked)

def Station.fixtures (s : Station) : String × List (ModuleKind × String × Bool) :=
  (s.name, s.modules.map Module.fixture)

def Kitchen.layout (k : Kitchen) : List (String × List (ModuleKind × String × Bool)) :=
  k.stations.map Station.fixtures

theorem Bay.map_fixtures_fill (bay : Bay) {m m' : Module} (h : m'.fixture = m.fixture) :
    (bay.fill m').map Station.fixtures = (bay.fill m).map Station.fixtures := by
  simp [fill, Station.fixtures, h]

/-- The slots of a module are those of its kind, and an empty bay has nothing in it. -/
structure Module.WellFormed (m : Module) : Prop where
  slots : m.slots.length = m.kind.slotCount
  idle : m.kind = .none → m.slots = [] ∧ m.output = none

theorem Module.kind_ne_none_of_product {m : Module} {made : Food} (h : m.product = .ok made) :
    m.kind ≠ .none := by
  intro hkind
  simp [product, hkind] at h

namespace Kitchen

structure WellFormed (k : Kitchen) : Prop where
  threeBays : ∀ s ∈ k.stations, s.modules.length = 3
  stationNames : (k.stations.map Station.name).Nodup
  notReserved : ∀ s ∈ k.stations, s.name ≠ "Pantry" ∧ s.name ≠ "Window"
  moduleNames : (k.modules.map Module.name).Nodup
  modules : ∀ m ∈ k.modules, m.WellFormed
  stocked : Pantry.Stocked k.pantry.stock
  ordered : Pantry.Ordered k.pantry.stock
  placed : k.location = .pantry ∨ k.location = .window ∨
    ∃ s ∈ k.stations, k.location = .station s.name

variable {k k' : Kitchen}

theorem map_name_stations (k : Kitchen) :
    k.stations.map Station.name = k.layout.map Prod.fst := by
  simp [layout, Station.fixtures]

theorem map_name_modules (k : Kitchen) :
    k.modules.map Module.name = k.layout.flatMap fun s => s.2.map fun fixture => fixture.2.1 := by
  simp [layout, modules, Station.fixtures, Module.fixture, List.map_flatMap, List.flatMap_map,
    Function.comp_def]

theorem exists_station_of_layout (h : k'.layout = k.layout) {s' : Station}
    (hs' : s' ∈ k'.stations) :
    ∃ s ∈ k.stations, s.name = s'.name ∧ s.modules.length = s'.modules.length := by
  have hmem : s'.fixtures ∈ k.layout := by
    rw [← h]
    exact List.mem_map_of_mem hs'
  obtain ⟨s, hs, hfixtures⟩ := List.mem_map.mp hmem
  have hname : s.name = s'.name := congrArg Prod.fst hfixtures
  have hmodules : s.modules.map Module.fixture = s'.modules.map Module.fixture :=
    congrArg Prod.snd hfixtures
  have hlength := congrArg List.length hmodules
  rw [List.length_map, List.length_map] at hlength
  exact ⟨s, hs, hname, hlength⟩

/-- What is said of names and bays is said of the layout, so it stays with the layout. -/
theorem WellFormed.of_layout (h : k.WellFormed) (hlayout : k'.layout = k.layout)
    (hmodules : ∀ m ∈ k'.modules, m.WellFormed) (hpantry : k'.pantry = k.pantry)
    (hlocation : k'.location = k.location) : k'.WellFormed where
  threeBays := by
    intro s' hs'
    obtain ⟨s, hs, -, hlength⟩ := exists_station_of_layout hlayout hs'
    rw [← hlength]
    exact h.threeBays s hs
  stationNames := by
    rw [map_name_stations, hlayout, ← map_name_stations]
    exact h.stationNames
  notReserved := by
    intro s' hs'
    obtain ⟨s, hs, hname, -⟩ := exists_station_of_layout hlayout hs'
    rw [← hname]
    exact h.notReserved s hs
  moduleNames := by
    rw [map_name_modules, hlayout, ← map_name_modules]
    exact h.moduleNames
  modules := hmodules
  stocked := by
    rw [hpantry]
    exact h.stocked
  ordered := by
    rw [hpantry]
    exact h.ordered
  placed := by
    rw [hlocation]
    rcases h.placed with hpantry | hwindow | ⟨s, hs, hstation⟩
    · exact .inl hpantry
    · exact .inr (.inl hwindow)
    · obtain ⟨s', hs', hname, -⟩ := exists_station_of_layout hlayout.symm hs
      exact .inr (.inr ⟨s', hs', by rw [hstation, hname]⟩)

theorem WellFormed.fill (h : k.WellFormed) {bay : Bay} {m m' : Module}
    (hbay : k.stations = bay.fill m) (hm' : m'.WellFormed) (hfixture : m'.fixture = m.fixture)
    (hstations : k'.stations = bay.fill m') (hpantry : k'.pantry = k.pantry)
    (hlocation : k'.location = k.location) : k'.WellFormed := by
  refine h.of_layout ?_ ?_ hpantry hlocation
  · rw [layout, layout, hstations, hbay, bay.map_fixtures_fill hfixture]
  · intro other hother
    have hold := h.modules
    rw [Kitchen.modules, hstations, bay.modules_fill] at hother
    rw [Kitchen.modules, hbay, bay.modules_fill] at hold
    rcases List.mem_append.mp hother with hbefore | hrest
    · exact hold other (List.mem_append_left _ hbefore)
    · rcases List.mem_cons.mp hrest with rfl | hafter
      · exact hm'
      · exact hold other (List.mem_append_right _ (List.mem_cons_of_mem _ hafter))

theorem WellFormed.module (h : k.WellFormed) {bay : Bay} {m : Module}
    (hbay : k.stations = bay.fill m) : m.WellFormed := by
  apply h.modules
  rw [Kitchen.modules, hbay, bay.modules_fill]
  exact List.mem_append_right _ List.mem_cons_self

theorem placed_of_locate {name : String} {target : Location} (h : k.locate name = .ok target) :
    target = .pantry ∨ target = .window ∨ ∃ s ∈ k.stations, target = .station s.name := by
  unfold locate at h
  by_cases hpantry : name = "Pantry"
  · rw [if_pos hpantry] at h
    exact .inl (Except.ok.inj h).symm
  · by_cases hwindow : name = "Window"
    · rw [if_neg hpantry, if_pos hwindow] at h
      exact .inr (.inl (Except.ok.inj h).symm)
    · rw [if_neg hpantry, if_neg hwindow] at h
      by_cases hstation : k.stations.any fun s => s.name == name
      · rw [if_pos hstation] at h
        obtain ⟨s, hs, hname⟩ := List.any_eq_true.mp hstation
        have hname' : s.name = name := by simpa using hname
        refine .inr (.inr ⟨s, hs, ?_⟩)
        rw [hname']
        exact (Except.ok.inj h).symm
      · rw [if_neg hstation] at h
        cases h

theorem WellFormed.changes (h : k.WellFormed) {op : Operation} (hchange : Changes k op k') :
    k'.WellFormed := by
  cases hchange with
  | goto htarget => exact { h with placed := placed_of_locate htarget }
  | @get name pantry hat hpantry =>
      have hmore := Pantry.oneMore_of_take h.stocked hpantry
      exact { h with
        stocked := hmore.stocked_iff.mp h.stocked
        ordered := hmore.ordered h.ordered }
  | @place name item slot bay m i hm hbay hhands hkind hslot hi =>
      have hold := h.module hbay
      have hnew : Module.WellFormed { m with slots := m.slots.set i (some ⟨item⟩) } :=
        ⟨List.length_set.trans hold.slots, fun hnone => absurd hnone hkind⟩
      exact h.fill hbay hnew rfl rfl rfl rfl
  | @activate name bay m made hm hbay hmade =>
      have hold := h.module hbay
      have hkind := Module.kind_ne_none_of_product hmade
      have hnew : Module.WellFormed
          { m with slots := m.slots.map fun _ => none, output := some made } :=
        ⟨(List.length_map _).trans hold.slots, fun hnone => absurd hnone hkind⟩
      exact h.fill hbay hnew rfl rfl rfl rfl
  | @take name bay m hm hbay =>
      have hold := h.module hbay
      have hnew : Module.WellFormed { m with output := none } :=
        ⟨hold.slots, fun hnone => ⟨(hold.idle hnone).1, rfl⟩⟩
      exact h.fill hbay hnew rfl rfl rfl rfl
  | deliver hat hhands => exact { h with }

/-- What a later kitchen has of an earlier one. -/
structure Continues (k k' : Kitchen) : Prop where
  layout : k'.layout = k.layout
  required : k'.required = k.required
  delivered : k.delivered <+: k'.delivered

theorem Continues.refl (k : Kitchen) : Continues k k :=
  ⟨rfl, rfl, List.prefix_rfl⟩

theorem Continues.trans {k'' : Kitchen} (h : Continues k k') (h' : Continues k' k'') :
    Continues k k'' where
  layout := h'.layout.trans h.layout
  required := h'.required.trans h.required
  delivered := h.delivered.trans h'.delivered

theorem Changes.continues {op : Operation} (h : Changes k op k') : Continues k k' := by
  have hfill : ∀ (bay : Bay) (m m' : Module), k.stations = bay.fill m →
      m'.fixture = m.fixture → (bay.fill m').map Station.fixtures = k.layout := by
    intro bay m m' hbay hfixture
    rw [layout, hbay, bay.map_fixtures_fill hfixture]
  cases h with
  | goto _ | get _ _ => exact ⟨rfl, rfl, List.prefix_rfl⟩
  | place _ hbay _ _ _ _ => exact ⟨hfill _ _ _ hbay rfl, rfl, List.prefix_rfl⟩
  | activate _ hbay _ => exact ⟨hfill _ _ _ hbay rfl, rfl, List.prefix_rfl⟩
  | take _ hbay => exact ⟨hfill _ _ _ hbay rfl, rfl, List.prefix_rfl⟩
  | deliver _ _ => exact ⟨rfl, rfl, List.prefix_append _ _⟩

theorem WellFormed.attempt (h : k.WellFormed) (op : Operation) :
    (k.attempt op).WellFormed ∧ Continues k (k.attempt op) := by
  rcases attempt_cases h.moduleNames op with hchange | hsame
  · exact ⟨h.changes hchange, hchange.continues⟩
  · rw [hsame]
    exact ⟨h, Continues.refl k⟩

theorem WellFormed.attempts (h : k.WellFormed) (ops : List Operation) :
    (k.attempts ops).WellFormed ∧ Continues k (k.attempts ops) := by
  induction ops generalizing k with
  | nil => exact ⟨h, Continues.refl k⟩
  | cons op ops ih =>
      have hfirst := h.attempt op
      have hrest := ih hfirst.1
      exact ⟨hrest.1, hfirst.2.trans hrest.2⟩

end Kitchen

/-! ## Fresh kitchens -/

def Module.IsFresh (m : Module) : Prop :=
  ∃ kind name locked, m = Module.fresh kind name locked

/-- A station that is built from fresh modules. -/
def Station.IsFresh (s : Station) : Prop :=
  ∃ name modules, (∀ m ∈ modules, m.IsFresh) ∧ Station.build name modules = .ok s

/-- A kitchen that is built from fresh stations and a pantry filled unit by unit. -/
def Kitchen.IsFresh (k : Kitchen) : Prop :=
  ∃ stations items orders, (∀ s ∈ stations, s.IsFresh) ∧
    Kitchen.build stations (Pantry.ofItems items) orders = .ok k

theorem Module.IsFresh.wellFormed {m : Module} (h : m.IsFresh) : m.WellFormed := by
  obtain ⟨kind, name, locked, rfl⟩ := h
  constructor
  · exact List.length_replicate
  · intro hkind
    have hkind' : kind = .none := hkind
    subst hkind'
    exact ⟨rfl, rfl⟩

theorem Station.IsFresh.modules {s : Station} (h : s.IsFresh) :
    s.modules.length = 3 ∧ ∀ m ∈ s.modules, m.IsFresh := by
  obtain ⟨name, given, hgiven, hbuild⟩ := h
  unfold build at hbuild
  by_cases hmany : baysPerStation < given.length
  · rw [if_pos hmany] at hbuild
    cases hbuild
  · rw [if_neg hmany] at hbuild
    cases hbuild
    have hthree : baysPerStation = 3 := rfl
    constructor
    · simp only [List.length_append, List.length_map, List.length_range']
      omega
    · intro m hm
      rcases List.mem_append.mp hm with hold | hpadding
      · exact hgiven m hold
      · obtain ⟨index, -, rfl⟩ := List.mem_map.mp hpadding
        exact ⟨_, _, _, rfl⟩

namespace Kitchen

theorem names_of_checkModules {ms : List Module} {seen seen' : List String}
    (h : checkModules ms seen = .ok seen') :
    (ms.map Module.name).Nodup ∧ (∀ m ∈ ms, m.name ∉ seen) ∧
      ∀ name, name ∈ seen' ↔ name ∈ ms.map Module.name ∨ name ∈ seen := by
  induction ms generalizing seen with
  | nil =>
      cases h
      simp
  | cons m ms ih =>
      rw [checkModules] at h
      by_cases hseen : m.name ∈ seen
      · rw [if_pos hseen] at h
        cases h
      · rw [if_neg hseen] at h
        obtain ⟨hnodup, hnew, hseen'⟩ := ih h
        refine ⟨?_, ?_, ?_⟩
        · rw [List.map_cons, List.nodup_cons]
          refine ⟨?_, hnodup⟩
          intro hmem
          obtain ⟨other, hother, hname⟩ := List.mem_map.mp hmem
          apply hnew other hother
          rw [hname]
          exact List.mem_cons_self
        · intro other hother
          rcases List.mem_cons.mp hother with rfl | hrest
          · exact hseen
          · exact fun hmem => hnew other hrest (List.mem_cons_of_mem _ hmem)
        · intro name
          rw [hseen', List.map_cons, List.mem_cons, List.mem_cons, or_left_comm, or_assoc]

/-- What the check of the stations has made sure of when it passes. -/
theorem names_of_checkStations {stations : List Station} {seen seenModules : List String}
    (h : checkStations stations seen seenModules = .ok ()) :
    (stations.map Station.name).Nodup ∧
      (∀ s ∈ stations, s.name ∉ reservedNames ∧ s.name ∉ seen) ∧
      ((stations.flatMap Station.modules).map Module.name).Nodup ∧
      ∀ m ∈ stations.flatMap Station.modules, m.name ∉ seenModules := by
  induction stations generalizing seen seenModules with
  | nil => simp
  | cons s stations ih =>
      rw [checkStations] at h
      by_cases hreserved : s.name ∈ reservedNames
      · rw [if_pos hreserved] at h
        cases h
      · by_cases hseen : s.name ∈ seen
        · rw [if_neg hreserved, if_pos hseen] at h
          cases h
        · rw [if_neg hreserved, if_neg hseen] at h
          obtain ⟨seenModules', hmodules, hrest⟩ := exists_of_bind_eq_ok h
          obtain ⟨hown, hownNew, hseen'⟩ := names_of_checkModules hmodules
          obtain ⟨hnames, hnew, hnodup, hmodulesNew⟩ := ih hrest
          refine ⟨?_, ?_, ?_, ?_⟩
          · rw [List.map_cons, List.nodup_cons]
            refine ⟨?_, hnames⟩
            intro hmem
            obtain ⟨other, hother, hname⟩ := List.mem_map.mp hmem
            apply (hnew other hother).2
            rw [hname]
            exact List.mem_cons_self
          · intro other hother
            rcases List.mem_cons.mp hother with rfl | hmem
            · exact ⟨hreserved, hseen⟩
            · exact ⟨(hnew other hmem).1,
                fun hold => (hnew other hmem).2 (List.mem_cons_of_mem _ hold)⟩
          · -- the names of this station are among those the others are checked against
            rw [List.flatMap_cons, List.map_append, List.nodup_append]
            refine ⟨hown, hnodup, ?_⟩
            rintro name hname _ hname' rfl
            obtain ⟨m, hm, rfl⟩ := List.mem_map.mp hname'
            exact hmodulesNew m hm ((hseen' m.name).mpr (.inl hname))
          · intro m hm
            rw [List.flatMap_cons] at hm
            rcases List.mem_append.mp hm with hfirst | hlater
            · exact hownNew m hfirst
            · exact fun hold => hmodulesNew m hlater ((hseen' m.name).mpr (.inr hold))

/-- A kitchen is built from stations that pass the check, with nothing in hand or delivered. -/
theorem build_eq_ok_iff {stations : List Station} {pantry : Pantry} {orders : List Food}
    {k : Kitchen} :
    build stations pantry orders = .ok k ↔
      checkStations stations [] [] = .ok () ∧ k = ⟨.pantry, none, pantry, stations, orders, []⟩ := by
  constructor
  · intro h
    obtain ⟨_, hcheck, h⟩ := exists_of_bind_eq_ok h
    cases h
    exact ⟨hcheck, rfl⟩
  · rintro ⟨hcheck, rfl⟩
    rw [build, hcheck]
    rfl

theorem IsFresh.wellFormed {k : Kitchen} (h : k.IsFresh) : k.WellFormed := by
  obtain ⟨stations, items, orders, hstations, hbuild⟩ := h
  obtain ⟨hcheck, rfl⟩ := build_eq_ok_iff.mp hbuild
  obtain ⟨hnames, hnew, hmodules, -⟩ := names_of_checkStations hcheck
  obtain ⟨hstocked, hordered, -⟩ := Pantry.ofItems_spec items
  constructor
  · exact fun s hs => (hstations s hs).modules.1
  · exact hnames
  · intro s hs
    have hreserved := (hnew s hs).1
    simpa [reservedNames] using hreserved
  · exact hmodules
  · intro m hm
    obtain ⟨s, hs, hmem⟩ := List.mem_flatMap.mp hm
    exact ((hstations s hs).modules.2 m hmem).wellFormed
  · exact hstocked
  · exact hordered
  · exact .inl rfl

/-- Whatever calls are made in a fresh kitchen, it stays well-formed, with the layout and the
orders it was built with; further calls only add to what is delivered; and each call leaves what
the operation gives or, when that fails, nothing new. -/
theorem attempts_wellFormed {start : Kitchen} (h : start.IsFresh) (ops : List Operation) :
    let k := start.attempts ops
    k.WellFormed ∧ k.layout = start.layout ∧ k.required = start.required ∧
      (∀ more, k.delivered <+: (start.attempts (ops ++ more)).delivered) ∧
      ∀ op, k.attempt op =
        match op.carryOut k with
        | .ok effect => effect.kitchen
        | .error _ => k := by
  intro k
  have hrun := h.wellFormed.attempts ops
  refine ⟨hrun.1, hrun.2.layout, hrun.2.required, ?_, attempt_eq hrun.1.moduleNames⟩
  intro more
  have happend : start.attempts (ops ++ more) = k.attempts more := List.foldl_append
  have hmore := hrun.1.attempts more
  rw [happend]
  exact hmore.2.delivered

/-- A soup maker at one station, and the ingredients of the soup that is ordered. -/
def soup : Kitchen where
  location := .pantry
  hands := none
  pantry := .ofItems [⟨"Broth"⟩, ⟨"Tomato"⟩]
  stations := [⟨"Stove", [.fresh .soupMaker "soup" false, .fresh .none "Stove B" false,
    .fresh .none "Stove C" false]⟩]
  required := [⟨"Tomato Soup"⟩]
  delivered := []

theorem isFresh_soup : soup.IsFresh := by
  refine ⟨soup.stations, [⟨"Broth"⟩, ⟨"Tomato"⟩], soup.required, ?_, rfl⟩
  intro s hs
  cases List.mem_singleton.mp hs
  refine ⟨"Stove", [.fresh .soupMaker "soup" false], ?_, rfl⟩
  intro m hm
  exact ⟨_, _, _, List.mem_singleton.mp hm⟩

/-- The soup is made and delivered, with a first delivery away from the window, which fails. -/
def soupCalls : List Operation :=
  [.get "Broth", .place "soup" "Broth" .zero, .get "Tomato",
    .place "soup" "Tomato" ⟨1, by decide, by decide⟩, .activate "soup", .take "soup", .deliver,
    .goto "Window", .deliver]

theorem attempts_wellFormed_soup :
    soup.IsFresh ∧ (soup.attempts soupCalls).WellFormed ∧
      (soup.attempts soupCalls).layout = soup.layout ∧
      (soup.attempts soupCalls).delivered = [⟨"Tomato Soup"⟩] := by
  have hrun := attempts_wellFormed isFresh_soup soupCalls
  exact ⟨isFresh_soup, hrun.1, hrun.2.1, rfl⟩

end Kitchen

end KitchenScript
