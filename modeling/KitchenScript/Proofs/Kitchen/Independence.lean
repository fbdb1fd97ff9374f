import KitchenScript.Proofs.Kitchen.WellFormed

/-!
# Independent calls

Calls that have nothing to do with each other can be made in either order.  To activate a module
concerns nobody who does not use that module, and to walk concerns nobody who only works on modules:
in both orders the two calls have the same outcomes, errors included, and leave the same kitchen.

An activation is decided by the module alone and a walk by the place it goes to.  So two things are
enough: the other call leaves alone what decides, and it does not notice what has been changed.
-/

namespace KitchenScript

/-! ## What the calls are about -/

namespace Operation

/-- The module that an operation is about. -/
def module? : Operation → Option String
  | place module _ _ => some module
  | activate module => some module
  | take module => some module
  | goto _ | get _ | deliver => none

/-- Operations of which neither uses what the other one changes. -/
inductive Independent : Operation → Operation → Prop where
  | activate {name : String} {op : Operation} (h : op.module? ≠ some name) :
      Independent (.activate name) op
  | goto {name : String} {op : Operation} (h : op.module?.isSome) : Independent (.goto name) op

/-- What a call answers: the value and the entry for the log, or the error. -/
def outcome (k : Kitchen) (op : Operation) : Except KitchenError (Value × Entry) :=
  (op.carryOut k).map fun effect => (effect.answer, effect.entry)

end Operation

/-- Whichever of the two calls is made first, both have the outcomes that they have alone, and the
kitchen after them is the same. -/
structure Kitchen.Commutes (k : Kitchen) (a b : Operation) : Prop where
  first : a.outcome (k.attempt b) = a.outcome k
  second : b.outcome (k.attempt a) = b.outcome k
  kitchen : (k.attempt a).attempt b = (k.attempt b).attempt a

/-! ## Other modules and other places -/

theorem Module.name_of_place {m m' : Module} {item : Food} {slot : Number}
    (h : m.place item slot = .ok m') : m'.name = m.name := by
  obtain ⟨-, -, -, -, rfl⟩ := place_eq_ok_iff.mp h
  rfl

theorem Module.name_of_activate {m : Module} {result : Food × Module}
    (h : m.activate = .ok result) : result.2.name = m.name := by
  obtain ⟨-, heq⟩ := activate_eq_ok_iff.mp h
  rw [heq]

namespace Kitchen

variable {k k' : Kitchen} {name other : String} {m m' : Module}

theorem modules_exchange (k : Kitchen) (name : String) (m : Module) :
    (k.exchange name m).modules = k.modules.map fun old => if old.name = name then m else old := by
  simp [modules, exchange, Station.exchange, List.flatMap_map, List.map_flatMap]

theorem module_exchange_of_ne (hm : m.name = name) (hne : other ≠ name) :
    (k.exchange name m).module other = k.module other := by
  have hfind : ∀ ms : List Module,
      (ms.map fun old => if old.name = name then m else old).find? (fun m => m.name == other) =
        ms.find? fun m => m.name == other := by
    intro ms
    induction ms with
    | nil => rfl
    | cons old ms ih =>
        rw [List.map_cons]
        by_cases hold : old.name = name
        · rw [if_pos hold, List.find?_cons_of_neg (by simp [hm, hne.symm]),
            List.find?_cons_of_neg (by simp [hold, hne.symm]), ih]
        · rw [if_neg hold, List.find?_cons, List.find?_cons, ih]
  rw [module, module, modules_exchange, hfind]

theorem exchange_comm (hm : m.name = name) (hm' : m'.name = other) (hne : other ≠ name) :
    (k.exchange name m).exchange other m' = (k.exchange other m').exchange name m := by
  have hmodule : ∀ old : Module,
      (if (if old.name = name then m else old).name = other then m'
        else if old.name = name then m else old) =
      (if (if old.name = other then m' else old).name = name then m
        else if old.name = other then m' else old) := by
    intro old
    by_cases hold : old.name = name
    · simp [hold, hm, hne.symm]
    · by_cases hold' : old.name = other
      · simp [hold', hm', hne]
      · simp [hold, hold']
  simp [exchange, Station.exchange, Function.comp_def, hmodule]

theorem locate_of_map_name (h : k'.stations.map Station.name = k.stations.map Station.name)
    (place : String) : k'.locate place = k.locate place := by
  have hany : ∀ stations : List Station, (stations.any fun s => s.name == place) =
      (stations.map Station.name).any fun name => name == place := by
    intro stations
    rw [List.any_map]
    rfl
  unfold locate
  rw [hany, hany, h]

theorem locate_exchange (k : Kitchen) (name : String) (m : Module) (place : String) :
    (k.exchange name m).locate place = k.locate place := by
  apply locate_of_map_name
  simp [exchange, Station.exchange, Function.comp_def]

/-- The module in the open bay is not the one that is looked up. -/
theorem module_fill_of_ne {bay : Bay} (hbay : k.stations = bay.fill m)
    (hbay' : k'.stations = bay.fill m') (hm : m'.name = m.name) (hne : m.name ≠ name) :
    k'.module name = k.module name := by
  unfold module modules
  rw [hbay, hbay', bay.modules_fill, bay.modules_fill, List.find?_append, List.find?_append,
    List.find?_cons_of_neg (by simp [hm, hne]), List.find?_cons_of_neg (by simp [hne])]

theorem Changes.module_eq {op : Operation} (h : Changes k op k') (hop : op.module? ≠ some name) :
    k'.module name = k.module name := by
  have hne : ∀ {m : Module} {used : String}, k.module used = .ok m → some used ≠ some name →
      m.name ≠ name := by
    intro m used hm hused
    rw [name_of_module hm]
    exact fun heq => hused (congrArg some heq)
  cases h with
  | goto _ | get _ _ | deliver _ _ => rfl
  | place hm hbay _ _ _ _ => exact module_fill_of_ne hbay rfl rfl (hne hm hop)
  | activate hm hbay _ => exact module_fill_of_ne hbay rfl rfl (hne hm hop)
  | take hm hbay => exact module_fill_of_ne hbay rfl rfl (hne hm hop)

theorem Changes.locate_eq {op : Operation} (h : Changes k op k') (place : String) :
    k'.locate place = k.locate place := by
  apply locate_of_map_name
  rw [map_name_stations, map_name_stations, h.continues.layout]

end Kitchen

/-! ## Calls that do not notice a change -/

/-- The kitchen after work on a module, with what the chef holds then. -/
def Kitchen.worked (k : Kitchen) (name : String) (m : Module) (hands : Option Food) : Kitchen :=
  { k.exchange name m with hands := hands }

/-- The effect with something else done to the kitchen afterwards. -/
def Effect.andThen (update : Kitchen → Kitchen) (effect : Effect) : Effect :=
  { effect with kitchen := update effect.kitchen }

namespace Operation

/-- A change of the kitchen that a call does not notice: before the call or after it is the same. -/
def Ignores (op : Operation) (update : Kitchen → Kitchen) (k : Kitchen) : Prop :=
  op.carryOut (update k) = (op.carryOut k).map (Effect.andThen update)

variable {k : Kitchen} {op : Operation} {name used : String}

/-- A call about a module does not notice a change that leaves its module and the hands alone and
that can be made also after the module has been worked on. -/
theorem ignores_of_module {update : Kitchen → Kitchen} (hop : op.module? = some used)
    (hmodule : (update k).module used = k.module used) (hhands : (update k).hands = k.hands)
    (hafter : ∀ (m : Module) (hands : Option Food), m.name = used →
      (update k).worked used m hands = update (k.worked used m hands)) :
    op.Ignores update k := by
  unfold Ignores
  cases op with
  | goto _ | get _ | deliver => cases hop
  | place module item slot =>
      cases hop
      have hholding : (update k).holding item = k.holding item := by
        unfold Kitchen.holding
        rw [hhands]
      simp only [carryOut, Kitchen.place, hmodule, hholding, bind, Except.bind]
      cases hm : k.module used with
      | error e => rfl
      | ok m =>
          dsimp only
          cases k.holding item with
          | error e => rfl
          | ok held =>
              dsimp only
              cases hplace : m.place held slot with
              | error e => rfl
              | ok m' =>
                  have hname := (Module.name_of_place hplace).trans (Kitchen.name_of_module hm)
                  have hsame := hafter m' none hname
                  exact congrArg (fun k' => Except.ok (Effect.mk _ _ k')) hsame
  | activate module =>
      cases hop
      simp only [carryOut, Kitchen.activate, hmodule, bind, Except.bind]
      cases hm : k.module used with
      | error e => rfl
      | ok m =>
          dsimp only
          cases hactivate : m.activate with
          | error e => rfl
          | ok result =>
              -- an activation leaves the hands as they are
              have hname := (Module.name_of_activate hactivate).trans (Kitchen.name_of_module hm)
              have hsame := hafter result.2 k.hands hname
              nth_rewrite 1 [← hhands] at hsame
              exact congrArg (fun k' => Except.ok (Effect.mk _ _ k')) hsame
  | take module =>
      cases hop
      simp only [carryOut, Kitchen.take, hmodule, bind, Except.bind]
      cases hm : k.module used with
      | error e => rfl
      | ok m =>
          have hname := Kitchen.name_of_module hm
          have hsame := fun hands => hafter m.take.2 hands hname
          dsimp only [Module.take] at hsame ⊢
          cases m.output with
          | none => exact congrArg (fun k' => Except.ok (Effect.mk _ _ k')) (hsame none)
          | some item =>
              exact congrArg (fun k' => Except.ok (Effect.mk _ _ k')) (hsame (some item))

theorem ignores_exchange {m : Module} (hm : m.name = name) (hop : op.module? ≠ some name) :
    op.Ignores (fun k => k.exchange name m) k := by
  have hmodule : ∀ used, op.module? = some used → op.Ignores (fun k => k.exchange name m) k := by
    intro used hused
    have hne : used ≠ name := by
      rintro rfl
      exact hop hused
    refine ignores_of_module hused (Kitchen.module_exchange_of_ne hm hne) rfl ?_
    intro m' hands hm'
    rw [Kitchen.worked, Kitchen.exchange_comm hm hm' hne]
    rfl
  cases op with
  | place used _ _ => exact hmodule used rfl
  | activate used => exact hmodule used rfl
  | take used => exact hmodule used rfl
  | goto place =>
      simp only [Ignores, carryOut, Kitchen.goto, Kitchen.locate_exchange]
      cases k.locate place with
      | error e => rfl
      | ok target => rfl
  | get item =>
      have hat : (k.exchange name m).requireAt "GET" .pantry = k.requireAt "GET" .pantry := rfl
      have hpantry : (k.exchange name m).pantry = k.pantry := rfl
      simp only [Ignores, carryOut, Kitchen.get, hat, hpantry]
      cases k.requireAt "GET" .pantry with
      | error e => rfl
      | ok _ =>
          cases k.pantry.take ⟨item⟩ with
          | error e => rfl
          | ok pantry => rfl
  | deliver =>
      have hat : (k.exchange name m).requireAt "DELIVER" .window =
        k.requireAt "DELIVER" .window := rfl
      have hhands : (k.exchange name m).hands = k.hands := rfl
      simp only [Ignores, carryOut, Kitchen.deliver, hat, hhands]
      cases k.requireAt "DELIVER" .window with
      | error e => rfl
      | ok _ =>
          cases k.hands with
          | none => rfl
          | some item => rfl

theorem ignores_location (place : Location) (hop : op.module?.isSome) :
    op.Ignores (fun k => { k with location := place }) k := by
  obtain ⟨used, hused⟩ := Option.isSome_iff_exists.mp hop
  exact ignores_of_module hused rfl rfl fun _ _ _ => rfl

end Operation

/-! ## Calls that are decided by a part of the kitchen -/

/-- What a call comes to: its outcome and what it does to the kitchen. -/
structure Decision where
  answer : Value
  entry : Entry
  update : Kitchen → Kitchen

def Decision.effect (k : Kitchen) (d : Decision) : Effect :=
  ⟨d.entry, d.answer, d.update k⟩

namespace Operation

/-- The call looks at nothing of the kitchen but `view`. -/
def DecidedBy {ρ : Type} (op : Operation) (view : Kitchen → ρ)
    (decision : ρ → Except KitchenError Decision) : Prop :=
  ∀ k, op.carryOut k = (decision (view k)).map (Decision.effect k)

def activateDecision (name : String) (found : Except KitchenError Module) :
    Except KitchenError Decision := do
  let m ← found
  let (made, m) ← m.activate
  .ok ⟨.text made.name, ⟨.use name, s!"Activated {name}, making {made.name}"⟩,
    fun k => k.exchange name m⟩

def gotoDecision (found : Except KitchenError Location) : Except KitchenError Decision := do
  let target ← found
  .ok ⟨.none, ⟨.move target, s!"Moved to {target.name}"⟩, fun k => { k with location := target }⟩

theorem decidedBy_activate (name : String) :
    (activate name).DecidedBy (fun k => k.module name) (activateDecision name) := by
  intro k
  simp only [carryOut, Kitchen.activate, activateDecision, bind, Except.bind]
  cases k.module name with
  | error e => rfl
  | ok m =>
      dsimp only
      cases m.activate with
      | error e => rfl
      | ok result => rfl

theorem decidedBy_goto (name : String) :
    (goto name).DecidedBy (fun k => k.locate name) gotoDecision := by
  intro k
  simp only [carryOut, Kitchen.goto, gotoDecision, bind, Except.bind]
  cases k.locate name with
  | error e => rfl
  | ok target => rfl

end Operation

namespace Kitchen

variable {k : Kitchen} {a b : Operation}

section Names

variable (hk : (k.modules.map Module.name).Nodup)

include hk

theorem nodup_attempt (op : Operation) : ((k.attempt op).modules.map Module.name).Nodup := by
  rcases attempt_cases hk op with hchange | hsame
  · rw [map_name_modules, hchange.continues.layout, ← map_name_modules]
    exact hk
  · rw [hsame]
    exact hk

/-- One call is decided by something that the other one leaves alone, and the other one does not
notice what is done: then the order does not matter. -/
theorem commutes_of_decidedBy {ρ : Type} {view : Kitchen → ρ}
    {decision : ρ → Except KitchenError Decision} (ha : a.DecidedBy view decision)
    (hview : view (k.attempt b) = view k)
    (hb : ∀ d, decision (view k) = .ok d → b.Ignores d.update k) : k.Commutes a b := by
  have hattempt : ∀ op op', (k.attempt op).attempt op' = _ := fun op op' =>
    attempt_eq (nodup_attempt hk op) op'
  have hfirst := ha (k.attempt b)
  have halone := ha k
  rw [hview] at hfirst
  cases hd : decision (view k) with
  | error e =>
      rw [hd] at hfirst halone
      have hsame : k.attempt a = k := by
        rw [attempt_eq hk, halone]
        rfl
      refine ⟨?_, ?_, ?_⟩
      · rw [Operation.outcome, Operation.outcome, hfirst, halone]
        rfl
      · rw [hsame]
      · rw [hsame, hattempt b a, hfirst]
        rfl
  | ok d =>
      rw [hd] at hfirst halone
      have hdone : k.attempt a = d.update k := by
        rw [attempt_eq hk, halone]
        rfl
      have hlater : b.carryOut (k.attempt a) = (b.carryOut k).map (Effect.andThen d.update) := by
        rw [hdone]
        exact hb d hd
      refine ⟨?_, ?_, ?_⟩
      · rw [Operation.outcome, Operation.outcome, hfirst, halone]
        rfl
      · rw [Operation.outcome, Operation.outcome, hlater]
        cases b.carryOut k with
        | error e => rfl
        | ok effect => rfl
      · rw [hattempt a b, hattempt b a, hfirst, hlater, hdone, attempt_eq hk b]
        cases b.carryOut k with
        | error e => rfl
        | ok effect => rfl

theorem module_attempt {name : String} (hb : b.module? ≠ some name) :
    (k.attempt b).module name = k.module name := by
  rcases attempt_cases hk b with hchange | hsame
  · exact hchange.module_eq hb
  · rw [hsame]

theorem locate_attempt (name : String) :
    (k.attempt b).locate name = k.locate name := by
  rcases attempt_cases hk b with hchange | hsame
  · exact hchange.locate_eq name
  · rw [hsame]

end Names

/-- Where modules have different names, activating a module commutes with every call that is not
about this module, and walking with every call that is about a module, whether the calls succeed or
fail. -/
theorem independent_calls_commute (hk : (k.modules.map Module.name).Nodup)
    (hab : Operation.Independent a b) : k.Commutes a b := by
  cases hab with
  | @activate name _ hb =>
      apply commutes_of_decidedBy hk (Operation.decidedBy_activate name) (module_attempt hk hb)
      intro d hd
      obtain ⟨m, hm, hd⟩ := exists_of_bind_eq_ok hd
      obtain ⟨⟨made, m'⟩, hm', hd⟩ := exists_of_bind_eq_ok hd
      have hname := (Module.name_of_activate hm').trans (name_of_module hm)
      cases hd
      exact Operation.ignores_exchange hname hb
  | @goto name _ hb =>
      apply commutes_of_decidedBy hk (Operation.decidedBy_goto name) (locate_attempt hk name)
      intro d hd
      obtain ⟨target, -, hd⟩ := exists_of_bind_eq_ok hd
      cases hd
      exact Operation.ignores_location target hb

/-- The soup is ready to be made.  Looking into an empty bay finds nothing, before and after. -/
theorem independent_calls_commute_soup :
    let ready := soup.attempts (soupCalls.take 4)
    let look := Operation.take "Stove B"
    (ready.modules.map Module.name).Nodup ∧ Operation.Independent (.activate "soup") look ∧
      ready.Commutes (.activate "soup") look ∧
      look.outcome (ready.attempt (.activate "soup")) =
        .ok (.none, ⟨.noOp, "Stove B had nothing to take"⟩) ∧
      ((ready.attempt look).attempt (.activate "soup")).modules.map Module.output =
        [some ⟨"Tomato Soup"⟩, none, none] := by
  intro ready look
  have hready : (ready.modules.map Module.name).Nodup :=
    (isFresh_soup.wellFormed.attempts (soupCalls.take 4)).1.moduleNames
  have hindependent : Operation.Independent (.activate "soup") look := .activate (by decide)
  have hcommutes := independent_calls_commute hready hindependent
  refine ⟨hready, hindependent, hcommutes, ?_, ?_⟩
  · rw [hcommutes.second]
    rfl
  · decide +kernel

end Kitchen

end KitchenScript
