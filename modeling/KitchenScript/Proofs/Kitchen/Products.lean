import KitchenScript.Proofs.Kitchen.WellFormed

/-!
# Products

A product waits in its module until it is taken or the next one is made.  What waits is therefore
told by the calls that were made: of the activations and takings of the module that succeeded, only
the last one counts.  Other modules, ingredients and calls that fail have no part in it.
-/

namespace KitchenScript

/-- The operation makes a product of the module with this name or takes it away. -/
def Operation.handles (name : String) : Operation → Bool
  | activate module => module == name
  | take module => module == name
  | _ => false

/-- What an operation makes in a kitchen. -/
def Operation.product (k : Kitchen) : Operation → Option Food
  | activate module => (k.activate module).toOption.map Prod.fst
  | _ => none

namespace Kitchen

/-- The product that waits in the module with this name. -/
def waiting (k : Kitchen) (name : String) : Option Food :=
  (k.modules.find? fun m => m.name == name).bind Module.output

/-- The calls that succeed, each with the kitchen in which it is made. -/
def successes (k : Kitchen) : List Operation → List (Kitchen × Operation)
  | [] => []
  | op :: ops =>
    if (op.carryOut k).isOk then (k, op) :: (k.attempt op).successes ops
    else (k.attempt op).successes ops

/-- The calls that succeed in making a product of a module or in taking it away. -/
def handlings (k : Kitchen) (name : String) (ops : List Operation) : List (Kitchen × Operation) :=
  (k.successes ops).filter fun call => call.2.handles name

variable {k k' : Kitchen} {name : String}

/-! ## One call -/

/-- Another module in the place of one changes what waits under its name, and only there. -/
theorem waiting_fill (hk : (k.modules.map Module.name).Nodup) {bay : Bay} {m : Module}
    (hbay : k.stations = bay.fill m) (m' : Module) (hname : m'.name = m.name)
    (hbay' : k'.stations = bay.fill m') :
    k'.waiting name = if m.name = name then m'.output else k.waiting name := by
  have hbefore := (name_ne_of_nodup hk hbay).1
  unfold waiting modules
  rw [hbay, hbay', bay.modules_fill, bay.modules_fill, List.find?_append, List.find?_append]
  by_cases hm : m.name = name
  · have hnone : bay.modulesBefore.find? (fun m => m.name == name) = none := by
      rw [List.find?_eq_none]
      intro other hother
      simpa [← hm] using hbefore other hother
    rw [if_pos hm, hnone, List.find?_cons_of_pos (by simp [hname, hm])]
    rfl
  · rw [if_neg hm, List.find?_cons_of_neg (by simp [hname, hm]),
      List.find?_cons_of_neg (by simp [hm])]

theorem product_activate {m : Module} {made : Food} (hm : k.module name = .ok m)
    (hmade : m.product = .ok made) : (Operation.activate name).product k = some made := by
  simp [Operation.product, activate, bind, Except.bind, hm, Module.activate, hmade,
    Except.toOption]

theorem waiting_of_module {m : Module} (hm : k.module name = .ok m) :
    k.waiting name = m.output := by
  rw [waiting, module_eq_ok_iff.mp hm]
  rfl

theorem Changes.waiting (hk : (k.modules.map Module.name).Nodup) {op : Operation}
    (h : Changes k op k') (name : String) :
    k'.waiting name = if op.handles name then op.product k else k.waiting name := by
  cases h with
  | goto _ | get _ _ | deliver _ _ => rfl
  | @place _ item _ _ m i hm hbay _ _ _ _ =>
      -- the module in the bay has other slots, and the output that it had
      have hold := waiting_of_module hm
      rw [waiting_fill hk hbay { m with slots := m.slots.set i (some ⟨item⟩) } rfl rfl,
        name_of_module hm]
      split
      · rename_i hname
        rw [← hname, hold]
        rfl
      · rfl
  | @activate _ _ m made hm hbay hmade =>
      rw [waiting_fill hk hbay
        { m with slots := m.slots.map fun _ => none, output := some made } rfl rfl,
        name_of_module hm, product_activate hm hmade]
      simp [Operation.handles]
  | @take _ _ m hm hbay =>
      rw [waiting_fill hk hbay { m with output := none } rfl rfl, name_of_module hm]
      simp [Operation.handles, Operation.product]

theorem waiting_attempt (hk : (k.modules.map Module.name).Nodup) (op : Operation)
    (name : String) :
    (k.attempt op).waiting name =
      if (op.carryOut k).isOk ∧ op.handles name then op.product k else k.waiting name := by
  rw [attempt_eq hk]
  cases heffect : op.carryOut k with
  | error e => simp [Except.isOk, Except.toBool]
  | ok effect =>
      have hchange := changes_of_carryOut hk heffect
      simpa [Except.isOk, Except.toBool] using hchange.waiting hk name

/-! ## All calls -/

theorem handlings_cons (k : Kitchen) (name : String) (op : Operation) (ops : List Operation) :
    k.handlings name (op :: ops) =
      if (op.carryOut k).isOk ∧ op.handles name then
        (k, op) :: (k.attempt op).handlings name ops
      else (k.attempt op).handlings name ops := by
  unfold handlings
  rw [successes]
  by_cases hok : (op.carryOut k).isOk
  · simp [hok, List.filter_cons]
  · simp [hok]

/-- What waits is what the last of the handlings has left, or what has been there before them. -/
theorem waiting_attempts (h : k.WellFormed) (name : String) (ops : List Operation) :
    (k.attempts ops).waiting name =
      match (k.handlings name ops).getLast? with
      | none => k.waiting name
      | some call => call.2.product call.1 := by
  induction ops generalizing k with
  | nil => rfl
  | cons op ops ih =>
      have hrest := ih (h.attempt op).1
      have hfirst := waiting_attempt h.moduleNames op name
      change ((k.attempt op).attempts ops).waiting name = _
      rw [hrest, handlings_cons]
      by_cases hhandled : (op.carryOut k).isOk ∧ op.handles name
      · rw [if_pos hhandled] at hfirst
        rw [if_pos hhandled, List.getLast?_cons, hfirst]
        cases ((k.attempt op).handlings name ops).getLast? with
        | none => rfl
        | some call => rfl
      · rw [if_neg hhandled] at hfirst
        rw [if_neg hhandled, hfirst]

theorem IsFresh.waiting_eq_none (h : k.IsFresh) (name : String) : k.waiting name = none := by
  obtain ⟨stations, items, orders, hstations, hbuild⟩ := h
  obtain ⟨_, -, hbuild⟩ := exists_of_bind_eq_ok hbuild
  cases hbuild
  rw [waiting, Option.bind_eq_none_iff]
  intro m hm
  obtain ⟨s, hs, hmem⟩ := List.mem_flatMap.mp (List.mem_of_find?_eq_some hm)
  obtain ⟨kind, name, locked, rfl⟩ := (hstations s hs).modules.2 m hmem
  rfl

/-! ## Taking -/

theorem take_of_module {m : Module} (hm : k.module name = .ok m) :
    ∃ k', k.take name = .ok (k.waiting name, k') := by
  refine ⟨{ k.exchange name m.take.2 with hands := m.output }, ?_⟩
  simp only [take, bind, Except.bind, hm, waiting_of_module hm]
  rfl

theorem waiting_eq_none_of_error {e : KitchenError} (hm : k.module name = .error e) :
    k.waiting name = none := by
  unfold module at hm
  unfold waiting
  split at hm
  · cases hm
  · rename_i hnone
    rw [hnone]
    rfl

theorem exists_take_iff {x : Food} :
    (∃ k', k.take name = .ok (some x, k')) ↔ k.waiting name = some x := by
  cases hm : k.module name with
  | error e => simp [take, bind, Except.bind, hm, waiting_eq_none_of_error hm]
  | ok m =>
      obtain ⟨k', hk'⟩ := take_of_module hm
      rw [hk']
      constructor
      · rintro ⟨k'', h⟩
        exact congrArg Prod.fst (Except.ok.inj h)
      · intro h
        exact ⟨k', by rw [h]⟩

theorem exists_module_iff : (∃ m, k.module name = .ok m) ↔ name ∈ k.modules.map Module.name := by
  simp only [module_eq_ok_iff, ← Option.isSome_iff_exists, List.find?_isSome, List.mem_map,
    beq_iff_eq]

theorem product_eq_some_iff {op : Operation} {x : Food} (hop : op.handles name) :
    op.product k = some x ↔
      op = .activate name ∧ ∃ k', k.activate name = .ok (x, k') := by
  cases op with
  | goto _ | get _ | place _ _ _ | deliver => simp [Operation.handles] at hop
  | take _ => simp [Operation.product]
  | activate other =>
      obtain rfl : other = name := by simpa [Operation.handles] using hop
      cases hactivate : k.activate other with
      | error e => simp [Operation.product, hactivate, Except.toOption]
      | ok result =>
          obtain ⟨made, k'⟩ := result
          simp [Operation.product, hactivate, Except.toOption]

/-- Whatever calls are made in a fresh kitchen, a module then gives a product to take exactly when
the last call that succeeded in handling its product was an activation, and it gives what this
activation made.  A module of the kitchen can always be taken from, if only nothing. -/
theorem take_yields_last_product {start : Kitchen} (h : start.IsFresh) (ops : List Operation)
    (name : String) :
    (∀ x, (∃ k', (start.attempts ops).take name = .ok (some x, k')) ↔
      ∃ k k', (start.handlings name ops).getLast? = some (k, .activate name) ∧
        k.activate name = .ok (x, k')) ∧
    (name ∈ start.modules.map Module.name →
      ∃ found k', (start.attempts ops).take name = .ok (found, k')) := by
  have hrun := h.wellFormed.attempts ops
  have hwaiting := waiting_attempts h.wellFormed name ops
  constructor
  · intro x
    rw [exists_take_iff, hwaiting, h.waiting_eq_none]
    cases hlast : (start.handlings name ops).getLast? with
    | none => simp
    | some call =>
        obtain ⟨k, op⟩ := call
        have hhandles : op.handles name :=
          (List.mem_filter.mp (List.mem_of_getLast? hlast)).2
        rw [product_eq_some_iff hhandles]
        constructor
        · rintro ⟨rfl, k', hmade⟩
          exact ⟨k, k', rfl, hmade⟩
        · rintro ⟨_, k', hcall, hmade⟩
          cases hcall
          exact ⟨rfl, k', hmade⟩
  · intro hname
    rw [map_name_modules, ← hrun.2.layout, ← map_name_modules, ← exists_module_iff] at hname
    obtain ⟨m, hm⟩ := hname
    obtain ⟨k', hk'⟩ := take_of_module hm
    exact ⟨_, k', hk'⟩

/-- The soup is made, and with empty slots no second one; it can be taken once. -/
theorem take_yields_last_product_soup :
    let calls := soupCalls.take 5 ++ [.activate "soup"]
    soup.IsFresh ∧ (∃ k', (soup.attempts calls).take "soup" = .ok (some ⟨"Tomato Soup"⟩, k')) ∧
      ¬∃ x k', (soup.attempts (calls ++ [.take "soup"])).take "soup" = .ok (some x, k') := by
  intro calls
  have hmade : (soup.handlings "soup" calls).getLast? =
      some (soup.attempts (soupCalls.take 4), .activate "soup") := by
    decide +kernel
  have hproduct : (soup.attempts (soupCalls.take 4)).activate "soup" =
      .ok (⟨"Tomato Soup"⟩, soup.attempts (soupCalls.take 5)) := by
    decide +kernel
  have htaken : ((soup.handlings "soup" (calls ++ [.take "soup"])).getLast?).map Prod.snd =
      some (.take "soup") := by
    decide +kernel
  refine ⟨isFresh_soup, ?_, ?_⟩
  · rw [(take_yields_last_product isFresh_soup calls "soup").1]
    exact ⟨_, _, hmade, hproduct⟩
  · rintro ⟨x, hx⟩
    have hlast := (take_yields_last_product isFresh_soup (calls ++ [.take "soup"]) "soup").1 x
    obtain ⟨k, k', hcall, -⟩ := hlast.mp hx
    rw [hcall] at htaken
    simp at htaken

end Kitchen

end KitchenScript
