import KitchenScript.Proofs.Kitchen.Changes
import Mathlib.Data.List.Basic

/-!
# Operations in place

The operations of the kitchen once more, this time as work on one kitchen that is changed bit by
bit.  A call that goes wrong stops where it is, and whatever it has changed by then stays changed;
nothing in this form keeps a failed call from leaving a mess.  That none does is the statement
here: where modules have different names, a call in place gives the same as the operation, and
after an error the kitchen is the one it started from.
-/

namespace KitchenScript

/-- Work on a state, which gives a result or an error and leaves a state in both cases. -/
abbrev InPlace (σ : Type) : Type → Type :=
  EStateM KitchenError σ

namespace InPlace

variable {σ α : Type}

def look (f : σ → Except KitchenError α) : InPlace σ α := do
  match f (← MonadState.get) with
  | .ok a => return a
  | .error e => throw e

/-! ## Modules -/

def realModule (m : Module) : Except KitchenError Unit :=
  if m.kind = .none then .error (.emptyBay m.name) else .ok ()

def slotIndex (slot : Number) (m : Module) : Except KitchenError Nat :=
  match slot.toCount?.filter fun i => i < m.slots.length with
  | some i => .ok i
  | none => .error (.slotOutOfRange m.name slot m.slots.length)

def fillSlot (item : Food) (slot : Number) : InPlace Module Unit := do
  look realModule
  let i ← look (slotIndex slot)
  modify fun m => { m with slots := m.slots.set i (some item) }

def runRecipe : InPlace Module Food := do
  let made ← look Module.product
  modify fun m => { m with slots := m.slots.map fun _ => none }
  modify fun m => { m with output := some made }
  return made

def clearOutput : InPlace Module (Option Food) :=
  modifyGet fun m => (m.output, { m with output := none })

/-- Stations with the first module of a name replaced. -/
def replaceFirst (name : String) (m : Module) (stations : List Station) : List Station :=
  stations.replaceF fun s =>
    if s.modules.any fun old => old.name == name then
      some ⟨s.name, s.modules.replaceF fun old => if old.name = name then some m else none⟩
    else none

/-- Work on the first module of a name.  What the work leaves goes back into its bay, also when the
work has failed. -/
def onModule (name : String) (work : InPlace Module α) : InPlace Kitchen α := do
  let m ← look fun k => k.module name
  let store := fun m : Module =>
    modify fun k : Kitchen => { k with stations := replaceFirst name m k.stations }
  match work.run m with
  | .ok a m => do
    store m
    return a
  | .error e m => do
    store m
    throw e

/-! ## The chef -/

def goto (name : String) : InPlace Kitchen Location := do
  let target ← look fun k => k.locate name
  modify fun k => { k with location := target }
  return target

def get (name : String) : InPlace Kitchen Food := do
  look fun k => k.requireAt "GET" .pantry
  let pantry ← look fun k => k.pantry.take ⟨name⟩
  modify fun k => { k with pantry := pantry }
  modify fun k => { k with hands := some ⟨name⟩ }
  return ⟨name⟩

def deliver : InPlace Kitchen Food := do
  look fun k => k.requireAt "DELIVER" .window
  -- the hands are emptied before it is known whether there was anything in them
  let held ← modifyGet fun k : Kitchen => (k.hands, { k with hands := none })
  match held with
  | some item => do
    modify fun k => { k with delivered := k.delivered ++ [item] }
    return item
  | none => throw .emptyHands

def place (name item : String) (slot : Number) : InPlace Kitchen Unit := do
  let _ ← look fun k => k.module name
  let held ← look fun k => k.holding item
  onModule name (fillSlot held slot)
  -- until here the item is in the hands and in the slot
  modify fun k => { k with hands := none }

def activate (name : String) : InPlace Kitchen Food :=
  onModule name runRecipe

def take (name : String) : InPlace Kitchen (Option Food) := do
  let output ← onModule name clearOutput
  modify fun k => { k with hands := output }
  return output

end InPlace

namespace Operation

def inPlace : Operation → InPlace Kitchen Unit
  | goto name => discard (InPlace.goto name)
  | get name => discard (InPlace.get name)
  | place name item slot => InPlace.place name item slot
  | activate name => discard (InPlace.activate name)
  | take name => discard (InPlace.take name)
  | deliver => discard InPlace.deliver

end Operation

namespace Kitchen

/-- The kitchen that a call leaves, whether it succeeds or fails. -/
def attempt (k : Kitchen) (op : Operation) : Kitchen :=
  match op.inPlace.run k with
  | .ok _ k' => k'
  | .error _ k' => k'

def attempts (k : Kitchen) (ops : List Operation) : Kitchen :=
  ops.foldl attempt k

end Kitchen

/-! ## The same as the operations -/

namespace InPlace

variable {σ α : Type}

theorem run_look (f : σ → Except KitchenError α) (s : σ) :
    (look f).run s =
      match f s with
      | .ok a => .ok a s
      | .error e => .error e s := by
  unfold look
  rw [EStateM.run_bind, EStateM.run_get]
  dsimp only
  cases f s with
  | ok a => rfl
  | error e => rfl

/-- A result with the state after it, or an error with the state as it was. -/
def settled (s : σ) : Except KitchenError (α × σ) → EStateM.Result KitchenError σ α
  | .ok (a, s') => .ok a s'
  | .error e => .error e s

theorem run_fillSlot (m : Module) (item : Food) (slot : Number) :
    (fillSlot item slot).run m = settled m ((m.place item slot).map fun m' => ((), m')) := by
  simp only [fillSlot, Module.place, EStateM.run_bind, run_look]
  by_cases hkind : m.kind = .none
  · have hreal : realModule m = .error (.emptyBay m.name) := if_pos hkind
    rw [hreal, if_pos hkind]
    rfl
  · have hreal : realModule m = .ok () := if_neg hkind
    rw [hreal, if_neg hkind]
    dsimp only
    cases hcount : slot.toCount? with
    | none =>
        have hindex : slotIndex slot m = .error (.slotOutOfRange m.name slot m.slots.length) := by
          simp [slotIndex, hcount]
        rw [hindex]
        rfl
    | some i =>
        by_cases hi : i < m.slots.length
        · have hindex : slotIndex slot m = .ok i := by
            simp [slotIndex, hcount, Option.filter, hi]
          simp only [hindex, if_pos hi]
          rfl
        · have hindex : slotIndex slot m = .error (.slotOutOfRange m.name slot m.slots.length) := by
            simp [slotIndex, hcount, Option.filter, hi]
          simp only [hindex, if_neg hi]
          rfl

theorem run_runRecipe (m : Module) : runRecipe.run m = settled m m.activate := by
  simp only [runRecipe, Module.activate, EStateM.run_bind, run_look]
  cases m.product with
  | error e => rfl
  | ok made => rfl

theorem run_clearOutput (m : Module) : clearOutput.run m = settled m (.ok m.take) :=
  rfl

theorem replaceF_append_cons {f : α → Option α} {front rest : List α} {a a' : α}
    (hfront : ∀ b ∈ front, f b = none) (ha : f a = some a') :
    (front ++ a :: rest).replaceF f = front ++ a' :: rest := by
  induction front with
  | nil => exact List.replaceF_cons_of_some f ha
  | cons b front ih =>
      have hb : f b = none := hfront b List.mem_cons_self
      have hfront' : ∀ b ∈ front, f b = none := fun b hb => hfront b (List.mem_cons_of_mem _ hb)
      rw [List.cons_append, List.replaceF_cons_of_none f hb, ih hfront', List.cons_append]

/-- The first module of a name is the one in the open bay if none in front of it has that name. -/
theorem replaceFirst_fill (bay : Bay) {m : Module}
    (hbefore : ∀ other ∈ bay.modulesBefore, other.name ≠ m.name) (m' : Module) :
    replaceFirst m.name m' (bay.fill m) = bay.fill m' := by
  unfold replaceFirst Bay.fill
  apply replaceF_append_cons
  · intro s hs
    rw [if_neg]
    rw [List.any_eq_true]
    rintro ⟨old, hold, hname⟩
    have hmem : old ∈ bay.modulesBefore :=
      List.mem_append_left _ (List.mem_flatMap.mpr ⟨s, hs, hold⟩)
    exact hbefore old hmem (by simpa using hname)
  · have hmodules : (bay.left ++ m :: bay.right).replaceF
        (fun old => if old.name = m.name then some m' else none) =
          bay.left ++ m' :: bay.right := by
      apply replaceF_append_cons
      · intro old hold
        exact if_neg (hbefore old (List.mem_append_right _ hold))
      · exact if_pos rfl
    simp [hmodules]

section OnModule

variable {k : Kitchen} {name : String} {m : Module} {work : InPlace Module α}

theorem run_onModule_unknown {e : KitchenError} (h : k.module name = .error e) :
    (onModule name work).run k = .error e k := by
  simp only [onModule, EStateM.run_bind, run_look, h]

theorem run_onModule_error {e : KitchenError} (hm : k.module name = .ok m)
    (hwork : work.run m = .error e m) : (onModule name work).run k = .error e k := by
  obtain ⟨bay, hbay, hname, hbefore⟩ := Kitchen.exists_bay hm
  have hsame : replaceFirst name m k.stations = k.stations := by
    rw [hbay, ← hname, replaceFirst_fill bay hbefore]
  have hstored : { k with stations := replaceFirst name m k.stations } = k := by rw [hsame]
  simp only [onModule, EStateM.run_bind, run_look, hm, hwork, EStateM.run_modify, hstored]
  rfl

theorem run_onModule_ok (hk : (k.modules.map Module.name).Nodup) {a : α} {m' : Module}
    (hm : k.module name = .ok m) (hwork : work.run m = .ok a m') :
    (onModule name work).run k = .ok a (k.exchange name m') := by
  obtain ⟨bay, hbay, hname, hbefore⟩ := Kitchen.exists_bay hm
  have hreplaced : replaceFirst name m' k.stations = bay.fill m' := by
    rw [hbay, ← hname, replaceFirst_fill bay hbefore]
  have hstored : { k with stations := replaceFirst name m' k.stations } = k.exchange name m' := by
    rw [hreplaced, ← hname, Kitchen.exchange_eq hk hbay]
  simp only [onModule, EStateM.run_bind, run_look, hm, hwork, EStateM.run_modify, hstored]
  rfl

end OnModule

theorem run_goto (k : Kitchen) (name : String) :
    (goto name).run k = settled k (k.goto name) := by
  simp only [goto, Kitchen.goto, EStateM.run_bind, run_look]
  cases k.locate name with
  | error e => rfl
  | ok target => rfl

theorem run_get (k : Kitchen) (name : String) :
    (get name).run k = settled k (k.get name) := by
  simp only [get, Kitchen.get, EStateM.run_bind, run_look]
  cases k.requireAt "GET" .pantry with
  | error e => rfl
  | ok _ =>
      dsimp only
      cases k.pantry.take ⟨name⟩ with
      | error e => rfl
      | ok pantry => rfl

/-- Hands that are empty already are as they were when they have been emptied. -/
theorem run_deliver (k : Kitchen) : deliver.run k = settled k k.deliver := by
  simp only [deliver, Kitchen.deliver, EStateM.run_bind, run_look]
  cases k.requireAt "DELIVER" .window with
  | error e => rfl
  | ok _ =>
      obtain ⟨location, hands, pantry, stations, required, delivered⟩ := k
      cases hands with
      | none => rfl
      | some item => rfl

section Modules

variable {k : Kitchen} (hk : (k.modules.map Module.name).Nodup)

include hk

theorem run_place (name item : String) (slot : Number) :
    (place name item slot).run k =
      settled k ((k.place name item slot).map fun k' => ((), k')) := by
  simp only [place, Kitchen.place, EStateM.run_bind, run_look]
  cases hm : k.module name with
  | error e => rfl
  | ok m =>
      dsimp only
      cases k.holding item with
      | error e => rfl
      | ok held =>
          have hfill := run_fillSlot m held slot
          dsimp only
          cases hplace : m.place held slot with
          | error e =>
              rw [hplace] at hfill
              rw [run_onModule_error hm hfill]
              simp [bind, Except.bind, hplace, Except.map, settled]
          | ok m' =>
              rw [hplace] at hfill
              rw [run_onModule_ok hk hm hfill]
              simp [bind, Except.bind, hplace, Except.map, settled]

theorem run_activate (name : String) :
    (activate name).run k = settled k (k.activate name) := by
  unfold activate Kitchen.activate
  cases hm : k.module name with
  | error e =>
      rw [run_onModule_unknown hm]
      rfl
  | ok m =>
      have hrecipe := run_runRecipe m
      cases hactivate : m.activate with
      | error e =>
          rw [hactivate] at hrecipe
          rw [run_onModule_error hm hrecipe]
          simp [bind, Except.bind, hactivate, settled]
      | ok result =>
          rw [hactivate] at hrecipe
          rw [run_onModule_ok hk hm hrecipe]
          simp [bind, Except.bind, hactivate, settled]

theorem run_take (name : String) : (take name).run k = settled k (k.take name) := by
  simp only [take, Kitchen.take, EStateM.run_bind]
  cases hm : k.module name with
  | error e =>
      rw [run_onModule_unknown hm]
      rfl
  | ok m =>
      rw [run_onModule_ok hk hm (run_clearOutput m)]
      rfl

end Modules

end InPlace

namespace Operation

theorem run_discard {α : Type} {x : InPlace Kitchen α} {k : Kitchen}
    {result : Except KitchenError (α × Kitchen)} (h : x.run k = InPlace.settled k result) :
    (discard x).run k = InPlace.settled k (result.map fun out => ((), out.2)) := by
  have hdiscard : (discard x).run k = EStateM.map (fun _ => ()) x k := rfl
  have hx : x k = InPlace.settled k result := h
  rw [hdiscard, EStateM.map, hx]
  cases result with
  | error e => rfl
  | ok out => rfl

variable {k : Kitchen} (hk : (k.modules.map Module.name).Nodup)

include hk

/-- A call in place succeeds when the operation does and leaves the kitchen that the operation
gives; otherwise it has the same error and leaves the kitchen as it was. -/
theorem run_inPlace (op : Operation) :
    op.inPlace.run k =
      InPlace.settled k ((op.carryOut k).map fun effect => ((), effect.kitchen)) := by
  cases op with
  | goto name =>
      rw [inPlace, run_discard (InPlace.run_goto k name), carryOut]
      cases k.goto name with
      | error e => rfl
      | ok out => rfl
  | get name =>
      rw [inPlace, run_discard (InPlace.run_get k name), carryOut]
      cases k.get name with
      | error e => rfl
      | ok out => rfl
  | place name item slot =>
      rw [inPlace, InPlace.run_place hk name item slot, carryOut]
      cases k.place name item slot with
      | error e => rfl
      | ok out => rfl
  | activate name =>
      rw [inPlace, run_discard (InPlace.run_activate hk name), carryOut]
      cases k.activate name with
      | error e => rfl
      | ok out => rfl
  | take name =>
      rw [inPlace, run_discard (InPlace.run_take hk name), carryOut]
      cases k.take name with
      | error e => rfl
      | ok out =>
          obtain ⟨output, k'⟩ := out
          cases output with
          | none => rfl
          | some item => rfl
  | deliver =>
      rw [inPlace, run_discard (InPlace.run_deliver k), carryOut]
      cases k.deliver with
      | error e => rfl
      | ok out => rfl

end Operation

namespace Kitchen

variable {k : Kitchen} (hk : (k.modules.map Module.name).Nodup)

include hk

theorem attempt_eq (op : Operation) :
    k.attempt op =
      match op.carryOut k with
      | .ok effect => effect.kitchen
      | .error _ => k := by
  unfold attempt
  rw [Operation.run_inPlace hk]
  cases op.carryOut k with
  | ok effect => rfl
  | error e => rfl

theorem attempt_cases (op : Operation) : Changes k op (k.attempt op) ∨ k.attempt op = k := by
  rw [attempt_eq hk]
  cases heffect : op.carryOut k with
  | ok effect => exact .inl (changes_of_carryOut hk heffect)
  | error e => exact .inr rfl

end Kitchen

end KitchenScript
