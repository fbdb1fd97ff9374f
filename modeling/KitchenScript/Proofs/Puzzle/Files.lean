import KitchenScript.Json.Puzzle
import KitchenScript.Proofs.Json.RoundTrip

/-!
# Puzzle files keep the puzzle

A puzzle that is written to a file is read back from it as it was, whatever its texts, numbers and
lists are.  Each part of a puzzle is written as a value with a form of its own and read back from
that value; lists and records pass this on from their parts to the whole.
-/

namespace KitchenScript

namespace Json

/-- Whatever is written has a form of its own and is read back from it. -/
def Faithful {α : Type} (write : α → Json) (read : Json → Option α) : Prop :=
  ∀ a, (write a).Exact ∧ read (write a) = some a

theorem faithful_text : Faithful .text asText? :=
  fun _ => ⟨trivial, rfl⟩

theorem faithful_bool : Faithful .bool asBool? :=
  fun _ => ⟨trivial, rfl⟩

theorem faithful_number : Faithful (fun n : Number => .int n.val) asNumber? := by
  intro n
  have hlower := n.lower
  have hupper := n.upper
  have hword : wordBound = 18446744073709551616 := rfl
  refine ⟨?_, n.ofInt?_val⟩
  change n.val.natAbs < wordBound
  omega

theorem exact_nat {n : Nat} (h : n < wordBound) : (nat n).Exact := by
  change (n : Int).natAbs < wordBound
  rwa [Int.natAbs_natCast]

theorem asNat?_nat {bound n : Nat} (h : n < bound) : asNat? bound (nat n) = some n := by
  have hn : (0 : Int) ≤ n ∧ (n : Int) < bound := by omega
  simp [asNat?, nat, hn]

section Lists

variable {α : Type} {write : α → Json} {read : Json → Option α}

theorem Faithful.list (h : Faithful write read) :
    Faithful (fun items : List α => .array (items.map write)) (asList? read) := by
  intro items
  constructor
  · refine exactItems_iff.mpr fun j hj => ?_
    obtain ⟨a, -, rfl⟩ := List.mem_map.mp hj
    exact (h a).1
  · change (items.map write).mapM read = some items
    induction items with
    | nil => rfl
    | cons a rest ih =>
        rw [List.map_cons, List.mapM_cons, (h a).2, ih]
        rfl

end Lists

theorem faithful_texts : Faithful texts asTexts? :=
  faithful_text.list

/-! ## Records -/

theorem field?_of_mem {fields : List (String × Json)} (h : (fields.map Prod.fst).Nodup)
    {name : String} {value : Json} (hf : (name, value) ∈ fields) :
    field? fields name = some (some value) := by
  have honly : fields.filter (fun f => f.1 == name) = [(name, value)] := by
    induction fields with
    | nil => cases hf
    | cons f rest ih =>
        rw [List.map_cons, List.nodup_cons] at h
        rcases List.mem_cons.mp hf with rfl | hrest
        · have hnone : rest.filter (fun f => f.1 == name) = [] := by
            rw [List.filter_eq_nil_iff]
            intro g hg heq
            exact h.1 (List.mem_map.mpr ⟨g, hg, beq_iff_eq.mp heq⟩)
          simp [hnone]
        · have hne : f.1 ≠ name := by
            intro heq
            exact h.1 (List.mem_map.mpr ⟨_, hrest, heq.symm⟩)
          simp [hne, ih h.2 hrest]
  rw [field?, honly]

/-- A record that gives each of its fields once is read as these fields. -/
theorem record?_zip (names : List String) (values : List Json) (hnames : names.Nodup)
    (hlength : names.length = values.length) :
    record? names (.object (names.zip values)) = some (values.map some) := by
  have hfirst : (names.zip values).map Prod.fst = names :=
    List.map_fst_zip (Nat.le_of_eq hlength)
  have hfields : ∀ part, part ⊆ names.zip values →
      (part.map Prod.fst).mapM (field? (names.zip values)) =
        some (part.map fun f => some f.2) := by
    intro part
    induction part with
    | nil =>
        intro _
        rfl
    | cons f rest ih =>
        intro hpart
        obtain ⟨hf, hrest⟩ := List.cons_subset.mp hpart
        rw [List.map_cons, List.mapM_cons, field?_of_mem (by rwa [hfirst]) hf, ih hrest]
        rfl
  have hall := hfields _ (List.Subset.refl _)
  have hvalues : (names.zip values).map (fun f => some f.2) = values.map some := by
    have hsecond : (names.zip values).map Prod.snd = values :=
      List.map_snd_zip (Nat.le_of_eq hlength.symm)
    have hsome := congrArg (List.map some) hsecond
    rwa [List.map_map] at hsome
  rwa [hfirst, hvalues] at hall

theorem required?_bind {α β : Type} {read : Json → Option α} {j : Json} {a : α}
    (h : read j = some a) (next : α → Option β) : (required? read (some j) >>= next) = next a := by
  rw [required?, Option.bind_some, h]
  rfl

theorem optional?_bind {α β : Type} {read : Json → Option α} {default : α} {j : Json} {a : α}
    (h : read j = some a) (next : α → Option β) :
    (optional? read default (some j) >>= next) = next a := by
  rw [optional?, h]
  rfl

end Json

/-! ## The parts of a puzzle -/

open Json

theorem ModulePlan.faithful : Faithful ModulePlan.toJson ModulePlan.ofJson? := by
  intro plan
  refine ⟨⟨trivial, trivial, trivial, trivial⟩, ?_⟩
  have hfields : plan.toJson.record? ["module", "name", "locked"] = some _ :=
    record?_zip ["module", "name", "locked"] [.text plan.kind, .text plan.name, .bool plan.locked]
      (by decide) rfl
  rw [ModulePlan.ofJson?, hfields, Option.bind_eq_bind, Option.bind_some]
  dsimp only [List.map]
  rw [required?_bind (faithful_text _).2, required?_bind (faithful_text _).2,
    optional?_bind (faithful_bool _).2]

theorem StationPlan.faithful : Faithful StationPlan.toJson StationPlan.ofJson? := by
  intro plan
  obtain ⟨hexact, hread⟩ := ModulePlan.faithful.list plan.modules
  refine ⟨⟨trivial, hexact, trivial⟩, ?_⟩
  have hfields : plan.toJson.record? ["name", "modules"] = some _ :=
    record?_zip ["name", "modules"]
      [.text plan.name, .array (plan.modules.map ModulePlan.toJson)] (by decide) rfl
  rw [StationPlan.ofJson?, hfields, Option.bind_eq_bind, Option.bind_some]
  dsimp only [List.map]
  rw [required?_bind (faithful_text _).2, optional?_bind hread]

theorem Constraints.faithful : Faithful Constraints.toJson Constraints.ofJson? := by
  intro c
  obtain ⟨hstatements, hreadStatements⟩ := faithful_number c.maxStatements
  obtain ⟨hactions, hreadActions⟩ := faithful_number c.maxActions
  refine ⟨⟨hstatements, hactions, trivial, trivial⟩, ?_⟩
  have hfields :
      c.toJson.record? ["maxStatements", "maxActions", "additionalConstraint"] = some _ :=
    record?_zip ["maxStatements", "maxActions", "additionalConstraint"]
      [.int c.maxStatements.val, .int c.maxActions.val, .text c.additional] (by decide) rfl
  rw [Constraints.ofJson?, hfields, Option.bind_eq_bind, Option.bind_some]
  dsimp only [List.map]
  rw [optional?_bind hreadStatements, optional?_bind hreadActions,
    optional?_bind (faithful_text _).2]

namespace Puzzle

theorem exact_toJson (p : Puzzle) : p.toJson.Exact := by
  have hdifficulty : (Json.nat p.difficulty.toNat).Exact :=
    exact_nat (Nat.lt_trans p.difficulty.toNat_lt (by decide))
  have hcount : (Json.nat p.stationCount.toNat).Exact :=
    exact_nat p.stationCount.toNat_lt
  have hcases := (faithful_texts.list p.testCases).1
  have hpantry := (faithful_texts p.starterPantry).1
  have hstations := (StationPlan.faithful.list p.stations).1
  have hconstraints := (Constraints.faithful p.constraints).1
  exact ⟨trivial, hdifficulty, hcases, hpantry, trivial, hcount, hstations, trivial, hconstraints,
    trivial, trivial⟩

theorem ofJson?_toJson (p : Puzzle) : ofJson? p.toJson = some p := by
  have hdifficulty : asNat? UInt32.size (.nat p.difficulty.toNat) = some p.difficulty.toNat :=
    asNat?_nat p.difficulty.toNat_lt
  have hcount : asNat? UInt64.size (.nat p.stationCount.toNat) = some p.stationCount.toNat :=
    asNat?_nat p.stationCount.toNat_lt
  have hcases := (faithful_texts.list p.testCases).2
  have hpantry := (faithful_texts p.starterPantry).2
  have hstations := (StationPlan.faithful.list p.stations).2
  have hconstraints := (Constraints.faithful p.constraints).2
  have hfields : p.toJson.record? fieldNames = some _ :=
    record?_zip fieldNames
      [.text p.name, .nat p.difficulty.toNat, .array (p.testCases.map texts),
        .texts p.starterPantry, .text p.starterCode, .nat p.stationCount.toNat,
        .array (p.stations.map StationPlan.toJson), .bool p.modulesLocked, p.constraints.toJson,
        .text p.storyPrompt]
      (by decide) rfl
  rw [ofJson?, hfields, Option.bind_eq_bind, Option.bind_some]
  dsimp only [List.map]
  rw [required?_bind (faithful_text _).2, optional?_bind hdifficulty, required?_bind hcases,
    optional?_bind hpantry, optional?_bind (faithful_text _).2, optional?_bind hcount,
    optional?_bind hstations, optional?_bind (faithful_bool _).2, optional?_bind hconstraints,
    optional?_bind (faithful_text _).2, UInt32.ofNat_toNat, UInt64.ofNat_toNat]

/-- A puzzle is read back from its file as it was.  So a text that is read as a puzzle, written
anew from that puzzle and read again gives the same puzzle. -/
theorem read?_write :
    (∀ p : Puzzle, read? p.write = some p) ∧
      ∀ text : String, ((read? text).bind fun p => read? p.write) = read? text := by
  have hround : ∀ p : Puzzle, read? p.write = some p := by
    intro p
    rw [Puzzle.read?, Puzzle.write, Json.read?_pretty (exact_toJson p), Option.bind_some,
      ofJson?_toJson]
  refine ⟨hround, fun text => ?_⟩
  cases htext : read? text with
  | none => rfl
  | some p => rw [Option.bind_some, hround p]

end Puzzle

end KitchenScript
