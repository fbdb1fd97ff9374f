import KitchenScript.Proofs.Kitchen.Changes
import Mathlib.Data.List.Infix

/-!
# Food that is processed once

Slicers, grinders and soup makers mark the food they work on, and they refuse food with their mark.
So they do not work on what they have made themselves.  There is one way around it: a slicer takes
every `Loaf of` and slices a `Loaf of ` with something behind the space, and in the same way the
grinder is content with `Raw`.  Where the space is missing the food comes out as it went in, without
a mark, and can be put in again.
-/

namespace KitchenScript

/-! ## Phrases in texts -/

namespace Text

variable {phrase new text : List Char}

theorem occurs_iff : occurs phrase text = true ↔ phrase <:+: text := by
  induction text with
  | nil => simp [occurs]
  | cons c cs ih => simp [occurs, ih, List.infix_cons_iff]

theorem exchange_of_not_infix (h : ¬phrase <:+: text) : exchange phrase new text = text := by
  unfold exchange
  induction text with
  | nil => rfl
  | cons c cs ih =>
      rw [List.infix_cons_iff, not_or] at h
      rw [exchangeFrom, if_neg (by simpa using h.1), ih h.2]

theorem infix_exchange (hphrase : phrase ≠ []) (h : phrase <:+: text) :
    new <:+: exchange phrase new text := by
  unfold exchange
  induction text with
  | nil => exact absurd (List.infix_nil.mp h) hphrase
  | cons c cs ih =>
      rw [exchangeFrom]
      by_cases hhere : phrase <+: c :: cs
      · rw [if_pos (by simpa using hhere)]
        exact (List.prefix_append _ _).isInfix
      · have hlater : phrase <:+: cs := (List.infix_cons_iff.mp h).resolve_left hhere
        rw [if_neg (by simpa using hhere)]
        exact (ih hlater).trans (List.suffix_cons _ _).isInfix

theorem contains_iff {text phrase : String} :
    contains text phrase = true ↔ phrase.toList <:+: text.toList :=
  occurs_iff

theorem replace_of_not_contains {text phrase : String} (h : contains text phrase = false)
    (new : String) : replace text phrase new = text := by
  have hnot : ¬phrase.toList <:+: text.toList := by
    rw [← contains_iff, h]
    exact Bool.false_ne_true
  rw [replace, exchange_of_not_infix hnot, String.ofList_toList]

theorem contains_replace {text phrase new mark : String} (hphrase : phrase.toList ≠ [])
    (hmark : mark.toList <:+: new.toList) (h : contains text phrase = true) :
    contains (replace text phrase new) mark = true := by
  rw [contains_iff, replace, String.toList_ofList]
  exact hmark.trans (infix_exchange hphrase (contains_iff.mp h))

end Text

/-! ## Recipes that mark -/

/-- The kinds that mark the food they work on. -/
inductive Processor where
  | slicer
  | grinder
  | soupMaker

namespace Processor

def kind : Processor → ModuleKind
  | slicer => .slicer
  | grinder => .grinder
  | soupMaker => .soupMaker

/-- The slot of the food that is worked on. -/
def slot : Processor → Nat
  | slicer => 0
  | grinder => 0
  | soupMaker => 1

def mark : Processor → String
  | slicer => "Sliced"
  | grinder => "Ground"
  | soupMaker => "Soup"

/-- The phrase that gives way to the mark.  The mark of a soup stands behind the whole name. -/
def phrase? : Processor → Option String
  | slicer => some "Loaf of "
  | grinder => some "Raw "
  | soupMaker => none

/-- A module of the kind with a food to work on, and the broth that a soup needs. -/
structure Loaded (k : Processor) (m : Module) (x : Food) : Prop where
  kind : m.kind = k.kind
  food : m.slots[k.slot]? = some (some x)
  broth : k = .soupMaker → m.slots[0]? = some (some ⟨"Broth"⟩)

end Processor

namespace Module

variable {m m' : Module} {x p : Food} {i : Nat}

theorem filled_of_getElem? (h : m.slots[i]? = some (some x)) : m.filled i = .ok x := by
  rw [filled, h]

theorem lacking_of_getElem? (h : m.slots[i]? = some (some x)) (mark : String) :
    m.lacking i mark =
      if Text.contains x.name mark then .error (.alreadyDone m.name i mark) else .ok x := by
  rw [lacking, filled_of_getElem? h]
  rfl

theorem having_of_getElem? (h : m.slots[i]? = some (some x)) (wanted : String) :
    m.having i wanted =
      if Text.contains x.name wanted then .ok x else .error (.missing m.name i wanted) := by
  rw [having, filled_of_getElem? h]
  rfl

/-- The recipe of slicers and grinders: a phrase gives way to another one. -/
def renamed (m : Module) (mark wanted phrase new : String) : Except KitchenError Food := do
  let food ← m.lacking 0 mark
  let _ ← m.having 0 wanted
  .ok ⟨Text.replace food.name phrase new⟩

theorem product_slicer (h : m.kind = .slicer) :
    m.product = m.renamed "Sliced" "Loaf of" "Loaf of " "Sliced " := by
  rw [product, h]
  rfl

theorem product_grinder (h : m.kind = .grinder) :
    m.product = m.renamed "Ground" "Raw" "Raw " "Ground " := by
  rw [product, h]
  rfl

theorem renamed_eq_ok_iff {mark wanted phrase new : String} (h : m.slots[0]? = some (some x)) :
    m.renamed mark wanted phrase new = .ok p ↔
      Text.contains x.name mark = false ∧ Text.contains x.name wanted = true ∧
        p = ⟨Text.replace x.name phrase new⟩ := by
  rw [renamed, lacking_of_getElem? h, having_of_getElem? h]
  by_cases hmark : Text.contains x.name mark
  · simp [hmark, bind, Except.bind]
  · by_cases hwanted : Text.contains x.name wanted
    · simp [hmark, hwanted, bind, Except.bind, eq_comm]
    · simp [hmark, hwanted, bind, Except.bind]

theorem renamed_of_marked {mark wanted phrase new : String} (h : m.slots[0]? = some (some x))
    (hmark : Text.contains x.name mark = true) :
    m.renamed mark wanted phrase new = .error (.alreadyDone m.name 0 mark) := by
  rw [renamed, lacking_of_getElem? h, if_pos hmark]
  rfl

/-- What has been renamed is refused, and what has not is taken again. -/
theorem renamed_renamed {mark wanted phrase new : String} (hphrase : phrase.toList ≠ [])
    (hnew : mark.toList <:+: new.toList) (hx : m.slots[0]? = some (some x))
    (hp : m'.slots[0]? = some (some p)) (h : m.renamed mark wanted phrase new = .ok p) :
    (Text.contains x.name phrase = true ∧ p ≠ x ∧
        m'.renamed mark wanted phrase new = .error (.alreadyDone m'.name 0 mark)) ∨
      (Text.contains x.name phrase = false ∧ p = x ∧
        m'.renamed mark wanted phrase new = .ok x) := by
  obtain ⟨hmark, hwanted, hproduct⟩ := (renamed_eq_ok_iff hx).mp h
  cases hcontains : Text.contains x.name phrase with
  | true =>
      have hmarked : Text.contains p.name mark = true := by
        rw [hproduct]
        exact Text.contains_replace hphrase hnew hcontains
      refine .inl ⟨rfl, ?_, renamed_of_marked hp hmarked⟩
      rintro rfl
      rw [hmark] at hmarked
      cases hmarked
  | false =>
      have hsame : p = x := by rw [hproduct, Text.replace_of_not_contains hcontains]
      rw [hsame] at hp
      refine .inr ⟨rfl, hsame, (renamed_eq_ok_iff hp).mpr ⟨hmark, hwanted, ?_⟩⟩
      rw [← hproduct, hsame]

theorem product_soupMaker (h : m.kind = .soupMaker)
    (hbroth : m.slots[0]? = some (some ⟨"Broth"⟩)) (hx : m.slots[1]? = some (some x)) :
    m.product = if Text.contains x.name "Soup" then .error (.alreadyDone m.name 1 "Soup")
      else .ok ⟨x.name ++ " Soup"⟩ := by
  have hexactly : m.exactly 0 "Broth" = .ok ⟨"Broth"⟩ := by
    rw [exactly, filled_of_getElem? hbroth]
    rfl
  rw [product, h]
  dsimp only
  rw [hexactly, lacking_of_getElem? hx]
  by_cases hsoup : Text.contains x.name "Soup"
  · simp [hsoup, bind, Except.bind]
  · simp [hsoup, bind, Except.bind]

theorem activate_of_product_error {e : KitchenError} (h : m.product = .error e) :
    m.activate = .error e := by
  rw [activate, h]
  rfl

end Module

/-! ## Working on a product -/

namespace Processor

/-- What a second activation makes of the product of the first. -/
inductive Again (k : Processor) (m : Module) (x p : Food) : Prop where
  | refused (hx : ∀ phrase, k.phrase? = some phrase → Text.contains x.name phrase = true)
      (hp : p ≠ x) (hproduct : m.product = .error (.alreadyDone m.name k.slot k.mark))
  | unchanged {phrase : String} (hphrase : k.phrase? = some phrase)
      (hx : Text.contains x.name phrase = false) (hp : p = x) (hproduct : m.product = .ok x)

variable {k : Processor} {m m' : Module} {x p : Food}

theorem Loaded.again (hx : k.Loaded m x) (hmade : m.product = .ok p) (hp : k.Loaded m' p) :
    k.Again m' x p := by
  -- slicers and grinders differ in their phrases only
  have hrenamed : ∀ {mark wanted phrase new : String}, k.slot = 0 → k.mark = mark →
      k.phrase? = some phrase → phrase.toList ≠ [] → mark.toList <:+: new.toList →
      (∀ m : Module, m.kind = k.kind → m.product = m.renamed mark wanted phrase new) →
      k.Again m' x p := by
    intro mark wanted phrase new hslot hmark hphrase hne hnew hrecipe
    have hfood := hx.food
    have hfood' := hp.food
    rw [hslot] at hfood hfood'
    rw [hrecipe m hx.kind] at hmade
    rcases Module.renamed_renamed hne hnew hfood hfood' hmade with
      ⟨hcontains, hother, herror⟩ | ⟨hcontains, hsame, hagain⟩
    · refine .refused ?_ hother ?_
      · intro phrase' hphrase'
        cases hphrase.symm.trans hphrase'
        exact hcontains
      · rw [hrecipe m' hp.kind, herror, hslot, hmark]
    · refine .unchanged hphrase hcontains hsame ?_
      rw [hrecipe m' hp.kind, hagain]
  cases k with
  | slicer =>
      exact hrenamed rfl rfl rfl (by decide) (by decide) fun _ hkind => Module.product_slicer hkind
  | grinder =>
      exact hrenamed rfl rfl rfl (by decide) (by decide) fun _ hkind => Module.product_grinder hkind
  | soupMaker =>
      have hproduct := Module.product_soupMaker hx.kind (hx.broth rfl) hx.food
      cases hsoup : Text.contains x.name "Soup" with
      | true =>
          rw [hproduct, hsoup] at hmade
          cases hmade
      | false =>
          rw [hproduct, hsoup] at hmade
          cases hmade
          have hmarked : Text.contains (x.name ++ " Soup") "Soup" = true := by
            rw [Text.contains_iff, String.toList_append]
            have hbehind : "Soup".toList <:+: " Soup".toList := by decide
            exact hbehind.trans (List.suffix_append _ _).isInfix
          refine .refused (by simp [phrase?]) ?_ ?_
          · intro hsame
            rw [← hsame, hmarked] at hsoup
            cases hsoup
          · rw [Module.product_soupMaker hp.kind (hp.broth rfl) hp.food, if_pos hmarked]
            rfl

/-- A slicer, a grinder or a soup maker refuses what one of its kind has made, unless nothing was
made of it: that is so exactly where the phrase to be exchanged is not in the name, and then it is
taken again and comes out unchanged once more. -/
theorem products_refused (k : Processor) {m m' left : Module} {x p : Food} (hx : k.Loaded m x)
    (hmade : m.activate = .ok (p, left)) (hp : k.Loaded m' p) :
    (p ≠ x → m'.activate = .error (.alreadyDone m'.name k.slot k.mark)) ∧
    (p = x ↔ ∃ phrase, k.phrase? = some phrase ∧ Text.contains x.name phrase = false) ∧
    (p = x → ∃ left', m'.activate = .ok (x, left')) := by
  obtain ⟨hproduct, -⟩ := Module.activate_eq_ok_iff.mp hmade
  cases hx.again hproduct hp with
  | refused hcontains hother herror =>
      have hagain := Module.activate_of_product_error herror
      refine ⟨fun _ => hagain, ⟨fun hsame => absurd hsame hother, ?_⟩,
        fun hsame => absurd hsame hother⟩
      rintro ⟨phrase, hphrase, hnot⟩
      rw [hcontains phrase hphrase] at hnot
      cases hnot
  | unchanged hphrase hnot hsame hagain =>
      refine ⟨fun hother => absurd hsame hother, ⟨fun _ => ⟨_, hphrase, hnot⟩, fun _ => hsame⟩,
        fun _ => ⟨_, Module.activate_eq_ok_iff.mpr ⟨hagain, rfl⟩⟩⟩

theorem products_refused_bread :
    let slicer (x : Food) : Module := { Module.fresh .slicer "slicer" false with slots := [some x] }
    let loaf : Food := ⟨"Loaf of Bread"⟩
    let slices : Food := ⟨"Sliced Bread"⟩
    ∃ left, Processor.slicer.Loaded (slicer loaf) loaf ∧
      (slicer loaf).activate = .ok (slices, left) ∧
      Processor.slicer.Loaded (slicer slices) slices ∧
      (slicer slices).activate = .error (.alreadyDone "slicer" 0 "Sliced") := by
  intro slicer loaf slices
  have hloaded : ∀ x, Processor.slicer.Loaded (slicer x) x := fun x => ⟨rfl, rfl, nofun⟩
  have hmade : (slicer loaf).activate = .ok (slices, { slicer loaf with
      slots := [Option.none], output := some slices }) := by
    decide +kernel
  have hrefused := (products_refused .slicer (hloaded loaf) hmade (hloaded slices)).1 (by decide)
  exact ⟨_, hloaded loaf, hmade, hloaded slices, hrefused⟩

/-- A loaf of nothing in particular is sliced into itself, and so it is not refused. -/
theorem bare_loaf_not_refused :
    let loaf : Food := ⟨"Loaf of"⟩
    let slicer : Module := { Module.fresh .slicer "slicer" false with slots := [some loaf] }
    Processor.slicer.Loaded slicer loaf ∧ (∃ left, slicer.activate = .ok (loaf, left)) ∧
      ∀ name slot mark, slicer.activate ≠ .error (.alreadyDone name slot mark) := by
  intro loaf slicer
  have hmade : slicer.activate =
      .ok (loaf, { slicer with slots := [Option.none], output := some loaf }) := by
    decide +kernel
  refine ⟨⟨rfl, rfl, nofun⟩, ⟨_, hmade⟩, ?_⟩
  intro name slot mark herror
  rw [hmade] at herror
  cases herror

end Processor

end KitchenScript
