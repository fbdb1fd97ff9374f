import KitchenScript.Kitchen.Food
import Mathlib.Algebra.GroupWithZero.Nat
import Mathlib.Data.List.Basic

/-!
# The stock of a pantry

Adding a unit of a food and taking one are the two directions of one relation between stocks, from
which the laws of both follow: the number of units, the count of each food, the order of the names
and that no entry is used up.
-/

namespace KitchenScript.Pantry

/-- The stock is listed in the order of the names, with one entry for each. -/
def Ordered (stock : List (Food × Nat)) : Prop :=
  stock.Pairwise fun a b => a.1.name < b.1.name

def Stocked (stock : List (Food × Nat)) : Prop :=
  ∀ entry ∈ stock, 0 < entry.2

/-- All units together. -/
def units (p : Pantry) : Nat :=
  (p.stock.map Prod.snd).sum

/-- The entry for a number of units, or none for no units. -/
def entryOf (item : Food) (n : Nat) : List (Food × Nat) :=
  if n = 0 then [] else [(item, n)]

@[simp] theorem entryOf_zero (item : Food) : entryOf item 0 = [] :=
  rfl

@[simp] theorem entryOf_succ (item : Food) (n : Nat) : entryOf item (n + 1) = [(item, n + 1)] :=
  rfl

/-- The first stock has a unit more of a food than the second, and no other entry differs. -/
def OneMore (item : Food) (stock stock' : List (Food × Nat)) : Prop :=
  ∃ front n rest, stock = front ++ (item, n + 1) :: rest ∧
    stock' = front ++ entryOf item n ++ rest ∧ ∀ entry ∈ front, entry.1 ≠ item

section OneMore

variable {item : Food} {stock stock' : List (Food × Nat)}

theorem OneMore.cons {entry : Food × Nat} (h : OneMore item stock stock')
    (hentry : entry.1 ≠ item) : OneMore item (entry :: stock) (entry :: stock') := by
  obtain ⟨front, n, rest, rfl, rfl, hfront⟩ := h
  refine ⟨entry :: front, n, rest, rfl, rfl, ?_⟩
  intro other hother
  rcases List.mem_cons.mp hother with rfl | hmem
  · exact hentry
  · exact hfront other hmem

theorem oneMore_addTo (h : Stocked stock) (item : Food) :
    OneMore item (addTo item stock) stock := by
  induction stock with
  | nil => exact ⟨[], 0, [], rfl, rfl, by simp⟩
  | cons head rest ih =>
      obtain ⟨food, n⟩ := head
      have hn : 0 < n := h (food, n) List.mem_cons_self
      have hrest : Stocked rest := fun entry hentry => h entry (List.mem_cons_of_mem _ hentry)
      by_cases hitem : item = food
      · subst hitem
        have hentry : entryOf item n = [(item, n)] := if_neg (Nat.ne_of_gt hn)
        rw [addTo, if_pos rfl]
        refine ⟨[], n, rest, rfl, ?_, by simp⟩
        rw [hentry]
        rfl
      · by_cases hlt : item.name < food.name
        · rw [addTo, if_neg hitem, if_pos hlt]
          exact ⟨[], 0, (food, n) :: rest, rfl, rfl, by simp⟩
        · rw [addTo, if_neg hitem, if_neg hlt]
          exact (ih hrest).cons (Ne.symm hitem)

theorem oneMore_of_takeFrom (h : Stocked stock) (htake : takeFrom item stock = some stock') :
    OneMore item stock stock' := by
  induction stock generalizing stock' with
  | nil => cases htake
  | cons head rest ih =>
      obtain ⟨food, n⟩ := head
      have hn : 0 < n := h (food, n) List.mem_cons_self
      have hrest : Stocked rest := fun entry hentry => h entry (List.mem_cons_of_mem _ hentry)
      by_cases hitem : item = food
      · subst hitem
        rw [takeFrom, if_pos rfl] at htake
        cases htake
        have hpred : n - 1 + 1 = n := Nat.succ_pred_eq_of_pos hn
        refine ⟨[], n - 1, rest, by rw [hpred]; rfl, ?_, by simp⟩
        by_cases hone : 1 < n
        · have hleft : n - 1 ≠ 0 := by omega
          simp [entryOf, hone, hleft]
        · have hleft : n - 1 = 0 := by omega
          simp [entryOf, hone, hleft]
      · rw [takeFrom, if_neg hitem] at htake
        obtain ⟨rest', htake', rfl⟩ := Option.map_eq_some_iff.mp htake
        exact (ih hrest htake').cons (Ne.symm hitem)

theorem of_mem_entryOf {n : Nat} {entry : Food × Nat} (h : entry ∈ entryOf item n) :
    entry = (item, n) ∧ 0 < n := by
  cases n with
  | zero => cases h
  | succ n => exact ⟨List.mem_singleton.mp h, Nat.succ_pos n⟩

theorem OneMore.stocked_iff (h : OneMore item stock stock') : Stocked stock ↔ Stocked stock' := by
  obtain ⟨front, n, rest, rfl, rfl, -⟩ := h
  unfold Stocked
  constructor
  · intro hstock entry hentry
    simp only [List.mem_append] at hentry
    rcases hentry with (hfront | hold) | hrest
    · exact hstock entry (List.mem_append_left _ hfront)
    · obtain ⟨rfl, hn⟩ := of_mem_entryOf hold
      exact hn
    · exact hstock entry (List.mem_append_right _ (List.mem_cons_of_mem _ hrest))
  · intro hstock entry hentry
    rcases List.mem_append.mp hentry with hfront | htail
    · exact hstock entry (by simp [hfront])
    · rcases List.mem_cons.mp htail with rfl | hrest
      · exact Nat.succ_pos n
      · exact hstock entry (by simp [hrest])

theorem OneMore.fst_of_mem (h : OneMore item stock stock') {entry : Food × Nat}
    (hentry : entry ∈ stock) : entry.1 = item ∨ entry ∈ stock' := by
  obtain ⟨front, n, rest, rfl, rfl, -⟩ := h
  rcases List.mem_append.mp hentry with hfront | htail
  · exact .inr (by simp [hfront])
  · rcases List.mem_cons.mp htail with rfl | hrest
    · exact .inl rfl
    · exact .inr (by simp [hrest])

theorem OneMore.sum_eq (h : OneMore item stock stock') :
    (stock.map Prod.snd).sum = (stock'.map Prod.snd).sum + 1 := by
  obtain ⟨front, n, rest, rfl, rfl, -⟩ := h
  have hentry : ((entryOf item n).map Prod.snd).sum = n := by
    cases n with
    | zero => rfl
    | succ n => simp
  simp only [List.map_append, List.map_cons, List.sum_append, List.sum_cons, hentry]
  omega

theorem OneMore.ordered (h : OneMore item stock stock') (hstock : Ordered stock) :
    Ordered stock' := by
  obtain ⟨front, n, rest, rfl, rfl, -⟩ := h
  cases n with
  | zero =>
      have hsub : (front ++ entryOf item 0 ++ rest).Sublist (front ++ (item, 1) :: rest) := by
        simp
      exact hstock.sublist hsub
  | succ n =>
      -- only the number in the entry differs, and the order does not look at it
      have hsplit := List.pairwise_append.mp hstock
      have htail := List.pairwise_cons.mp hsplit.2.1
      rw [entryOf_succ, List.append_assoc, List.singleton_append]
      refine List.pairwise_append.mpr ⟨hsplit.1, List.pairwise_cons.mpr ⟨htail.1, htail.2⟩, ?_⟩
      intro a ha b hb
      rcases List.mem_cons.mp hb with rfl | hrest
      · exact hsplit.2.2 a ha (item, n + 1 + 1) List.mem_cons_self
      · exact hsplit.2.2 a ha b (List.mem_cons_of_mem _ hrest)

end OneMore

theorem name_lt_of_not_lt {a b : Food} (hne : a ≠ b) (hlt : ¬a.name < b.name) :
    b.name < a.name := by
  by_contra hgt
  have hle : b.name ≤ a.name := String.not_lt.mp hlt
  have hge : a.name ≤ b.name := String.not_lt.mp hgt
  have hname : a.name = b.name := String.le_antisymm hge hle
  obtain ⟨aName⟩ := a
  obtain ⟨bName⟩ := b
  exact hne (congrArg Food.mk hname)

theorem ordered_addTo {stock : List (Food × Nat)} (hstocked : Stocked stock)
    (h : Ordered stock) (item : Food) : Ordered (addTo item stock) := by
  induction stock with
  | nil => exact List.pairwise_singleton _ _
  | cons head rest ih =>
      obtain ⟨food, n⟩ := head
      have hhead := (List.pairwise_cons.mp h).1
      have hrest := (List.pairwise_cons.mp h).2
      have hstocked' : Stocked rest :=
        fun entry hentry => hstocked entry (List.mem_cons_of_mem _ hentry)
      by_cases hitem : item = food
      · rw [addTo, if_pos hitem]
        exact List.pairwise_cons.mpr ⟨hhead, hrest⟩
      · by_cases hlt : item.name < food.name
        · rw [addTo, if_neg hitem, if_pos hlt]
          refine List.pairwise_cons.mpr ⟨?_, h⟩
          intro entry hentry
          rcases List.mem_cons.mp hentry with rfl | hmem
          · exact hlt
          · exact String.lt_trans hlt (hhead entry hmem)
        · rw [addTo, if_neg hitem, if_neg hlt]
          refine List.pairwise_cons.mpr ⟨?_, ih hstocked' hrest⟩
          intro entry hentry
          rcases (oneMore_addTo hstocked' item).fst_of_mem hentry with hnew | hold
          · rw [hnew]
            exact name_lt_of_not_lt hitem hlt
          · exact hhead entry hold

/-- A stock that is ordered has no second entry of a food. -/
theorem lookup_eq_none_of_ordered {item : Food} {n : Nat} {front rest : List (Food × Nat)}
    (h : Ordered (front ++ (item, n) :: rest)) : rest.lookup item = none := by
  have htail := (List.pairwise_append.mp h).2.1
  have hrest := (List.pairwise_cons.mp htail).1
  rw [List.lookup_eq_none_iff]
  intro entry hentry
  have hlt : item.name < entry.1.name := hrest entry hentry
  have hne : item ≠ entry.1 := by
    intro heq
    rw [← heq] at hlt
    exact String.lt_irrefl _ hlt
  simpa using hne

theorem OneMore.count_eq {p p' : Pantry} {item : Food} (h : OneMore item p.stock p'.stock)
    (hp : Ordered p.stock) (food : Food) :
    p.count food = p'.count food + if food = item then 1 else 0 := by
  obtain ⟨front, n, rest, hstock, hstock', hfront⟩ := h
  rw [hstock] at hp
  have hrest := lookup_eq_none_of_ordered hp
  unfold count
  rw [hstock, hstock', List.append_assoc, List.lookup_append, List.lookup_append]
  by_cases hfood : food = item
  · subst hfood
    have hnone : front.lookup food = none := by
      rw [List.lookup_eq_none_iff]
      intro entry hentry
      simpa using Ne.symm (hfront entry hentry)
    cases n with
    | zero => simp [hnone, hrest]
    | succ n => simp [hnone]
  · have hbeq : (food == item) = false := by simpa using hfood
    cases n with
    | zero => simp [hfood, List.lookup_cons, hbeq]
    | succ n => simp [hfood, List.lookup_cons, hbeq]

/-! ## Pantries -/

theorem foldl_add_spec {p : Pantry} (hstocked : Stocked p.stock) (hordered : Ordered p.stock)
    (items : List Food) :
    Stocked (items.foldl add p).stock ∧ Ordered (items.foldl add p).stock ∧
      (items.foldl add p).units = p.units + items.length := by
  induction items generalizing p with
  | nil => exact ⟨hstocked, hordered, rfl⟩
  | cons item items ih =>
      have hmore : OneMore item (p.add item).stock p.stock := oneMore_addTo hstocked item
      have hstocked' : Stocked (p.add item).stock := hmore.stocked_iff.mpr hstocked
      have hordered' : Ordered (p.add item).stock := ordered_addTo hstocked hordered item
      have hunits : (p.add item).units = p.units + 1 := hmore.sum_eq
      have hrest := ih hstocked' hordered'
      rw [List.foldl_cons, List.length_cons]
      refine ⟨hrest.1, hrest.2.1, ?_⟩
      rw [hrest.2.2, hunits]
      omega

/-- A pantry that is filled unit by unit is in order and holds as many units as were put in. -/
theorem ofItems_spec (items : List Food) :
    Stocked (ofItems items).stock ∧ Ordered (ofItems items).stock ∧
      (ofItems items).units = items.length := by
  have hstocked : Stocked empty.stock := fun entry hentry => nomatch hentry
  have hspec := foldl_add_spec hstocked List.Pairwise.nil items
  refine ⟨hspec.1, hspec.2.1, ?_⟩
  rw [ofItems, hspec.2.2]
  exact Nat.zero_add _

theorem oneMore_of_take {p p' : Pantry} {item : Food} (h : Stocked p.stock)
    (htake : p.take item = .ok p') : OneMore item p.stock p'.stock := by
  apply oneMore_of_takeFrom h
  unfold take at htake
  cases hfrom : takeFrom item p.stock with
  | none => simp [hfrom] at htake
  | some stock =>
      rw [hfrom] at htake
      cases htake
      rfl

end KitchenScript.Pantry
