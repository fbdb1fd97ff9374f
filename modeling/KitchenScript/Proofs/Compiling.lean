import KitchenScript.Compile

/-!
# What compiling gives

The parts of a compiled source in terms of its tokens.  A source compiles exactly when nothing was
found wrong with its tokens, and exactly then it has a program and figures.
-/

namespace KitchenScript

namespace Diagnostics

theorem push_eq_of_take (ds : List Diagnostic) (d : Diagnostic) :
    push ⟨ds.take capacity, ds.length⟩ d = ⟨(ds ++ [d]).take capacity, (ds ++ [d]).length⟩ := by
  simp only [push, List.length_take, List.length_append, List.length_singleton]
  by_cases hroom : ds.length < capacity
  · rw [if_pos (by omega), List.take_of_length_le (Nat.le_of_lt hroom), List.take_of_length_le]
    rw [List.length_append, List.length_singleton]
    exact hroom
  · rw [if_neg (by omega), List.take_append_of_le_length (by omega)]

theorem foldl_push (ds rest : List Diagnostic) :
    rest.foldl push ⟨ds.take capacity, ds.length⟩ =
      ⟨(ds ++ rest).take capacity, (ds ++ rest).length⟩ := by
  induction rest generalizing ds with
  | nil => rw [List.append_nil, List.foldl_nil]
  | cons d rest ih =>
      rw [List.foldl_cons, push_eq_of_take, ih, List.append_assoc, List.singleton_append]

/-- The first diagnostics are kept and all are counted. -/
theorem ofList_eq (ds : List Diagnostic) : ofList ds = ⟨ds.take capacity, ds.length⟩ :=
  foldl_push [] ds

end Diagnostics

theorem program_compile (source : Source) :
    (compile source).program = (Program.ofTokens (tokenize source.text)).1 := rfl

theorem stats_compile (source : Source) :
    (compile source).stats = (compile source).program.map Stats.ofProgram := rfl

theorem diagnostics_compile (source : Source) :
    (compile source).diagnostics =
      .ofList ((Program.ofTokens (tokenize source.text)).2.map (Finding.diagnose source)) := rfl

namespace Compiled

theorem succeeded_eq (source : Source) :
    (compile source).succeeded = (Program.ofTokens (tokenize source.text)).2.isEmpty := by
  rw [succeeded, diagnostics_compile, Diagnostics.ofList_eq]
  cases (Program.ofTokens (tokenize source.text)).2 <;> rfl

/-- A source compiles exactly when it has a program. -/
theorem succeeded_iff (source : Source) :
    (compile source).succeeded = true ↔ ∃ p, (compile source).program = some p := by
  rw [succeeded_eq, program_compile]
  unfold Program.ofTokens
  simp only
  split
  · rename_i hempty
    exact ⟨fun _ => ⟨_, rfl⟩, fun _ => hempty⟩
  · rename_i hfound
    exact ⟨fun hempty => absurd hempty hfound, nofun⟩

theorem succeeded_eq_false {source : Source} (h : (compile source).program = none) :
    (compile source).succeeded = false := by
  rw [← Bool.not_eq_true, succeeded_iff, h]
  rintro ⟨p, hp⟩
  cases hp

end Compiled

end KitchenScript
