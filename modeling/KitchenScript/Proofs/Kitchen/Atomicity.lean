import KitchenScript.Proofs.Kitchen.WellFormed

/-!
# Calls that fail

A kitchen call either does all of its work or none of it.  In a well-formed kitchen this holds of the
calls in place, which could stop half-way; for a program it means that a built-in call that fails has
done nothing but evaluate its arguments.
-/

namespace KitchenScript

theorem Kitchen.Changes.count_eq {k k' : Kitchen} (h : k.WellFormed) {name : String}
    (hchange : Changes k (.get name) k') (food : Food) :
    k.pantry.count food = k'.pantry.count food + if food = ⟨name⟩ then 1 else 0 := by
  cases hchange with
  | get hat hpantry =>
      have hmore := Pantry.oneMore_of_take h.stocked hpantry
      exact hmore.count_eq h.ordered food

/-! ## Calls of a program -/

theorem Exec.machine_of_perform_error {request : Request} {m m' : Machine} {e : Fault}
    (h : perform request m = (.error e, m')) : m' = m := by
  cases request with
  | print v => cases h
  | operation op =>
      simp only [perform] at h
      cases heffect : op.carryOut m.kitchen with
      | error e' =>
          rw [heffect] at h
          cases h
          rfl
      | ok effect =>
          rw [heffect] at h
          cases h

theorem Expr.machine_of_builtin_error {limits : Limits} {call : Caller} {span : Span}
    {callee : Builtin} {args : List Expr} {m m' : Machine} {e : Fault}
    (harity : args.length = callee.arity)
    (h : eval limits call (.builtin span callee args) m = (.error e, m')) :
    m' = (evalAll limits call args m).2 := by
  rw [eval, if_pos harity] at h
  simp only [bind, Exec.bind] at h
  cases hargs : evalAll limits call args m with
  | mk result m₁ =>
      rw [hargs] at h
      cases result with
      | error e' =>
          cases h
          rfl
      | ok values =>
          cases hrequest : callee.request values with
          | error e' =>
              simp only [Exec.lift, hrequest] at h
              cases h
              rfl
          | ok request =>
              simp only [Exec.lift, hrequest] at h
              exact Exec.machine_of_perform_error h

/-! ## All or nothing -/

/-- In a well-formed kitchen a call in place that fails leaves the kitchen as it was, and one that
succeeds makes the change of its operation.  A built-in call that fails leaves the machine as it was
after the arguments. -/
theorem calls_atomic {k : Kitchen} (h : k.WellFormed) (op : Operation) :
    (∀ e k', op.inPlace.run k = .error e k' → k' = k ∧ op.carryOut k = .error e) ∧
      (∀ k', op.inPlace.run k = .ok () k' →
        Kitchen.Changes k op k' ∧
          (∀ name, op = .get name → ∀ food, k.pantry.count food =
            k'.pantry.count food + if food = ⟨name⟩ then 1 else 0) ∧
          ∃ effect, op.carryOut k = .ok effect ∧ effect.kitchen = k') ∧
      ∀ (limits : Limits) (call : Caller) (span : Span) (callee : Builtin) (args : List Expr)
        (m m' : Machine) (e : Fault), args.length = callee.arity →
        Expr.eval limits call (.builtin span callee args) m = (.error e, m') →
          m'.kitchen = (Expr.evalAll limits call args m).2.kitchen ∧
            m'.log = (Expr.evalAll limits call args m).2.log := by
  have hrun := Operation.run_inPlace h.moduleNames op
  refine ⟨?_, ?_, ?_⟩
  · intro e k' hfail
    rw [hfail] at hrun
    cases heffect : op.carryOut k with
    | error e' =>
        rw [heffect] at hrun
        cases hrun
        exact ⟨rfl, rfl⟩
    | ok effect =>
        rw [heffect] at hrun
        cases hrun
  · intro k' hok
    rw [hok] at hrun
    cases heffect : op.carryOut k with
    | error e =>
        rw [heffect] at hrun
        cases hrun
    | ok effect =>
        rw [heffect] at hrun
        cases hrun
        have hchange := Kitchen.changes_of_carryOut h.moduleNames heffect
        refine ⟨hchange, ?_, effect, rfl, rfl⟩
        rintro name rfl
        exact hchange.count_eq h
  · intro limits call span callee args m m' e harity hfail
    rw [Expr.machine_of_builtin_error harity hfail]
    exact ⟨rfl, rfl⟩

/-- The soup maker has two slots, so there is none with the number two; and there is one unit of
broth, so to get it once for the argument and once more fails after the first. -/
theorem calls_atomic_soup :
    let k := Kitchen.soup.attempts [.get "Broth"]
    let two : Number := ⟨2, by decide, by decide⟩
    let get : Expr → Expr := fun arg => .builtin (.point .start) .get [arg]
    let once := get (.text (.point .start) "Broth")
    let call := callWithin .standard 1
    ∃ e k' m', k.WellFormed ∧
      (Operation.place "soup" "Broth" two).inPlace.run k = .error e k ∧
      (Operation.place "soup" "Broth" .zero).inPlace.run k = .ok () k' ∧
      Kitchen.Changes k (.place "soup" "Broth" .zero) k' ∧
      Expr.eval .standard call (get once) (.forKitchen Kitchen.soup) =
        (.error (.world (.outOfStock "Broth")), m') ∧
      m'.log = (Expr.evalAll .standard call [once] (.forKitchen Kitchen.soup)).2.log := by
  intro k two get once call
  have hk : k.WellFormed := (Kitchen.isFresh_soup.wellFormed.attempts [.get "Broth"]).1
  have hfail := (calls_atomic hk (.place "soup" "Broth" two)).1 _ _ rfl
  have hplace := (calls_atomic hk (.place "soup" "Broth" .zero)).2.1 _ rfl
  have hget := (calls_atomic hk .deliver).2.2 .standard call (.point .start) .get [once]
    (.forKitchen Kitchen.soup) _ _ rfl rfl
  exact ⟨_, _, _, hk, congrArg (EStateM.Result.error _) hfail.1, rfl, hplace.1, rfl, hget.2⟩

end KitchenScript
