import KitchenScript.Proofs.Run.Simulation

/-!
# The log of a run

What a run does to its kitchen is a sequence of kitchen calls that all succeed, and the log is the
record of exactly these calls in their order.  This holds of every run, also of one that a fault has
ended.
-/

namespace KitchenScript

/-- A request carried out in a kitchen, the entry it leaves in the log and the kitchen after it. -/
inductive Occurs : Kitchen → Request → Entry → Kitchen → Prop where
  | goto {k k' : Kitchen} {name : String} {target : Location} (h : k.goto name = .ok (target, k')) :
      Occurs k (.operation (.goto name)) ⟨.move target, "Moved to " ++ target.name⟩ k'
  | get {k k' : Kitchen} {name : String} {item : Food} (h : k.get name = .ok (item, k')) :
      Occurs k (.operation (.get name))
        ⟨.pickUp item, "Picked up " ++ item.name ++ " from the Pantry"⟩ k'
  | place {k k' : Kitchen} {module item : String} {slot : Number}
      (h : k.place module item slot = .ok k') :
      Occurs k (.operation (.place module item slot))
        ⟨.putDown ⟨item⟩, "Placed " ++ item ++ " in slot " ++ slot.render ++ " of " ++ module⟩ k'
  | activate {k k' : Kitchen} {module : String} {made : Food}
      (h : k.activate module = .ok (made, k')) :
      Occurs k (.operation (.activate module))
        ⟨.use module, "Activated " ++ module ++ ", making " ++ made.name⟩ k'
  | take {k k' : Kitchen} {module : String} {item : Food}
      (h : k.take module = .ok (some item, k')) :
      Occurs k (.operation (.take module))
        ⟨.pickUp item, "Took " ++ item.name ++ " from " ++ module⟩ k'
  | takeNothing {k k' : Kitchen} {module : String} (h : k.take module = .ok (none, k')) :
      Occurs k (.operation (.take module)) ⟨.noOp, module ++ " had nothing to take"⟩ k'
  | deliver {k k' : Kitchen} {item : Food} (h : k.deliver = .ok (item, k')) :
      Occurs k (.operation .deliver) ⟨.putDown item, "Delivered " ++ item.name⟩ k'
  | print {k : Kitchen} {v : Value} : Occurs k (.print v) ⟨.noOp, v.render⟩ k

/-- Requests one after another, with an entry for each. -/
inductive Replays : Kitchen → List Request → List Entry → Kitchen → Prop where
  | nil (k : Kitchen) : Replays k [] [] k
  | cons {k k' k'' : Kitchen} {request : Request} {entry : Entry} {requests : List Request}
      {entries : List Entry} (h : Occurs k request entry k')
      (hrest : Replays k' requests entries k'') :
      Replays k (request :: requests) (entry :: entries) k''

theorem Replays.concat {k k' k'' : Kitchen} {requests : List Request} {entries : List Entry}
    {request : Request} {entry : Entry} (h : Replays k requests entries k')
    (hlast : Occurs k' request entry k'') :
    Replays k (requests ++ [request]) (entries ++ [entry]) k'' := by
  induction h with
  | nil k => exact .cons hlast (.nil k'')
  | cons hfirst _ ih => exact .cons hfirst (ih hlast)

theorem Occurs.not_terminal {k k' : Kitchen} {request : Request} {entry : Entry}
    (h : Occurs k request entry k') : entry.action.isTerminal = false := by
  cases h <;> rfl

theorem Replays.not_terminal {k k' : Kitchen} {requests : List Request} {entries : List Entry}
    (h : Replays k requests entries k') : ∀ e ∈ entries, e.action.isTerminal = false := by
  induction h with
  | nil k => simp
  | cons hfirst _ ih =>
      intro e he
      rcases List.mem_cons.mp he with rfl | hmem
      · exact hfirst.not_terminal
      · exact ih e hmem

theorem exists_of_bind_eq_ok {ε α β : Type} {x : Except ε α} {f : α → Except ε β} {b : β}
    (h : x >>= f = .ok b) : ∃ a, x = .ok a ∧ f a = .ok b := by
  cases x with
  | error e => cases h
  | ok a => exact ⟨a, rfl, h⟩

/-- An operation that is carried out has occurred. -/
theorem occurs_of_carryOut {op : Operation} {k : Kitchen} {effect : Effect}
    (h : op.carryOut k = .ok effect) :
    Occurs k (.operation op) effect.entry effect.kitchen := by
  cases op with
  | goto name =>
      obtain ⟨⟨target, k'⟩, hgoto, h⟩ := exists_of_bind_eq_ok h
      cases h
      exact .goto hgoto
  | get name =>
      obtain ⟨⟨item, k'⟩, hget, h⟩ := exists_of_bind_eq_ok h
      cases h
      exact .get hget
  | place module item slot =>
      obtain ⟨k', hplace, h⟩ := exists_of_bind_eq_ok h
      cases h
      exact .place hplace
  | activate module =>
      obtain ⟨⟨made, k'⟩, hactivate, h⟩ := exists_of_bind_eq_ok h
      cases h
      exact .activate hactivate
  | take module =>
      obtain ⟨⟨output, k'⟩, htake, h⟩ := exists_of_bind_eq_ok h
      cases output with
      | none =>
          cases h
          exact .takeNothing htake
      | some item =>
          cases h
          exact .take htake
  | deliver =>
      obtain ⟨⟨item, k'⟩, hdeliver, h⟩ := exists_of_bind_eq_ok h
      cases h
      exact .deliver hdeliver

/-- A kitchen call either occurs and is written down, or leaves kitchen and log alone. -/
theorem perform_cases (request : Request) (m : Machine) :
    (∃ entry, Occurs m.kitchen request entry (Exec.perform request m).2.kitchen ∧
        (Exec.perform request m).2.log = m.log.push entry) ∨
      (Exec.perform request m).2.kitchen = m.kitchen ∧
        (Exec.perform request m).2.log = m.log := by
  cases request with
  | print v => exact .inl ⟨_, .print, rfl⟩
  | operation op =>
      simp only [Exec.perform]
      cases heffect : op.carryOut m.kitchen with
      | error e => exact .inr ⟨rfl, rfl⟩
      | ok effect => exact .inl ⟨effect.entry, occurs_of_carryOut heffect, rfl⟩

namespace Config

/-- The only changes to kitchen and log are those of kitchen calls. -/
theorem Change.occurs {limits : Limits} {c c' : Config} (h : Change limits c c') :
    (∃ request entry, Occurs c.machine.kitchen request entry c'.machine.kitchen ∧
        c'.machine.log = c.machine.log.push entry) ∨
      c'.machine.kitchen = c.machine.kitchen ∧ c'.machine.log = c.machine.log := by
  cases h with
  | unwind _ _ => exact .inr ⟨kitchen_unwound _ _, log_unwound _ _⟩
  | keep _ _ _ _ | enter _ _ _ | leave _ _ _ => exact .inr ⟨rfl, rfl⟩
  | spend _ _ _ => simp [settle]
  | @act request stack _ _ =>
      rcases perform_cases request c.machine with ⟨entry, hoccurs, hlog⟩ | hsame
      · exact .inl ⟨request, entry, hoccurs, hlog⟩
      · exact .inr hsame

def Recorded (k : Kitchen) (c : Config) : Prop :=
  ∃ requests, Replays k requests c.machine.log.toList c.machine.kitchen

theorem Recorded.change {limits : Limits} {k : Kitchen} {c c' : Config} (h : Recorded k c)
    (hchange : Change limits c c') : Recorded k c' := by
  obtain ⟨requests, hreplays⟩ := h
  rcases hchange.occurs with ⟨request, entry, hoccurs, hlog⟩ | ⟨hkitchen, hlog⟩
  · refine ⟨requests ++ [request], ?_⟩
    rw [hlog, Array.toList_push]
    exact hreplays.concat hoccurs
  · refine ⟨requests, ?_⟩
    rwa [hlog, hkitchen]

theorem Leads.recorded {limits : Limits} {k : Kitchen} {c c' : Config} (h : Leads limits c c')
    (hc : Recorded k c) : Recorded k c' :=
  h.invariant (fun _ _ hchange hrecorded => hrecorded.change hchange) hc

theorem filter_log_run {k : Kitchen} {c : Config} {requests : List Request}
    (h : Replays k requests c.machine.log.toList c.machine.kitchen) :
    (c.run.report.log.filter fun e => !e.action.isTerminal) = c.machine.log.toList := by
  have hlog : (c.machine.log.toList.filter fun e => !e.action.isTerminal) =
      c.machine.log.toList := by
    rw [List.filter_eq_self]
    intro e he
    rw [h.not_terminal e he]
    rfl
  have hverdict : c.machine.kitchen.verdict.2.action.isTerminal = true := by
    unfold Kitchen.verdict
    split <;> rfl
  unfold run
  cases c.focus with
  | fault e => exact hlog
  | _ =>
      dsimp only
      rw [List.filter_append, hlog, List.filter_cons_of_neg (by simp [hverdict]),
        List.filter_nil, List.append_nil]

end Config

namespace Program

/-- The entries of a run but for its verdict record kitchen calls that, carried out one after
another, turn the kitchen at the start into the kitchen at the end. -/
theorem run_replays (limits : Limits) (k : Kitchen) (p : Program) :
    ∃ requests, Replays k requests
      ((p.run limits k).report.log.filter fun e => !e.action.isTerminal)
      (p.run limits k).kitchen := by
  obtain ⟨last, hlast, hrun⟩ := Config.exists_endsIn limits k p
  have hstart : Config.Recorded k (.initial k p) := ⟨[], .nil k⟩
  obtain ⟨requests, hreplays⟩ := hlast.1.recorded hstart
  refine ⟨requests, ?_⟩
  rw [← hrun, Config.filter_log_run hreplays, Config.run_kitchen]
  exact hreplays

end Program

end KitchenScript
