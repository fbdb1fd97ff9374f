import KitchenScript.Proofs.Run.Record

/-!
# The budget of a run

Every run comes to an end within its budget, and the budget does nothing but end runs: a run that
was not cut short is the same under any wider limits, and one that was is the beginning of what it
would have been.
-/

namespace KitchenScript

open Config

namespace Program

theorem steps_run (limits : Limits) (k : Kitchen) (p : Program) :
    (p.run limits k).steps ≤ limits.maxSteps ∧
        (∀ n, (p.run limits k).report.outcome ≠ .aborted (.stepLimitExceeded n)) ∨
      (p.run limits k).steps = limits.maxSteps + 1 ∧
        (p.run limits k).report.outcome = .aborted (.stepLimitExceeded limits.maxSteps) := by
  obtain ⟨last, hlast, hrun⟩ := exists_endsIn limits k p
  have hsound := hlast.1.sound (sound_initial limits k p)
  rw [← hrun, run_steps]
  rcases hsound.budget with ⟨hle, hfocus⟩ | ⟨heq, hfocus⟩
  · exact .inl ⟨hle, fun n hout => hfocus n (run_focus.mp hout)⟩
  · exact .inr ⟨heq, run_focus.mpr hfocus⟩

/-- Every run ends, no call goes deeper than allowed on the way, and the step counter, which stays
within 64 bits, passes the budget by one exactly when the budget is what ends the run. -/
theorem run_within_budget (limits : Limits) (k : Kitchen) (p : Program)
    (hlimits : limits.maxSteps < UInt64.size - 1) :
    (∃ last, EndsIn limits (initial k p) last ∧ last.run = p.run limits k) ∧
    (∀ c, Leads limits (initial k p) c →
      c.machine.env.depth ≤ limits.maxCallDepth ∧ c.machine.steps < UInt64.size) ∧
    (p.run limits k).steps ≤ limits.maxSteps + 1 ∧
    ((p.run limits k).steps = limits.maxSteps + 1 ↔
      (p.run limits k).report.outcome = .aborted (.stepLimitExceeded limits.maxSteps)) := by
  refine ⟨exists_endsIn limits k p, ?_, ?_, ?_⟩
  · intro c hc
    have hsound := hc.sound (sound_initial limits k p)
    refine ⟨?_, ?_⟩
    · rw [hsound.balanced]
      exact hsound.shallow
    · rcases hsound.budget with ⟨hle, -⟩ | ⟨heq, -⟩ <;> omega
  · rcases steps_run limits k p with ⟨hle, -⟩ | ⟨heq, -⟩ <;> omega
  · rcases steps_run limits k p with ⟨hle, hout⟩ | ⟨heq, hout⟩
    · refine ⟨fun heq => by omega, fun habort => absurd habort (hout _)⟩
    · exact ⟨fun _ => hout, fun _ => heq⟩

theorem run_within_budget_endless :
    let limits : Limits := ⟨3, 1, 10⟩
    let k : Kitchen := ⟨.pantry, none, .empty, [], [], []⟩
    let p : Program := ⟨.point .start,
      [.loop (.point .start) (.bool (.point .start) true) (.mk (.point .start) [])]⟩
    limits.maxSteps < UInt64.size - 1 ∧ (initial k p).machine.env.depth ≤ limits.maxCallDepth ∧
      (p.run limits k).steps = 4 := by
  intro limits k p
  have hlimits : limits.maxSteps < UInt64.size - 1 := by decide
  obtain ⟨-, hpoints, -, hsteps⟩ := run_within_budget limits k p hlimits
  exact ⟨hlimits, (hpoints (initial k p) Leads.refl).1, hsteps.mpr rfl⟩

end Program

/-! ## Wider limits -/

instance : LE Limits :=
  ⟨fun a b => a.maxSteps ≤ b.maxSteps ∧ a.maxCallDepth ≤ b.maxCallDepth ∧
    a.maxStringLen ≤ b.maxStringLen⟩

theorem concat_of_le {limit limit' : Nat} (h : limit ≤ limit') (a b : String) :
    concat limit' a b = concat limit a b ∨
      ∃ n, concat limit a b = .error (.valueTooLarge n limit) := by
  unfold concat
  by_cases hlimit : limit < a.utf8ByteSize + b.utf8ByteSize
  · exact .inr ⟨_, if_pos hlimit⟩
  · have hlimit' : ¬limit' < a.utf8ByteSize + b.utf8ByteSize := by omega
    left
    simp only [if_neg hlimit, if_neg hlimit']

theorem BinaryOp.apply_of_le {limit limit' : Nat} (h : limit ≤ limit') (op : BinaryOp)
    (a b : Value) : op.apply limit' a b = op.apply limit a b ∨
      ∃ n, op.apply limit a b = .error (.valueTooLarge n limit) := by
  cases op with
  | add =>
      cases a with
      | text s =>
          cases b with
          | text t => exact concat_of_le h s t
          | _ => exact .inl rfl
      | _ => exact .inl rfl
  | _ => exact .inl rfl

namespace Config

variable {limits limits' : Limits}

/-- Cut short: a fault of the budget, with nothing done to the kitchen or written to the log. -/
def CutAt (m : Machine) (c : Config) : Prop :=
  (∃ e, c.focus = .fault e ∧ e.faultClass = .budget) ∧ c.machine.log = m.log ∧
    c.machine.kitchen = m.kitchen

theorem make_of_le (h : limits ≤ limits') (move : Move) (m : Machine) :
    move.make limits' m = move.make limits m ∨ CutAt m (move.make limits m) := by
  obtain ⟨hsteps, hcalls, htexts⟩ := h
  cases move with
  | go _ _ | set _ _ _ | act _ _ | leave _ _ => exact .inl rfl
  | spend focus stack =>
      simp only [Move.make, Exec.tick]
      by_cases hlimit : limits.maxSteps < m.steps + 1
      · right
        rw [if_pos hlimit]
        exact ⟨⟨_, rfl, rfl⟩, rfl, rfl⟩
      · have hlimit' : ¬limits'.maxSteps < m.steps + 1 := by omega
        left
        rw [if_neg hlimit, if_neg hlimit']
  | operate op left right stack =>
      simp only [Move.make]
      rcases BinaryOp.apply_of_le htexts op left right with heq | ⟨n, hn⟩
      · exact .inl (by rw [heq])
      · right
        rw [hn]
        exact ⟨⟨_, rfl, rfl⟩, rfl, rfl⟩
  | enter f values stack =>
      simp only [Move.make]
      by_cases hdepth : m.env.depth < limits.maxCallDepth
      · have hdepth' : m.env.depth < limits'.maxCallDepth := by omega
        left
        rw [if_pos hdepth, if_pos hdepth']
      · right
        rw [if_neg hdepth]
        exact ⟨⟨_, rfl, rfl⟩, rfl, rfl⟩

theorem Change.of_fault {c c' : Config} {e : Fault} (h : Change limits c c')
    (hc : c.focus = .fault e) :
    ∃ frame stack, c' = ⟨.fault e, stack, unwound frame c.machine⟩ := by
  cases h with
  | @unwind e' frame stack hfocus _ =>
      have heq : e' = e := Focus.fault.inj (hfocus.symm.trans hc)
      exact ⟨frame, stack, by rw [heq]⟩
  | keep hrun _ _ _ | spend hrun _ _ | act hrun _ | enter hrun _ _ | leave hrun _ _ =>
      exact absurd ⟨e, hc⟩ hrun

/-- A fault is passed on to the end, and nothing more is done on the way. -/
theorem CutAt.change {m : Machine} {c c' : Config} (h : CutAt m c)
    (hchange : Change limits c c') : CutAt m c' := by
  obtain ⟨⟨e, hfocus, he⟩, hlog, hkitchen⟩ := h
  obtain ⟨frame, stack, rfl⟩ := hchange.of_fault hfocus
  refine ⟨⟨e, rfl, he⟩, ?_, ?_⟩
  · rw [← hlog, log_unwound]
  · rw [← hkitchen, kitchen_unwound]

end Config

/-! ## What only grows -/

theorem Occurs.delivered {k k' : Kitchen} {request : Request} {entry : Entry}
    (h : Occurs k request entry k') : k.delivered <+: k'.delivered := by
  cases h with
  | goto h =>
      obtain ⟨place, -, h⟩ := exists_of_bind_eq_ok h
      cases h
      exact List.prefix_rfl
  | get h =>
      obtain ⟨-, -, h⟩ := exists_of_bind_eq_ok h
      obtain ⟨pantry, -, h⟩ := exists_of_bind_eq_ok h
      cases h
      exact List.prefix_rfl
  | place h =>
      obtain ⟨m, -, h⟩ := exists_of_bind_eq_ok h
      obtain ⟨held, -, h⟩ := exists_of_bind_eq_ok h
      obtain ⟨m', -, h⟩ := exists_of_bind_eq_ok h
      cases h
      exact List.prefix_rfl
  | activate h =>
      obtain ⟨m, -, h⟩ := exists_of_bind_eq_ok h
      obtain ⟨⟨made, m'⟩, -, h⟩ := exists_of_bind_eq_ok h
      cases h
      exact List.prefix_rfl
  | take h | takeNothing h =>
      obtain ⟨m, -, h⟩ := exists_of_bind_eq_ok h
      obtain ⟨-, rfl⟩ := Prod.mk.inj (Except.ok.inj h)
      exact List.prefix_rfl
  | deliver h =>
      obtain ⟨-, -, h⟩ := exists_of_bind_eq_ok h
      split at h
      · cases h
        exact List.prefix_append _ _
      · cases h
  | print => exact List.prefix_rfl

namespace Config

variable {limits limits' : Limits}

/-- What happened up to one configuration is the beginning of what happened up to another. -/
def Precedes (c c' : Config) : Prop :=
  c.machine.log.toList <+: c'.machine.log.toList ∧
    c.machine.kitchen.delivered <+: c'.machine.kitchen.delivered

theorem Change.precedes {c c' : Config} (h : Change limits c c') : Precedes c c' := by
  rcases h.occurs with ⟨request, entry, hoccurs, hlog⟩ | ⟨hkitchen, hlog⟩
  · refine ⟨?_, hoccurs.delivered⟩
    rw [hlog, Array.toList_push]
    exact List.prefix_append _ _
  · unfold Precedes
    rw [hlog, hkitchen]
    exact ⟨List.prefix_rfl, List.prefix_rfl⟩

theorem Leads.precedes {c c' : Config} (h : Leads limits c c') : Precedes c c' := by
  refine h.invariant (P := fun c' => Precedes c c') ?_ ⟨List.prefix_rfl, List.prefix_rfl⟩
  intro c₁ c₂ hchange hbefore
  have hafter := hchange.precedes
  exact ⟨hbefore.1.trans hafter.1, hbefore.2.trans hafter.2⟩

theorem step_eq_none_iff {c : Config} : c.step limits = none ↔ c.move? = none :=
  Option.map_eq_none_iff

/-- Two runs under limits of which one are wider go step by step together, until one of them is cut
short. -/
theorem endsIn_of_le (h : limits ≤ limits') {c last last' : Config}
    (hlast : EndsIn limits c last) (hlast' : EndsIn limits' c last') :
    last' = last ∨ (∃ e, last.focus = .fault e ∧ e.faultClass = .budget) ∧ Precedes last last' := by
  obtain ⟨hleads, hstuck⟩ := hlast
  induction hleads using Relation.ReflTransGen.head_induction_on with
  | refl =>
      left
      have hmove : last.move? = none := step_eq_none_iff.mp hstuck
      exact (hlast'.eq_of_stuck (step_eq_none_iff.mpr hmove)).symm
  | @head c c₁ hstep hrest ih =>
      obtain ⟨move, hmove, rfl⟩ := Option.map_eq_some_iff.mp hstep
      rcases make_of_le h move c.machine with hsame | hcut
      · have hstep' : c.step limits' = some (move.make limits c.machine) := by
          rw [step, hmove, Option.map_some, hsame]
        exact ih (hlast'.after hstep')
      · right
        -- the cut run has nothing more to do, while the other goes on from here
        have hend : CutAt c.machine last :=
          Leads.invariant (fun _ _ hchange hc => hc.change hchange) hrest hcut
        obtain ⟨hlog, hdelivered⟩ := hlast'.1.precedes
        refine ⟨hend.1, ?_, ?_⟩
        · rwa [hend.2.1]
        · rwa [hend.2.2]

/-! ## The step limit alone -/

/-- A move under another step limit is the same step, unless it exceeds one of the two. -/
theorem make_withSteps (steps : Nat) (move : Move) {m : Machine} (hm : m.steps ≤ steps) :
    (∃ n, (move.make limits m).focus = .fault (.stepLimitExceeded n)) ∨
    ((move.make limits m).machine.steps ≤ steps ∧
      move.make { limits with maxSteps := steps } m = move.make limits m) ∨
    (steps < (move.make limits m).machine.steps ∧
      (move.make { limits with maxSteps := steps } m).focus =
        .fault (.stepLimitExceeded steps)) := by
  cases move with
  | go _ _ | set _ _ _ | operate _ _ _ _ | leave _ _ => exact .inr (.inl ⟨hm, rfl⟩)
  | act request stack =>
      refine .inr (.inl ⟨?_, rfl⟩)
      have hsteps := (Exec.perform_frame request m).2
      rwa [Move.make, settle, hsteps]
  | enter f values stack =>
      refine .inr (.inl ⟨?_, rfl⟩)
      rw [Move.make]
      split <;> exact hm
  | spend focus stack =>
      simp only [Move.make, Exec.tick]
      by_cases hlimit : limits.maxSteps < m.steps + 1
      · left
        rw [if_pos hlimit]
        exact ⟨_, rfl⟩
      · right
        rw [if_neg hlimit]
        by_cases hsteps : steps < m.steps + 1
        · right
          rw [if_pos hsteps]
          exact ⟨hsteps, rfl⟩
        · left
          rw [if_neg hsteps]
          exact ⟨Nat.le_of_not_lt hsteps, rfl⟩

theorem Leads.focus_fault {c c' : Config} {e : Fault} (h : Leads limits c c')
    (hc : c.focus = .fault e) : c'.focus = .fault e := by
  refine h.invariant (P := fun c' => c'.focus = .fault e) ?_ hc
  intro c₁ c₂ hchange hfocus
  obtain ⟨frame, stack, rfl⟩ := hchange.of_fault hfocus
  rfl

/-- A run that does not exceed its step limit is the same under any step limit that its steps fit
in, and is cut short by any other. -/
theorem endsIn_withSteps {steps : Nat} {c last last' : Config} (hlast : EndsIn limits c last)
    (hlast' : EndsIn { limits with maxSteps := steps } c last') (hc : c.machine.steps ≤ steps)
    (hkept : ∀ n, last.focus ≠ .fault (.stepLimitExceeded n)) :
    last.machine.steps ≤ steps ∧ last' = last ∨
      steps < last.machine.steps ∧ last'.focus = .fault (.stepLimitExceeded steps) := by
  obtain ⟨hleads, hstuck⟩ := hlast
  induction hleads using Relation.ReflTransGen.head_induction_on with
  | refl =>
      left
      have hmove : last.move? = none := step_eq_none_iff.mp hstuck
      exact ⟨hc, (hlast'.eq_of_stuck (step_eq_none_iff.mpr hmove)).symm⟩
  | @head c c₁ hstep hrest ih =>
      obtain ⟨move, hmove, rfl⟩ := Option.map_eq_some_iff.mp hstep
      have hstep' := step_eq { limits with maxSteps := steps } hmove
      rcases make_withSteps steps move hc with ⟨n, hfault⟩ | ⟨hle, hsame⟩ | ⟨hlt, hfault⟩
      · exact absurd (Leads.focus_fault hrest hfault) (hkept n)
      · rw [hsame] at hstep'
        exact ih (hlast'.after hstep') hle
      · right
        have hsteps := Leads.steps_le hrest
        exact ⟨by omega, (hlast'.after hstep').1.focus_fault hfault⟩

theorem Precedes.log_run {c c' : Config} {e : Fault} (h : Precedes c c')
    (hfocus : c.focus = .fault e) : c.run.report.log <+: c'.run.report.log := by
  have hlog : c.run.report.log = c.machine.log.toList := by
    unfold run
    rw [hfocus]
  rw [hlog]
  unfold run
  cases c'.focus with
  | fault e' => exact h.1
  | _ => exact h.1.trans (List.prefix_append _ _)

end Config

/-- A run that its budget has ended. -/
def Run.CutShort (r : Run) : Prop :=
  ∃ e, r.report.outcome = .aborted e ∧ e.faultClass = .budget

namespace Program

/-- Limits only cut runs short.  Under wider limits a run is the same, or its beginning is, and the
step limit cuts it short exactly where it runs out. -/
theorem run_of_wider_limits (limits limits' : Limits) (h : limits ≤ limits') (k : Kitchen)
    (p : Program) :
    (¬(p.run limits k).CutShort → p.run limits' k = p.run limits k) ∧
    ((p.run limits k).CutShort →
      (p.run limits k).report.log <+: (p.run limits' k).report.log ∧
        (p.run limits k).kitchen.delivered <+: (p.run limits' k).kitchen.delivered) ∧
    ((∀ n, (p.run limits k).report.outcome ≠ .aborted (.stepLimitExceeded n)) →
      ∀ steps,
        (steps < (p.run limits k).steps →
          (p.run { limits with maxSteps := steps } k).report.outcome =
            .aborted (.stepLimitExceeded steps)) ∧
        ((p.run limits k).steps ≤ steps →
          p.run { limits with maxSteps := steps } k = p.run limits k)) := by
  obtain ⟨last, hlast, hrun⟩ := exists_endsIn limits k p
  obtain ⟨last', hlast', hrun'⟩ := exists_endsIn limits' k p
  rw [← hrun, ← hrun']
  refine ⟨?_, ?_, ?_⟩
  · intro hwhole
    rcases endsIn_of_le h hlast hlast' with rfl | ⟨⟨e, hfocus, he⟩, -⟩
    · rfl
    · exact absurd ⟨e, run_focus.mpr hfocus, he⟩ hwhole
  · rintro ⟨e, hout, -⟩
    have hfocus : last.focus = .fault e := run_focus.mp hout
    have hbefore : Precedes last last' := by
      rcases endsIn_of_le h hlast hlast' with rfl | ⟨-, hbefore⟩
      · exact ⟨List.prefix_rfl, List.prefix_rfl⟩
      · exact hbefore
    refine ⟨hbefore.log_run hfocus, ?_⟩
    rw [run_kitchen, run_kitchen]
    exact hbefore.2
  · intro hkept steps
    obtain ⟨other, hother, hrunOther⟩ := exists_endsIn { limits with maxSteps := steps } k p
    have hkept' : ∀ n, last.focus ≠ .fault (.stepLimitExceeded n) := by
      intro n hfocus
      exact hkept n (run_focus.mpr hfocus)
    rw [← hrunOther, run_steps]
    rcases endsIn_withSteps hlast hother (Nat.zero_le steps) hkept' with
      ⟨hle, rfl⟩ | ⟨hlt, hfocus⟩
    · exact ⟨fun hlt => by omega, fun _ => rfl⟩
    · exact ⟨fun _ => run_focus.mpr hfocus, fun hle => by omega⟩

theorem run_of_wider_limits_printing :
    let narrow : Limits := ⟨4, 1, 10⟩
    let wide : Limits := ⟨9, 1, 10⟩
    let k : Kitchen := ⟨.pantry, none, .empty, [], [], []⟩
    let line : Stmt := .expr (.point .start)
      (.builtin (.point .start) .print [.bool (.point .start) true])
    let once : Program := ⟨.point .start, [line]⟩
    let endless : Program := ⟨.point .start,
      [.loop (.point .start) (.bool (.point .start) true) (.mk (.point .start) [line])]⟩
    narrow ≤ wide ∧
      (endless.run narrow k).CutShort ∧
      (endless.run narrow k).report.log <+: (endless.run wide k).report.log ∧
      once.run wide k = once.run narrow k ∧
      (once.run ⟨0, 1, 10⟩ k).report.outcome = .aborted (.stepLimitExceeded 0) := by
  intro narrow wide k line once endless
  have hle : narrow ≤ wide := ⟨by decide, by decide, by decide⟩
  have hcut : (endless.run narrow k).CutShort := ⟨.stepLimitExceeded 4, rfl, rfl⟩
  have hwhole : ¬(once.run narrow k).CutShort := fun ⟨_, hout, _⟩ => nomatch hout
  have honce := run_of_wider_limits narrow wide hle k once
  have hendless := run_of_wider_limits narrow wide hle k endless
  exact ⟨hle, hcut, (hendless.2.1 hcut).1, honce.1 hwhole,
    (honce.2.2 (fun _ hout => nomatch hout) 0).1 (by decide)⟩

end Program

end KitchenScript
