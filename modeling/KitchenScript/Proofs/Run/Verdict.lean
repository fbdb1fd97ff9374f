import KitchenScript.Proofs.Run.Scope

/-!
# The verdict of a run

A program that comes to its end is judged once, by the last entry of its log, and a program that a
fault has ended is not judged at all: the entries before the verdict all come from kitchen calls.
A program also comes to its end by a return outside of functions.  Such a return, or a fault, ends
the run at the statement in which it happens, as if there were no statements after that one.
-/

namespace KitchenScript

/-! ## Statements that return -/

namespace Stmt

mutual

/-- Is this a return, or an `if` or a loop with a return in one of its blocks, at any depth? -/
def holdsReturn : Stmt → Bool
  | giveBack _ _ => true
  | choose _ branches => branchesHoldReturn branches
  | loop _ _ body => blockHoldsReturn body
  | var _ _ _ | assign _ _ _ | func _ _ _ _ | expr _ _ => false

def anyHoldsReturn : List Stmt → Bool
  | [] => false
  | s :: rest => s.holdsReturn || anyHoldsReturn rest

def blockHoldsReturn : Block → Bool
  | .mk _ stmts => anyHoldsReturn stmts

def branchesHoldReturn : Branches → Bool
  | .done => false
  | .otherwise body => blockHoldsReturn body
  | .branch _ body rest => blockHoldsReturn body || branchesHoldReturn rest

end

end Stmt

namespace Exec

variable {α β : Type}

/-- Every result of the action that is not a fault has the property. -/
def Yields (P : α → Prop) (x : Exec α) : Prop :=
  ∀ m a, (x m).1 = .ok a → P a

theorem yields_pure {P : α → Prop} {a : α} (ha : P a) : Yields P (Exec.pure a) := by
  intro m b hb
  cases hb
  exact ha

theorem Yields.bind {P : α → Prop} {Q : β → Prop} {x : Exec α} {f : α → Exec β}
    (hx : Yields P x) (hf : ∀ a, P a → Yields Q (f a)) : Yields Q (x >>= f) := by
  intro m b hb
  have hbind : (x >>= f) m = Exec.bind x f m := rfl
  rw [hbind, Exec.bind] at hb
  cases hout : x m with
  | mk result m' =>
      rw [hout] at hb
      cases result with
      | ok a => exact hf a (hx m a (by rw [hout])) m' b hb
      | error e => cases hb

theorem yields_after {Q : β → Prop} (x : Exec α) {f : α → Exec β} (hf : ∀ a, Yields Q (f a)) :
    Yields Q (x >>= f) := by
  have hany : Yields (fun _ => True) x := fun _ _ _ => trivial
  exact hany.bind fun a _ => hf a

end Exec

open Exec

section Returns

variable {limits : Limits} {call : Caller}

theorem yields_next_iterate {condition : Exec Bool} {body : Exec Flow}
    (hbody : Yields (· = .next) body) (rounds : Nat) :
    Yields (· = .next) (iterate limits condition body rounds) := by
  induction rounds with
  | zero =>
      intro m flow h
      cases h
  | succ rounds ih =>
      rw [Config.iterate_succ]
      refine yields_after condition fun holds => ?_
      cases holds with
      | false => exact yields_pure rfl
      | true =>
          refine yields_after (tick limits) fun _ => hbody.bind fun flow hflow => ?_
          cases hflow
          exact ih

namespace Stmt

mutual

/-- Only a statement that holds a return can return. -/
theorem yields_next_exec (s : Stmt) (h : s.holdsReturn = false) :
    Yields (· = .next) (s.exec limits call) := by
  match s with
  | .var _ name value | .assign _ name value =>
      rw [Stmt.exec]
      refine yields_after _ fun _ => yields_after _ fun v => yields_after _ fun _ => ?_
      exact yields_pure rfl
  | .func _ name params body =>
      rw [Stmt.exec]
      exact yields_after _ fun _ => yields_after _ fun _ => yields_pure rfl
  | .choose _ branches =>
      rw [Stmt.exec]
      exact yields_after _ fun _ => yields_next_execBranches branches h
  | .loop _ condition body =>
      rw [Stmt.exec]
      refine yields_after _ fun _ m => ?_
      exact yields_next_iterate (yields_next_execBlock body h) _ m
  | .giveBack _ value => cases h
  | .expr _ value =>
      rw [Stmt.exec]
      exact yields_after _ fun _ => yields_after _ fun v => yields_pure rfl

theorem yields_next_execAll (stmts : List Stmt) (h : anyHoldsReturn stmts = false) :
    Yields (· = .next) (execAll limits call stmts) := by
  match stmts with
  | [] =>
      rw [execAll]
      exact yields_pure rfl
  | s :: rest =>
      have hparts := Bool.or_eq_false_iff.mp h
      rw [execAll]
      refine (yields_next_exec s hparts.1).bind fun flow hflow => ?_
      cases hflow
      exact yields_next_execAll rest hparts.2

theorem yields_next_execBlock (body : Block) (h : blockHoldsReturn body = false) :
    Yields (· = .next) (execBlock limits call body) := by
  match body with
  | .mk _ stmts =>
      rw [execBlock]
      exact yields_next_execAll stmts h

theorem yields_next_execBranches (branches : Branches) (h : branchesHoldReturn branches = false) :
    Yields (· = .next) (execBranches limits call branches) := by
  match branches with
  | .done =>
      rw [execBranches]
      exact yields_pure rfl
  | .otherwise body =>
      rw [execBranches]
      exact yields_next_execBlock body h
  | .branch condition body rest =>
      have hparts := Bool.or_eq_false_iff.mp h
      rw [execBranches]
      refine yields_after _ fun holds => ?_
      cases holds with
      | true => exact yields_next_execBlock body hparts.1
      | false => exact yields_next_execBranches rest hparts.2

end

end Stmt

end Returns

/-! ## Statements one after another -/

theorem Stmt.execAll_append (limits : Limits) (call : Caller) (before after : List Stmt) :
    execAll limits call (before ++ after) =
      (execAll limits call before >>= fun flow =>
        match flow with
        | .next => execAll limits call after
        | .returned v => Exec.pure (.returned v)) := by
  induction before with
  | nil =>
      rw [List.nil_append, execAll]
      rfl
  | cons s rest ih =>
      rw [List.cons_append, execAll, execAll, Config.bind_assoc]
      congr 1
      funext flow
      cases flow with
      | next => exact ih
      | returned v => rfl

section Append

variable {limits : Limits} {before after : List Stmt} {m m' : Machine}

theorem execute_append (limits : Limits) (before after : List Stmt) (m : Machine) :
    execute limits (before ++ after) m =
      match execute limits before m with
      | (.ok .next, m') => execute limits after m'
      | out => out := by
  have hframes := (steady_execute limits before m).frames
  unfold execute at hframes ⊢
  rw [Stmt.execAll_append]
  change Exec.bind _ _ m = _
  rw [Exec.bind]
  cases hout : Stmt.execAll limits (callWithin limits (m.callsLeft limits)) before m with
  | mk result m' =>
      rw [hout] at hframes
      have hcalls : m'.callsLeft limits = m.callsLeft limits := by
        rw [Machine.callsLeft, Machine.callsLeft, Environment.depth, Environment.depth, hframes]
      cases result with
      | error e => rfl
      | ok flow =>
          cases flow with
          | next => simp only [hcalls]
          | returned v => rfl

/-- Where statements do not come to their end, the statements after them do not matter. -/
theorem execute_append_of_stop (h : (execute limits before m).1 ≠ .ok .next) :
    execute limits (before ++ after) m = execute limits before m := by
  rw [execute_append]
  cases hout : execute limits before m with
  | mk result m' =>
      rw [hout] at h
      cases result with
      | error e => rfl
      | ok flow =>
          cases flow with
          | next => exact absurd rfl h
          | returned v => rfl

theorem holdsReturn_of_execute {s : Stmt} {v : Value}
    (h : (execute limits [s] m).1 = .ok (.returned v)) : s.holdsReturn = true := by
  cases hreturn : s.holdsReturn with
  | true => rfl
  | false =>
      have hnone : Stmt.anyHoldsReturn [s] = false := by
        rw [Stmt.anyHoldsReturn, hreturn, Stmt.anyHoldsReturn, Bool.or_false]
      cases Stmt.yields_next_execAll [s] hnone m (.returned v) h

end Append

/-! ## Verdicts -/

namespace Program

variable (limits : Limits) (k : Kitchen) (p : Program)

theorem not_terminal_execute :
    ∀ e ∈ (execute limits p.stmts (.forKitchen k)).2.log.toList,
      e.action.isTerminal = false := by
  have hstart : Config.Recorded k (.initial k p) := ⟨[], .nil k⟩
  have hlast := (Config.leads_execute limits k p).recorded hstart
  exact hlast.choose_spec.not_terminal

theorem run_of_error {e : Fault} (h : (execute limits p.stmts (.forKitchen k)).1 = .error e) :
    p.run limits k =
      let m := (execute limits p.stmts (.forKitchen k)).2
      ⟨⟨m.log.toList, .aborted e⟩, m.kitchen, m.steps⟩ := by
  unfold run
  cases hout : execute limits p.stmts (.forKitchen k) with
  | mk result m =>
      rw [hout] at h
      cases h
      rfl

theorem run_of_ok {flow : Flow} (h : (execute limits p.stmts (.forKitchen k)).1 = .ok flow) :
    p.run limits k =
      let m := (execute limits p.stmts (.forKitchen k)).2
      ⟨⟨m.log.toList ++ [m.kitchen.verdict.2], m.kitchen.verdict.1⟩, m.kitchen, m.steps⟩ := by
  unfold run
  cases hout : execute limits p.stmts (.forKitchen k) with
  | mk result m =>
      rw [hout] at h
      cases h
      rfl

end Program

theorem Kitchen.verdict_of_delivered {k : Kitchen} (h : k.delivered = k.required) :
    k.verdict.1 = .success ∧ k.verdict.2.action = .success := by
  have hmet : k.ordersMet = true := beq_iff_eq.mpr h
  simp [verdict, hmet]

theorem Kitchen.verdict_of_not_delivered {k : Kitchen} (h : k.delivered ≠ k.required) :
    k.verdict.1 = .failure ∧ k.verdict.2.action = .failure := by
  have hmet : k.ordersMet = false := beq_eq_false_iff_ne.mpr h
  simp [verdict, hmet]

/-- The log of a run, without a verdict if a fault has ended the run, and else with one entry more,
which says whether the orders were delivered. -/
inductive Judged (run : Run) : Prop where
  | aborted {e : Fault} (houtcome : run.report.outcome = .aborted e)
      (hlog : ∀ entry ∈ run.report.log, entry.action.isTerminal = false)
  | success {entries : List Entry} {verdict : Entry} (houtcome : run.report.outcome = .success)
      (hdelivered : run.kitchen.delivered = run.kitchen.required)
      (hlog : run.report.log = entries ++ [verdict]) (hverdict : verdict.action = .success)
      (hentries : ∀ entry ∈ entries, entry.action.isTerminal = false)
  | failure {entries : List Entry} {verdict : Entry} (houtcome : run.report.outcome = .failure)
      (hdelivered : run.kitchen.delivered ≠ run.kitchen.required)
      (hlog : run.report.log = entries ++ [verdict]) (hverdict : verdict.action = .failure)
      (hentries : ∀ entry ∈ entries, entry.action.isTerminal = false)

namespace Program

theorem judged_run (limits : Limits) (k : Kitchen) (p : Program) : Judged (p.run limits k) := by
  have hentries := not_terminal_execute limits k p
  cases hresult : (execute limits p.stmts (.forKitchen k)).1 with
  | error e =>
      rw [run_of_error limits k p hresult]
      exact .aborted rfl hentries
  | ok flow =>
      rw [run_of_ok limits k p hresult]
      generalize (execute limits p.stmts (.forKitchen k)).2 = m at hentries
      by_cases hdelivered : m.kitchen.delivered = m.kitchen.required
      · have hverdict := Kitchen.verdict_of_delivered hdelivered
        exact .success hverdict.1 hdelivered rfl hverdict.2 hentries
      · have hverdict := Kitchen.verdict_of_not_delivered hdelivered
        exact .failure hverdict.1 hdelivered rfl hverdict.2 hentries

/-- What happens in a statement that does not come to its end is what happens in the program. -/
theorem execute_of_stop {limits : Limits} {before : List Stmt} {s : Stmt} {m m' : Machine}
    (hbefore : execute limits before m = (.ok .next, m'))
    (hstop : (execute limits [s] m').1 ≠ .ok .next) (after : List Stmt) :
    execute limits (before ++ s :: after) m = execute limits [s] m' ∧
      execute limits (before ++ [s]) m = execute limits [s] m' := by
  have hcut : execute limits (before ++ [s]) m = execute limits [s] m' := by
    rw [execute_append, hbefore]
  have hsplit : before ++ s :: after = before ++ [s] ++ after := by
    rw [List.append_assoc, List.singleton_append]
  refine ⟨?_, hcut⟩
  rw [hsplit, execute_append_of_stop (by rwa [hcut]), hcut]

/-- Every run is judged as its log says.  Where a statement of the program returns or fails, the run
is that of the program cut off behind this statement: after a return it has its verdict, and after
a fault it is aborted with this fault. -/
theorem run_ends_with_verdict (limits : Limits) (k : Kitchen) (p : Program) :
    Judged (p.run limits k) ∧
    ∀ (before after : List Stmt) (s : Stmt) (m : Machine),
      p.stmts = before ++ s :: after →
      execute limits before (.forKitchen k) = (.ok .next, m) →
      (execute limits [s] m).1 ≠ .ok .next →
        p.run limits k = run limits k ⟨p.span, before ++ [s]⟩ ∧
        (∀ v, (execute limits [s] m).1 = .ok (.returned v) →
          s.holdsReturn = true ∧ ∀ e, (p.run limits k).report.outcome ≠ .aborted e) ∧
        ∀ e, (execute limits [s] m).1 = .error e →
          (p.run limits k).report.outcome = .aborted e := by
  refine ⟨judged_run limits k p, ?_⟩
  intro before after s m hstmts hbefore hstop
  have hboth := execute_of_stop hbefore hstop after
  have hwhole : execute limits p.stmts (.forKitchen k) = execute limits [s] m := by
    rw [hstmts, hboth.1]
  refine ⟨?_, ?_, ?_⟩
  · simp only [run, hwhole, hboth.2]
  · intro v hreturned
    refine ⟨holdsReturn_of_execute hreturned, ?_⟩
    intro e
    rw [← hwhole] at hreturned
    rw [run_of_ok limits k p hreturned]
    simp only [Kitchen.verdict]
    split <;> simp
  · intro e herror
    rw [← hwhole] at herror
    rw [run_of_error limits k p herror]

/-- A return in a loop is the end of the program, which has delivered all of its no orders; the
call of a missing function behind it is not made. -/
theorem run_ends_with_verdict_loop :
    let span : Span := .point .start
    let s : Stmt := .loop span (.bool span true) (.mk span [.giveBack span none])
    let after : Stmt := .expr span (.call span ⟨"missing", span⟩ [])
    let k : Kitchen := ⟨.pantry, none, .empty, [], [], []⟩
    (run .standard k ⟨span, [s, after]⟩) = run .standard k ⟨span, [s]⟩ ∧
      s.holdsReturn = true ∧
      ∀ e, (run .standard k ⟨span, [s, after]⟩).report.outcome ≠ .aborted e := by
  intro span s after k
  have hreturn : (execute .standard [s] (.forKitchen k)).1 = .ok (.returned .none) := rfl
  have hstop : (execute .standard [s] (.forKitchen k)).1 ≠ .ok .next := by
    rw [hreturn]
    simp
  have hcut := (run_ends_with_verdict .standard k ⟨span, [s, after]⟩).2 [] [after] s
    (.forKitchen k) rfl rfl hstop
  exact ⟨hcut.1, (hcut.2.1 _ hreturn).1, (hcut.2.1 _ hreturn).2⟩

end Program

end KitchenScript
