import KitchenScript.Proofs.Run.Invariant

/-!
# Single steps compute what evaluation does

From every sound configuration the steps lead to where evaluation leaves off, with the result it
gives and on the machine it leaves.  Evaluation is given a number of calls and of rounds in advance;
the steps are not, so this is where it is shown that neither number is ever the reason for a stop.
-/

namespace KitchenScript.Config

variable {α β : Type} {limits : Limits} {calls least : Nat}

theorem Leads.refl {c : Config} : Leads limits c c :=
  Relation.ReflTransGen.refl

theorem Leads.trans {c c' c'' : Config} (h : Leads limits c c') (h' : Leads limits c' c'') :
    Leads limits c c'' :=
  Relation.ReflTransGen.trans h h'

theorem Leads.head {c c' c'' : Config} (h : c.step limits = some c')
    (h' : Leads limits c' c'') : Leads limits c c'' :=
  Relation.ReflTransGen.head h h'

theorem Leads.sound {c c' : Config} (h : Leads limits c c') (hc : Sound limits c) :
    Sound limits c' :=
  h.invariant (fun _ _ hchange hsound => hsound.change hchange) hc

theorem steps_le_of_change {c c' : Config} (h : Change limits c c') :
    c.machine.steps ≤ c'.machine.steps := by
  cases h with
  | unwind _ _ => simp
  | keep _ _ _ _ | enter _ _ _ | leave _ _ _ => exact Nat.le_refl _
  | spend _ _ _ => simp [settle]
  | @act request stack _ _ =>
      have hsteps := (Exec.perform_frame request c.machine).2
      exact Nat.le_of_eq hsteps.symm

theorem Leads.steps_le {c c' : Config} (h : Leads limits c c') :
    c.machine.steps ≤ c'.machine.steps :=
  h.invariant (P := fun c' => c.machine.steps ≤ c'.machine.steps)
    (fun _ _ hchange hle => Nat.le_trans hle (steps_le_of_change hchange)) (Nat.le_refl _)

/-- From a focus with some frames of its own, the steps do what an action does, where `calls` calls
are left and `least` steps at least have been spent. -/
def Simulates (limits : Limits) (calls least : Nat) (focus : Focus) (own : List Frame)
    (inject : α → Focus) (x : Exec α) : Prop :=
  ∀ stack m, Sound limits ⟨focus, own ++ stack, m⟩ → pending stack + calls = limits.maxCallDepth →
    least ≤ m.steps → Leads limits ⟨focus, own ++ stack, m⟩ (settle inject (x m) stack)

section Combinators

variable {focus focus' : Focus} {own own' : List Frame} {inject : α → Focus} {inject' : β → Focus}
  {x : Exec α} {f : α → Exec β}

theorem step_eq (limits : Limits) {c : Config} {move : Move} (h : c.move? = some move) :
    c.step limits = some (move.make limits c.machine) := by
  rw [step, h]
  rfl

theorem step_fault_cons {frame : Frame} {e : Fault} {stack : List Frame} {m : Machine}
    (hframe : frame.isCall = false) :
    step limits ⟨.fault e, frame :: stack, m⟩ = some ⟨.fault e, stack, m⟩ := by
  cases frame <;> first | rfl | cases hframe

theorem Simulates.pure (a : α) :
    Simulates limits calls least (inject a) [] inject (Exec.pure a) := by
  intro stack m _ _ _
  exact Leads.refl

theorem Simulates.fail (e : Fault) :
    Simulates limits calls least (.fault e) [] inject (Exec.fail e) := by
  intro stack m _ _ _
  exact Leads.refl

theorem Simulates.go
    (hmove : ∀ stack m, move? ⟨focus, own ++ stack, m⟩ = some (.go focus' (own' ++ stack)))
    (hx : Simulates limits calls least focus' own' inject x) :
    Simulates limits calls least focus own inject x := by
  intro stack m hsound hcalls hleast
  have hstep : step limits ⟨focus, own ++ stack, m⟩ = some ⟨focus', own' ++ stack, m⟩ :=
    step_eq limits (hmove stack m)
  exact Leads.head hstep (hx stack m (hsound.change (change_of_step hstep)) hcalls hleast)

theorem Simulates.ask {result : Environment → Except Fault α}
    (hmove : ∀ stack m, move? ⟨focus, own ++ stack, m⟩ =
      some (.go (.of inject (result m.env)) stack)) :
    Simulates limits calls least focus own inject (Exec.ask result) := by
  intro stack m _ _ _
  exact Leads.head (step_eq limits (hmove stack m)) Leads.refl

theorem Simulates.lift {result : Except Fault α}
    (hmove : ∀ stack m, move? ⟨focus, own ++ stack, m⟩ = some (.go (.of inject result) stack)) :
    Simulates limits calls least focus own inject (Exec.lift result) := by
  intro stack m _ _ _
  exact Leads.head (step_eq limits (hmove stack m)) Leads.refl

theorem Simulates.andThen (hx : Simulates limits calls least focus own inject x)
    (hf : ∀ a, Simulates limits calls least (inject a) [] inject' (f a)) :
    Simulates limits calls least focus own inject' (x >>= f) := by
  intro stack m hsound hcalls hleast
  have hlead := hx stack m hsound hcalls hleast
  have hsteps := Nat.le_trans hleast hlead.steps_le
  have hafter := hlead.sound hsound
  have hbind : (x >>= f) m = Exec.bind x f m := rfl
  rw [hbind, Exec.bind]
  cases hout : x m with
  | mk result m' =>
      rw [hout] at hlead hafter hsteps
      cases result with
      | ok a => exact hlead.trans (hf a stack m' hafter hcalls hsteps)
      | error e => exact hlead

/-- An action on top of a frame that waits for its result. -/
theorem Simulates.bind {frame : Frame} (hframe : frame.isCall = false)
    (hx : Simulates limits calls least focus [] inject x)
    (hf : ∀ a, Simulates limits calls least (inject a) [frame] inject' (f a)) :
    Simulates limits calls least focus [frame] inject' (x >>= f) := by
  intro stack m hsound hcalls hleast
  have hcalls' : pending (frame :: stack) + calls = limits.maxCallDepth := by
    rwa [pending_cons_of_not_call hframe]
  have hlead := hx (frame :: stack) m hsound hcalls' hleast
  have hsteps := Nat.le_trans hleast hlead.steps_le
  have hafter := hlead.sound hsound
  have hbind : (x >>= f) m = Exec.bind x f m := rfl
  rw [hbind, Exec.bind]
  cases hout : x m with
  | mk result m' =>
      rw [hout] at hlead hafter hsteps
      cases result with
      | ok a => exact hlead.trans (hf a stack m' hafter hcalls hsteps)
      | error e =>
          exact hlead.trans (Leads.head (step_fault_cons hframe) Leads.refl)

/-- A move to an action, on top of a frame that waits for its result. -/
theorem Simulates.push {frame : Frame} (hframe : frame.isCall = false)
    (hmove : ∀ stack m, move? ⟨focus, own ++ stack, m⟩ = some (.go focus' (frame :: stack)))
    (hx : Simulates limits calls least focus' [] inject x)
    (hf : ∀ a, Simulates limits calls least (inject a) [frame] inject' (f a)) :
    Simulates limits calls least focus own inject' (x >>= f) :=
  .go hmove (.bind hframe hx hf)

theorem Simulates.mono {least' : Nat} (hx : Simulates limits calls least focus own inject x)
    (h : least ≤ least') : Simulates limits calls least' focus own inject x := by
  intro stack m hsound hcalls hleast
  exact hx stack m hsound hcalls (Nat.le_trans h hleast)

theorem Simulates.spend {frame : Frame} (hframe : frame.isCall = false)
    (hmove : ∀ stack m, move? ⟨focus, own ++ stack, m⟩ = some (.spend focus' (frame :: stack)))
    (hx : Simulates limits calls (least + 1) focus' [frame] inject x) :
    Simulates limits calls least focus own inject (Exec.tick limits >>= fun _ => x) := by
  intro stack m hsound hcalls hleast
  have hstep := step_eq limits (hmove stack m)
  have hafter := hsound.change (change_of_step hstep)
  refine Leads.head hstep ?_
  have hbind : (Exec.tick limits >>= fun _ => x) m =
      Exec.bind (Exec.tick limits) (fun _ => x) m := rfl
  have hmachine := Exec.machine_tick limits m
  rw [hbind, Exec.bind]
  rw [Move.make] at hafter ⊢
  cases hout : Exec.tick limits m with
  | mk result m' =>
      rw [hout] at hafter hmachine
      cases hmachine
      cases result with
      | ok u => exact hx stack _ hafter hcalls (Nat.succ_le_succ hleast)
      | error e => exact Leads.head (step_fault_cons hframe) Leads.refl

end Combinators

/-! ## Expressions -/

/-- What a call does, the steps do once its arguments have their values. -/
def SimulatesCall (limits : Limits) (calls : Nat) (call : Caller) : Prop :=
  ∀ f values, Simulates limits calls 0 (.items (.call f) values []) [] .value (call f values)

section Expressions

variable {call : Caller}

theorem simulates_builtin (b : Builtin) (values : List Value) :
    Simulates limits calls 0 (.items (.builtin b) values []) [] .value
      (Exec.lift (b.request values) >>= fun request => Exec.perform request) := by
  intro stack m _ _ _
  refine Leads.head (step_eq limits rfl) ?_
  rw [Move.ofUse]
  cases hrequest : b.request values with
  | ok request => exact Leads.refl
  | error e => exact Leads.refl

mutual

theorem simulates_eval (hcall : SimulatesCall limits calls call) (e : Expr) :
    Simulates limits calls 0 (.expr e) [] .value (e.eval limits call) := by
  match e with
  | .number _ n | .text _ s | .bool _ b | .none _ =>
      rw [Expr.eval]
      exact .go (fun _ _ => rfl) (.pure _)
  | .list _ items =>
      rw [Expr.eval]
      refine .go (fun _ _ => rfl) (.andThen (simulates_evalAll hcall .list [] items) ?_)
      intro values
      exact .lift fun _ _ => rfl
  | .name _ x =>
      rw [Expr.eval]
      exact .ask fun _ _ => rfl
  | .call _ callee args =>
      rw [Expr.eval]
      refine .andThen (.ask fun _ _ => rfl) ?_
      intro f
      by_cases hargs : args.length = f.params.length
      · rw [if_pos hargs, if_pos hargs]
        exact .andThen (simulates_evalAll hcall (.call f) [] args) fun values => hcall f values
      · rw [if_neg hargs, if_neg hargs]
        exact .fail _
  | .builtin span callee args =>
      rw [Expr.eval]
      by_cases hargs : args.length = callee.arity
      · have hmove : ∀ stack m, move? ⟨.expr (.builtin span callee args), [] ++ stack, m⟩ =
            some (.go (.items (.builtin callee) [] args) ([] ++ stack)) := by
          intro stack m
          simp [move?, Move.ofExpr, hargs]
        rw [if_pos hargs]
        exact .go hmove (.andThen (simulates_evalAll hcall (.builtin callee) [] args)
          fun values => simulates_builtin callee values)
      · have hmove : ∀ stack m, move? ⟨.expr (.builtin span callee args), [] ++ stack, m⟩ =
            some (.go (.fault (.arity callee.name callee.arity args.length)) ([] ++ stack)) := by
          intro stack m
          simp [move?, Move.ofExpr, hargs]
        rw [if_neg hargs]
        exact .go hmove (.fail _)
  | .index _ target position =>
      rw [Expr.eval]
      refine .push rfl (fun _ _ => rfl) (simulates_eval hcall target) ?_
      intro t
      refine .push rfl (fun _ _ => rfl) (simulates_eval hcall position) ?_
      intro p
      exact .lift fun _ _ => rfl
  | .binary _ op left right =>
      rw [Expr.eval]
      refine .push rfl (fun _ _ => rfl) (simulates_eval hcall left) ?_
      intro a
      refine .push rfl (fun _ _ => rfl) (simulates_eval hcall right) ?_
      intro b stack m _ _ _
      exact Leads.head (step_eq limits rfl) Leads.refl
  | .unary _ op operand =>
      rw [Expr.eval]
      refine .push rfl (fun _ _ => rfl) (simulates_eval hcall operand) ?_
      intro a
      exact .lift fun _ _ => rfl
  | .paren _ inner =>
      rw [Expr.eval]
      exact .go (fun _ _ => rfl) (simulates_eval hcall inner)

theorem simulates_evalAll (hcall : SimulatesCall limits calls call) (use : Use)
    (done : List Value) (items : List Expr) :
    Simulates limits calls 0 (.items use done items) []
      (fun values => .items use (done ++ values) []) (Expr.evalAll limits call items) := by
  match items with
  | [] =>
      rw [Expr.evalAll]
      intro stack m _ _ _
      have hdone : done ++ [] = done := List.append_nil done
      change Leads limits _ ⟨.items use (done ++ []) [], stack, m⟩
      rw [hdone]
      exact Leads.refl
  | e :: rest =>
      rw [Expr.evalAll]
      refine .push rfl (fun _ _ => rfl) (simulates_eval hcall e) ?_
      intro v
      refine .go (fun _ _ => rfl) (.andThen (simulates_evalAll hcall use (done ++ [v]) rest) ?_)
      intro vs stack m _ _ _
      have hdone : done ++ [v] ++ vs = done ++ v :: vs := List.append_assoc done [v] vs
      change Leads limits _ ⟨.items use (done ++ v :: vs) [], stack, m⟩
      rw [hdone]
      exact Leads.refl

end

end Expressions

/-! ## Statements -/

section Statements

variable {call : Caller}

theorem bind_assoc {γ : Type} (x : Exec α) (f : α → Exec β) (g : β → Exec γ) :
    x >>= f >>= g = x >>= fun a => f a >>= g := by
  funext m
  change Exec.bind (Exec.bind x f) g m = Exec.bind x (fun a => Exec.bind (f a) g) m
  unfold Exec.bind
  cases x m with
  | mk result m' =>
      cases result with
      | ok a => rfl
      | error e => rfl

theorem iterate_succ (condition : Exec Bool) (body : Exec Flow) (rounds : Nat) :
    iterate limits condition body (rounds + 1) =
      (condition >>= fun holds =>
        if holds then
          Exec.tick limits >>= fun _ => body >>= fun flow =>
            match flow with
            | .next => iterate limits condition body rounds
            | .returned v => Exec.pure (.returned v)
        else Exec.pure .next : Exec Flow) := by
  funext m
  change _ = Exec.bind condition _ m
  rw [iterate, Exec.bind]
  cases condition m with
  | mk result m₁ =>
      cases result with
      | error e => rfl
      | ok holds =>
          cases holds with
          | false => rfl
          | true =>
              change _ = Exec.bind (Exec.tick limits) _ m₁
              dsimp only
              rw [Exec.bind]
              cases Exec.tick limits m₁ with
              | mk result m₂ =>
                  cases result with
                  | error e => rfl
                  | ok u =>
                      change _ = Exec.bind body _ m₂
                      dsimp only
                      rw [Exec.bind]
                      cases body m₂ with
                      | mk result m₃ =>
                          cases result with
                          | error e => rfl
                          | ok flow => cases flow <;> rfl

/-- The rounds suffice if no fewer are given than there are steps left. -/
theorem simulates_iterate {condition : Expr} {body : Block}
    (hcondition : Simulates limits calls 0 (.expr condition) [] .value
      (condition.eval limits call))
    (hbody : Simulates limits calls 0 (.stmts body.stmts) [] .flow
      (Stmt.execBlock limits call body))
    (rounds : Nat) (hrounds : limits.maxSteps + 1 ≤ rounds + least) :
    Simulates limits calls least (.loop condition body) [] .flow
      (iterate limits (condition.holds limits call) (Stmt.execBlock limits call body) rounds) := by
  induction rounds generalizing least with
  | zero =>
      intro stack m hsound _ hleast
      have hsteps : m.steps ≤ limits.maxSteps := hsound.steps_le (by rintro ⟨e, he⟩; cases he)
      omega
  | succ rounds ih =>
      rw [iterate_succ, Expr.holds, bind_assoc]
      refine .push rfl (fun _ _ => rfl) (hcondition.mono (Nat.zero_le least)) ?_
      intro v
      cases hv : v.asBool with
      | error e =>
          have hmove : ∀ stack m, move? ⟨.value v, [.test condition body] ++ stack, m⟩ =
              some (.go (.fault e) ([] ++ stack)) := by
            intro stack m
            simp [move?, Move.ofValue, hv]
          exact .go hmove (.fail e)
      | ok holds =>
          cases holds with
          | false =>
              have hmove : ∀ stack m, move? ⟨.value v, [.test condition body] ++ stack, m⟩ =
                  some (.go (.flow .next) ([] ++ stack)) := by
                intro stack m
                simp [move?, Move.ofValue, hv]
              exact .go hmove (.pure Flow.next)
          | true =>
              have hmove : ∀ stack m, move? ⟨.value v, [.test condition body] ++ stack, m⟩ =
                  some (.spend (.stmts body.stmts) (.round condition body :: stack)) := by
                intro stack m
                simp [move?, Move.ofValue, hv]
              refine .spend rfl hmove (.bind rfl (hbody.mono (Nat.zero_le _)) ?_)
              intro flow
              cases flow with
              | next => exact .go (fun _ _ => rfl) (ih (by omega))
              | returned v => exact .go (fun _ _ => rfl) (.pure (Flow.returned v))

theorem simulates_repeatWhile {condition : Expr} {body : Block}
    (hcondition : Simulates limits calls 0 (.expr condition) [] .value
      (condition.eval limits call))
    (hbody : Simulates limits calls 0 (.stmts body.stmts) [] .flow
      (Stmt.execBlock limits call body)) :
    Simulates limits calls 0 (.loop condition body) [] .flow
      (repeatWhile limits (condition.holds limits call) (Stmt.execBlock limits call body)) := by
  intro stack m hsound hcalls _
  have hrounds : limits.maxSteps + 1 ≤ limits.maxSteps + 1 - m.steps + m.steps := by omega
  exact simulates_iterate hcondition hbody _ hrounds stack m hsound hcalls (Nat.le_refl _)

theorem simulates_update {focus : Focus} {own : List Frame}
    {change : Environment → Except Fault Environment}
    (hmove : ∀ stack m, move? ⟨focus, own ++ stack, m⟩ =
      some (Move.change (change m.env) stack)) :
    Simulates limits calls least focus own .flow
      (Exec.update change >>= fun _ => Exec.pure .next) := by
  intro stack m _ _ _
  refine Leads.head (step_eq limits (hmove stack m)) ?_
  have hbind : (Exec.update change >>= fun _ => Exec.pure Flow.next) m =
      Exec.bind (Exec.update change) (fun _ => Exec.pure .next) m := rfl
  rw [hbind, Exec.bind, Exec.update]
  cases change m.env with
  | ok env => exact Leads.refl
  | error e => exact Leads.refl

/-- A statement spends a step, and then does as its form says. -/
def Begins (limits : Limits) (calls : Nat) (s : Stmt) (x : Exec Flow) : Prop :=
  ∃ rest, x = (Exec.tick limits >>= fun _ => rest) ∧
    Simulates limits calls 0 (.begun s) [] .flow rest

mutual

theorem simulates_exec (hcall : SimulatesCall limits calls call) (s : Stmt) :
    Begins limits calls s (s.exec limits call) := by
  match s with
  | .var _ name value =>
      refine ⟨_, by rw [Stmt.exec], ?_⟩
      refine .push rfl (fun _ _ => rfl) (simulates_eval hcall value) ?_
      intro v
      exact simulates_update fun _ _ => rfl
  | .assign _ name value =>
      refine ⟨_, by rw [Stmt.exec], ?_⟩
      refine .push rfl (fun _ _ => rfl) (simulates_eval hcall value) ?_
      intro v
      exact simulates_update fun _ _ => rfl
  | .func _ name params body =>
      refine ⟨_, by rw [Stmt.exec], ?_⟩
      exact simulates_update fun _ _ => rfl
  | .choose _ branches =>
      refine ⟨_, by rw [Stmt.exec], ?_⟩
      exact .go (fun _ _ => rfl) (simulates_execBranches hcall branches)
  | .loop _ condition body =>
      refine ⟨_, by rw [Stmt.exec], ?_⟩
      exact .go (fun _ _ => rfl) (simulates_repeatWhile (simulates_eval hcall condition)
        (simulates_execBlock hcall body))
  | .giveBack _ (some value) =>
      refine ⟨_, by rw [Stmt.exec], ?_⟩
      refine .push rfl (fun _ _ => rfl) (simulates_eval hcall value) ?_
      intro v
      exact .go (fun _ _ => rfl) (.pure (Flow.returned v))
  | .giveBack _ none =>
      refine ⟨_, by rw [Stmt.exec], ?_⟩
      exact .go (fun _ _ => rfl) (.pure (Flow.returned .none))
  | .expr _ value =>
      refine ⟨_, by rw [Stmt.exec], ?_⟩
      refine .push rfl (fun _ _ => rfl) (simulates_eval hcall value) ?_
      intro v
      exact .go (fun _ _ => rfl) (.pure Flow.next)

theorem simulates_execAll (hcall : SimulatesCall limits calls call) (stmts : List Stmt) :
    Simulates limits calls 0 (.stmts stmts) [] .flow (Stmt.execAll limits call stmts) := by
  match stmts with
  | [] =>
      rw [Stmt.execAll]
      exact .go (fun _ _ => rfl) (.pure Flow.next)
  | s :: rest =>
      obtain ⟨x, hx, hbegun⟩ := simulates_exec hcall s
      rw [Stmt.execAll, hx, bind_assoc]
      refine .spend rfl (fun _ _ => rfl) (.bind rfl (hbegun.mono (Nat.zero_le _)) ?_)
      intro flow
      cases flow with
      | next =>
          exact .go (fun _ _ => rfl) ((simulates_execAll hcall rest).mono (Nat.zero_le _))
      | returned v => exact .go (fun _ _ => rfl) (.pure (Flow.returned v))

theorem simulates_execBlock (hcall : SimulatesCall limits calls call) (body : Block) :
    Simulates limits calls 0 (.stmts body.stmts) [] .flow (Stmt.execBlock limits call body) := by
  match body with
  | .mk _ stmts =>
      rw [Stmt.execBlock]
      exact simulates_execAll hcall stmts

theorem simulates_execBranches (hcall : SimulatesCall limits calls call)
    (branches : Branches) :
    Simulates limits calls 0 (.branches branches) [] .flow
      (Stmt.execBranches limits call branches) := by
  match branches with
  | .done =>
      rw [Stmt.execBranches]
      exact .go (fun _ _ => rfl) (.pure Flow.next)
  | .otherwise body =>
      rw [Stmt.execBranches]
      exact .go (fun _ _ => rfl) (simulates_execBlock hcall body)
  | .branch condition body rest =>
      rw [Stmt.execBranches, Expr.holds, bind_assoc]
      refine .push rfl (fun _ _ => rfl) (simulates_eval hcall condition) ?_
      intro v
      refine .andThen (.lift fun _ _ => rfl) ?_
      intro holds
      cases holds with
      | true => exact simulates_execBlock hcall body
      | false => exact simulates_execBranches hcall rest

end

end Statements

/-! ## Calls and runs -/

theorem simulates_callWithin (calls : Nat) :
    SimulatesCall limits calls (callWithin limits calls) := by
  induction calls with
  | zero =>
      intro f values stack m hsound hcalls _
      have hbalanced : m.env.depth = pending stack := hsound.balanced
      have hdepth : ¬m.env.depth < limits.maxCallDepth := by omega
      have hstep : step limits ⟨.items (.call f) values [], stack, m⟩ =
          some ⟨.fault (.callDepthExceeded limits.maxCallDepth), stack, m⟩ := by
        rw [step_eq limits rfl, Move.ofUse, Move.make, if_neg hdepth]
      exact Leads.head hstep Leads.refl
  | succ calls ih =>
      intro f values stack m hsound hcalls _
      have hbalanced : m.env.depth = pending stack := hsound.balanced
      have hdepth : m.env.depth < limits.maxCallDepth := by omega
      have hstep : step limits ⟨.items (.call f) values [], stack, m⟩ =
          some ⟨.stmts f.body, .call :: stack,
            { m with env := m.env.pushFrame (f.params.zip values) }⟩ := by
        rw [step_eq limits rfl, Move.ofUse, Move.make, if_pos hdepth]
      have hentered := hsound.change (change_of_step hstep)
      have hcalls' : pending (.call :: stack) + calls = limits.maxCallDepth := by
        rw [pending_call_cons]
        omega
      have hbody := simulates_execAll ih f.body (.call :: stack) _ hentered hcalls'
        (Nat.zero_le _)
      refine Leads.head hstep (hbody.trans ?_)
      change Leads limits _ (settle .value
        (Exec.bind (Exec.inFrame (f.params.zip values) _)
          (fun flow : Flow => Exec.pure flow.result) m) stack)
      rw [Exec.bind, Exec.inFrame]
      cases Stmt.execAll limits (callWithin limits calls) f.body
          { m with env := m.env.pushFrame (f.params.zip values) } with
      | mk result m' =>
          cases result with
          | ok flow => exact Leads.head (step_eq limits rfl) Leads.refl
          | error e => exact Leads.head (step_eq limits rfl) Leads.refl

/-- The configuration in which a program starts in a kitchen. -/
def initial (k : Kitchen) (p : Program) : Config :=
  ⟨.stmts p.stmts, [], .forKitchen k⟩

theorem sound_initial (limits : Limits) (k : Kitchen) (p : Program) :
    Sound limits (initial k p) :=
  ⟨rfl, Nat.zero_le _, .inl ⟨Nat.zero_le _, by simp [initial]⟩⟩

/-- The steps from a configuration come to an end in another. -/
def EndsIn (limits : Limits) (c last : Config) : Prop :=
  Leads limits c last ∧ last.step limits = none

theorem EndsIn.after {c c' last : Config} (h : EndsIn limits c last)
    (hstep : c.step limits = some c') : EndsIn limits c' last := by
  refine ⟨?_, h.2⟩
  rcases Relation.ReflTransGen.cases_head h.1 with rfl | ⟨c'', hfirst, hrest⟩
  · rw [h.2] at hstep
    cases hstep
  · have heq : c'' = c' := Option.some.inj (hfirst.symm.trans hstep)
    rwa [← heq]

theorem EndsIn.eq_of_stuck {c last : Config} (h : EndsIn limits c last)
    (hstuck : c.step limits = none) : c = last := by
  rcases Relation.ReflTransGen.cases_head h.1 with rfl | ⟨c', hfirst, -⟩
  · rfl
  · rw [hstuck] at hfirst
    cases hfirst

theorem EndsIn.unique {c last last' : Config} (h : EndsIn limits c last)
    (h' : EndsIn limits c last') : last' = last := by
  obtain ⟨hleads, hstuck⟩ := h
  induction hleads using Relation.ReflTransGen.head_induction_on with
  | refl => exact (h'.eq_of_stuck hstuck).symm
  | head hstep _ ih => exact ih (h'.after hstep)

/-- The run that ends in a configuration. -/
def run (c : Config) : Run :=
  match c.focus with
  | .fault e => ⟨⟨c.machine.log.toList, .aborted e⟩, c.machine.kitchen, c.machine.steps⟩
  | _ =>
    let (outcome, entry) := c.machine.kitchen.verdict
    ⟨⟨c.machine.log.toList ++ [entry], outcome⟩, c.machine.kitchen, c.machine.steps⟩

theorem leads_execute (limits : Limits) (k : Kitchen) (p : Program) :
    Leads limits (initial k p)
      (settle .flow (execute limits p.stmts (.forKitchen k)) []) := by
  have hcalls : pending [] + limits.maxCallDepth = limits.maxCallDepth := Nat.zero_add _
  exact simulates_execAll (simulates_callWithin limits.maxCallDepth) p.stmts [] (.forKitchen k)
    (sound_initial limits k p) hcalls (Nat.zero_le _)

/-- The steps of a program come to an end, and there they have the run of the program. -/
theorem exists_endsIn (limits : Limits) (k : Kitchen) (p : Program) :
    ∃ last, EndsIn limits (initial k p) last ∧ last.run = p.run limits k := by
  refine ⟨_, ⟨leads_execute limits k p, ?_⟩, ?_⟩
  · cases execute limits p.stmts (.forKitchen k) with
    | mk result m => cases result <;> rfl
  · unfold Program.run
    cases execute limits p.stmts (.forKitchen k) with
    | mk result m => cases result <;> rfl

theorem run_focus {c : Config} {e : Fault} :
    c.run.report.outcome = .aborted e ↔ c.focus = .fault e := by
  unfold run
  cases c.focus with
  | fault e' => simp
  | _ =>
      simp only [Kitchen.verdict]
      split <;> simp

@[simp] theorem run_kitchen (c : Config) : c.run.kitchen = c.machine.kitchen := by
  unfold run
  cases c.focus <;> rfl

@[simp] theorem run_steps (c : Config) : c.run.steps = c.machine.steps := by
  unfold run
  cases c.focus <;> rfl

end KitchenScript.Config
