import KitchenScript.Proofs.Program.Accepted
import KitchenScript.Proofs.Run.Code
import KitchenScript.Proofs.Run.Scope

/-!
# Calls of accepted programs

What the reader of programs has checked, a run does not find broken.  A kitchen call has the number
of arguments it takes, so no run of an accepted program stops for that; and since the parameters of a
function differ and a call is entered only with as many values as there are parameters, each
parameter stands for the argument in its own position.
-/

namespace KitchenScript

/-! ## Parameters -/

namespace Bindings

theorem lookup_bindAll_of_not_mem {new : List (String × Value)} {x : String}
    (hx : x ∉ new.map Prod.fst) (vars : Bindings) :
    (bindAll vars new).lookup x = vars.lookup x := by
  induction new generalizing vars with
  | nil => rfl
  | cons binding new ih =>
      rw [List.map_cons, List.mem_cons, not_or] at hx
      have hrest := ih hx.2 (bind binding.1 binding.2 vars)
      rw [lookup_bind, if_neg hx.1] at hrest
      exact hrest

/-- Of names that all differ, each is bound to the value in its position. -/
theorem lookup_bindAll_zip {params : List String} (hparams : params.Nodup) {values : List Value}
    {x : String} {v : Value} (hmem : (x, v) ∈ params.zip values) (vars : Bindings) :
    (bindAll vars (params.zip values)).lookup x = some v := by
  induction params generalizing values vars with
  | nil => cases hmem
  | cons y params ih =>
      cases values with
      | nil => cases hmem
      | cons u values =>
          obtain ⟨hy, hdistinct⟩ := List.nodup_cons.mp hparams
          rw [List.zip_cons_cons, List.mem_cons] at hmem
          change (bindAll (bind y u vars) (params.zip values)).lookup x = some v
          rcases hmem with hfirst | hlater
          · obtain ⟨rfl, rfl⟩ := Prod.mk.inj hfirst
            -- no later parameter takes the name over
            have hnot : x ∉ (params.zip values).map Prod.fst := by
              intro hx
              obtain ⟨⟨_, w⟩, hw, rfl⟩ := List.mem_map.mp hx
              exact hy (List.of_mem_zip hw).1
            rw [lookup_bindAll_of_not_mem hnot, lookup_bind, if_pos rfl]
          · exact ih hdistinct hlater _

end Bindings

/-! ## Where faults of arity come from -/

/-- What can raise a fault of arity that names `x`. -/
inductive Miscounts (x : String) : Focus → Prop where
  | call {span : Span} {callee : Ident} {args : List Expr} (hname : callee.name = x) :
      Miscounts x (.expr (.call span callee args))
  | builtin {span : Span} {callee : Builtin} {args : List Expr}
      (hargs : args.length ≠ callee.arity) : Miscounts x (.expr (.builtin span callee args))
  | request {callee : Builtin} {values : List Value} (hvalues : values.length ≠ callee.arity) :
      Miscounts x (.items (.builtin callee) values [])

/-- No fault of arity that names `x`. -/
def Focus.Counted (x : String) : Focus → Prop
  | fault (.arity y _ _) => y ≠ x
  | _ => True

theorem Ordinary.counted {α : Type} {e : Fault} (h : Ordinary (.error e : Except Fault α))
    (x : String) : (Focus.fault e).Counted x := by
  cases e with
  | arity y n m => exact absurd rfl (h.2 y n m)
  | _ => trivial

theorem Focus.counted_of {α : Type} {x : String} {inject : α → Focus} {result : Except Fault α}
    (hresult : Ordinary result) (hinject : ∀ a, (inject a).Counted x) :
    (Focus.of inject result).Counted x := by
  cases result with
  | ok a => exact hinject a
  | error e => exact hresult.counted x

namespace Move

variable {x : String} {env : Environment} {stack : List Frame} {limits : Limits}

def Counted (x : String) : Move → Prop
  | go focus _ => focus.Counted x
  | set _ focus _ => focus.Counted x
  | spend focus _ => focus.Counted x
  | leave focus _ => focus.Counted x
  | operate _ _ _ _ => True
  | act _ _ => True
  | enter _ _ _ => True

theorem Counted.make {move : Move} (h : move.Counted x) (m : Machine) :
    (move.make limits m).focus.Counted x := by
  cases move with
  | go _ _ | set _ _ _ | leave _ _ => exact h
  | spend focus stack =>
      simp only [Move.make, Exec.tick]
      split
      · trivial
      · exact h
  | operate op left right stack =>
      exact Focus.counted_of (op.ordinary_apply _ left right) fun _ => trivial
  | act request stack => exact Focus.counted_of (Exec.ordinary_perform request m) fun _ => trivial
  | enter f values stack =>
      rw [Move.make]
      split <;> trivial

theorem counted_change {result : Except Fault Environment} (h : Ordinary result) :
    (change result stack).Counted x := by
  cases result with
  | ok env => trivial
  | error e => exact h.counted x

theorem counted_ofExpr {e : Expr} (h : ¬Miscounts x (.expr e)) :
    (ofExpr env stack e).Counted x := by
  cases e with
  | number _ _ | text _ _ | bool _ _ | none _ | list _ _ | index _ _ _ | binary _ _ _ _
  | unary _ _ _ | paren _ _ => trivial
  | name _ y => exact Focus.counted_of (env.ordinary_get y) fun _ => trivial
  | call span callee args =>
      refine Focus.counted_of (env.ordinary_function callee.name) fun f => ?_
      split
      · trivial
      · exact fun hname => h (.call hname)
  | builtin span callee args =>
      have hargs : args.length = callee.arity := Decidable.not_not.mp fun hne => h (.builtin hne)
      rw [ofExpr, if_pos hargs]
      trivial

theorem counted_ofUse {use : Use} {values : List Value}
    (h : ¬Miscounts x (.items use values [])) : (ofUse stack values use).Counted x := by
  cases use with
  | list => exact Focus.counted_of (Value.ordinary_ofItems values) fun _ => trivial
  | call f => trivial
  | builtin b =>
      have hvalues : values.length = b.arity := Decidable.not_not.mp fun hne => h (.request hne)
      have hordinary := Builtin.ordinary_request hvalues
      rw [ofUse]
      cases hrequest : b.request values with
      | ok request => trivial
      | error e =>
          rw [hrequest] at hordinary
          exact hordinary.counted x

theorem counted_ofStmt (s : Stmt) : (ofStmt env stack s).Counted x := by
  match s with
  | .var _ _ _ | .assign _ _ _ | .choose _ _ | .loop _ _ _ | .expr _ _ | .giveBack _ none
  | .giveBack _ (some _) => trivial
  | .func _ _ _ _ => exact counted_change (env.ordinary_define _)

theorem counted_ofValue {frame : Frame} {move : Move} {v : Value}
    (hmove : ofValue env v stack frame = some move) : move.Counted x := by
  cases frame with
  | items _ _ _ | position _ | right _ _ | giveBack | discard =>
      cases hmove
      trivial
  | operate _ _ =>
      cases hmove
      trivial
  | itemOf target =>
      cases hmove
      exact Focus.counted_of (ordinary_itemAt target v) fun _ => trivial
  | sign op =>
      cases hmove
      exact Focus.counted_of (op.ordinary_apply v) fun _ => trivial
  | declare y =>
      cases hmove
      exact counted_change (env.ordinary_declare y v)
  | assign y =>
      cases hmove
      exact counted_change (env.ordinary_assign y v)
  | branch body rest =>
      cases hmove
      refine Focus.counted_of v.ordinary_asBool fun holds => ?_
      cases holds <;> trivial
  | test condition body =>
      have hordinary := v.ordinary_asBool
      rw [ofValue] at hmove
      split at hmove
      · cases hmove
        trivial
      · cases hmove
        trivial
      · rename_i e hv
        cases hmove
        rw [hv] at hordinary
        exact hordinary.counted x
  | round _ _ | rest _ | call => cases hmove

theorem counted_ofFlow {frame : Frame} {move : Move} {f : Flow}
    (hmove : ofFlow f stack frame = some move) : move.Counted x := by
  cases frame with
  | rest _ | round _ _ =>
      cases f with
      | next | returned _ =>
          cases hmove
          trivial
  | call =>
      cases hmove
      trivial
  | _ => cases hmove

end Move

namespace Config

variable {x : String} {limits : Limits} {c c' : Config}

theorem counted_of_move {move : Move} (hc : c.focus.Counted x) (hcall : ¬Miscounts x c.focus)
    (hmove : c.move? = some move) : move.Counted x := by
  obtain ⟨focus, stack, m⟩ := c
  cases focus with
  | expr e =>
      cases hmove
      exact Move.counted_ofExpr hcall
  | items use done rest =>
      cases rest with
      | nil =>
          cases hmove
          exact Move.counted_ofUse hcall
      | cons e rest =>
          cases hmove
          trivial
  | stmts rest =>
      cases rest with
      | nil | cons _ _ =>
          cases hmove
          trivial
  | begun s =>
      cases hmove
      exact Move.counted_ofStmt s
  | branches rest =>
      cases hmove
      cases rest <;> trivial
  | loop condition body =>
      cases hmove
      trivial
  | value v =>
      cases stack with
      | nil => cases hmove
      | cons frame stack => exact Move.counted_ofValue hmove
  | flow f =>
      cases stack with
      | nil => cases hmove
      | cons frame stack => exact Move.counted_ofFlow hmove
  | fault e =>
      cases stack with
      | nil => cases hmove
      | cons frame stack =>
          cases hmove
          cases frame <;> exact hc

/-- A fault of arity begins at a call that is miscounted. -/
theorem counted_of_step (hc : c.focus.Counted x) (hcall : ¬Miscounts x c.focus)
    (hstep : c.step limits = some c') : c'.focus.Counted x := by
  obtain ⟨move, hmove, rfl⟩ := Option.map_eq_some_iff.mp hstep
  exact (counted_of_move hc hcall hmove).make c.machine

end Config

/-! ## Accepted programs -/

/-- The rules that the reader of programs enforces. -/
def Rules.lawful : Rules where
  expr := Expr.Lawful
  stmt := Stmt.Lawful

theorem Rules.OnFunction.nodup {f : Function} (h : Rules.lawful.OnFunction f) : f.params.Nodup := by
  obtain ⟨span, name, params, body, rfl, hdeclared⟩ := h
  exact (hdeclared _ (Stmt.mem_nodes_self _)).1

namespace Config

variable {limits : Limits} {c : Config}

theorem Obeys.not_miscounts (h : c.Obeys .lawful) (b : Builtin) : ¬Miscounts b.name c.focus := by
  obtain ⟨focus, stack, m⟩ := c
  have hfocus := h.focus
  intro hcall
  cases hcall with
  | call hname =>
      -- the callee was an identifier, and those are not spelled like kitchen calls
      have hlawful : Expr.Lawful _ := hfocus _ List.mem_cons_self
      exact hlawful.2 (hname ▸ TokenKind.name_mem_reservedWords b)
  | builtin hargs =>
      have hlawful : Expr.Lawful _ := hfocus _ List.mem_cons_self
      exact hargs hlawful
  | request hvalues => exact hvalues hfocus.1.2

theorem Leads.counted {p : Program} {k : Kitchen} (h : Leads limits (initial k p) c)
    (hp : Rules.lawful.OnProgram p) (b : Builtin) : c.focus.Counted b.name := by
  induction h with
  | refl => trivial
  | tail hbefore hlast ih =>
      exact counted_of_step ih ((Leads.obeys hbefore hp).not_miscounts b) hlast

/-- A call that is entered binds every parameter to the value in its position. -/
theorem Obeys.enter {f : Function} {values : List Value} {c' : Config} (h : c.Obeys .lawful)
    (hfocus : c.focus = .items (.call f) values []) (hstep : c.step limits = some c') :
    values.length = f.params.length ∧
      (c'.focus = .fault (.callDepthExceeded limits.maxCallDepth) ∨
        c'.focus = .stmts f.body ∧
          ∀ x v, (x, v) ∈ f.params.zip values → c'.machine.env.get x = .ok v) := by
  obtain ⟨focus, stack, m⟩ := c
  cases hfocus
  obtain ⟨⟨hf, hcount⟩, -⟩ := h.focus
  refine ⟨hcount, ?_⟩
  cases hstep
  rw [Move.ofUse, Move.make]
  split
  · right
    refine ⟨rfl, fun x v hmem => ?_⟩
    have hlookup := Bindings.lookup_bindAll_zip hf.nodup hmem m.env.vars
    simp only [Environment.get, Environment.pushFrame, hlookup]
  · exact .inl rfl

end Config

namespace Program

/-- What a program has to be so that nothing the reader checks has to be checked again. -/
structure WellFormed (p : Program) : Prop where
  builtins : ∀ span b args, Expr.builtin span b args ∈ p.exprNodes → args.length = b.arity
  params : ∀ span f params body, Stmt.func span f params body ∈ p.stmtNodes →
    (params.map Ident.name).Nodup
  branches : ∀ span branches, Stmt.choose span branches ∈ p.stmtNodes → 0 < branches.count
  names : ∀ span x, Expr.name span x ∈ p.exprNodes → x ≠ "\""
  callees : ∀ span f args, Expr.call span f args ∈ p.exprNodes → f.name ≠ "\""
  blocks : Stmt.blockNestingAll p.stmts ≤ 32
  /-- Levels of brackets and signs, the expression itself counted as one. -/
  levels : ∀ e ∈ p.exprs, e.nesting + 1 ≤ 64

theorem wellFormed_of_compile {source : Source} {p : Program}
    (h : (compile source).program = some p) : p.WellFormed := by
  obtain ⟨hstmt, hexpr⟩ := lawful_of_compile h
  obtain ⟨hblocks, hlevels⟩ := nesting_of_compile h
  exact {
    builtins := fun _ _ _ hmem => hexpr _ hmem
    params := fun _ _ _ _ hmem => hstmt _ hmem
    branches := fun _ _ hmem => hstmt _ hmem
    names := fun _ _ hmem => hexpr _ hmem
    callees := fun _ _ _ hmem => (hexpr _ hmem).1
    blocks := hblocks
    levels := hlevels }

/-- A source that compiles has a well-formed program.  No run of it stops because a kitchen call has
the wrong number of arguments, and every call in a run has one value for each parameter and, unless
it is one call too deep, is entered with each parameter bound to the value in its position. -/
theorem run_of_accepted (source : Source) (h : (compile source).succeeded = true) :
    ∃ p, (compile source).program = some p ∧ p.WellFormed ∧
      ∀ (limits : Limits) (k : Kitchen),
        (∀ (b : Builtin) (n m : Nat),
          (p.run limits k).report.outcome ≠ .aborted (.arity b.name n m)) ∧
        ∀ (c c' : Config) (f : Function) (values : List Value),
          Config.Leads limits (Config.initial k p) c →
          c.focus = .items (.call f) values [] → c.step limits = some c' →
          values.length = f.params.length ∧
            (c'.focus = .fault (.callDepthExceeded limits.maxCallDepth) ∨
              c'.focus = .stmts f.body ∧
                ∀ (i : Nat) (x : String) (v : Value), f.params[i]? = some x →
                  values[i]? = some v → c'.machine.env.get x = .ok v) := by
  obtain ⟨p, hp⟩ := (Compiled.succeeded_iff source).mp h
  obtain ⟨hstmt, hexpr⟩ := lawful_of_compile hp
  have hrules : Rules.lawful.OnProgram p := Rules.onProgram_of hstmt hexpr
  refine ⟨p, hp, wellFormed_of_compile hp, fun limits k => ⟨?_, ?_⟩⟩
  · intro b n m houtcome
    obtain ⟨last, hlast, hrun⟩ := Config.exists_endsIn limits k p
    rw [← hrun, Config.run_focus] at houtcome
    have hcounted := hlast.1.counted hrules b
    rw [houtcome] at hcounted
    exact hcounted rfl
  · intro c c' f values hleads hfocus hstep
    obtain ⟨hcount, hentered⟩ := (hleads.obeys hrules).enter hfocus hstep
    refine ⟨hcount, hentered.imp_right ?_⟩
    rintro ⟨hbody, hbound⟩
    refine ⟨hbody, fun i x v hx hv => hbound x v ?_⟩
    have hzip : (f.params.zip values)[i]? = some (x, v) := List.getElem?_zip_eq_some.mpr ⟨hx, hv⟩
    exact List.mem_of_getElem? hzip

theorem run_of_accepted_difference :
    let source : Source := ⟨"f", "func f(a, b) \x7b\n  return a - b\n\x7d\nPRINT(f(5, 3))\n"⟩
    let k : Kitchen := ⟨.pantry, none, .empty, [], [], []⟩
    (compile source).succeeded = true ∧
      ∃ p, (compile source).program = some p ∧ p.WellFormed ∧
        (∀ n m, (p.run ⟨9, 1, 10⟩ k).report.outcome ≠ .aborted (.arity "PRINT" n m)) ∧
        ((p.run ⟨9, 1, 10⟩ k).report.log.head?.map Entry.message) = some "2" := by
  intro source k
  have hsource : (compile source).succeeded = true := by decide +kernel
  have hprinted : ((compile source).program.map fun p =>
      (p.run ⟨9, 1, 10⟩ k).report.log.head?.map Entry.message) = some (some "2") := by
    decide +kernel
  obtain ⟨p, hp, hwell, hruns⟩ := run_of_accepted source hsource
  rw [hp] at hprinted
  exact ⟨hsource, p, hp, hwell, (hruns ⟨9, 1, 10⟩ k).1 .print, Option.some.inj hprinted⟩

end Program

end KitchenScript
