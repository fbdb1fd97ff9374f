import KitchenScript.Proofs.Run.Record

/-!
# Lists in a run

A run makes lists in one way only, by the list expressions of its program; indexing, assignments,
parameters and returns hand on values that are there already.  Everything else that an operator or
the kitchen answers is no list.  So all items of a list have the tag that was checked when it was
made, and no list is ever changed: a name gets another value as a whole, or keeps the one it has.
-/

namespace KitchenScript

namespace Value

mutual

/-- The value and all values inside it. -/
def parts : Value → List Value
  | .list t items => .list t items :: partsAll items
  | v => [v]

def partsAll : List Value → List Value
  | [] => []
  | v :: rest => parts v ++ partsAll rest

end

/-- All items have the tag of the list.  An empty list has the tag `none`, except in a kitchen
without orders, where the list of the orders is an empty list of texts. -/
def Regular (k : Kitchen) : Value → Prop
  | .list t items =>
    (∀ v ∈ items, v.tag = t) ∧ (items = [] → t = .none ∨ t = .text ∧ k.required = [])
  | _ => True

/-- Every list in the value, at any depth, is regular. -/
def Uniform (k : Kitchen) (v : Value) : Prop :=
  ∀ part ∈ v.parts, part.Regular k

theorem mem_partsAll {items : List Value} {part : Value} :
    part ∈ partsAll items ↔ ∃ v ∈ items, part ∈ v.parts := by
  induction items with
  | nil => simp [partsAll]
  | cons v rest ih => simp [partsAll, ih]

theorem mem_parts_list {t : Tag} {items : List Value} {part : Value} :
    part ∈ (Value.list t items).parts ↔ part = .list t items ∨ ∃ v ∈ items, part ∈ v.parts := by
  rw [parts, List.mem_cons, mem_partsAll]

theorem mem_parts_self (v : Value) : v ∈ v.parts := by
  cases v <;> simp [parts]

theorem eq_of_mem_parts {v part : Value} (hv : v.tag ≠ .list) (h : part ∈ v.parts) :
    part = v := by
  cases v with
  | list t items => exact absurd rfl hv
  | _ => simpa [parts] using h

theorem regular_of_tag_ne {k : Kitchen} {v : Value} (hv : v.tag ≠ .list) : v.Regular k := by
  cases v with
  | list t items => exact absurd rfl hv
  | _ => trivial

mutual

theorem mem_parts_trans {v w : Value} (hw : w ∈ v.parts) (u : Value) (hv : v ∈ u.parts) :
    w ∈ u.parts := by
  cases u with
  | list t items =>
      rcases List.mem_cons.mp hv with rfl | hinner
      · exact hw
      · exact List.mem_cons_of_mem _ (mem_partsAll_trans hw items hinner)
  | bool _ | text _ | number _ | none =>
      cases List.mem_singleton.mp hv
      exact hw

theorem mem_partsAll_trans {v w : Value} (hw : w ∈ v.parts) (items : List Value)
    (hv : v ∈ partsAll items) : w ∈ partsAll items := by
  cases items with
  | nil => cases hv
  | cons item rest =>
      rcases List.mem_append.mp hv with hitem | hrest
      · exact List.mem_append_left _ (mem_parts_trans hw item hitem)
      · exact List.mem_append_right _ (mem_partsAll_trans hw rest hrest)

end

/-- A list that is made of items is regular, and it holds just these items. -/
theorem ofItems_eq_ok {items : List Value} {v : Value} (h : ofItems items = .ok v) :
    ∃ t, v = .list t items ∧ (∀ item ∈ items, item.tag = t) ∧ (items = [] → t = .none) := by
  simp only [ofItems] at h
  split at h
  · cases h
  · rename_i hfind
    cases h
    refine ⟨_, rfl, fun item hitem => ?_, ?_⟩
    · have hsame := List.find?_eq_none.mp hfind item hitem
      simpa using hsame
    · rintro rfl
      rfl

end Value

/-! ## Where the values of a configuration stand -/

def Focus.values : Focus → List Value
  | items _ done _ => done
  | value v => [v]
  | flow (.returned v) => [v]
  | _ => []

def Frame.values : Frame → List Value
  | items _ done _ => done
  | itemOf target => [target]
  | operate _ left => [left]
  | _ => []

/-- A variable is bound to the value, now or in a saved frame. -/
def Environment.Holds (env : Environment) (v : Value) : Prop :=
  ∃ vars ∈ env.vars :: env.frames, ∃ name, (name, v) ∈ vars

namespace Config

/-- The value is looked at, waits on the stack or is bound to a variable. -/
def Holds (c : Config) (v : Value) : Prop :=
  v ∈ c.focus.values ∨ (∃ frame ∈ c.stack, v ∈ frame.values) ∨ c.machine.env.Holds v

/-- The value occurs in one that the configuration holds. -/
def Contains (c : Config) (v : Value) : Prop :=
  ∃ whole, c.Holds whole ∧ v ∈ whole.parts

/-- A list expression has the values of all its items and makes this list of them. -/
def Makes (c : Config) (v : Value) : Prop :=
  ∃ items, c.focus = .items .list items [] ∧ Value.ofItems items = .ok v

/-- What a step can do to the variables. -/
inductive Rebinds (c : Config) (env : Environment) : Prop where
  | keep (hvars : env.vars = c.machine.env.vars) (hframes : env.frames = c.machine.env.frames)
  | bind {x : String} {v : Value} {frame : Frame} {stack : List Frame}
      (hfocus : c.focus = .value v) (hstack : c.stack = frame :: stack)
      (hframe : frame = .declare x ∨ frame = .assign x)
      (hvars : env.vars = Bindings.bind x v c.machine.env.vars)
      (hframes : env.frames = c.machine.env.frames)
  | enter {f : Function} {values : List Value} (hfocus : c.focus = .items (.call f) values [])
      (henv : env = c.machine.env.pushFrame (f.params.zip values))
  | leave {stack : List Frame} (hstack : c.stack = .call :: stack)
      (henv : env = c.machine.env.popFrame)

theorem Contains.part {c : Config} {v part : Value} (h : c.Contains v) (hpart : part ∈ v.parts) :
    c.Contains part := by
  obtain ⟨whole, hwhole, hv⟩ := h
  exact ⟨whole, hwhole, Value.mem_parts_trans hpart whole hv⟩

theorem Holds.contains {c : Config} {v : Value} (h : c.Holds v) : c.Contains v :=
  ⟨v, h, v.mem_parts_self⟩

end Config

/-! ## Variables -/

namespace Bindings

theorem mem_bind {x name : String} {v value : Value} {vars : Bindings}
    (h : (x, v) ∈ bind name value vars) : v = value ∨ (x, v) ∈ vars := by
  induction vars with
  | nil =>
      rw [bind, List.mem_singleton] at h
      exact .inl (congrArg Prod.snd h)
  | cons binding rest ih =>
      rw [bind] at h
      split at h
      · rcases List.mem_cons.mp h with hnew | hrest
        · exact .inl (congrArg Prod.snd hnew)
        · exact .inr (List.mem_cons_of_mem _ hrest)
      · rcases List.mem_cons.mp h with hold | hrest
        · exact .inr (hold ▸ List.mem_cons_self)
        · exact (ih hrest).imp_right (List.mem_cons_of_mem _)

theorem mem_bindAll {x : String} {v : Value} {new : List (String × Value)} {vars : Bindings}
    (h : (x, v) ∈ bindAll vars new) : v ∈ new.map Prod.snd ∨ (x, v) ∈ vars := by
  induction new generalizing vars with
  | nil => exact .inr h
  | cons binding rest ih =>
      rcases ih h with hlater | hbound
      · exact .inl (List.mem_cons_of_mem _ hlater)
      · rcases mem_bind hbound with rfl | hold
        · exact .inl List.mem_cons_self
        · exact .inr hold

end Bindings

namespace Environment

theorem holds_of_get {env : Environment} {x : String} {v : Value} (h : env.get x = .ok v) :
    env.Holds v := by
  unfold get at h
  cases hlookup : env.vars.lookup x with
  | none => simp [hlookup] at h
  | some value =>
      rw [hlookup] at h
      cases h
      obtain ⟨before, after, hsplit, -⟩ := List.lookup_eq_some_iff.mp hlookup
      exact ⟨env.vars, List.mem_cons_self, x, by simp [hsplit]⟩

end Environment

namespace Config

variable {limits : Limits} {c c' : Config}

/-- A step binds variables to values that are there already. -/
theorem Rebinds.holds {env : Environment} (h : Rebinds c env) {v : Value} (hv : env.Holds v) :
    c.Holds v := by
  obtain ⟨vars, hvars, x, hx⟩ := hv
  cases h with
  | keep hsame hframes => exact .inr (.inr ⟨vars, by rwa [hsame, hframes] at hvars, x, hx⟩)
  | bind hfocus _ _ hbound hframes =>
      rw [hbound, hframes] at hvars
      rcases List.mem_cons.mp hvars with rfl | hsaved
      · rcases Bindings.mem_bind hx with rfl | hold
        · exact .inl (by simp [hfocus, Focus.values])
        · exact .inr (.inr ⟨_, List.mem_cons_self, x, hold⟩)
      · exact .inr (.inr ⟨vars, List.mem_cons_of_mem _ hsaved, x, hx⟩)
  | enter hfocus henv =>
      rw [henv, Environment.pushFrame] at hvars
      rcases List.mem_cons.mp hvars with rfl | hsaved
      · rcases Bindings.mem_bindAll hx with hparam | hold
        · obtain ⟨⟨name, value⟩, hzip, rfl⟩ := List.mem_map.mp hparam
          exact .inl (by simpa [hfocus, Focus.values] using (List.of_mem_zip hzip).2)
        · exact .inr (.inr ⟨_, List.mem_cons_self, x, hold⟩)
      · exact .inr (.inr ⟨vars, hsaved, x, hx⟩)
  | leave _ henv =>
      rw [henv, Environment.popFrame] at hvars
      split at hvars
      · exact .inr (.inr ⟨vars, hvars, x, hx⟩)
      · rename_i hframes
        exact .inr (.inr ⟨vars, List.mem_cons_of_mem _ (by rwa [hframes]), x, hx⟩)

end Config

/-! ## What answers with a list -/

/-- A result that is no list. -/
def Plain (result : Except Fault Value) : Prop :=
  ∀ v, result = .ok v → v.tag ≠ .list

theorem plain_ok {v : Value} (hv : v.tag ≠ .list) : Plain (.ok v) := by
  rintro _ ⟨⟩
  exact hv

theorem plain_error (e : Fault) : Plain (.error e) :=
  nofun

theorem Plain.bind {α : Type} {x : Except Fault α} {f : α → Except Fault Value}
    (hf : ∀ a, Plain (f a)) : Plain (x >>= f) := by
  cases x with
  | ok a => exact hf a
  | error e => exact plain_error e

theorem plain_inRange (n : Option Number) : Plain (inRange n) := by
  cases n with
  | none => exact plain_error _
  | some n => exact plain_ok nofun

theorem plain_concat (limit : Nat) (a b : String) : Plain (concat limit a b) := by
  unfold concat
  dsimp only
  split
  · exact plain_error _
  · exact plain_ok nofun

theorem plain_arithmetic (op : Number → Number → Option Number) (a b : Value) :
    Plain (arithmetic op a b) :=
  .bind fun _ => .bind fun _ => plain_inRange _

theorem plain_quotient (op : Number → Number → Option Number) (a b : Value) :
    Plain (quotient op a b) := by
  refine .bind fun _ => .bind fun n => ?_
  split
  · exact plain_error _
  · exact plain_inRange _

theorem plain_comparison (test : Int → Int → Bool) (a b : Value) : Plain (comparison test a b) :=
  .bind fun _ => .bind fun _ => plain_ok nofun

theorem plain_connective (op : Bool → Bool → Bool) (a b : Value) : Plain (connective op a b) :=
  .bind fun _ => .bind fun _ => plain_ok nofun

theorem BinaryOp.plain_apply (limit : Nat) (op : BinaryOp) (a b : Value) :
    Plain (op.apply limit a b) := by
  cases op with
  | add =>
      cases a with
      | text s => exact .bind fun t => plain_concat limit s t
      | _ => exact plain_arithmetic _ _ _
  | sub | mul => exact plain_arithmetic _ _ _
  | div | rem => exact plain_quotient _ _ _
  | equal | notEqual => exact plain_ok nofun
  | less | lessEqual | greater | greaterEqual =>
      unfold apply
      exact plain_comparison _ _ _
  | and | or => exact plain_connective _ _ _

theorem UnaryOp.plain_apply (op : UnaryOp) (a : Value) : Plain (op.apply a) := by
  cases op with
  | not => exact .bind fun _ => plain_ok nofun
  | neg => exact .bind fun _ => plain_inRange _
  | len => exact .bind fun _ => plain_inRange _

theorem Operation.tag_answer {op : Operation} {k : Kitchen} {effect : Effect}
    (h : op.carryOut k = .ok effect) : effect.answer.tag ≠ .list := by
  cases op with
  | goto _ | get _ | place _ _ _ | activate _ | deliver =>
      obtain ⟨a, -, ha⟩ := exists_of_bind_eq_ok h
      cases ha
      nofun
  | take _ =>
      obtain ⟨⟨output, k'⟩, -, houtput⟩ := exists_of_bind_eq_ok h
      cases output with
      | none | some _ =>
          cases houtput
          nofun

theorem plain_perform (request : Request) (m : Machine) : Plain (Exec.perform request m).1 := by
  cases request with
  | print v => exact plain_ok nofun
  | operation op =>
      simp only [Exec.perform]
      cases heffect : op.carryOut m.kitchen with
      | error e => exact plain_error _
      | ok effect => exact plain_ok (Operation.tag_answer heffect)

theorem mem_parts_of_itemAt {target position v : Value} (h : itemAt target position = .ok v) :
    v ∈ target.parts := by
  obtain ⟨index, -, hindex⟩ := exists_of_bind_eq_ok h
  obtain ⟨⟨t, items⟩, hlist, hv⟩ := exists_of_bind_eq_ok hindex
  cases target with
  | list t' items' =>
      cases hlist
      dsimp only at hv
      split at hv
      · rename_i item hitem
        cases hv
        obtain ⟨i, -, hi⟩ := Option.bind_eq_some_iff.mp hitem
        exact Value.mem_parts_list.mpr (.inr ⟨v, List.mem_of_getElem? hi, v.mem_parts_self⟩)
      · cases hv
  | _ => cases hlist

/-! ## The moves -/

namespace Config

/-- What a step can put into its result: a part of a value that is held, the list of a list
expression, or a value that is no list. -/
def Offers (c : Config) (v : Value) : Prop :=
  c.Contains v ∨ c.Makes v ∨ v.tag ≠ .list

theorem Holds.offers {c : Config} {v : Value} (h : c.Holds v) : c.Offers v :=
  .inl h.contains

end Config

def Focus.OfferedBy (c : Config) (focus : Focus) : Prop :=
  ∀ v ∈ focus.values, c.Offers v

def Frame.OfferedBy (c : Config) (frame : Frame) : Prop :=
  ∀ v ∈ frame.values, c.Offers v

/-- The move puts only values into its result that the configuration offers, and it binds
variables as a step of the configuration may. -/
def Move.OfferedBy (c : Config) : Move → Prop
  | go focus stack => focus.OfferedBy c ∧ ∀ frame ∈ stack, frame.OfferedBy c
  | set env focus stack =>
    c.Rebinds env ∧ focus.OfferedBy c ∧ ∀ frame ∈ stack, frame.OfferedBy c
  | spend focus stack => focus.OfferedBy c ∧ ∀ frame ∈ stack, frame.OfferedBy c
  | operate _ _ _ stack => ∀ frame ∈ stack, frame.OfferedBy c
  | act _ stack => ∀ frame ∈ stack, frame.OfferedBy c
  | enter f values stack =>
    c.focus = .items (.call f) values [] ∧ ∀ frame ∈ stack, frame.OfferedBy c
  | leave focus stack =>
    c.stack = .call :: stack ∧ focus.OfferedBy c ∧ ∀ frame ∈ stack, frame.OfferedBy c

variable {limits : Limits} {c : Config} {stack : List Frame}

theorem Focus.offeredBy_nil {focus : Focus} (h : focus.values = []) : focus.OfferedBy c := by
  intro v hv
  rw [h] at hv
  cases hv

theorem Frame.offeredBy_cons {frame : Frame} (h : frame.values = [])
    (hstack : ∀ f ∈ stack, f.OfferedBy c) : ∀ f ∈ frame :: stack, f.OfferedBy c := by
  refine List.forall_mem_cons.mpr ⟨fun v hv => ?_, hstack⟩
  rw [h] at hv
  cases hv

theorem Focus.offeredBy_of {α : Type} {inject : α → Focus} {result : Except Fault α}
    (h : ∀ a, result = .ok a → (inject a).OfferedBy c) : (Focus.of inject result).OfferedBy c := by
  cases result with
  | ok a => exact h a rfl
  | error e => exact offeredBy_nil rfl

theorem Focus.offeredBy_value {v : Value} (h : c.Offers v) : (Focus.value v).OfferedBy c := by
  intro v' hv'
  rwa [List.mem_singleton.mp hv']

theorem Focus.offeredBy_of_plain {result : Except Fault Value} (h : Plain result) :
    (Focus.of .value result).OfferedBy c :=
  offeredBy_of fun v hv => offeredBy_value (.inr (.inr (h v hv)))

/-- What a configuration is after a move that it offers. -/
structure Config.Succeeds (c c' : Config) : Prop where
  focus : c'.focus.OfferedBy c
  stack : ∀ frame ∈ c'.stack, frame.OfferedBy c
  env : c.Rebinds c'.machine.env

namespace Move

theorem OfferedBy.make {move : Move} (h : move.OfferedBy c) :
    c.Succeeds (move.make limits c.machine) := by
  have hkeep : c.Rebinds c.machine.env := .keep rfl rfl
  cases move with
  | go focus stack => exact ⟨h.1, h.2, hkeep⟩
  | set env focus stack => exact ⟨h.2.1, h.2.2, h.1⟩
  | spend focus stack =>
      refine ⟨Focus.offeredBy_of fun _ _ => h.1, h.2, ?_⟩
      rw [Move.make, settle, Exec.machine_tick]
      exact hkeep
  | operate op left right stack =>
      exact ⟨Focus.offeredBy_of_plain (op.plain_apply _ left right), h, hkeep⟩
  | act request stack =>
      refine ⟨Focus.offeredBy_of_plain (plain_perform request c.machine), h, ?_⟩
      rw [Move.make, settle, (Exec.perform_frame request c.machine).1]
      exact hkeep
  | enter f values stack =>
      rw [Move.make]
      split
      · exact ⟨Focus.offeredBy_nil rfl, Frame.offeredBy_cons rfl h.2, .enter h.1 rfl⟩
      · exact ⟨Focus.offeredBy_nil rfl, h.2, hkeep⟩
  | leave focus stack => exact ⟨h.2.1, h.2.2, .leave h.1 rfl⟩

variable (hstack : ∀ frame ∈ stack, frame.OfferedBy c)

include hstack

theorem offeredBy_ofExpr (e : Expr) : (ofExpr c.machine.env stack e).OfferedBy c := by
  have hplain : ∀ v : Value, v.tag ≠ .list → (Focus.value v).OfferedBy c :=
    fun v hv => Focus.offeredBy_value (.inr (.inr hv))
  cases e with
  | number _ _ | text _ _ | bool _ _ | none _ => exact ⟨hplain _ nofun, hstack⟩
  | list _ items => exact ⟨Focus.offeredBy_nil rfl, hstack⟩
  | name _ x =>
      refine ⟨Focus.offeredBy_of fun v hv => Focus.offeredBy_value ?_, hstack⟩
      exact Config.Holds.offers (.inr (.inr (Environment.holds_of_get hv)))
  | call _ callee args =>
      refine ⟨Focus.offeredBy_of fun f _ => ?_, hstack⟩
      split <;> exact Focus.offeredBy_nil rfl
  | builtin _ callee args =>
      rw [ofExpr]
      split <;> exact ⟨Focus.offeredBy_nil rfl, hstack⟩
  | index _ _ _ | binary _ _ _ _ | unary _ _ _ =>
      exact ⟨Focus.offeredBy_nil rfl, Frame.offeredBy_cons rfl hstack⟩
  | paren _ inner => exact ⟨Focus.offeredBy_nil rfl, hstack⟩

theorem offeredBy_ofUse {use : Use} {values : List Value}
    (hfocus : c.focus = .items use values []) : (ofUse stack values use).OfferedBy c := by
  cases use with
  | list =>
      refine ⟨Focus.offeredBy_of fun v hv => Focus.offeredBy_value ?_, hstack⟩
      exact .inr (.inl ⟨values, hfocus, hv⟩)
  | call f => exact ⟨hfocus, hstack⟩
  | builtin b =>
      rw [ofUse]
      split
      · exact hstack
      · exact ⟨Focus.offeredBy_nil rfl, hstack⟩

theorem offeredBy_change {result : Except Fault Environment}
    (h : ∀ env, result = .ok env → c.Rebinds env) : (change result stack).OfferedBy c := by
  cases result with
  | ok env => exact ⟨h env rfl, Focus.offeredBy_nil rfl, hstack⟩
  | error e => exact ⟨Focus.offeredBy_nil rfl, hstack⟩

theorem offeredBy_ofStmt (s : Stmt) : (ofStmt c.machine.env stack s).OfferedBy c := by
  cases s with
  | var _ _ _ | assign _ _ _ | expr _ _ =>
      exact ⟨Focus.offeredBy_nil rfl, Frame.offeredBy_cons rfl hstack⟩
  | func _ name params body =>
      refine offeredBy_change hstack fun env henv => ?_
      -- a function enters the table and no variable
      unfold Environment.define at henv
      split at henv
      · cases henv
      · cases henv
        exact .keep rfl rfl
  | choose _ _ | loop _ _ _ => exact ⟨Focus.offeredBy_nil rfl, hstack⟩
  | giveBack _ value =>
      cases value with
      | none =>
          refine ⟨fun v hv => ?_, hstack⟩
          cases List.mem_singleton.mp hv
          exact .inr (.inr nofun)
      | some value => exact ⟨Focus.offeredBy_nil rfl, Frame.offeredBy_cons rfl hstack⟩

theorem offeredBy_ofBranches (rest : Branches) : (ofBranches stack rest).OfferedBy c := by
  cases rest with
  | done | otherwise _ => exact ⟨Focus.offeredBy_nil rfl, hstack⟩
  | branch condition body rest => exact ⟨Focus.offeredBy_nil rfl, Frame.offeredBy_cons rfl hstack⟩

theorem offeredBy_ofValue {frame : Frame} {move : Move} {v : Value} (hfocus : c.focus = .value v)
    (hhead : c.stack = frame :: stack) (hmove : ofValue c.machine.env v stack frame = some move) :
    move.OfferedBy c := by
  have hv : c.Offers v := Config.Holds.offers (.inl (by simp [hfocus, Focus.values]))
  have hframe : frame.OfferedBy c := fun w hw =>
    Config.Holds.offers (.inr (.inl ⟨frame, by simp [hhead], hw⟩))
  have hpush : ∀ frame : Frame, frame.OfferedBy c → ∀ f ∈ frame :: stack, f.OfferedBy c :=
    fun frame hframe => List.forall_mem_cons.mpr ⟨hframe, hstack⟩
  cases frame with
  | items use done rest =>
      cases hmove
      refine ⟨fun w hw => ?_, hstack⟩
      rcases List.mem_append.mp hw with hdone | hlast
      · exact hframe w hdone
      · rwa [List.mem_singleton.mp hlast]
  | position e =>
      cases hmove
      exact ⟨Focus.offeredBy_nil rfl, hpush _ (Focus.offeredBy_value hv)⟩
  | itemOf target =>
      cases hmove
      have htarget : c.Holds target :=
        .inr (.inl ⟨.itemOf target, by simp [hhead], List.mem_singleton_self target⟩)
      refine ⟨Focus.offeredBy_of fun w hw => Focus.offeredBy_value ?_, hstack⟩
      exact .inl ⟨target, htarget, mem_parts_of_itemAt hw⟩
  | right op e =>
      cases hmove
      exact ⟨Focus.offeredBy_nil rfl, hpush _ (Focus.offeredBy_value hv)⟩
  | operate op left =>
      cases hmove
      exact hstack
  | sign op =>
      cases hmove
      exact ⟨Focus.offeredBy_of_plain (op.plain_apply v), hstack⟩
  | declare x =>
      cases hmove
      refine offeredBy_change hstack fun env henv => ?_
      unfold Environment.declare at henv
      split at henv
      · cases henv
      · cases henv
        exact .bind hfocus hhead (.inl rfl) rfl rfl
  | assign x =>
      cases hmove
      refine offeredBy_change hstack fun env henv => ?_
      unfold Environment.assign at henv
      split at henv
      · cases henv
        exact .bind hfocus hhead (.inr rfl) rfl rfl
      · cases henv
  | giveBack =>
      cases hmove
      exact ⟨Focus.offeredBy_value hv, hstack⟩
  | discard =>
      cases hmove
      exact ⟨Focus.offeredBy_nil rfl, hstack⟩
  | branch body rest =>
      cases hmove
      refine ⟨Focus.offeredBy_of fun holds _ => ?_, hstack⟩
      cases holds <;> exact Focus.offeredBy_nil rfl
  | test condition body =>
      rw [ofValue] at hmove
      split at hmove
      · cases hmove
        exact ⟨Focus.offeredBy_nil rfl, Frame.offeredBy_cons rfl hstack⟩
      · cases hmove
        exact ⟨Focus.offeredBy_nil rfl, hstack⟩
      · cases hmove
        exact ⟨Focus.offeredBy_nil rfl, hstack⟩
  | round _ _ | rest _ | call => cases hmove

theorem offeredBy_ofFlow {frame : Frame} {move : Move} {f : Flow} (hfocus : c.focus = .flow f)
    (hhead : c.stack = frame :: stack) (hmove : ofFlow f stack frame = some move) :
    move.OfferedBy c := by
  have hflow : (Focus.flow f).OfferedBy c := fun v hv =>
    Config.Holds.offers (.inl (by rwa [hfocus]))
  cases frame with
  | rest _ | round _ _ =>
      cases f with
      | next =>
          cases hmove
          exact ⟨Focus.offeredBy_nil rfl, hstack⟩
      | returned v =>
          cases hmove
          exact ⟨hflow, hstack⟩
  | call =>
      cases hmove
      cases f with
      | next => exact ⟨hhead, Focus.offeredBy_value (.inr (.inr nofun)), hstack⟩
      | returned v => exact ⟨hhead, hflow, hstack⟩
  | _ => cases hmove

theorem offeredBy_ofFault {frame : Frame} {e : Fault} (hhead : c.stack = frame :: stack) :
    (ofFault e stack frame).OfferedBy c := by
  cases frame with
  | call => exact ⟨hhead, Focus.offeredBy_nil rfl, hstack⟩
  | _ => exact ⟨Focus.offeredBy_nil rfl, hstack⟩

end Move

namespace Config

theorem offeredBy_of_move {move : Move} (hmove : c.move? = some move) : move.OfferedBy c := by
  have hstack : ∀ frame ∈ c.stack, frame.OfferedBy c := fun frame hframe v hv =>
    Holds.offers (.inr (.inl ⟨frame, hframe, hv⟩))
  have htail : ∀ {frame : Frame} {stack : List Frame}, c.stack = frame :: stack →
      ∀ f ∈ stack, f.OfferedBy c := by
    intro frame stack hhead f hf
    exact hstack f (by simp [hhead, hf])
  cases hfocus : c.focus with
  | expr e =>
      simp only [move?, hfocus] at hmove
      cases hmove
      exact Move.offeredBy_ofExpr hstack e
  | items use done rest =>
      cases rest with
      | nil =>
          simp only [move?, hfocus] at hmove
          cases hmove
          exact Move.offeredBy_ofUse hstack hfocus
      | cons e rest =>
          simp only [move?, hfocus] at hmove
          cases hmove
          refine ⟨Focus.offeredBy_nil rfl, List.forall_mem_cons.mpr ⟨fun v hv => ?_, hstack⟩⟩
          exact Holds.offers (.inl (by rwa [hfocus]))
  | stmts rest =>
      cases rest with
      | nil =>
          simp only [move?, hfocus] at hmove
          cases hmove
          exact ⟨Focus.offeredBy_nil rfl, hstack⟩
      | cons s rest =>
          simp only [move?, hfocus] at hmove
          cases hmove
          exact ⟨Focus.offeredBy_nil rfl, Frame.offeredBy_cons rfl hstack⟩
  | begun s =>
      simp only [move?, hfocus] at hmove
      cases hmove
      exact Move.offeredBy_ofStmt hstack s
  | branches rest =>
      simp only [move?, hfocus] at hmove
      cases hmove
      exact Move.offeredBy_ofBranches hstack rest
  | loop condition body =>
      simp only [move?, hfocus] at hmove
      cases hmove
      exact ⟨Focus.offeredBy_nil rfl, Frame.offeredBy_cons rfl hstack⟩
  | value v =>
      cases hhead : c.stack with
      | nil => simp [move?, hfocus, hhead] at hmove
      | cons frame stack =>
          simp only [move?, hfocus, hhead] at hmove
          exact Move.offeredBy_ofValue (htail hhead) hfocus hhead hmove
  | flow f =>
      cases hhead : c.stack with
      | nil => simp [move?, hfocus, hhead] at hmove
      | cons frame stack =>
          simp only [move?, hfocus, hhead] at hmove
          exact Move.offeredBy_ofFlow (htail hhead) hfocus hhead hmove
  | fault e =>
      cases hhead : c.stack with
      | nil => simp [move?, hfocus, hhead] at hmove
      | cons frame stack =>
          simp only [move?, hfocus, hhead] at hmove
          cases hmove
          exact Move.offeredBy_ofFault (htail hhead) hhead

/-- What one step can do to the values of a run. -/
theorem succeeds_of_step {c' : Config} (h : c.step limits = some c') : c.Succeeds c' := by
  obtain ⟨move, hmove, rfl⟩ := Option.map_eq_some_iff.mp h
  exact (offeredBy_of_move hmove).make

theorem Succeeds.offers {c' : Config} (h : c.Succeeds c') {v : Value} (hv : c'.Holds v) :
    c.Offers v := by
  rcases hv with hfocus | ⟨frame, hframe, hwaits⟩ | hbound
  · exact h.focus v hfocus
  · exact h.stack frame hframe v hwaits
  · exact (h.env.holds hbound).offers

/-- A list that occurs after a step occurred before it, unless the step has just made it. -/
theorem Succeeds.list {c' : Config} (h : c.Succeeds c') {l : Value} (hl : c'.Contains l)
    (htag : l.tag = .list) : c.Contains l ∨ c.Makes l := by
  obtain ⟨whole, hwhole, hpart⟩ := hl
  rcases h.offers hwhole with hheld | hmakes | hplain
  · exact .inl (hheld.part hpart)
  · obtain ⟨items, hfocus, hitems⟩ := id hmakes
    obtain ⟨t, rfl, -, -⟩ := Value.ofItems_eq_ok hitems
    rcases Value.mem_parts_list.mp hpart with rfl | ⟨v, hv, hinner⟩
    · exact .inr hmakes
    · exact .inl ⟨v, .inl (by rwa [hfocus]), hinner⟩
  · rw [Value.eq_of_mem_parts hplain hpart] at htag
    exact absurd htag hplain

theorem Makes.regular {v : Value} (h : c.Makes v) (k : Kitchen) : v.Regular k := by
  obtain ⟨items, -, hitems⟩ := h
  obtain ⟨t, rfl, htags, hempty⟩ := Value.ofItems_eq_ok hitems
  exact ⟨htags, fun hnil => .inl (hempty hnil)⟩

theorem regular_initial {k : Kitchen} {p : Program} {v : Value} (h : (initial k p).Contains v) :
    v.Regular k := by
  obtain ⟨whole, hfocus | ⟨_, hframe, _⟩ | ⟨vars, hvars, x, hx⟩, hpart⟩ := h
  · cases hfocus
  · cases hframe
  · cases List.mem_singleton.mp hvars
    cases List.mem_singleton.mp hx
    rcases Value.mem_parts_list.mp hpart with rfl | ⟨item, hitem, hinner⟩
    · refine ⟨fun item hitem => ?_, fun hnil => .inr ⟨rfl, by simpa using hnil⟩⟩
      obtain ⟨s, -, rfl⟩ := List.mem_map.mp hitem
      rfl
    · obtain ⟨s, -, rfl⟩ := List.mem_map.mp hitem
      rw [List.mem_singleton.mp hinner]
      trivial

/-- Wherever a run comes to, all lists are regular. -/
theorem Leads.uniform {k : Kitchen} {p : Program} (h : Leads limits (initial k p) c) {v : Value}
    (hv : c.Holds v) : v.Uniform k := by
  suffices hparts : ∀ part, c.Contains part → part.Regular k from
    fun part hpart => hparts part ⟨v, hv, hpart⟩
  clear hv
  induction h with
  | refl => exact fun part hpart => regular_initial hpart
  | tail _ hlast ih =>
      intro part hpart
      by_cases htag : part.tag = .list
      · rcases (succeeds_of_step hlast).list hpart htag with hold | hnew
        · exact ih part hold
        · exact hnew.regular k
      · exact Value.regular_of_tag_ne htag

/-- Where a run comes to an expression, the steps from there do what evaluation does. -/
theorem Leads.evaluate {k : Kitchen} {p : Program} {e : Expr} {stack : List Frame} {m : Machine}
    (h : Leads limits (initial k p) ⟨.expr e, stack, m⟩) :
    Leads limits (initial k p) (settle .value (evaluate limits e m) stack) := by
  have hsound := h.sound (sound_initial limits k p)
  have hshallow : pending stack ≤ limits.maxCallDepth := hsound.shallow
  have hdepth : m.env.depth = pending stack := hsound.balanced
  have hcalls : pending stack + m.callsLeft limits = limits.maxCallDepth := by
    rw [Machine.callsLeft, hdepth]
    omega
  exact h.trans (simulates_eval (simulates_callWithin _) e stack m hsound hcalls (Nat.zero_le _))

end Config

open Config

/-- Lists are homogeneous wherever a run comes to, and no list is ever changed.

The points of a run are those that its steps lead to, up to the one where it ends.  At each of them
the lists that are looked at, that wait on the stack, that are bound in the variables or in a saved
frame and that an evaluation from there answers have items of their own tag only, and an empty list
has the tag `none` or is the list of the orders where there are none.  A step binds variables to
whole values, and a list that occurs after it occurred before it or is made by a list expression. -/
theorem Program.run_keeps_lists (limits : Limits) (k : Kitchen) (p : Program) :
    EndsIn limits (initial k p) (settle .flow (execute limits p.stmts (.forKitchen k)) []) ∧
      ∀ c, Leads limits (initial k p) c →
        (∀ v, c.Holds v → v.Uniform k) ∧
        (∀ e, c.focus = .expr e → ∀ v m, evaluate limits e c.machine = (.ok v, m) →
          v.Uniform k ∧ ∀ w, m.env.Holds w → w.Uniform k) ∧
        ∀ c', c.step limits = some c' →
          c.Rebinds c'.machine.env ∧
            ∀ l, c'.Contains l → l.tag = .list → c.Contains l ∨ c.Makes l := by
  refine ⟨⟨leads_execute limits k p, ?_⟩, fun c hc => ⟨fun v hv => hc.uniform hv, ?_, ?_⟩⟩
  · cases execute limits p.stmts (.forKitchen k) with
    | mk result m => cases result <;> rfl
  · obtain ⟨focus, stack, m⟩ := c
    rintro e rfl v m' heval
    have hanswer := hc.evaluate
    rw [heval] at hanswer
    exact ⟨hanswer.uniform (.inl (List.mem_singleton_self v)),
      fun w hw => hanswer.uniform (.inr (.inr hw))⟩
  · intro c' hstep
    have hnext := succeeds_of_step hstep
    exact ⟨hnext.env, fun l hl htag => hnext.list hl htag⟩

theorem Program.run_keeps_lists_no_orders :
    let k : Kitchen := ⟨.pantry, none, .empty, [], [], []⟩
    let p : Program := ⟨.point .start, [.expr (.point .start) (.name (.point .start) "orders")]⟩
    ∃ c, Leads .standard (initial k p) c ∧ c.focus = .value (.list .text []) ∧
      Value.Uniform k (.list .text []) := by
  intro k p
  have hvalue : Leads .standard (initial k p) ⟨.value (.list .text []), [.discard, .rest []],
      { Machine.forKitchen k with steps := 1 }⟩ :=
    Leads.head rfl (Leads.head rfl (Leads.head rfl Leads.refl))
  refine ⟨_, hvalue, rfl, ?_⟩
  exact ((run_keeps_lists .standard k p).2 _ hvalue).1 _ (.inl (List.mem_singleton_self _))

end KitchenScript
