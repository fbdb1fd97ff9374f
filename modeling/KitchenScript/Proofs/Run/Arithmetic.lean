import KitchenScript.Run.Evaluation
import Mathlib.Algebra.Ring.Int.Defs

/-!
# Arithmetic

Arithmetic is exact or it is a fault.  An expression of numbers, variables that are bound to
numbers, parentheses, signs and the five operators has a value among all integers, unless something
in it is divided by zero.  Evaluation gives that value if it can be reached by numbers of the
language alone, and otherwise the fault of the first expression, operands before what is made of
them, that goes wrong.
-/

namespace KitchenScript

/-! ## Exact values -/

/-- The integers that the language has. -/
def Number.Fits (n : Int) : Prop :=
  -2 ^ 63 ≤ n ∧ n < 2 ^ 63

instance (n : Int) : Decidable (Number.Fits n) :=
  inferInstanceAs (Decidable (_ ∧ _))

namespace BinaryOp

/-- The operators that make numbers of numbers. -/
def IsArithmetic (op : BinaryOp) : Prop :=
  op ∈ [add, sub, mul, div, rem]

instance (op : BinaryOp) : Decidable op.IsArithmetic :=
  inferInstanceAs (Decidable (op ∈ _))

/-- Quotient and remainder are not defined where the divisor is zero. -/
def divides (op : BinaryOp) : Bool :=
  op == div || op == rem

/-- The operator on all integers.  Quotients are rounded towards zero, and a remainder has the sign
of the dividend. -/
def exactValue? (op : BinaryOp) (a b : Int) : Option Int :=
  match op with
  | add => some (a + b)
  | sub => some (a - b)
  | mul => some (a * b)
  | div => if b = 0 then none else some (a.tdiv b)
  | rem => if b = 0 then none else some (a.tmod b)
  | _ => none

end BinaryOp

namespace Expr

/-- Numbers, variables that are bound to numbers, and what signs, operators and parentheses make of
them. -/
inductive Arithmetic (vars : Bindings) : Expr → Prop where
  | number (s : Span) (n : Number) : Arithmetic vars (.number s n)
  | name (s : Span) {x : String} {n : Number} (hx : vars.lookup x = some (.number n)) :
      Arithmetic vars (.name s x)
  | paren (s : Span) {e : Expr} (he : Arithmetic vars e) : Arithmetic vars (.paren s e)
  | neg (s : Span) {e : Expr} (he : Arithmetic vars e) : Arithmetic vars (.unary s .neg e)
  | binary (s : Span) {op : BinaryOp} {left right : Expr} (hop : op.IsArithmetic)
      (hleft : Arithmetic vars left) (hright : Arithmetic vars right) :
      Arithmetic vars (.binary s op left right)

/-- The value among all integers.  There is none where something inside is divided by zero. -/
def exactValue? (vars : Bindings) : Expr → Option Int
  | .number _ n => some n.val
  | .name _ x =>
    match vars.lookup x with
    | some (.number n) => some n.val
    | _ => Option.none
  | .paren _ e => e.exactValue? vars
  | .unary _ .neg e => do
    let a ← e.exactValue? vars
    some (-a)
  | .binary _ op left right => do
    let a ← left.exactValue? vars
    let b ← right.exactValue? vars
    op.exactValue? a b
  | _ => Option.none

/-- The expression and those inside it, operands from left to right before what is made of them. -/
def postorder : Expr → List Expr
  | .paren s e => e.postorder ++ [.paren s e]
  | .unary s op e => e.postorder ++ [.unary s op e]
  | .binary s op left right => left.postorder ++ right.postorder ++ [.binary s op left right]
  | e => [e]

/-- The divisor is zero. -/
def dividesByZero (vars : Bindings) : Expr → Bool
  | .binary _ op _ right => op.divides && decide (right.exactValue? vars = some 0)
  | _ => false

/-- The remainder of the least number by minus one. -/
def isLeastRemainder (vars : Bindings) : Expr → Bool
  | .binary _ .rem left right =>
    decide (left.exactValue? vars = some (-2 ^ 63) ∧ right.exactValue? vars = some (-1))
  | _ => false

/-- The value is no number of the language. -/
def leavesRange (vars : Bindings) (e : Expr) : Bool :=
  (e.exactValue? vars).any fun n => !decide (Number.Fits n)

/-- What is wrong with an expression itself, its operands apart. -/
def failure? (vars : Bindings) (e : Expr) : Option Fault :=
  if e.dividesByZero vars then some .divisionByZero
  else if e.leavesRange vars || e.isLeastRemainder vars then some .overflow
  else Option.none

/-- The fault of the first expression that goes wrong. -/
def firstFailure? (vars : Bindings) (e : Expr) : Option Fault :=
  e.postorder.findSome? (failure? vars)

end Expr

/-! ## Numbers -/

namespace Number

theorem fits_val (n : Number) : Fits n.val := by
  have hlower := n.lower
  have hupper := n.upper
  unfold Fits
  omega

theorem ofInt?_of_fits {n : Int} (h : Fits n) : ∃ m : Number, ofInt? n = some m ∧ m.val = n := by
  unfold Fits at h
  have hrange : -9223372036854775808 ≤ n ∧ n < 9223372036854775808 := by omega
  exact ⟨⟨n, hrange.1, hrange.2⟩, dif_pos hrange, rfl⟩

theorem ofInt?_of_not_fits {n : Int} (h : ¬Fits n) : ofInt? n = none := by
  unfold Fits at h
  apply dif_neg
  omega

/-- A quotient of numbers is a number again, with one exception. -/
theorem fits_tdiv {a b : Number} (hb : b.val ≠ 0) :
    Fits (a.val.tdiv b.val) ↔ ¬(a.val = -2 ^ 63 ∧ b.val = -1) := by
  obtain ⟨ha, ha'⟩ := a.fits_val
  have habs : (a.val.tdiv b.val).natAbs = a.val.natAbs / b.val.natAbs := Int.natAbs_tdiv ..
  unfold Fits
  by_cases hone : b.val = -1
  · have hneg : a.val.tdiv b.val = -a.val := by rw [hone, Int.tdiv_neg, Int.tdiv_one]
    rw [hneg]
    omega
  · by_cases hpos : b.val = 1
    · rw [hpos, Int.tdiv_one]
      omega
    · -- a divisor of two or more at least halves the dividend
      have hhalf : a.val.natAbs / b.val.natAbs ≤ a.val.natAbs / 2 :=
        Nat.div_le_div_left (by omega) (by decide)
      omega

end Number

/-! ## One operator -/

namespace BinaryOp

/-- An operator on two numbers is exact, unless its exact value is no number or it has none. -/
theorem apply_numbers {op : BinaryOp} (hop : op.IsArithmetic) (limit : Nat) (a b : Number) :
    op.apply limit (.number a) (.number b) =
      match op.exactValue? a.val b.val with
      | none => .error .divisionByZero
      | some n =>
        if op = .rem ∧ a.val = -2 ^ 63 ∧ b.val = -1 then .error .overflow
        else inRange (Number.ofInt? n) := by
  unfold IsArithmetic at hop
  cases op with
  | add | sub | mul => rfl
  | div =>
      by_cases hb : b.val = 0
      · simp [apply, quotient, Value.asNumber, bind, Except.bind, exactValue?, hb]
      · simp [apply, quotient, Value.asNumber, bind, Except.bind, exactValue?, hb, Number.div?]
  | rem =>
      by_cases hb : b.val = 0
      · simp [apply, quotient, Value.asNumber, bind, Except.bind, exactValue?, hb]
      · have hfits := Number.fits_tdiv (a := a) hb
        simp only [apply, quotient, Value.asNumber, bind, Except.bind, exactValue?, hb, Number.rem?,
          Number.div?, if_false, true_and]
        by_cases hleast : a.val = -2 ^ 63 ∧ b.val = -1
        · rw [if_pos hleast, Number.ofInt?_of_not_fits (fun h => hfits.mp h hleast)]
          rfl
        · obtain ⟨q, hq, -⟩ := Number.ofInt?_of_fits (hfits.mpr hleast)
          rw [if_neg hleast, hq]
          rfl
  | equal | notEqual | less | lessEqual | greater | greaterEqual | and | or => simp at hop

theorem exactValue?_eq_none_iff {op : BinaryOp} (hop : op.IsArithmetic) {a b : Int} :
    op.exactValue? a b = none ↔ op.divides ∧ b = 0 := by
  unfold IsArithmetic at hop
  cases op with
  | add | sub | mul | div | rem => simp [exactValue?, divides]
  | equal | notEqual | less | lessEqual | greater | greaterEqual | and | or => simp at hop

end BinaryOp

namespace Expr

variable {vars : Bindings}

theorem failure?_of_exactValue? {e : Expr} {n : Int} (hexact : e.exactValue? vars = some n)
    (hzero : e.dividesByZero vars = false) (hleast : e.isLeastRemainder vars = false) :
    e.failure? vars = if Number.Fits n then Option.none else some .overflow := by
  have hrange : e.leavesRange vars = !decide (Number.Fits n) := by simp [leavesRange, hexact]
  by_cases hfits : Number.Fits n
  · simp [failure?, hzero, hleast, hrange, hfits]
  · simp [failure?, hzero, hrange, hfits]

theorem failure?_of_exactValue?_val {e : Expr} {n : Number}
    (hexact : e.exactValue? vars = some n.val) (hzero : e.dividesByZero vars = false)
    (hleast : e.isLeastRemainder vars = false) :
    e.failure? vars = Option.none := by
  rw [failure?_of_exactValue? hexact hzero hleast, if_pos n.fits_val]

theorem failure?_binary {s : Span} {op : BinaryOp} (hop : op.IsArithmetic) {left right : Expr}
    {a b : Int} (hleft : left.exactValue? vars = some a)
    (hright : right.exactValue? vars = some b) :
    (Expr.binary s op left right).failure? vars =
      match op.exactValue? a b with
      | Option.none => some .divisionByZero
      | some n =>
        if op = .rem ∧ a = -2 ^ 63 ∧ b = -1 then some .overflow
        else if Number.Fits n then Option.none
        else some .overflow := by
  have hzero : (Expr.binary s op left right).dividesByZero vars =
      (op.divides && decide (b = 0)) := by
    simp [dividesByZero, hright]
  have hleast : (Expr.binary s op left right).isLeastRemainder vars =
      decide (op = .rem ∧ a = -2 ^ 63 ∧ b = -1) := by
    cases op with
    | rem => simp [isLeastRemainder, hleft, hright]
    | _ => simp [isLeastRemainder]
  cases hvalue : op.exactValue? a b with
  | none =>
      obtain ⟨hdivides, hb⟩ := (BinaryOp.exactValue?_eq_none_iff hop).mp hvalue
      simp [failure?, hzero, hdivides, hb]
  | some n =>
      have hexact : (Expr.binary s op left right).exactValue? vars = some n := by
        simp [exactValue?, hleft, hright, hvalue]
      have hdefined : (op.divides && decide (b = 0)) = false := by
        rw [Bool.eq_false_iff]
        intro hundefined
        have hnone :=
          (BinaryOp.exactValue?_eq_none_iff hop (a := a)).mpr (by simpa using hundefined)
        rw [hvalue] at hnone
        cases hnone
      rw [hdefined] at hzero
      dsimp only
      by_cases hrem : op = .rem ∧ a = -2 ^ 63 ∧ b = -1
      · rw [if_pos hrem, failure?, hzero, hleast, decide_eq_true hrem, Bool.or_true]
        rfl
      · rw [decide_eq_false hrem] at hleast
        rw [if_neg hrem, failure?_of_exactValue? hexact hzero hleast]

/-! ## All expressions -/

/-- A result is the exact value, or the fault of the first expression that goes wrong. -/
inductive Exactly (vars : Bindings) (e : Expr) : Except Fault Value → Prop where
  | value {n : Number} (hfine : e.firstFailure? vars = Option.none)
      (hexact : e.exactValue? vars = some n.val) : Exactly vars e (.ok (.number n))
  | fault {f : Fault} (hfirst : e.firstFailure? vars = some f) : Exactly vars e (.error f)

theorem firstFailure?_paren (vars : Bindings) (s : Span) (e : Expr) :
    (Expr.paren s e).firstFailure? vars =
      (e.firstFailure? vars).or ((Expr.paren s e).failure? vars) := by
  simp [firstFailure?, postorder, List.findSome?_append]

theorem firstFailure?_unary (vars : Bindings) (s : Span) (op : UnaryOp) (e : Expr) :
    (Expr.unary s op e).firstFailure? vars =
      (e.firstFailure? vars).or ((Expr.unary s op e).failure? vars) := by
  simp [firstFailure?, postorder, List.findSome?_append]

theorem firstFailure?_binary (vars : Bindings) (s : Span) (op : BinaryOp) (left right : Expr) :
    (Expr.binary s op left right).firstFailure? vars =
      (left.firstFailure? vars).or ((right.firstFailure? vars).or
        ((Expr.binary s op left right).failure? vars)) := by
  simp [firstFailure?, postorder, List.findSome?_append]

theorem exactly_inRange {e : Expr} {n : Int} (hexact : e.exactValue? vars = some n)
    (hfirst : e.firstFailure? vars = if Number.Fits n then Option.none else some .overflow) :
    Exactly vars e (inRange (Number.ofInt? n)) := by
  by_cases hfits : Number.Fits n
  · obtain ⟨m, hm, rfl⟩ := Number.ofInt?_of_fits hfits
    rw [hm]
    exact .value (by rw [hfirst, if_pos hfits]) hexact
  · rw [Number.ofInt?_of_not_fits hfits]
    exact .fault (by rw [hfirst, if_neg hfits])

theorem exactly_apply {s : Span} {op : BinaryOp} (hop : op.IsArithmetic) {left right : Expr}
    {a b : Number} (limit : Nat) (hfineLeft : left.firstFailure? vars = Option.none)
    (hleft : left.exactValue? vars = some a.val)
    (hfineRight : right.firstFailure? vars = Option.none)
    (hright : right.exactValue? vars = some b.val) :
    Exactly vars (.binary s op left right) (op.apply limit (.number a) (.number b)) := by
  have hfirst := firstFailure?_binary vars s op left right
  rw [hfineLeft, hfineRight, failure?_binary hop hleft hright] at hfirst
  rw [BinaryOp.apply_numbers hop]
  cases hvalue : op.exactValue? a.val b.val with
  | none =>
      rw [hvalue] at hfirst
      exact .fault hfirst
  | some n =>
      rw [hvalue] at hfirst
      dsimp only at hfirst ⊢
      by_cases hrem : op = .rem ∧ a.val = -2 ^ 63 ∧ b.val = -1
      · rw [if_pos hrem] at hfirst ⊢
        exact .fault hfirst
      · rw [if_neg hrem] at hfirst ⊢
        exact exactly_inRange (by simp [exactValue?, hleft, hright, hvalue]) hfirst

theorem exactly_eval (limits : Limits) (call : Caller) (m : Machine) {e : Expr}
    (h : e.Arithmetic m.env.vars) :
    ∃ result, e.eval limits call m = (result, m) ∧ Exactly m.env.vars e result := by
  induction h with
  | number s n =>
      have hfine : (Expr.number s n).failure? m.env.vars = Option.none :=
        failure?_of_exactValue?_val rfl rfl rfl
      refine ⟨.ok (.number n), rfl, .value ?_ rfl⟩
      simp [firstFailure?, postorder, hfine]
  | @name s x n hx =>
      have hexact : (Expr.name s x).exactValue? m.env.vars = some n.val := by simp [exactValue?, hx]
      have hfine := failure?_of_exactValue?_val hexact rfl rfl
      refine ⟨.ok (.number n), ?_, .value ?_ hexact⟩
      · simp [eval, Exec.ask, Environment.get, hx]
      · simp [firstFailure?, postorder, hfine]
  | @paren s e he ih =>
      obtain ⟨result, heval, hresult⟩ := ih
      refine ⟨result, heval, ?_⟩
      cases hresult with
      | fault hfirst => exact .fault (by rw [firstFailure?_paren, hfirst]; rfl)
      | value hfine hexact =>
          have hown : (Expr.paren s e).failure? m.env.vars = Option.none :=
            failure?_of_exactValue?_val hexact rfl rfl
          exact .value (by rw [firstFailure?_paren, hfine, hown]; rfl) hexact
  | @neg s e he ih =>
      obtain ⟨result, heval, hresult⟩ := ih
      cases hresult with
      | @fault f hfirst =>
          refine ⟨.error f, ?_, .fault (by rw [firstFailure?_unary, hfirst]; rfl)⟩
          simp [eval, bind, Exec.bind, heval]
      | @value n hfine hexact =>
          have hneg : (Expr.unary s .neg e).exactValue? m.env.vars = some (-n.val) := by
            simp [exactValue?, hexact]
          refine ⟨inRange n.neg?, ?_, ?_⟩
          · simp [eval, bind, Exec.bind, heval, Exec.lift, UnaryOp.apply, Value.asNumber,
              Except.bind]
          · have hfirst := firstFailure?_unary m.env.vars s .neg e
            rw [hfine, failure?_of_exactValue? hneg rfl rfl] at hfirst
            exact exactly_inRange hneg hfirst
  | @binary s op left right hop hleft hright ihleft ihright =>
      obtain ⟨resultLeft, hevalLeft, hresultLeft⟩ := ihleft
      obtain ⟨resultRight, hevalRight, hresultRight⟩ := ihright
      cases hresultLeft with
      | @fault f hfirst =>
          refine ⟨.error f, ?_, .fault (by rw [firstFailure?_binary, hfirst]; rfl)⟩
          simp [eval, bind, Exec.bind, hevalLeft]
      | @value a hfineLeft hexactLeft =>
          cases hresultRight with
          | @fault f hfirst =>
              refine ⟨.error f, ?_, .fault (by rw [firstFailure?_binary, hfineLeft, hfirst]; rfl)⟩
              simp [eval, bind, Exec.bind, hevalLeft, hevalRight]
          | @value b hfineRight hexactRight =>
              refine ⟨op.apply limits.maxStringLen (.number a) (.number b), ?_, ?_⟩
              · simp [eval, bind, Exec.bind, hevalLeft, hevalRight, Exec.lift]
              · exact exactly_apply hop _ hfineLeft hexactLeft hfineRight hexactRight

/-- Evaluating arithmetic gives the fault of the first expression that goes wrong, operands before
what is made of them and from left to right, and if none does, the number that is the exact value.
The machine is left as it is. -/
theorem arithmetic_exact_or_fault (limits : Limits) (call : Caller) (m : Machine) {e : Expr}
    (h : e.Arithmetic m.env.vars) :
    (∀ f, e.postorder.findSome? (failure? m.env.vars) = some f →
      e.eval limits call m = (.error f, m)) ∧
    (e.postorder.findSome? (failure? m.env.vars) = Option.none →
      ∃ n : Number, e.exactValue? m.env.vars = some n.val ∧
        e.eval limits call m = (.ok (.number n), m)) := by
  obtain ⟨result, heval, hresult⟩ := exactly_eval limits call m h
  cases hresult with
  | @value n hfine hexact =>
      refine ⟨?_, fun _ => ⟨n, hexact, heval⟩⟩
      intro f hfirst
      cases hfine.symm.trans hfirst
  | @fault f hfirst =>
      refine ⟨?_, ?_⟩
      · intro f' hfirst'
        cases hfirst.symm.trans hfirst'
        exact heval
      · intro hfine
        cases hfine.symm.trans hfirst

/-- With `x` the greatest number, `x + 1 - 1` fails on the way to a value in range, before anything
is divided, and `-x - 1` is the least number. -/
theorem arithmetic_exact_or_fault_limits :
    let greatest : Number := ⟨9223372036854775807, by decide, by decide⟩
    let m : Machine := .start ⟨.pantry, Option.none, .empty, [], [], []⟩
      (.ofBindings [("x", .number greatest)])
    let call := callWithin .standard 0
    let s : Span := .point .start
    let x : Expr := .name s "x"
    let one : Expr := .number s ⟨1, by decide, by decide⟩
    let back : Expr := .binary s .sub (.binary s .add x one) one
    let undefined : Expr := .binary s .add back (.binary s .div one (.number s .zero))
    let least : Expr := .binary s .sub (.unary s .neg x) one
    undefined.Arithmetic m.env.vars ∧ back.exactValue? m.env.vars = some greatest.val ∧
      undefined.eval .standard call m = (.error .overflow, m) ∧
      least.Arithmetic m.env.vars ∧
      ∃ n : Number, n.val = -2 ^ 63 ∧ least.eval .standard call m = (.ok (.number n), m) := by
  intro greatest m call s x one back undefined least
  have hx : x.Arithmetic m.env.vars := .name s (by rfl)
  have hone : one.Arithmetic m.env.vars := .number s _
  have hback : back.Arithmetic m.env.vars :=
    .binary s (by decide) (.binary s (by decide) hx hone) hone
  have hundefined : undefined.Arithmetic m.env.vars :=
    .binary s (by decide) hback (.binary s (by decide) hone (.number s _))
  have hleast : least.Arithmetic m.env.vars := .binary s (by decide) (.neg s hx) hone
  refine ⟨hundefined, by decide, ?_, hleast, ?_⟩
  · exact (arithmetic_exact_or_fault .standard call m hundefined).1 .overflow (by decide)
  · obtain ⟨n, hexact, heval⟩ :=
      (arithmetic_exact_or_fault .standard call m hleast).2 (by decide)
    have hvalue : least.exactValue? m.env.vars = some (-2 ^ 63) := by decide
    exact ⟨n, Option.some.inj (hexact.symm.trans hvalue), heval⟩

end Expr

end KitchenScript
