import KitchenScript.Proofs.Program.Accepted
import KitchenScript.Proofs.Signs.Absorbing

/-!
# Signs do not change runs

A number of the program text is not negative, and signs only ever turn it into its opposite and
back.  So no number of a program is the least one, which has no opposite, and evaluating a sign that
stayed a node of its own gives what absorbing it gave.  A program therefore runs as it would if all
its signs had been kept.
-/

namespace KitchenScript

namespace Number

/-- The least number, the only one without an opposite. -/
def least : Int := -9223372036854775808

theorem neg?_of_ne_least {n : Number} (h : n.val ≠ least) : n.neg? = some n.opposite := by
  have hlower := n.lower
  have hupper := n.upper
  unfold least at h
  have hsome : ∃ m, n.neg? = some m := by
    unfold neg? ofInt?
    rw [dif_pos (by omega)]
    exact ⟨_, rfl⟩
  rcases hsome with ⟨m, hm⟩
  rw [opposite, hm]
  rfl

theorem val_opposite {n : Number} (h : n.val ≠ least) : n.opposite.val = -n.val :=
  val_of_ofInt? (neg?_of_ne_least h)

theorem opposite_of_least {n : Number} (h : n.val = least) : n.opposite = n := by
  have hnone : n.neg? = none := by
    unfold neg? ofInt? least at *
    rw [dif_neg (by omega)]
  rw [opposite, hnone]
  rfl

/-- Only the least number has the least one as its opposite. -/
theorem opposite_ne_least_iff {n : Number} : n.opposite.val ≠ least ↔ n.val ≠ least := by
  by_cases h : n.val = least
  · rw [opposite_of_least h]
  · rw [val_opposite h]
    have hupper := n.upper
    unfold least at h ⊢
    omega

end Number

namespace Expr

mutual

theorem nodes_subset {n : Expr} (e : Expr) (h : n ∈ e.nodes) : n.nodes ⊆ e.nodes := by
  match e with
  | .number _ _ | .text _ _ | .bool _ _ | .none _ | .name _ _ =>
      rw [List.mem_singleton.mp h]
      exact List.Subset.refl _
  | .list _ items | .call _ _ items | .builtin _ _ items =>
      rcases List.mem_cons.mp h with rfl | h
      · exact List.Subset.refl _
      · exact List.subset_cons_of_subset _ (nodesAll_subset items h)
  | .index _ a b | .binary _ _ a b =>
      rcases List.mem_cons.mp h with rfl | h
      · exact List.Subset.refl _
      · apply List.subset_cons_of_subset
        rcases List.mem_append.mp h with h | h
        · exact List.subset_append_of_subset_left _ (nodes_subset a h)
        · exact List.subset_append_of_subset_right _ (nodes_subset b h)
  | .unary _ _ a | .paren _ a =>
      rcases List.mem_cons.mp h with rfl | h
      · exact List.Subset.refl _
      · exact List.subset_cons_of_subset _ (nodes_subset a h)

theorem nodesAll_subset {n : Expr} (items : List Expr) (h : n ∈ nodesAll items) :
    n.nodes ⊆ nodesAll items := by
  match items with
  | e :: rest =>
      rcases List.mem_append.mp h with h | h
      · exact List.subset_append_of_subset_left _ (nodes_subset e h)
      · exact List.subset_append_of_subset_right _ (nodesAll_subset rest h)

end

/-- Every number among the nodes has an opposite. -/
def Reversible (nodes : List Expr) : Prop :=
  ∀ s n, .number s n ∈ nodes → n.val ≠ Number.least

@[simp] theorem reversible_nil : Reversible [] :=
  fun _ _ h => absurd h List.not_mem_nil

@[simp] theorem reversible_cons (e : Expr) (nodes : List Expr) :
    Reversible (e :: nodes) ↔
      (∀ s n, e = .number s n → n.val ≠ Number.least) ∧ Reversible nodes := by
  simp only [Reversible, List.mem_cons, or_imp, forall_and]
  rw [show (∀ s n, .number s n = e → n.val ≠ Number.least) ↔
    ∀ s n, e = .number s n → n.val ≠ Number.least by simp only [eq_comm]]

@[simp] theorem reversible_append (a b : List Expr) :
    Reversible (a ++ b) ↔ Reversible a ∧ Reversible b := by
  simp only [Reversible, List.mem_append, or_imp, forall_and]

theorem reversible_number (s : Span) (n : Number) :
    Reversible (nodes (.number s n)) ↔ n.val ≠ Number.least := by
  simp [nodes]

mutual

theorem reversible_absorb (e : Expr) : Reversible e.absorb.nodes ↔ Reversible e.nodes := by
  match e with
  | .number _ _ | .text _ _ | .bool _ _ | .none _ | .name _ _ => exact Iff.rfl
  | .list _ items | .call _ _ items | .builtin _ _ items =>
      simp [absorb, nodes, reversible_absorbAll items]
  | .index _ a b | .binary _ _ a b =>
      simp [absorb, nodes, reversible_absorb a, reversible_absorb b]
  | .unary s op a =>
      have ha := reversible_absorb a
      rw [absorb]
      rcases withSign_cases s op a.absorb with h | ⟨t, n, -, hn, h⟩
      · simp [h, nodes, ha]
      · -- the operand is no node of the absorbed tree any more; its opposite stands for it
        rw [hn, reversible_number] at ha
        rw [h, reversible_number, Number.opposite_ne_least_iff]
        simp [nodes, ha]
  | .paren _ a => simp [absorb, nodes, reversible_absorb a]

theorem reversible_absorbAll (items : List Expr) :
    Reversible (nodesAll (absorbAll items)) ↔ Reversible (nodesAll items) := by
  match items with
  | [] => exact Iff.rfl
  | e :: rest => simp [absorbAll, nodesAll, reversible_absorb e, reversible_absorbAll rest]

end

/-! ## Evaluating signs -/

theorem apply_neg_number {n : Number} (h : n.val ≠ Number.least) :
    UnaryOp.apply .neg (.number n) = .ok (.number n.opposite) := by
  have hneg := Number.neg?_of_ne_least h
  change inRange n.neg? = _
  rw [hneg]
  rfl

mutual

/-- Absorbing signs keeps the value of an expression. -/
theorem eval_absorb (limits : Limits) (call : Caller) (e : Expr)
    (h : Reversible e.nodes) : e.absorb.eval limits call = e.eval limits call := by
  match e with
  | .number _ _ | .text _ _ | .bool _ _ | .none _ | .name _ _ => rfl
  | .list _ items | .call _ _ items | .builtin _ _ items =>
      rw [nodes, reversible_cons] at h
      simp only [absorb, eval, length_absorbAll, evalAll_absorbAll limits call items h.2]
  | .index _ a b | .binary _ _ a b =>
      rw [nodes, reversible_cons, reversible_append] at h
      simp only [absorb, eval, eval_absorb limits call a h.2.1, eval_absorb limits call b h.2.2]
  | .unary s op a =>
      rw [nodes, reversible_cons] at h
      have ha := eval_absorb limits call a h.2
      rw [absorb, eval, ← ha]
      rcases withSign_cases s op a.absorb with hsign | ⟨t, n, rfl, hn, hsign⟩
      · rw [hsign, eval]
      · have hreversible := (reversible_absorb a).mpr h.2
        rw [hn, reversible_number] at hreversible
        rw [hsign, hn, eval, eval]
        exact (congrArg Exec.lift (apply_neg_number hreversible)).symm
  | .paren _ a =>
      rw [nodes, reversible_cons] at h
      simp only [absorb, eval, eval_absorb limits call a h.2]

theorem evalAll_absorbAll (limits : Limits) (call : Caller) (items : List Expr)
    (h : Reversible (nodesAll items)) :
    evalAll limits call (absorbAll items) = evalAll limits call items := by
  match items with
  | [] => rfl
  | e :: rest =>
      rw [nodesAll, reversible_append] at h
      simp only [absorbAll, evalAll, eval_absorb limits call e h.1,
        evalAll_absorbAll limits call rest h.2]

end

/-! ## Numbers of texts -/

mutual

/-- Up to spans, signs are absorbed as they are folded. -/
theorem bare_absorb (e : Expr) : e.absorb.bare = e.folded.bare := by
  match e with
  | .number _ _ | .text _ _ | .bool _ _ | .none _ | .name _ _ => rfl
  | .list _ items | .call _ _ items | .builtin _ _ items =>
      simp only [absorb, folded, bare, bareAll_absorbAll items]
  | .index _ a b | .binary _ _ a b =>
      simp only [absorb, folded, bare, bare_absorb a, bare_absorb b]
  | .unary s op a =>
      have hsigned : (signed op a.folded).bare = signed op a.folded.bare := by
        cases op <;> cases a.folded <;> rfl
      have hwith : (withSign s op a.absorb).bare = signed op a.absorb.bare := by
        cases op <;> cases a.absorb <;> rfl
      rw [absorb, folded, hsigned, hwith, bare_absorb a]
  | .paren _ a => simp only [absorb, folded, bare, bare_absorb a]

theorem bareAll_absorbAll (items : List Expr) :
    bareAll (absorbAll items) = bareAll (foldedAll items) := by
  match items with
  | [] => rfl
  | e :: rest => rw [absorbAll, foldedAll, bareAll, bareAll, bare_absorb e, bareAll_absorbAll rest]

end

theorem reversible_bare (e : Expr) : Reversible e.bare.nodes ↔ Reversible e.nodes := by
  rw [nodes_bare]
  induction e.nodes with
  | nil => exact Iff.rfl
  | cons e nodes ih =>
      have hnode : (∀ s n, e.bare = .number s n → n.val ≠ Number.least) ↔
          ∀ s n, e = .number s n → n.val ≠ Number.least := by
        cases e <;> simp [bare]
      rw [List.map_cons, reversible_cons, reversible_cons, hnode, ih]

theorem reversible_folded (e : Expr) : Reversible e.folded.nodes ↔ Reversible e.nodes := by
  rw [← reversible_bare, ← bare_absorb, reversible_bare, reversible_absorb]

end Expr

/-- A number is written without a sign. -/
theorem Lexer.Scan.nonneg {p : Position} {cs : List Char} {ts : List Token}
    (h : Lexer.Scan p cs ts) : ∀ t ∈ ts, ∀ n, t.kind = .number n → 0 ≤ n.val := by
  induction h with
  | done _ =>
      intro t ht n hn
      rw [List.mem_singleton.mp ht] at hn
      cases hn
  | lineEnd _ _ _ ih =>
      intro t ht n hn
      rcases List.mem_cons.mp ht with rfl | ht
      · cases hn
      · exact ih t ht n hn
  | lexeme _ hspells _ _ ih =>
      intro t ht n hn
      rcases List.mem_cons.mp ht with rfl | ht
      · cases hn
        cases hspells with
        | number _ _ hvalue => omega
      · exact ih t ht n hn

namespace Grammar

mutual

/-- The numbers of a tree are numbers of its word. -/
theorem DerivesExpr.number_mem {L : Level} {w : List TokenKind} {e : Expr} {s : Span} {n : Number}
    (h : DerivesExpr L w e) (hn : .number s n ∈ e.nodes) : .number n ∈ w := by
  match h with
  | .number m =>
      rw [Expr.nodes, List.mem_singleton] at hn
      cases hn
      exact List.mem_cons_self
  | .text _ | .truth | .falsity | .nothing | .name _ => simp [Expr.nodes] at hn
  | .call _ hinner | .builtin hinner _ | .list hinner =>
      have hmem := hinner.number_mem (by simpa [Expr.nodes] using hn)
      simp [hmem]
  | .paren _ _ he =>
      have hmem := he.number_mem (by simpa [Expr.nodes] using hn)
      simp [hmem]
  | .index _ _ ha hb | .chain _ ha _ hb | .join _ ha _ hb =>
      rw [Expr.nodes, List.mem_cons, List.mem_append] at hn
      rcases hn with hn | hn | hn
      · cases hn
      · simp [ha.number_mem hn]
      · simp [hb.number_mem hn]
  | .sign _ he =>
      have hmem := he.number_mem (by simpa [Expr.nodes] using hn)
      simp [hmem]
  | .ascend he => exact he.number_mem hn

theorem DerivesItems.number_mem {w : List TokenKind} {items : List Expr} {s : Span} {n : Number}
    (h : DerivesItems w items) (hn : .number s n ∈ Expr.nodesAll items) : .number n ∈ w := by
  match h with
  | .one _ _ he =>
      have hmem := he.number_mem (by simpa [Expr.nodesAll] using hn)
      simp [hmem]
  | .more _ _ he hrest =>
      rw [Expr.nodesAll, List.mem_append] at hn
      rcases hn with hn | hn
      · simp [he.number_mem hn]
      · simp [hrest.number_mem hn]

theorem DerivesList.number_mem {w : List TokenKind} {items : List Expr} {s : Span} {n : Number}
    (h : DerivesList w items) (hn : .number s n ∈ Expr.nodesAll items) : .number n ∈ w := by
  match h with
  | .empty _ => simp [Expr.nodesAll] at hn
  | .items hitems => exact hitems.number_mem hn

end

end Grammar

open Grammar

namespace Program

variable {source : Source} {p : Program}

/-- Every number of a program that was compiled has an opposite. -/
theorem reversible_of_compile (h : (compile source).program = some p) {e : Expr}
    (he : e ∈ p.exprs) : Expr.Reversible e.nodes := by
  rcases exists_hasTree h with ⟨tokens, last, tree, htokens, -, htree⟩
  rcases htree.standsWhole he with ⟨v, t, hv, hwhole, heq⟩
  -- the numbers of the tree are tokens, and these have no sign
  rw [← Expr.reversible_bare, heq, Expr.reversible_folded]
  intro s n hn
  rcases List.mem_map.mp (hv (hwhole.1.number_mem hn)) with ⟨token, htoken, hkind⟩
  have hmem : token ∈ tokenize source.text := by
    rw [htokens]
    exact List.mem_append_left _ htoken
  have hnonneg := (Lexer.scan_tokensFrom .start source.text.toList).nonneg token hmem n hkind
  unfold Number.least
  omega

end Program

/-- A sign that could be absorbed is evaluated to what absorbing it gives. -/
theorem Expr.eval_of_absorb_eq_number {s t : Span} {operand : Expr} {n : Number}
    (hreversible : Reversible (Expr.nodes (.unary s .neg operand)))
    (hn : operand.absorb = .number t n) :
    n.opposite.val = -n.val ∧ ∀ (limits : Limits) (call : Caller),
      (Expr.unary s .neg operand).eval limits call = Exec.pure (.number n.opposite) := by
  have hoperand : n.val ≠ Number.least := by
    rw [nodes, reversible_cons, ← reversible_absorb, hn, reversible_number] at hreversible
    exact hreversible.2
  have habsorb : (Expr.unary s .neg operand).absorb = .number s n.opposite := by
    rw [absorb, hn]
    rfl
  refine ⟨Number.val_opposite hoperand, ?_⟩
  intro limits call
  rw [← eval_absorb limits call _ hreversible, habsorb, eval]
  rfl

/-- Every sign may be kept.  A program that was compiled runs as the program that is read when each
sign has a node of its own.  No number in it is the least one; so the opposite of a number that a
minus is absorbed into is exact, and where that minus was kept it does not overflow. -/
theorem kept_signs_run_alike (source : Source) (p : Program)
    (h : (compile source).program = some p) :
    Program.ofTokensWith Parser.unaryExpr (tokenize source.text) = (some p, []) ∧
    ∃ q, Program.ofTokensWith Parser.plainSign (tokenize source.text) = (some q, []) ∧
      (∀ (limits : Limits) (kitchen : Kitchen), p.run limits kitchen = q.run limits kitchen) ∧
      (∀ s n, .number s n ∈ p.exprNodes → n.val ≠ -9223372036854775808) ∧
      ∀ s operand t n, .unary s .neg operand ∈ q.exprNodes → operand.absorb = .number t n →
        n.opposite.val = -n.val ∧
        ∀ (limits : Limits) (call : Caller),
          (Expr.unary s .neg operand).eval limits call = Exec.pure (.number n.opposite) := by
  have hread : Program.ofTokens (tokenize source.text) = (some p, []) := by
    have hsucceeded := (Compiled.succeeded_iff source).mpr ⟨p, h⟩
    rw [Compiled.succeeded_eq, List.isEmpty_iff] at hsucceeded
    exact Prod.ext h hsucceeded
  refine ⟨(Program.ofTokensWith_unaryExpr _).trans hread, ?_⟩
  rw [Program.ofTokens_absorb, Prod.mk.injEq, Option.map_eq_some_iff] at hread
  rcases hread with ⟨⟨q, hq, rfl⟩, hnone⟩
  have hexprs : ∀ e ∈ q.exprs, Expr.Reversible e.nodes := by
    intro e he
    rw [← Expr.reversible_absorb]
    apply Program.reversible_of_compile h
    rw [Program.exprs, Stmt.exprsAll_rewriteAll]
    exact List.mem_map_of_mem he
  refine ⟨q, Prod.ext hq hnone, ?_, ?_, ?_⟩
  · exact Program.run_rewrite rfl fun e he limits call =>
      Expr.eval_absorb limits call e (hexprs e he)
  · intro s n hn
    rcases List.mem_flatMap.mp hn with ⟨e, he, hmem⟩
    exact Program.reversible_of_compile h he s n hmem
  · intro s operand t n hmem hn
    rcases List.mem_flatMap.mp hmem with ⟨e, he, hnode⟩
    have hreversible : Expr.Reversible (Expr.nodes (.unary s .neg operand)) :=
      fun s n hn => hexprs e he s n (Expr.nodes_subset e hnode hn)
    exact Expr.eval_of_absorb_eq_number hreversible hn

/-- Two signs in front of the greatest number, absorbed and kept. -/
theorem kept_signs_run_alike_twice :
    let source : Source := ⟨"signs", "PRINT(- -9223372036854775807)"⟩
    let n : Number := ⟨9223372036854775807, by decide, by decide⟩
    let call : Span := ⟨⟨1, 1⟩, ⟨1, 29⟩⟩
    let printing (e : Expr) : Program := ⟨call, [.expr call (.builtin call .print [e])]⟩
    let p := printing (.number ⟨⟨1, 7⟩, ⟨1, 28⟩⟩ n)
    let q := printing (.unary ⟨⟨1, 7⟩, ⟨1, 28⟩⟩ .neg
      (.unary ⟨⟨1, 9⟩, ⟨1, 28⟩⟩ .neg (.number ⟨⟨1, 10⟩, ⟨1, 28⟩⟩ n)))
    (compile source).program = some p ∧
      Program.ofTokensWith Parser.plainSign (tokenize source.text) = (some q, []) ∧
      ∀ (limits : Limits) (kitchen : Kitchen), p.run limits kitchen = q.run limits kitchen := by
  intro source n call printing p q
  have htokens : tokenize source.text = [⟨.builtin .print, ⟨⟨1, 1⟩, ⟨1, 5⟩⟩⟩,
      ⟨.symbol .leftParen, .point ⟨1, 6⟩⟩, ⟨.symbol .minus, .point ⟨1, 7⟩⟩,
      ⟨.symbol .minus, .point ⟨1, 9⟩⟩, ⟨.number n, ⟨⟨1, 10⟩, ⟨1, 28⟩⟩⟩,
      ⟨.symbol .rightParen, .point ⟨1, 29⟩⟩, ⟨.fileEnd, .point ⟨1, 30⟩⟩] := by
    decide +kernel
  have hp : (compile source).program = some p := by
    rw [program_compile, htokens]
    rfl
  have hq : Program.ofTokensWith Parser.plainSign (tokenize source.text) = (some q, []) := by
    rw [htokens]
    rfl
  rcases kept_signs_run_alike source p hp with ⟨-, q', hq', hrun, -⟩
  rw [hq] at hq'
  cases hq'
  exact ⟨hp, hq, hrun⟩

end KitchenScript
