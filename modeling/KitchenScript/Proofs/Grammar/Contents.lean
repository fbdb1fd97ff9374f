import KitchenScript.Proofs.Grammar.Words
import KitchenScript.Proofs.Program.Nodes

/-!
# What the trees of the grammar hold

The rules of the grammar say something of every node of a tree: how many arguments a kitchen call
has, which names may stand where, that parameters differ and that an `if` has a condition.
-/

namespace KitchenScript

/-- What the grammar says of a single node of an expression. -/
def Expr.Lawful : Expr → Prop
  | .name _ x => x ≠ "\""
  | .call _ callee _ => callee.name ≠ "\"" ∧ callee.name ∉ TokenKind.reservedWords
  | .builtin _ callee args => args.length = callee.arity
  | _ => True

/-- What the grammar says of a single statement. -/
def Stmt.Lawful : Stmt → Prop
  | .func _ _ params _ => (params.map Ident.name).Nodup
  | .choose _ branches => 0 < branches.count
  | _ => True

/-- An identifier is not a reserved word. -/
def TokenKind.Unreserved : TokenKind → Prop
  | .identifier x => x ∉ reservedWords
  | _ => True

namespace Expr

theorem lawful_of_mem_nodes_signed {op : UnaryOp} {operand : Expr}
    (h : ∀ n ∈ operand.nodes, n.Lawful) : ∀ n ∈ (signed op operand).nodes, n.Lawful := by
  rcases signed_cases op operand with heq | ⟨s, n, -, heq⟩
  · rw [heq]
    simpa [nodes, Lawful] using h
  · simp [heq, nodes, Lawful]

theorem lawful_bare {e : Expr} : e.bare.Lawful ↔ e.Lawful := by
  cases e <;> simp [bare, Lawful, Ident.bare]

end Expr

namespace Stmt

theorem map_name_map_bare (params : List Ident) :
    (params.map Ident.bare).map Ident.name = params.map Ident.name := by
  rw [List.map_map]
  rfl

theorem count_bareBranches (branches : Branches) :
    (bareBranches branches).count = branches.count := by
  cases branches with
  | done | otherwise _ => rfl
  | branch _ _ rest => simp [bareBranches, Branches.count, count_bareBranches rest]

theorem lawful_bare {s : Stmt} : s.bare.Lawful ↔ s.Lawful := by
  cases s with
  | func _ _ params _ => simp only [bare, Lawful, map_name_map_bare]
  | choose _ branches => simp only [bare, Lawful, count_bareBranches]
  | _ => exact Iff.rfl

end Stmt

namespace Grammar

mutual

/-- If no identifier of a word is reserved, every node of its tree is lawful. -/
theorem DerivesExpr.lawful {L : Level} {w : List TokenKind} {e : Expr} (h : DerivesExpr L w e)
    (hw : ∀ k ∈ w, k.Unreserved) : ∀ n ∈ e.folded.nodes, n.Lawful := by
  match h with
  | .number _ | .text _ | .truth | .falsity | .nothing =>
      simp [Expr.folded, Expr.nodes, Expr.Lawful]
  | .name hx => simpa [Expr.folded, Expr.nodes, Expr.Lawful] using hx
  | .call hx hargs =>
      simp only [List.forall_mem_cons, List.forall_mem_append] at hw
      have hcallee := hw.1
      have hinner := hargs.lawful hw.2.2.1
      simp only [Expr.folded, Expr.nodes, List.forall_mem_cons]
      exact ⟨⟨hx, hcallee⟩, hinner⟩
  | .builtin hargs harity =>
      simp only [List.forall_mem_cons, List.forall_mem_append] at hw
      have hinner := hargs.lawful hw.2.2.1
      simp only [Expr.folded, Expr.nodes, List.forall_mem_cons]
      exact ⟨(Expr.length_foldedAll _).trans harity, hinner⟩
  | .list hitems =>
      simp only [List.forall_mem_cons, List.forall_mem_append] at hw
      have hinner := hitems.lawful hw.2.1
      simp only [Expr.folded, Expr.nodes, List.forall_mem_cons]
      exact ⟨trivial, hinner⟩
  | .paren _ _ he =>
      simp only [List.forall_mem_cons, List.forall_mem_append] at hw
      have hinner := he.lawful hw.2.1.1.2
      simp only [Expr.folded, Expr.nodes, List.forall_mem_cons]
      exact ⟨trivial, hinner⟩
  | .index _ _ he hp =>
      simp only [List.forall_mem_cons, List.forall_mem_append] at hw
      have htarget := he.lawful hw.1
      have hposition := hp.lawful hw.2.2.1.1.2
      simp only [Expr.folded, Expr.nodes, List.forall_mem_cons, List.forall_mem_append]
      exact ⟨trivial, htarget, hposition⟩
  | .sign _ he =>
      simp only [List.forall_mem_cons] at hw
      exact Expr.lawful_of_mem_nodes_signed (he.lawful hw.2)
  | .chain _ ha _ hb | .join _ ha _ hb =>
      simp only [List.forall_mem_cons, List.forall_mem_append] at hw
      have hleft := ha.lawful hw.1
      have hright := hb.lawful hw.2.2
      simp only [Expr.folded, Expr.nodes, List.forall_mem_cons, List.forall_mem_append]
      exact ⟨trivial, hleft, hright⟩
  | .ascend he => exact he.lawful hw

theorem DerivesItems.lawful {w : List TokenKind} {items : List Expr} (h : DerivesItems w items)
    (hw : ∀ k ∈ w, k.Unreserved) : ∀ n ∈ Expr.nodesAll (Expr.foldedAll items), n.Lawful := by
  match h with
  | .one _ _ he =>
      simp only [List.forall_mem_append] at hw
      have hitem := he.lawful hw.1.2
      simpa [Expr.foldedAll, Expr.nodesAll] using hitem
  | .more _ _ he hrest =>
      simp only [List.forall_mem_cons, List.forall_mem_append] at hw
      have hitem := he.lawful hw.1.1.2
      have hothers := hrest.lawful hw.2.2
      simp only [Expr.foldedAll, Expr.nodesAll, List.forall_mem_append]
      exact ⟨hitem, hothers⟩

theorem DerivesList.lawful {w : List TokenKind} {items : List Expr} (h : DerivesList w items)
    (hw : ∀ k ∈ w, k.Unreserved) : ∀ n ∈ Expr.nodesAll (Expr.foldedAll items), n.Lawful := by
  match h with
  | .empty _ => simp [Expr.foldedAll, Expr.nodesAll]
  | .items hitems => exact hitems.lawful hw

end

/-! ## Statements -/

/-- An expression that stands in a word as a whole one. -/
def StandsWhole (w : List TokenKind) (e : Expr) : Prop :=
  ∃ v t, v ⊆ w ∧ DerivesWhole v t ∧ e = t.folded

theorem StandsWhole.mono {w w' : List TokenKind} {e : Expr} (h : StandsWhole w e) (hw : w ⊆ w') :
    StandsWhole w' e := by
  obtain ⟨v, t, hv, hwhole, heq⟩ := h
  exact ⟨v, t, List.Subset.trans hv hw, hwhole, heq⟩

/-- A lawful statement whose whole expressions stand in a word. -/
def Stands (w : List TokenKind) (s : Stmt) : Prop :=
  s.Lawful ∧ ∀ e ∈ s.exprs, StandsWhole w e

theorem Stands.mono {w w' : List TokenKind} {s : Stmt} (h : Stands w s) (hw : w ⊆ w') :
    Stands w' s :=
  ⟨h.1, fun e he => (h.2 e he).mono hw⟩

theorem DerivesWhole.stands {v w : List TokenKind} {e : Expr} (h : DerivesWhole v e)
    (hv : v ⊆ w) : StandsWhole w e.folded :=
  ⟨v, e, hv, h, rfl⟩

theorem DerivesParams.nodup {w : List TokenKind} {params : List Ident}
    (h : DerivesParams w params) : (params.map Ident.name).Nodup := by
  cases h with
  | empty _ => exact List.nodup_nil
  | names _ hdistinct => exact hdistinct

theorem DerivesSimple.stands {w : List TokenKind} {s : Stmt} (h : DerivesSimple w s) :
    ∀ n ∈ s.folded.nodes, Stands w n := by
  cases h with
  | var he | assign he =>
      simp only [Stmt.folded, Stmt.nodes, List.forall_mem_singleton, Stands, Stmt.exprs]
      exact ⟨trivial, he.stands fun k hk => by simp [hk]⟩
  | giveBack he =>
      simp only [Stmt.folded, Stmt.nodes, List.forall_mem_singleton, Stands, Stmt.exprs,
        Option.map_some, Option.toList]
      exact ⟨trivial, he.stands fun k hk => by simp [hk]⟩
  | giveBackNothing => simp [Stmt.folded, Stmt.nodes, Stands, Stmt.Lawful, Stmt.exprs]
  | expr he =>
      simp only [Stmt.folded, Stmt.nodes, List.forall_mem_singleton, Stands, Stmt.exprs]
      exact ⟨trivial, he.stands (List.Subset.refl w)⟩

mutual

theorem DerivesCompound.stands {w : List TokenKind} {s : Stmt} (h : DerivesCompound w s) :
    ∀ n ∈ s.folded.nodes, Stands w n := by
  match h with
  | .func hparams hbody =>
      simp only [Stmt.folded, Stmt.nodes, List.forall_mem_cons]
      refine ⟨⟨hparams.nodup, by simp [Stmt.exprs]⟩, fun n hn => ?_⟩
      exact (hbody.stands n hn).mono fun k hk => by simp [hk]
  | .choose hchoice =>
      obtain ⟨hcount, hconditions, hblocks⟩ := hchoice.stands
      simp only [Stmt.folded, Stmt.nodes, List.forall_mem_cons]
      refine ⟨⟨hcount, fun e he => ?_⟩, fun n hn => ?_⟩
      · exact (hconditions e he).mono fun k hk => by simp [hk]
      · exact (hblocks n hn).mono fun k hk => by simp [hk]
  | .loop he hbody =>
      simp only [Stmt.folded, Stmt.nodes, List.forall_mem_cons]
      refine ⟨⟨trivial, ?_⟩, fun n hn => ?_⟩
      · simp only [Stmt.exprs, List.forall_mem_singleton]
        exact he.stands fun k hk => by simp [hk]
      · exact (hbody.stands n hn).mono fun k hk => by simp [hk]

theorem DerivesChoice.stands {w : List TokenKind} {branches : Branches}
    (h : DerivesChoice w branches) :
    0 < (Stmt.foldedBranches branches).count ∧
      (∀ e ∈ (Stmt.foldedBranches branches).conditions, StandsWhole w e) ∧
      ∀ n ∈ Stmt.nodesOfBranches (Stmt.foldedBranches branches), Stands w n := by
  match h with
  | .done he hbody =>
      refine ⟨Nat.succ_pos _, ?_, ?_⟩
      · simp only [Stmt.foldedBranches, Branches.conditions, List.forall_mem_singleton]
        exact he.stands fun k hk => by simp [hk]
      · simp only [Stmt.foldedBranches, Stmt.nodesOfBranches, List.append_nil]
        exact fun n hn => (hbody.stands n hn).mono fun k hk => by simp [hk]
  | .otherwise _ he hbody hlast =>
      refine ⟨Nat.succ_pos _, ?_, ?_⟩
      · simp only [Stmt.foldedBranches, Branches.conditions, List.forall_mem_singleton]
        exact he.stands fun k hk => by simp [hk]
      · simp only [Stmt.foldedBranches, Stmt.nodesOfBranches, List.forall_mem_append]
        constructor
        · exact fun n hn => (hbody.stands n hn).mono fun k hk => by simp [hk]
        · exact fun n hn => (hlast.stands n hn).mono fun k hk => by simp [hk]
  | .again _ he hbody hrest =>
      obtain ⟨-, hconditions, hblocks⟩ := hrest.stands
      refine ⟨Nat.succ_pos _, ?_, ?_⟩
      · simp only [Stmt.foldedBranches, Branches.conditions, List.forall_mem_cons]
        constructor
        · exact he.stands fun k hk => by simp [hk]
        · exact fun e he => (hconditions e he).mono fun k hk => by simp [hk]
      · simp only [Stmt.foldedBranches, Stmt.nodesOfBranches, List.forall_mem_append]
        constructor
        · exact fun n hn => (hbody.stands n hn).mono fun k hk => by simp [hk]
        · exact fun n hn => (hblocks n hn).mono fun k hk => by simp [hk]

theorem DerivesBlock.stands {w : List TokenKind} {body : Block} (h : DerivesBlock w body) :
    ∀ n ∈ Stmt.nodesOfBlock (Stmt.foldedBlock body), Stands w n := by
  match h with
  | .mk hbody => exact fun n hn => (hbody.stands n hn).mono fun k hk => by simp [hk]

theorem DerivesBody.stands {w : List TokenKind} {stmts : List Stmt} (h : DerivesBody w stmts) :
    ∀ n ∈ Stmt.nodesAll (Stmt.foldedAll stmts), Stands w n := by
  match h with
  | .done _ => simp [Stmt.foldedAll, Stmt.nodesAll]
  | .simple _ hs _ hrest | .compound _ hs hrest =>
      simp only [Stmt.foldedAll, Stmt.nodesAll, List.forall_mem_append]
      constructor
      · exact fun n hn => (hs.stands n hn).mono fun k hk => by simp [hk]
      · exact fun n hn => (hrest.stands n hn).mono fun k hk => by simp [hk]

end

end Grammar

end KitchenScript
