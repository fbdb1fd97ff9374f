import KitchenScript.Proofs.Grammar.Words

/-!
# Room for line ends

Inside brackets a line may end behind an opening bracket, before a closing one, and on both sides
of a comma; where there is a line end already, there is room for more.  Line ends that are put into
a word where there is room for them leave its tree as it is.
-/

namespace KitchenScript

namespace TokenKind

/-- Is there room for line ends behind the token? -/
def roomBehind : TokenKind → Bool
  | .symbol mark => mark = .leftParen ∨ mark = .leftBracket ∨ mark = .comma
  | .lineEnd => true
  | _ => false

/-- Is there room for line ends before the token? -/
def roomBefore : TokenKind → Bool
  | .symbol mark => mark = .rightParen ∨ mark = .rightBracket ∨ mark = .comma
  | .lineEnd => true
  | _ => false

/-- There is no room for line ends next to the token. -/
def Tight (k : TokenKind) : Prop :=
  k.roomBehind = false ∧ k.roomBefore = false

end TokenKind

namespace Grammar

/-- Is there room for line ends between the two parts of a word? -/
def hasRoom (u v : List TokenKind) : Bool :=
  u.getLast?.any TokenKind.roomBehind || v.head?.any TokenKind.roomBefore

/-- The second word is the first with `n` line ends more, at a place that has room for them. -/
inductive Widens (n : Nat) : List TokenKind → List TokenKind → Prop where
  | before {k : TokenKind} {w : List TokenKind} (hk : k.roomBefore = true) :
      Widens n (k :: w) (lineEnds n ++ k :: w)
  | behind {k : TokenKind} {w : List TokenKind} (hk : k.roomBehind = true) :
      Widens n (k :: w) (k :: (lineEnds n ++ w))
  | cons {k : TokenKind} {w x : List TokenKind} (h : Widens n w x) : Widens n (k :: w) (k :: x)

theorem widens_of_hasRoom (n : Nat) {u v : List TokenKind} (h : hasRoom u v = true) :
    Widens n (u ++ v) (u ++ (lineEnds n ++ v)) := by
  induction u with
  | nil =>
      cases v with
      | nil => cases h
      | cons k v => exact .before h
  | cons k u ih =>
      cases u with
      | nil =>
          rcases Bool.or_eq_true_iff.mp h with hbehind | hbefore
          · exact .behind hbehind
          · exact .cons (ih hbefore)
      | cons l u => exact .cons (ih h)

theorem Operator.tight {L : Level} {k : TokenKind} {op : BinaryOp} (h : Operator L k op) :
    k.Tight := by
  cases h <;> exact ⟨rfl, rfl⟩

theorem Sign.tight {k : TokenKind} {op : UnaryOp} (h : Sign k op) : k.Tight := by
  cases h <;> exact ⟨rfl, rfl⟩

/-! ## Where a word is widened -/

namespace Widens

variable {n : Nat} {a b w x : List TokenKind} {k : TokenKind}

/-- A word in two parts is widened in one of them. -/
theorem of_append (h : Widens n (a ++ b) x) :
    (∃ a', x = a' ++ b ∧ Widens n a a') ∨ ∃ b', x = a ++ b' ∧ Widens n b b' := by
  induction a generalizing x with
  | nil => exact Or.inr ⟨x, rfl, h⟩
  | cons k a ih =>
      cases h with
      | before hk => exact Or.inl ⟨lineEnds n ++ k :: a, by simp, .before hk⟩
      | behind hk => exact Or.inl ⟨k :: (lineEnds n ++ a), by simp, .behind hk⟩
      | cons h =>
          rcases ih h with ⟨a', rfl, ha⟩ | ⟨b', rfl, hb⟩
          · exact Or.inl ⟨k :: a', rfl, .cons ha⟩
          · exact Or.inr ⟨b', rfl, hb⟩

/-- Line ends are not put next to a token that leaves no room. -/
theorem of_tight (h : Widens n (k :: w) x) (hk : k.Tight) : ∃ v, x = k :: v ∧ Widens n w v := by
  cases h with
  | before hbefore => simp [hk.2] at hbefore
  | behind hbehind => simp [hk.1] at hbehind
  | cons h => exact ⟨_, rfl, h⟩

theorem of_lineEnds {m : Nat} (h : Widens n (lineEnds m) x) : x = lineEnds (m + n) := by
  induction m generalizing x with
  | zero => cases h
  | succ m ih =>
      rw [lineEnds_succ] at h
      cases h with
      | before _ => rw [← lineEnds_succ, ← lineEnds_add, Nat.add_comm]
      | behind _ => rw [← lineEnds_add, ← lineEnds_succ, Nat.add_comm n m, Nat.add_right_comm]
      | cons h => rw [ih h, ← lineEnds_succ, Nat.add_right_comm]

/-- Around a token that leaves no room a word is widened on one of the two sides. -/
theorem of_infix (h : Widens n (a ++ k :: b) x) (hk : k.Tight) :
    (∃ a', x = a' ++ k :: b ∧ Widens n a a') ∨ ∃ b', x = a ++ k :: b' ∧ Widens n b b' := by
  rcases h.of_append with hleft | ⟨y, rfl, hright⟩
  · exact Or.inl hleft
  · obtain ⟨b', rfl, hb⟩ := hright.of_tight hk
    exact Or.inr ⟨b', rfl, hb⟩

/-- Around a comma line ends may also be put before it and behind it. -/
theorem of_comma (h : Widens n (a ++ .symbol .comma :: b) x) :
    (∃ a', x = a' ++ .symbol .comma :: b ∧ (a' = a ++ lineEnds n ∨ Widens n a a')) ∨
      ∃ b', x = a ++ .symbol .comma :: b' ∧ (b' = lineEnds n ++ b ∨ Widens n b b') := by
  rcases h.of_append with ⟨a', rfl, ha⟩ | ⟨y, rfl, hright⟩
  · exact Or.inl ⟨a', rfl, Or.inr ha⟩
  · cases hright with
    | before _ => exact Or.inl ⟨a ++ lineEnds n, by simp, Or.inl rfl⟩
    | behind _ => exact Or.inr ⟨lineEnds n ++ b, rfl, Or.inl rfl⟩
    | cons hb => exact Or.inr ⟨_, rfl, Or.inr hb⟩

end Widens

/-- The word, which has room for line ends on both sides, stays in the class however it is
widened. -/
structure Loose (n : Nat) (P : List TokenKind → Prop) (w : List TokenKind) : Prop where
  after : P (lineEnds n ++ w)
  before : P (w ++ lineEnds n)
  widen {x : List TokenKind} : Widens n w x → P x

/-- What is in brackets, and what follows it. -/
theorem brackets_append (l r : TokenKind) (u v : List TokenKind) :
    l :: (u ++ r :: v) = (l :: (u ++ [r])) ++ v := by
  simp

/-- A word in brackets is widened between the brackets: next to one of them, or in the word. -/
theorem Widens.of_brackets {P : List TokenKind → Prop} {n : Nat} {l r : TokenKind}
    {w x : List TokenKind} (h : Widens n (l :: (w ++ [r])) x) (hl : l.roomBefore = false)
    (hr : r.roomBehind = false) (hw : Loose n P w) : ∃ v, x = l :: (v ++ [r]) ∧ P v := by
  cases h with
  | before hbefore => simp [hl] at hbefore
  | behind _ => exact ⟨lineEnds n ++ w, by simp, hw.after⟩
  | cons h =>
      rcases h.of_append with ⟨v, rfl, hv⟩ | ⟨y, rfl, hy⟩
      · exact ⟨v, rfl, hw.widen hv⟩
      · cases hy with
        | before _ => exact ⟨w ++ lineEnds n, by simp, hw.before⟩
        | behind hbehind => simp [hr] at hbehind
        | cons hnil => cases hnil

/-- A word with line ends before and behind it. -/
def Padded (P : List TokenKind → Prop) (x : List TokenKind) : Prop :=
  ∃ m w n, x = lineEnds m ++ w ++ lineEnds n ∧ P w

theorem loose_padded {P : List TokenKind → Prop} {w : List TokenKind} {n : Nat} (m k : Nat)
    (hw : P w) (hwide : ∀ x, Widens n w x → P x) :
    Loose n (Padded P) (lineEnds m ++ w ++ lineEnds k) where
  after := by
    refine ⟨n + m, w, k, ?_, hw⟩
    simp only [lineEnds_add, List.append_assoc]
  before := by
    refine ⟨m, w, k + n, ?_, hw⟩
    simp only [lineEnds_add, List.append_assoc]
  widen := by
    intro x hx
    rcases hx.of_append with ⟨u, rfl, hu⟩ | ⟨u, rfl, hu⟩
    · rcases hu.of_append with ⟨u', rfl, hu'⟩ | ⟨v, rfl, hv⟩
      · rw [hu'.of_lineEnds]
        exact ⟨m + n, w, k, rfl, hw⟩
      · exact ⟨m, v, k, rfl, hwide v hv⟩
    · rw [hu.of_lineEnds]
      exact ⟨m, w, k + n, rfl, hw⟩

/-! ## Trees stay -/

theorem DerivesItems.before_lineEnds {w : List TokenKind} {items : List Expr}
    (h : DerivesItems w items) (n : Nat) : DerivesItems (w ++ lineEnds n) items := by
  cases h with
  | one m k he =>
      rw [List.append_assoc, ← lineEnds_add]
      exact .one m (k + n) he
  | more m k he hrest =>
      rw [List.append_assoc, List.cons_append]
      exact .more m k he (hrest.before_lineEnds n)

theorem DerivesList.after_lineEnds {w : List TokenKind} {items : List Expr}
    (h : DerivesList w items) (n : Nat) : DerivesList (lineEnds n ++ w) items := by
  cases h with
  | empty m =>
      rw [← lineEnds_add]
      exact .empty (n + m)
  | items h => exact .items (h.after_lineEnds n)

theorem DerivesList.before_lineEnds {w : List TokenKind} {items : List Expr}
    (h : DerivesList w items) (n : Nat) : DerivesList (w ++ lineEnds n) items := by
  cases h with
  | empty m =>
      rw [← lineEnds_add]
      exact .empty (m + n)
  | items h => exact .items (h.before_lineEnds n)

theorem DerivesList.loose {w : List TokenKind} {items : List Expr} {n : Nat}
    (h : DerivesList w items) (hwide : ∀ x, Widens n w x → DerivesList x items) :
    Loose n (DerivesList · items) w where
  after := h.after_lineEnds n
  before := h.before_lineEnds n
  widen hx := hwide _ hx

mutual

theorem DerivesExpr.widen {L : Level} {w x : List TokenKind} {e : Expr} {n : Nat}
    (h : DerivesExpr L w e) (hw : Widens n w x) : DerivesExpr L x e := by
  match h with
  | .number _ | .text _ | .truth | .falsity | .nothing | .name _ =>
      obtain ⟨v, -, hv⟩ := hw.of_tight ⟨rfl, rfl⟩
      cases hv
  | .call hx hargs =>
      obtain ⟨y, rfl, hy⟩ := hw.of_tight ⟨rfl, rfl⟩
      obtain ⟨v, rfl, hv⟩ := hy.of_brackets rfl rfl (hargs.loose fun _ hx => hargs.widen hx)
      exact .call hx hv
  | .builtin hargs harity =>
      obtain ⟨y, rfl, hy⟩ := hw.of_tight ⟨rfl, rfl⟩
      obtain ⟨v, rfl, hv⟩ := hy.of_brackets rfl rfl (hargs.loose fun _ hx => hargs.widen hx)
      exact .builtin hv harity
  | .list hitems =>
      obtain ⟨v, rfl, hv⟩ := hw.of_brackets rfl rfl (hitems.loose fun _ hx => hitems.widen hx)
      exact .list hv
  | .paren m k he =>
      obtain ⟨_, rfl, m', v, k', rfl, hv⟩ :=
        hw.of_brackets rfl rfl (loose_padded m k he fun _ hx => he.widen hx)
      exact .paren m' k' hv
  | .index m k he hp =>
      rcases hw.of_append with ⟨u, rfl, hu⟩ | ⟨y, rfl, hy⟩
      · exact .index m k (he.widen hu) hp
      · obtain ⟨_, rfl, m', v, k', rfl, hv⟩ :=
          hy.of_brackets rfl rfl (loose_padded m k hp fun _ hx => hp.widen hx)
        exact .index m' k' he hv
  | .sign hk he =>
      obtain ⟨v, rfl, hv⟩ := hw.of_tight hk.tight
      exact .sign hk (he.widen hv)
  | .chain hL ha hk hb =>
      rcases hw.of_infix hk.tight with ⟨a', rfl, ha'⟩ | ⟨b', rfl, hb'⟩
      · exact .chain hL (ha.widen ha') hk hb
      · exact .chain hL ha hk (hb.widen hb')
  | .join hL ha hk hb =>
      rcases hw.of_infix hk.tight with ⟨a', rfl, ha'⟩ | ⟨b', rfl, hb'⟩
      · exact .join hL (ha.widen ha') hk hb
      · exact .join hL ha hk (hb.widen hb')
  | .ascend he => exact .ascend (he.widen hw)

theorem DerivesItems.widen {w x : List TokenKind} {items : List Expr} {n : Nat}
    (h : DerivesItems w items) (hw : Widens n w x) : DerivesItems x items := by
  match h with
  | .one m k he =>
      obtain ⟨m', v, k', rfl, hv⟩ := (loose_padded m k he fun _ hx => he.widen hx).widen hw
      exact .one m' k' hv
  | .more m k he hrest =>
      have hloose := loose_padded m k he fun _ (hx : Widens n _ _) => he.widen hx
      rcases hw.of_comma with ⟨a', rfl, ha⟩ | ⟨b', rfl, hb⟩
      · have ha' := ha.elim (fun heq => heq ▸ hloose.before) hloose.widen
        obtain ⟨m', v, k', rfl, hv⟩ := ha'
        exact .more m' k' hv hrest
      · have hb' := hb.elim (fun heq => heq ▸ hrest.after_lineEnds n) hrest.widen
        exact .more m k he hb'

theorem DerivesList.widen {w x : List TokenKind} {items : List Expr} {n : Nat}
    (h : DerivesList w items) (hw : Widens n w x) : DerivesList x items := by
  match h with
  | .empty m =>
      rw [hw.of_lineEnds]
      exact .empty (m + n)
  | .items hitems => exact .items (hitems.widen hw)

end

theorem DerivesWhole.widen {w x : List TokenKind} {e : Expr} {n : Nat} (h : DerivesWhole w e)
    (hw : Widens n w x) : DerivesWhole x e :=
  ⟨h.1.widen hw, h.2⟩

theorem DerivesNames.before_lineEnds {w : List TokenKind} {xs : List Ident}
    (h : DerivesNames w xs) (n : Nat) : DerivesNames (w ++ lineEnds n) xs := by
  induction h with
  | one m k x =>
      rw [List.append_assoc, List.cons_append, ← lineEnds_add]
      exact .one m (k + n) x
  | more m k x _ ih =>
      rw [List.append_assoc, List.cons_append, List.append_assoc, List.cons_append]
      exact .more m k x ih

theorem DerivesNames.widen {w x : List TokenKind} {xs : List Ident} {n : Nat}
    (h : DerivesNames w xs) (hw : Widens n w x) : DerivesNames x xs := by
  induction h generalizing x with
  | one m k y =>
      rcases hw.of_infix ⟨rfl, rfl⟩ with ⟨a', rfl, ha⟩ | ⟨b', rfl, hb⟩
      · rw [ha.of_lineEnds]
        exact .one (m + n) k y
      · rw [hb.of_lineEnds]
        exact .one m (k + n) y
  | more m k y hrest ih =>
      rcases hw.of_infix ⟨rfl, rfl⟩ with ⟨a', rfl, ha⟩ | ⟨u, rfl, hu⟩
      · rw [ha.of_lineEnds]
        exact .more (m + n) k y hrest
      rcases hu.of_comma with ⟨a', rfl, ha⟩ | ⟨b', rfl, hb⟩
      · have hends : a' = lineEnds (k + n) :=
          ha.elim (fun heq => heq.trans (lineEnds_add k n).symm) Widens.of_lineEnds
        rw [hends]
        exact .more m (k + n) y hrest
      · have hnames := hb.elim (fun heq => heq ▸ hrest.after_lineEnds n) ih
        exact .more m k y hnames

theorem DerivesParams.loose {w : List TokenKind} {params : List Ident}
    (h : DerivesParams w params) (n : Nat) : Loose n (DerivesParams · params) w := by
  cases h with
  | empty m =>
      refine ⟨?_, ?_, ?_⟩
      · rw [← lineEnds_add]
        exact .empty (n + m)
      · rw [← lineEnds_add]
        exact .empty (m + n)
      · intro x hx
        rw [hx.of_lineEnds]
        exact .empty (m + n)
  | names h hdistinct =>
      exact ⟨.names (h.after_lineEnds n) hdistinct, .names (h.before_lineEnds n) hdistinct,
        fun hx => .names (h.widen hx) hdistinct⟩

theorem DerivesSimple.widen {w x : List TokenKind} {s : Stmt} {n : Nat} (h : DerivesSimple w s)
    (hw : Widens n w x) : DerivesSimple x s := by
  cases h with
  | var he =>
      obtain ⟨y, rfl, hy⟩ := hw.of_tight ⟨rfl, rfl⟩
      obtain ⟨z, rfl, hz⟩ := hy.of_tight ⟨rfl, rfl⟩
      obtain ⟨v, rfl, hv⟩ := hz.of_tight ⟨rfl, rfl⟩
      exact .var (he.widen hv)
  | assign he =>
      obtain ⟨y, rfl, hy⟩ := hw.of_tight ⟨rfl, rfl⟩
      obtain ⟨v, rfl, hv⟩ := hy.of_tight ⟨rfl, rfl⟩
      exact .assign (he.widen hv)
  | giveBack he =>
      obtain ⟨v, rfl, hv⟩ := hw.of_tight ⟨rfl, rfl⟩
      exact .giveBack (he.widen hv)
  | giveBackNothing =>
      obtain ⟨v, -, hv⟩ := hw.of_tight ⟨rfl, rfl⟩
      cases hv
  | expr he => exact .expr (he.widen hw)

theorem EndsLine.widen {w x : List TokenKind} {n : Nat} (h : EndsLine w) (hw : Widens n w x) :
    EndsLine x := by
  right
  cases hw with
  | before hk =>
      rcases h with hnil | hhead
      · cases hnil
      · cases hhead
        cases n <;> rfl
  | behind _ | cons _ => exact h.resolve_left nofun

mutual

theorem DerivesCompound.widen {w x : List TokenKind} {s : Stmt} {n : Nat}
    (h : DerivesCompound w s) (hw : Widens n w x) : DerivesCompound x s := by
  match h with
  | .func hparams hbody =>
      obtain ⟨y, rfl, hy⟩ := hw.of_tight ⟨rfl, rfl⟩
      obtain ⟨z, rfl, hz⟩ := hy.of_tight ⟨rfl, rfl⟩
      rw [brackets_append] at hz
      rcases hz.of_append with ⟨a, rfl, ha⟩ | ⟨b, rfl, hb⟩
      · obtain ⟨u', rfl, hu⟩ := ha.of_brackets rfl rfl (hparams.loose n)
        rw [← brackets_append]
        exact .func hu hbody
      · rw [← brackets_append]
        exact .func hparams (hbody.widen hb)
  | .choose hchoice =>
      obtain ⟨v, rfl, hv⟩ := hw.of_tight ⟨rfl, rfl⟩
      exact .choose (hchoice.widen hv)
  | .loop he hbody =>
      obtain ⟨y, rfl, hy⟩ := hw.of_tight ⟨rfl, rfl⟩
      rcases hy.of_append with ⟨a, rfl, ha⟩ | ⟨b, rfl, hb⟩
      · exact .loop (he.widen ha) hbody
      · exact .loop he (hbody.widen hb)

theorem DerivesChoice.widen {w x : List TokenKind} {branches : Branches} {n : Nat}
    (h : DerivesChoice w branches) (hw : Widens n w x) : DerivesChoice x branches := by
  match h with
  | .done he hbody =>
      rcases hw.of_append with ⟨a, rfl, ha⟩ | ⟨b, rfl, hb⟩
      · exact .done (he.widen ha) hbody
      · exact .done he (hbody.widen hb)
  | .otherwise m he hbody hlast =>
      rcases hw.of_append with ⟨a, rfl, ha⟩ | ⟨y, rfl, hy⟩
      · exact .otherwise m (he.widen ha) hbody hlast
      rcases hy.of_append with ⟨b, rfl, hb⟩ | ⟨z, rfl, hz⟩
      · exact .otherwise m he (hbody.widen hb) hlast
      rcases hz.of_infix ⟨rfl, rfl⟩ with ⟨c, rfl, hc⟩ | ⟨d, rfl, hd⟩
      · rw [hc.of_lineEnds]
        exact .otherwise (m + n) he hbody hlast
      · exact .otherwise m he hbody (hlast.widen hd)
  | .again m he hbody hrest =>
      rcases hw.of_append with ⟨a, rfl, ha⟩ | ⟨y, rfl, hy⟩
      · exact .again m (he.widen ha) hbody hrest
      rcases hy.of_append with ⟨b, rfl, hb⟩ | ⟨z, rfl, hz⟩
      · exact .again m he (hbody.widen hb) hrest
      rcases hz.of_infix ⟨rfl, rfl⟩ with ⟨c, rfl, hc⟩ | ⟨d, rfl, hd⟩
      · rw [hc.of_lineEnds]
        exact .again (m + n) he hbody hrest
      · obtain ⟨u, rfl, hu⟩ := hd.of_tight ⟨rfl, rfl⟩
        exact .again m he hbody (hrest.widen hu)

theorem DerivesBlock.widen {w x : List TokenKind} {body : Block} {n : Nat}
    (h : DerivesBlock w body) (hw : Widens n w x) : DerivesBlock x body := by
  match h with
  | .mk hbody =>
      obtain ⟨y, rfl, hy⟩ := hw.of_tight ⟨rfl, rfl⟩
      rcases hy.of_infix ⟨rfl, rfl⟩ with ⟨a, rfl, ha⟩ | ⟨b, rfl, hb⟩
      · exact .mk (hbody.widen ha)
      · cases hb

theorem DerivesBody.widen {w x : List TokenKind} {stmts : List Stmt} {n : Nat}
    (h : DerivesBody w stmts) (hw : Widens n w x) : DerivesBody x stmts := by
  match h with
  | .done m =>
      rw [hw.of_lineEnds]
      exact .done (m + n)
  | .simple m hs hends hrest =>
      rcases hw.of_append with ⟨a, rfl, ha⟩ | ⟨y, rfl, hy⟩
      · rw [ha.of_lineEnds]
        exact .simple (m + n) hs hends hrest
      rcases hy.of_append with ⟨b, rfl, hb⟩ | ⟨c, rfl, hc⟩
      · exact .simple m (hs.widen hb) hends hrest
      · exact .simple m hs (hends.widen hc) (hrest.widen hc)
  | .compound m hs hrest =>
      rcases hw.of_append with ⟨a, rfl, ha⟩ | ⟨y, rfl, hy⟩
      · rw [ha.of_lineEnds]
        exact .compound (m + n) hs hrest
      rcases hy.of_append with ⟨b, rfl, hb⟩ | ⟨c, rfl, hc⟩
      · exact .compound m (hs.widen hb) hrest
      · exact .compound m hs (hrest.widen hc)

end

/-- A program keeps its tree when line ends are put where there is room for them. -/
theorem DerivesProgram.widen {u v : List TokenKind} {stmts : List Stmt}
    (h : DerivesProgram (u ++ v) stmts) (hroom : hasRoom u v = true) (n : Nat) :
    DerivesProgram (u ++ (lineEnds n ++ v)) stmts :=
  ⟨h.1.widen (widens_of_hasRoom n hroom), h.2⟩

end Grammar

end KitchenScript
