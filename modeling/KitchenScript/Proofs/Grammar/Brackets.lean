import KitchenScript.Proofs.Grammar.Widening

/-!
# Line ends inside brackets

A walk through a word that counts the open brackets and keeps watch over the line ends inside them:
behind a token that leaves no room, a line end asks for a token that gives room.  Every program can
be walked through, so inside brackets no program has a line end where there is no room for it.
-/

namespace KitchenScript.Grammar

/-! ## Matching brackets -/

/-- An opening bracket and the closing one that belongs to it. -/
inductive Bracket : TokenKind → TokenKind → Prop where
  | round : Bracket (.symbol .leftParen) (.symbol .rightParen)
  | square : Bracket (.symbol .leftBracket) (.symbol .rightBracket)

/-- The number of open brackets behind a token; nothing closes where none is open. -/
def depthBehind? (d : Nat) : TokenKind → Option Nat
  | .symbol .leftParen | .symbol .leftBracket => some (d + 1)
  | .symbol .rightParen | .symbol .rightBracket =>
    match d with
    | 0 => none
    | d + 1 => some d
  | _ => some d

/-- Is the token neither an opening nor a closing bracket? -/
def isPlain : TokenKind → Bool
  | .symbol mark =>
    mark ≠ .leftParen ∧ mark ≠ .leftBracket ∧ mark ≠ .rightParen ∧ mark ≠ .rightBracket
  | _ => true

/-- Words in which every bracket has its partner. -/
inductive Balanced : List TokenKind → Prop where
  | nil : Balanced []
  | plain {k : TokenKind} {w : List TokenKind} (hk : isPlain k = true) (hw : Balanced w) :
      Balanced (k :: w)
  | bracket {l r : TokenKind} {v w : List TokenKind} (h : Bracket l r) (hv : Balanced v)
      (hw : Balanced w) : Balanced (l :: (v ++ r :: w))

/-- Between the two parts of a word lies the inside of a bracket: the first part has an opening
bracket whose partner is in the second. -/
inductive Enclosed : List TokenKind → List TokenKind → Prop where
  | mk {l r : TokenKind} {u u' v v' : List TokenKind} (h : Bracket l r)
      (hinside : Balanced (u' ++ v)) : Enclosed (u ++ l :: u') (v ++ r :: v')

/-! ## The walk -/

/-- What a walk knows of the token behind it. -/
inductive Margin where
  | free
  | tight
  /-- A line has ended behind a token that leaves no room. -/
  | due
deriving DecidableEq

/-- Where a walk stands. -/
structure Place where
  depth : Nat
  margin : Margin

namespace Place

def start : Place :=
  ⟨0, .tight⟩

def step (p : Place) (k : TokenKind) : Option Place :=
  if k = .lineEnd then
    some (if p.depth = 0 ∨ p.margin = .free then p else ⟨p.depth, .due⟩)
  else if p.margin = .due ∧ k.roomBefore = false then
    none
  else
    (depthBehind? p.depth k).map fun d => ⟨d, if k.roomBehind then .free else .tight⟩

def walk (p : Place) (w : List TokenKind) : Option Place :=
  w.foldlM step p

theorem walk_nil (p : Place) : p.walk [] = some p := rfl

theorem walk_cons (p : Place) (k : TokenKind) (w : List TokenKind) :
    p.walk (k :: w) = (p.step k).bind fun q => q.walk w := rfl

theorem walk_append (p : Place) (u v : List TokenKind) :
    p.walk (u ++ v) = (p.walk u).bind fun q => q.walk v :=
  List.foldlM_append

variable {p q : Place} {d : Nat} {g : Margin} {k l r : TokenKind} {u v w : List TokenKind}

theorem walk_append_of (h : p.walk u = some q) (v : List TokenKind) :
    p.walk (u ++ v) = q.walk v := by
  rw [walk_append, h, Option.bind_some]

theorem walk_cons_of (h : p.step k = some q) (w : List TokenKind) :
    p.walk (k :: w) = q.walk w := by
  rw [walk_cons, h, Option.bind_some]

theorem step_tight (hg : g ≠ .due) (hk : k.Tight) : step ⟨d, g⟩ k = some ⟨d, .tight⟩ := by
  have hline : k ≠ .lineEnd := by
    rintro rfl
    exact absurd hk.1 (by decide)
  have hdepth : depthBehind? d k = some d := by
    unfold depthBehind?
    split
    · exact absurd hk.1 (by decide)
    · exact absurd hk.1 (by decide)
    · exact absurd hk.2 (by decide)
    · exact absurd hk.2 (by decide)
    · rfl
  rw [step, if_neg hline, if_neg fun h => hg h.1, hdepth, hk.1]
  rfl

theorem step_open (hg : g ≠ .due) (h : Bracket l r) : step ⟨d, g⟩ l = some ⟨d + 1, .free⟩ := by
  cases h <;> simp [step, hg, depthBehind?, TokenKind.roomBehind]

theorem step_close (h : Bracket l r) : step ⟨d + 1, g⟩ r = some ⟨d, .tight⟩ := by
  cases h <;> simp [step, depthBehind?, TokenKind.roomBehind, TokenKind.roomBefore]

theorem step_comma : step ⟨d, g⟩ (.symbol .comma) = some ⟨d, .free⟩ := by
  simp [step, depthBehind?, TokenKind.roomBehind, TokenKind.roomBefore]

theorem walk_lineEnds_of_step (h : p.step .lineEnd = some p) (n : Nat) :
    p.walk (lineEnds n) = some p := by
  induction n with
  | zero => rfl
  | succ n ih => rw [lineEnds_succ, walk_cons_of h, ih]

theorem walk_lineEnds_start (n : Nat) : start.walk (lineEnds n) = some start :=
  walk_lineEnds_of_step rfl n

theorem walk_lineEnds_free (d n : Nat) : walk ⟨d, .free⟩ (lineEnds n) = some ⟨d, .free⟩ :=
  walk_lineEnds_of_step (by simp [step]) n

/-- Where there is no room, a line end asks for a token that gives room. -/
theorem walk_lineEnds_tight (hd : 0 < d) (n : Nat) :
    walk ⟨d, .tight⟩ (lineEnds (n + 1)) = some ⟨d, .due⟩ := by
  have hfirst : step ⟨d, .tight⟩ .lineEnd = some ⟨d, .due⟩ := by
    simp [step, Nat.ne_of_gt hd]
  rw [lineEnds_succ, walk_cons_of hfirst]
  exact walk_lineEnds_of_step (by simp [step]) n

theorem step_due (hk : k.roomBefore = false) : step ⟨d, .due⟩ k = none := by
  have hline : k ≠ .lineEnd := by
    rintro rfl
    cases hk
  rw [step, if_neg hline, if_pos ⟨rfl, hk⟩]

/-- Line ends never close or open a bracket. -/
theorem exists_walk_lineEnds (d : Nat) (g : Margin) (n : Nat) :
    ∃ g', walk ⟨d, g⟩ (lineEnds n) = some ⟨d, g'⟩ := by
  induction n generalizing g with
  | zero => exact ⟨g, rfl⟩
  | succ n ih =>
      rw [lineEnds_succ, walk_cons, step, if_pos rfl, Option.bind_some]
      split
      · exact ih g
      · exact ih .due

/-- A word that is walked through inside a bracket is walked through with its brackets. -/
theorem walk_brackets (h : Bracket l r) (hg : g ≠ .due)
    (hw : ∃ g', walk ⟨d + 1, .free⟩ w = some ⟨d + 1, g'⟩) :
    walk ⟨d, g⟩ (l :: (w ++ [r])) = some ⟨d, .tight⟩ := by
  obtain ⟨g', hw⟩ := hw
  rw [walk_cons_of (step_open hg h), walk_append_of hw, walk_cons_of (step_close h), walk_nil]

theorem exists_walk_padded (m n : Nat) (hw : walk ⟨d, .free⟩ w = some ⟨d, .tight⟩) :
    ∃ g, walk ⟨d, .free⟩ (lineEnds m ++ w ++ lineEnds n) = some ⟨d, g⟩ := by
  rw [List.append_assoc, walk_append_of (walk_lineEnds_free d m), walk_append_of hw]
  exact exists_walk_lineEnds d .tight n

end Place

/-! ## Programs are walked through -/

open Place

mutual

theorem DerivesExpr.walk {L : Level} {w : List TokenKind} {e : Expr} (h : DerivesExpr L w e)
    (d : Nat) {g : Margin} (hg : g ≠ .due) : Place.walk ⟨d, g⟩ w = some ⟨d, .tight⟩ := by
  match h with
  | .number _ | .text _ | .truth | .falsity | .nothing | .name _ =>
      rw [walk_cons_of (step_tight hg ⟨rfl, rfl⟩), walk_nil]
  | .call _ hargs | .builtin hargs _ =>
      rw [walk_cons_of (step_tight hg ⟨rfl, rfl⟩)]
      exact walk_brackets .round nofun (hargs.walk d)
  | .list hitems => exact walk_brackets .square hg (hitems.walk d)
  | .paren m n he =>
      exact walk_brackets .round hg (exists_walk_padded m n (he.walk (d + 1) nofun))
  | .index m n he hp =>
      rw [walk_append_of (he.walk d hg)]
      exact walk_brackets .square nofun (exists_walk_padded m n (hp.walk (d + 1) nofun))
  | .sign hk he =>
      rw [walk_cons_of (step_tight hg hk.tight)]
      exact he.walk d nofun
  | .chain _ ha hk hb | .join _ ha hk hb =>
      rw [walk_append_of (ha.walk d hg), walk_cons_of (step_tight (by decide) hk.tight)]
      exact hb.walk d nofun
  | .ascend he => exact he.walk d hg

theorem DerivesItems.walk {w : List TokenKind} {items : List Expr} (h : DerivesItems w items)
    (d : Nat) : ∃ g, Place.walk ⟨d + 1, .free⟩ w = some ⟨d + 1, g⟩ := by
  match h with
  | .one m n he => exact exists_walk_padded m n (he.walk (d + 1) nofun)
  | .more m n he hrest =>
      obtain ⟨g, hg⟩ := exists_walk_padded m n (he.walk (d + 1) nofun)
      rw [walk_append_of hg, walk_cons_of step_comma]
      exact hrest.walk d

theorem DerivesList.walk {w : List TokenKind} {items : List Expr} (h : DerivesList w items)
    (d : Nat) : ∃ g, Place.walk ⟨d + 1, .free⟩ w = some ⟨d + 1, g⟩ := by
  match h with
  | .empty n => exact ⟨.free, walk_lineEnds_free (d + 1) n⟩
  | .items hitems => exact hitems.walk d

end

theorem DerivesNames.walk {w : List TokenKind} {xs : List Ident} (h : DerivesNames w xs)
    (d : Nat) : ∃ g, Place.walk ⟨d + 1, .free⟩ w = some ⟨d + 1, g⟩ := by
  have hname : ∀ x, step ⟨d + 1, .free⟩ (.identifier x) = some ⟨d + 1, .tight⟩ :=
    fun x => step_tight nofun ⟨rfl, rfl⟩
  induction h with
  | one m n x =>
      rw [walk_append_of (walk_lineEnds_free (d + 1) m), walk_cons_of (hname x)]
      exact exists_walk_lineEnds (d + 1) .tight n
  | more m n x _ ih =>
      obtain ⟨g, hg⟩ := exists_walk_lineEnds (d + 1) .tight n
      rw [walk_append_of (walk_lineEnds_free (d + 1) m), walk_cons_of (hname x),
        walk_append_of hg, walk_cons_of step_comma]
      exact ih

theorem DerivesParams.walk {w : List TokenKind} {params : List Ident}
    (h : DerivesParams w params) (d : Nat) :
    ∃ g, Place.walk ⟨d + 1, .free⟩ w = some ⟨d + 1, g⟩ := by
  cases h with
  | empty n => exact ⟨.free, walk_lineEnds_free (d + 1) n⟩
  | names h _ => exact h.walk d

theorem DerivesWhole.walk {w : List TokenKind} {e : Expr} (h : DerivesWhole w e) :
    start.walk w = some start :=
  h.1.walk 0 nofun

/-- Outside of brackets a token without room changes nothing. -/
theorem walk_start_cons {k : TokenKind} (hk : k.Tight) (w : List TokenKind) :
    start.walk (k :: w) = start.walk w :=
  walk_cons_of (step_tight (g := .tight) nofun hk) w

theorem DerivesSimple.walk {w : List TokenKind} {s : Stmt} (h : DerivesSimple w s) :
    start.walk w = some start := by
  cases h with
  | var he =>
      rw [walk_start_cons ⟨rfl, rfl⟩, walk_start_cons ⟨rfl, rfl⟩, walk_start_cons ⟨rfl, rfl⟩,
        he.walk]
  | assign he => rw [walk_start_cons ⟨rfl, rfl⟩, walk_start_cons ⟨rfl, rfl⟩, he.walk]
  | giveBack he => rw [walk_start_cons ⟨rfl, rfl⟩, he.walk]
  | giveBackNothing => rw [walk_start_cons ⟨rfl, rfl⟩, walk_nil]
  | expr he => exact he.walk

mutual

theorem DerivesCompound.walk {w : List TokenKind} {s : Stmt} (h : DerivesCompound w s) :
    start.walk w = some start := by
  match h with
  | @DerivesCompound.func _ u v _ _ hparams hbody =>
      have hbrackets : start.walk (.symbol .leftParen :: (u ++ [.symbol .rightParen])) =
          some start :=
        walk_brackets .round nofun (hparams.walk 0)
      rw [walk_start_cons ⟨rfl, rfl⟩, walk_start_cons ⟨rfl, rfl⟩, brackets_append,
        walk_append_of hbrackets, hbody.walk]
  | .choose hchoice => rw [walk_start_cons ⟨rfl, rfl⟩, hchoice.walk]
  | .loop he hbody => rw [walk_start_cons ⟨rfl, rfl⟩, walk_append_of he.walk, hbody.walk]

theorem DerivesChoice.walk {w : List TokenKind} {branches : Branches}
    (h : DerivesChoice w branches) : start.walk w = some start := by
  match h with
  | .done he hbody => rw [walk_append_of he.walk, hbody.walk]
  | .otherwise n he hbody hlast =>
      rw [walk_append_of he.walk, walk_append_of hbody.walk,
        walk_append_of (walk_lineEnds_start n), walk_start_cons ⟨rfl, rfl⟩, hlast.walk]
  | .again n he hbody hrest =>
      rw [walk_append_of he.walk, walk_append_of hbody.walk,
        walk_append_of (walk_lineEnds_start n), walk_start_cons ⟨rfl, rfl⟩,
        walk_start_cons ⟨rfl, rfl⟩, hrest.walk]

theorem DerivesBlock.walk {w : List TokenKind} {body : Block} (h : DerivesBlock w body) :
    start.walk w = some start := by
  match h with
  | .mk hbody =>
      rw [walk_start_cons ⟨rfl, rfl⟩, walk_append_of hbody.walk, walk_start_cons ⟨rfl, rfl⟩,
        walk_nil]

theorem DerivesBody.walk {w : List TokenKind} {stmts : List Stmt} (h : DerivesBody w stmts) :
    start.walk w = some start := by
  match h with
  | .done n => exact walk_lineEnds_start n
  | .simple n hs _ hrest =>
      rw [walk_append_of (walk_lineEnds_start n), walk_append_of hs.walk, hrest.walk]
  | .compound n hs hrest =>
      rw [walk_append_of (walk_lineEnds_start n), walk_append_of hs.walk, hrest.walk]

end

/-! ## Breaks inside brackets -/

section Inside

variable {p q : Place} {k l r : TokenKind} {u v w : List TokenKind}

theorem depth_of_step (h : p.step k = some q) : depthBehind? p.depth k = some q.depth := by
  unfold step at h
  split at h
  · rename_i hline
    cases h
    subst hline
    split <;> rfl
  · split at h
    · cases h
    · obtain ⟨d, hd, rfl⟩ := Option.map_eq_some_iff.mp h
      exact hd

theorem depthBehind?_of_isPlain (hk : isPlain k = true) (d : Nat) : depthBehind? d k = some d := by
  unfold depthBehind?
  split
  · exact absurd hk (by decide)
  · exact absurd hk (by decide)
  · exact absurd hk (by decide)
  · exact absurd hk (by decide)
  · rfl

theorem depth_of_isPlain (hk : isPlain k = true) (h : p.step k = some q) : q.depth = p.depth := by
  have hdepth := depth_of_step h
  rw [depthBehind?_of_isPlain hk, Option.some.injEq] at hdepth
  exact hdepth.symm

theorem depth_of_open (hlr : Bracket l r) (h : p.step l = some q) : q.depth = p.depth + 1 := by
  have hdepth := depth_of_step h
  cases hlr <;> exact (Option.some.inj hdepth).symm

theorem depth_of_close (hlr : Bracket l r) (h : p.step r = some q) : p.depth = q.depth + 1 := by
  have hdepth := depth_of_step h
  cases hd : p.depth with
  | zero =>
      rw [hd] at hdepth
      cases hlr <;> cases hdepth
  | succ d =>
      rw [hd] at hdepth
      cases hlr <;> exact congrArg (· + 1) (Option.some.inj hdepth)

theorem Balanced.depth_eq (hw : Balanced w) (h : p.walk w = some q) : q.depth = p.depth := by
  induction hw generalizing p q with
  | nil =>
      cases h
      rfl
  | plain hk _ ih =>
      rw [walk_cons, Option.bind_eq_some_iff] at h
      obtain ⟨p₁, hstep, hrest⟩ := h
      rw [ih hrest, depth_of_isPlain hk hstep]
  | bracket hlr _ _ ihv ihw =>
      rw [walk_cons, Option.bind_eq_some_iff] at h
      obtain ⟨p₁, hopen, h⟩ := h
      rw [walk_append, Option.bind_eq_some_iff] at h
      obtain ⟨p₂, hinside, h⟩ := h
      rw [walk_cons, Option.bind_eq_some_iff] at h
      obtain ⟨p₃, hclose, hrest⟩ := h
      have hone := depth_of_open hlr hopen
      have htwo := depth_of_close hlr hclose
      have hsame := ihv hinside
      rw [ihw hrest]
      omega

/-- No part of a balanced word closes more than it has opened. -/
theorem Balanced.le_depth (hw : Balanced w) (hu : u <+: w) (h : p.walk u = some q) :
    p.depth ≤ q.depth := by
  induction hw generalizing p q u with
  | nil =>
      obtain rfl := List.prefix_nil.mp hu
      cases h
      exact Nat.le_refl _
  | @plain k w hk _ ih =>
      rcases List.prefix_cons_iff.mp hu with rfl | ⟨u', rfl, hu'⟩
      · cases h
        exact Nat.le_refl _
      rw [walk_cons, Option.bind_eq_some_iff] at h
      obtain ⟨p₁, hstep, hrest⟩ := h
      rw [← depth_of_isPlain hk hstep]
      exact ih hu' hrest
  | @bracket l r v w hlr hv _ ihv ihw =>
      rcases List.prefix_cons_iff.mp hu with rfl | ⟨u', rfl, hu'⟩
      · cases h
        exact Nat.le_refl _
      rw [walk_cons, Option.bind_eq_some_iff] at h
      obtain ⟨p₁, hopen, h⟩ := h
      have hone := depth_of_open hlr hopen
      obtain ⟨rest, hrest⟩ := hu'
      rcases List.append_eq_append_iff.mp hrest with ⟨x, hv', -⟩ | ⟨x, rfl, hx⟩
      · -- the part ends inside the bracket
        have hle := ihv ⟨x, hv'.symm⟩ h
        omega
      · cases x with
        | nil =>
            rw [List.append_nil] at h
            rw [hv.depth_eq h]
            omega
        | cons y x =>
            obtain ⟨rfl, hw⟩ := List.cons.inj hx
            rw [walk_append, Option.bind_eq_some_iff] at h
            obtain ⟨p₂, hinside, h⟩ := h
            rw [walk_cons, Option.bind_eq_some_iff] at h
            obtain ⟨p₃, hclose, h⟩ := h
            have hsame := hv.depth_eq hinside
            have htwo := depth_of_close hlr hclose
            have hle := ihw ⟨rest, hw.symm⟩ h
            omega

theorem Enclosed.ne_nil (h : Enclosed u v) : u ≠ [] ∧ v ≠ [] := by
  cases h
  simp

/-- Inside a bracket the walk counts one at least. -/
theorem Enclosed.depth_pos (h : Enclosed u v) (hu : p.walk u = some q) : 0 < q.depth := by
  cases h with
  | mk hlr hinside =>
      rw [walk_append, Option.bind_eq_some_iff] at hu
      obtain ⟨p₁, -, hu⟩ := hu
      rw [walk_cons, Option.bind_eq_some_iff] at hu
      obtain ⟨p₂, hopen, hu⟩ := hu
      have hone := depth_of_open hlr hopen
      have hle := hinside.le_depth (List.prefix_append _ _) hu
      omega

theorem margin_of_walk (hk : k.roomBehind = false) (h : p.walk (u ++ [k]) = some q) :
    q.margin = .tight := by
  rw [walk_append, Option.bind_eq_some_iff] at h
  obtain ⟨p₁, -, h⟩ := h
  rw [walk_cons, Option.bind_eq_some_iff] at h
  obtain ⟨p₂, hstep, hnil⟩ := h
  cases hnil
  have hline : k ≠ .lineEnd := by
    rintro rfl
    cases hk
  rw [step, if_neg hline] at hstep
  split at hstep
  · cases hstep
  · obtain ⟨d, -, rfl⟩ := Option.map_eq_some_iff.mp hstep
    simp [hk]

/-- Behind a token without room, inside brackets, line ends are followed by a token with room. -/
theorem roomBefore_of_walk {n : Nat} (hdepth : 0 < p.depth) (hmargin : p.margin = .tight)
    (h : p.walk (lineEnds (n + 1) ++ k :: v) = some q) : k.roomBefore = true := by
  obtain ⟨d, g⟩ := p
  obtain rfl : g = .tight := hmargin
  rw [walk_append_of (walk_lineEnds_tight hdepth n), walk_cons] at h
  cases hk : k.roomBefore with
  | true => rfl
  | false =>
      rw [step_due hk] at h
      cases h

/-- Inside brackets a program has line ends only where there is room for them. -/
theorem DerivesBody.hasRoom {stmts : List Stmt} {n : Nat} (henclosed : Enclosed u v) (hn : n ≠ 0)
    (h : DerivesBody (u ++ (lineEnds n ++ v)) stmts) : Grammar.hasRoom u v = true := by
  obtain ⟨m, rfl⟩ := Nat.exists_eq_succ_of_ne_zero hn
  have hwalk := h.walk
  rw [walk_append, Option.bind_eq_some_iff] at hwalk
  obtain ⟨q, hu, hrest⟩ := hwalk
  have hdepth := henclosed.depth_pos hu
  obtain ⟨k, v', rfl⟩ := List.exists_cons_of_ne_nil henclosed.ne_nil.2
  obtain ⟨u', l, hlast⟩ := (List.eq_nil_or_concat u).resolve_left henclosed.ne_nil.1
  rw [List.concat_eq_append] at hlast
  subst hlast
  rw [Grammar.hasRoom, List.getLast?_concat, Bool.or_eq_true]
  cases hl : l.roomBehind with
  | true => exact Or.inl hl
  | false => exact Or.inr (roomBefore_of_walk hdepth (margin_of_walk hl hu) hrest)

end Inside

end KitchenScript.Grammar
