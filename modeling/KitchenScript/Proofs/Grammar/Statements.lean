import KitchenScript.Proofs.Grammar.Expressions

/-!
# Statements are read as the grammar has them

Statements, unlike expressions, can be read with a finding: what is wrong is reported and reading
goes on.  What is proved here is about readings that end without any finding; since findings are
only added, no part of such a reading had one either.

The reader of blocks is a parameter until the end.  One level of blocks reads the grammar if the
level below it does, and the deepest level reads nothing.
-/

namespace KitchenScript.Parser

open Grammar

/-! ## Names and parameters -/

theorem ident_eq_some {c c' : Cursor} {x : Ident} (h : ident c = (some x, c')) :
    c.kinds = .identifier x.name :: c'.kinds ∧ c'.findings = c.findings := by
  unfold ident at h
  split at h
  · rename_i name hk
    cases h
    exact ⟨Cursor.kinds_eq_cons hk (by simp), c.findings_advance⟩
  · split at h <;> simp at h

theorem ident_of_kinds {c : Cursor} {x : String} {v : List TokenKind}
    (hc : c.kinds = .identifier x :: v) : ident c = (some ⟨x, c.span⟩, c.advance) := by
  have hk : c.kind = .identifier x := Cursor.kind_of_kinds_cons hc
  unfold ident
  rw [hk]

/-- The cursor after a parameter, at which a repeated name has been reported. -/
def afterParam (seen : List Ident) (param : Ident) (c : Cursor) : Cursor :=
  if seen.any fun p => p.name == param.name then
    c.report (.repeatedParameter param.name) param.span
  else c

theorem paramList_cons {t : Token} {bound : List Token} {seen : List Ident} {c c₁ : Cursor}
    {param : Ident} (h : ident c.skipLineEnds = (some param, c₁)) :
    paramList (t :: bound) seen c =
      if (afterParam seen param c₁).skipLineEnds.kind = .symbol .comma then
        paramList bound (seen ++ [param]) (afterParam seen param c₁).skipLineEnds.advance
      else (some (seen ++ [param]), (afterParam seen param c₁).skipLineEnds) := by
  have hround : ∀ c₂ : Cursor,
      (skipLineEnds >>= fun _ => eat (.symbol .comma) >>= fun found =>
        if found = true then paramList bound (seen ++ [param])
        else pure (seen ++ [param])) c₂ =
      if c₂.skipLineEnds.kind = .symbol .comma then
        paramList bound (seen ++ [param]) c₂.skipLineEnds.advance
      else (some (seen ++ [param]), c₂.skipLineEnds) := by
    intro c₂
    rw [skipLineEnds_bind_apply, eat_bind_apply]
    split <;> rfl
  rw [paramList, skipLineEnds_bind_apply, bind_of_eq_some h]
  unfold afterParam
  by_cases hseen : (seen.any fun p => p.name == param.name) = true
  · rw [if_pos hseen, if_pos hseen]
    exact hround _
  · rw [if_neg hseen, if_neg hseen]
    exact hround c₁

theorem honest_paramList (bound : List Token) (seen : List Ident) :
    Honest (paramList bound seen) := by
  induction bound generalizing seen with
  | nil => exact honest_pure seen
  | cons _ bound ih =>
      apply honest_bind honest_skipLineEnds
      intro _
      apply honest_bind honest_ident
      intro param
      have hrest : Honest (skipLineEnds >>= fun _ => eat (.symbol .comma) >>= fun found =>
          if found = true then paramList bound (seen ++ [param])
          else pure (seen ++ [param])) := by
        apply honest_bind honest_skipLineEnds
        intro _
        apply honest_bind (honest_eat _)
        intro found
        exact honest_ite (ih _) (honest_pure _)
      apply honest_ite
      · refine honest_bind ?_ fun _ => hrest
        intro c
        simp
      · exact hrest

theorem honest_params : Honest params := by
  apply honest_bind (honest_expect _)
  intro _
  apply honest_bind honest_skipLineEnds
  intro _
  apply honest_bind honest_kind
  intro k
  have hclose : ∀ found : List Ident,
      Honest (expect (.symbol .rightParen) >>= fun _ => pure found) :=
    fun found => honest_bind (honest_expect _) fun _ => honest_pure _
  apply honest_ite
  · exact honest_bind (honest_pure _) hclose
  · exact honest_bind (honest_bounded fun bound => honest_paramList bound []) hclose

theorem afterParam_of_findings {seen : List Ident} {param : Ident} {c : Cursor}
    (h : (afterParam seen param c).findings = []) :
    afterParam seen param c = c ∧ param.name ∉ seen.map Ident.name := by
  unfold afterParam at h ⊢
  split at h
  · simp at h
  · rename_i hseen
    refine ⟨if_neg hseen, ?_⟩
    intro hmem
    obtain ⟨p, hp, hname⟩ := List.mem_map.mp hmem
    apply hseen
    rw [List.any_eq_true]
    exact ⟨p, hp, by simp [hname]⟩

theorem paramList_sound {bound : List Token} {seen found : List Ident} {c c' : Cursor}
    (h : paramList bound seen c = (some found, c')) (hfindings : c'.findings = [])
    (hbound : c.kinds.length ≤ bound.length) :
    c'.kinds = [] ∨ ∃ w xs, c.kinds = w ++ c'.kinds ∧ DerivesNames w xs ∧
      found.map Ident.bare = seen.map Ident.bare ++ xs ∧
      ((seen.map Ident.name).Nodup → (found.map Ident.name).Nodup) := by
  induction bound generalizing seen c with
  | nil =>
      cases h
      left
      simpa using hbound
  | cons t bound ih =>
      have hident := h
      rw [paramList, skipLineEnds_bind_apply] at hident
      obtain ⟨param, c₁, hparam, -⟩ := bind_eq_some.mp hident
      rw [paramList_cons hparam] at h
      obtain ⟨hc₁, -⟩ := ident_eq_some hparam
      obtain ⟨m, hm⟩ := c.exists_kinds_eq_skipLineEnds
      have hbefore : (afterParam seen param c₁).findings = [] := by
        split at h
        · simpa using (honest_paramList _ _).findings_eq_nil h hfindings
        · cases h
          simpa using hfindings
      obtain ⟨hafter, hnew⟩ := afterParam_of_findings hbefore
      rw [hafter] at h
      obtain ⟨n, hn⟩ := c₁.exists_kinds_eq_skipLineEnds
      have hnodup : (seen.map Ident.name).Nodup →
          ((seen ++ [param]).map Ident.name).Nodup := by
        intro hseen
        rw [List.map_append, List.nodup_append]
        refine ⟨hseen, by simp, ?_⟩
        intro a ha b hb hab
        simp only [List.map_cons, List.map_nil, List.mem_singleton] at hb
        exact hnew (by rwa [← hb, ← hab])
      split at h
      · rename_i hcomma
        have hrest : c₁.skipLineEnds.kinds = .symbol .comma :: c₁.skipLineEnds.advance.kinds :=
          Cursor.kinds_eq_cons hcomma (by simp)
        have hlength : c₁.skipLineEnds.advance.kinds.length ≤ bound.length := by
          rw [hm, hc₁, hn, hrest] at hbound
          simp only [List.length_append, List.length_cons] at hbound
          omega
        rcases ih h hlength with hnil | ⟨w, xs, hw, hxs, hbares, hdistinct⟩
        · exact .inl hnil
        · right
          refine ⟨_, _, ?_, .more m n param.name hxs, ?_, fun hseen => hdistinct (hnodup hseen)⟩
          · rw [hm, hc₁, hn, hrest, hw]
            simp
          · rw [hbares]
            simp [Ident.bare]
      · cases h
        right
        refine ⟨_, _, ?_, .one m n param.name, by simp [Ident.bare], hnodup⟩
        rw [hm, hc₁, hn]
        simp

theorem afterParam_of_not_mem {seen : List Ident} {param : Ident} {c : Cursor}
    (h : param.name ∉ seen.map Ident.name) : afterParam seen param c = c := by
  unfold afterParam
  rw [if_neg]
  intro hany
  obtain ⟨p, hp, hname⟩ := List.any_eq_true.mp hany
  exact h (List.mem_map.mpr ⟨p, hp, by simpa using hname⟩)

theorem paramList_complete {bound : List Token} {seen xs : List Ident} {c : Cursor}
    {w v : List TokenKind} (h : DerivesNames w xs)
    (hdistinct : (seen.map Ident.name ++ xs.map Ident.name).Nodup)
    (hc : dropLineEnds c.kinds = dropLineEnds (w ++ v))
    (hbound : c.kinds.length ≤ bound.length) (hline : v.headD .fileEnd ≠ .lineEnd)
    (hcomma : v.headD .fileEnd ≠ .symbol .comma) :
    ∃ found c', paramList bound seen c = (some found, c') ∧ c'.kinds = v ∧
      c'.findings = c.findings ∧ found.map Ident.bare = seen.map Ident.bare ++ xs := by
  induction h generalizing bound seen c with
  | one m n x =>
      have hskip : c.skipLineEnds.kinds = .identifier x :: (lineEnds n ++ v) := by
        rw [Cursor.kinds_skipLineEnds, hc]
        simp [dropLineEnds_cons]
      have hident := ident_of_kinds hskip
      have hlength := length_dropLineEnds_le c.kinds
      rw [← Cursor.kinds_skipLineEnds, hskip, List.length_cons] at hlength
      obtain ⟨_, bound, rfl⟩ := List.exists_cons_of_length_pos (l := bound) (by omega)
      have hnew : x ∉ seen.map Ident.name := by
        intro hmem
        exact (List.nodup_append.mp hdistinct).2.2 x hmem x (by simp) rfl
      have hv : c.skipLineEnds.advance.skipLineEnds.kinds = v := by
        rw [Cursor.kinds_skipLineEnds, Cursor.kinds_advance, hskip, List.tail_cons,
          dropLineEnds_lineEnds_append, dropLineEnds_of_headD_ne hline]
      have hkind : c.skipLineEnds.advance.skipLineEnds.kind ≠ .symbol .comma := by
        rwa [Cursor.kind_eq_headD, hv]
      refine ⟨seen ++ [⟨x, c.skipLineEnds.span⟩], c.skipLineEnds.advance.skipLineEnds, ?_, hv,
        by simp, by simp [Ident.bare]⟩
      rw [paramList_cons hident, afterParam_of_not_mem hnew, if_neg hkind]
  | @more u rest m n x hrest ih =>
      have hskip : c.skipLineEnds.kinds =
          .identifier x :: (lineEnds n ++ .symbol .comma :: (u ++ v)) := by
        rw [Cursor.kinds_skipLineEnds, hc]
        simp [dropLineEnds_cons]
      have hident := ident_of_kinds hskip
      have hlength := length_dropLineEnds_le c.kinds
      rw [← Cursor.kinds_skipLineEnds, hskip] at hlength
      simp only [List.length_cons, List.length_append] at hlength
      obtain ⟨_, bound, rfl⟩ := List.exists_cons_of_length_pos (l := bound) (by omega)
      rw [List.length_cons] at hbound
      have hnew : x ∉ seen.map Ident.name := by
        intro hmem
        exact (List.nodup_append.mp hdistinct).2.2 x hmem x (by simp) rfl
      have hv : c.skipLineEnds.advance.skipLineEnds.kinds = .symbol .comma :: (u ++ v) := by
        rw [Cursor.kinds_skipLineEnds, Cursor.kinds_advance, hskip, List.tail_cons,
          dropLineEnds_lineEnds_append, dropLineEnds_cons (by simp)]
      have hkind : c.skipLineEnds.advance.skipLineEnds.kind = .symbol .comma :=
        Cursor.kind_of_kinds_cons hv
      have hadvance : c.skipLineEnds.advance.skipLineEnds.advance.kinds = u ++ v := by
        rw [Cursor.kinds_advance, hv, List.tail_cons]
      have hlength' : c.skipLineEnds.advance.skipLineEnds.advance.kinds.length ≤ bound.length := by
        rw [hadvance, List.length_append]
        omega
      have hdistinct' : ((seen ++ [(⟨x, c.skipLineEnds.span⟩ : Ident)]).map Ident.name ++
          rest.map Ident.name).Nodup := by
        simpa using hdistinct
      obtain ⟨found, c', hfound, hc', hfindings, hbares⟩ :=
        ih hdistinct' (by rw [hadvance]) hlength'
      refine ⟨found, c', ?_, hc', by simpa using hfindings, ?_⟩
      · rw [paramList_cons hident, afterParam_of_not_mem hnew, if_pos hkind, hfound]
      · simpa [Ident.bare] using hbares

theorem params_sound {c c' : Cursor} {found : List Ident} (h : params c = (some found, c'))
    (hfindings : c'.findings = []) :
    ∃ w xs, c.kinds = .symbol .leftParen :: (w ++ .symbol .rightParen :: c'.kinds) ∧
      DerivesParams w xs ∧ found.map Ident.bare = xs := by
  rw [params, expect_bind_apply] at h
  split at h
  · rename_i hopen
    rw [skipLineEnds_bind_apply, kind_bind_apply] at h
    obtain ⟨m, hm⟩ := c.advance.exists_kinds_eq_skipLineEnds
    rw [Cursor.kinds_eq_cons hopen (by simp), hm]
    split at h
    · rename_i hclose
      have hrest : expect (.symbol .rightParen) c.advance.skipLineEnds =
          (some (), c.advance.skipLineEnds.advance) := if_pos hclose
      change (expect _ >>= fun _ => pure []) _ = _ at h
      rw [bind_of_eq_some hrest] at h
      cases h
      refine ⟨lineEnds m, [], ?_, .empty m, rfl⟩
      rw [Cursor.kinds_eq_cons hclose (by simp)]
    · obtain ⟨names, c₁, hnames, h⟩ := bind_eq_some.mp h
      change (expect _ >>= fun _ => pure names) c₁ = _ at h
      rw [expect_bind_apply] at h
      split at h
      · rename_i hclose
        cases h
        have hrest := Cursor.kinds_eq_cons hclose (by simp)
        have hbound : c.advance.skipLineEnds.kinds.length ≤ c.advance.skipLineEnds.rest.length :=
          Nat.le_of_eq (Cursor.kinds_length _)
        rcases paramList_sound hnames (by simpa using hfindings) hbound with
          hnil | ⟨w, xs, hw, hxs, hbares, hdistinct⟩
        · rw [hrest] at hnil
          cases hnil
        · have hnodup := hdistinct (by simp)
          have hbares : found.map Ident.bare = xs := by simpa using hbares
          have hnames : xs.map Ident.name = found.map Ident.name := by
            rw [← hbares, List.map_map]
            rfl
          refine ⟨lineEnds m ++ w, xs, ?_, ?_, hbares⟩
          · rw [hw, hrest]
            simp
          · exact .names (hxs.after_lineEnds m) (by rwa [hnames])
      · simp at h
  · simp at h

theorem params_complete {c : Cursor} {w v : List TokenKind} {xs : List Ident}
    (h : DerivesParams w xs)
    (hc : c.kinds = .symbol .leftParen :: (w ++ .symbol .rightParen :: v)) :
    ∃ found c', params c = (some found, c') ∧ c'.kinds = v ∧ c'.findings = c.findings ∧
      found.map Ident.bare = xs := by
  have hopen : c.kind = .symbol .leftParen := Cursor.kind_of_kinds_cons hc
  have hadvance : c.advance.kinds = w ++ .symbol .rightParen :: v := by simp [hc]
  rw [params, expect_bind_apply, if_pos hopen, skipLineEnds_bind_apply, kind_bind_apply]
  cases h with
  | empty n =>
      have hskip : c.advance.skipLineEnds.kinds = .symbol .rightParen :: v := by
        rw [Cursor.kinds_skipLineEnds, hadvance, dropLineEnds_lineEnds_append,
          dropLineEnds_cons (by simp)]
      have hclose : c.advance.skipLineEnds.kind = .symbol .rightParen :=
        Cursor.kind_of_kinds_cons hskip
      refine ⟨[], c.advance.skipLineEnds.advance, ?_, by simp [hskip], by simp, rfl⟩
      rw [if_pos hclose]
      change (expect _ >>= fun _ => pure []) _ = _
      rw [expect_bind_apply, if_pos hclose, pure_apply]
  | names hnames hdistinct =>
      obtain ⟨x, u, hw⟩ := hnames.dropLineEnds_eq
      obtain ⟨n, hn⟩ := exists_lineEnds_append w
      have hskip : c.advance.skipLineEnds.kinds =
          .identifier x :: (u ++ .symbol .rightParen :: v) := by
        rw [Cursor.kinds_skipLineEnds, hadvance, hn, hw, List.append_assoc,
          dropLineEnds_lineEnds_append, List.cons_append, dropLineEnds_cons (by simp)]
      have hkind : c.advance.skipLineEnds.kind ≠ .symbol .rightParen := by
        rw [Cursor.kind_of_kinds_cons hskip]
        simp
      have hword : dropLineEnds c.advance.skipLineEnds.kinds =
          dropLineEnds (w ++ .symbol .rightParen :: v) := by
        rw [Cursor.kinds_skipLineEnds, hadvance, dropLineEnds_dropLineEnds]
      have hdistinct' : (([] : List Ident).map Ident.name ++ xs.map Ident.name).Nodup := by
        simpa using hdistinct
      obtain ⟨found, c₁, hfound, hc₁, hfindings, hbares⟩ :=
        paramList_complete hnames hdistinct' hword (Nat.le_of_eq (Cursor.kinds_length _))
          (by simp) (by simp)
      have hclose : c₁.kind = .symbol .rightParen := Cursor.kind_of_kinds_cons hc₁
      refine ⟨found, c₁.advance, ?_, by simp [hc₁], by simpa using hfindings,
        by simpa using hbares⟩
      rw [if_neg hkind]
      refine (bind_of_eq_some hfound).trans ?_
      change (expect _ >>= fun _ => pure found) c₁ = _
      rw [expect_bind_apply, if_pos hclose, pure_apply]

/-! ## Simple statements -/

/-- A token at which a simple statement may end. -/
def EndsStmt (k : TokenKind) : Prop :=
  k = .lineEnd ∨ k = .fileEnd ∨ k = .symbol .rightBrace

theorem EndsStmt.closesExpr {k : TokenKind} (h : EndsStmt k) : closesExpr k = true := by
  rcases h with rfl | rfl | rfl <;> rfl

/-- The line ends passed over, of which there is one unless the file or the block ends. -/
def LineEnded (c : Cursor) (n : Nat) (c' : Cursor) : Prop :=
  c.kinds = lineEnds n ++ c'.kinds ∧
    (0 < n ∨ c'.kind = .fileEnd ∨ c'.kind = .symbol .rightBrace)

theorem statementEnd_sound {inBlock : Bool} {c c' : Cursor} {u : Unit}
    (h : statementEnd inBlock c = (some u, c')) (hfindings : c'.findings = []) :
    ∃ n, LineEnded c n c' := by
  unfold statementEnd at h
  split at h
  · rename_i hk
    cases h
    exact ⟨0, rfl, .inr (.inl hk)⟩
  · rename_i hk
    cases h
    exact ⟨0, rfl, .inr (.inr hk)⟩
  · rename_i hk
    cases h
    obtain ⟨n, hn⟩ := c.exists_kinds_eq_skipLineEnds
    refine ⟨n, hn, .inl ?_⟩
    rcases Nat.eq_zero_or_pos n with rfl | hpos
    · -- a cursor at a line end does not skip nothing
      have hhead := headD_dropLineEnds_ne c.kinds
      rw [← Cursor.kinds_skipLineEnds] at hhead
      rw [Cursor.kind_eq_headD, hn] at hk
      exact absurd hk hhead
    · exact hpos
  · cases h
    simp at hfindings

theorem statementEnd_complete {c : Cursor} (inBlock : Bool) (h : EndsStmt c.kind) :
    ∃ c', statementEnd inBlock c = (some (), c') ∧ c'.kinds = dropLineEnds c.kinds ∧
      c'.findings = c.findings := by
  unfold statementEnd
  rcases h with hk | hk | hk <;> rw [hk]
  · exact ⟨c.skipLineEnds, rfl, by simp, by simp⟩
  · refine ⟨c, rfl, ?_, rfl⟩
    rw [dropLineEnds_of_headD_ne]
    rw [← Cursor.kind_eq_headD, hk]
    simp
  · refine ⟨c, rfl, ?_, rfl⟩
    rw [dropLineEnds_of_headD_ne]
    rw [← Cursor.kind_eq_headD, hk]
    simp

theorem honest_statementEnd (inBlock : Bool) : Honest (statementEnd inBlock) := by
  intro c
  unfold statementEnd
  split <;> simp

/-- The end that most simple statements share: an expression and the end of the line. -/
def expressionLine (inBlock : Bool) (f : Expr → Stmt) : Parser Stmt :=
  expression >>= fun value => statementEnd inBlock >>= fun _ => pure (f value)

theorem honest_expressionLine (inBlock : Bool) (f : Expr → Stmt) :
    Honest (expressionLine inBlock f) :=
  honest_bind reads_expression.honest fun _ =>
    honest_bind (honest_statementEnd inBlock) fun _ => honest_pure _

theorem expressionLine_sound {inBlock : Bool} {f : Expr → Stmt} {c c' : Cursor} {s : Stmt}
    (h : expressionLine inBlock f c = (some s, c')) (hfindings : c'.findings = []) :
    ∃ e w t c₁ n, s = f e ∧ c.kinds = w ++ c₁.kinds ∧ LineEnded c₁ n c' ∧
      DerivesWhole w t ∧ e.bare = t.folded := by
  obtain ⟨e, c₁, he, h⟩ := bind_eq_some.mp h
  obtain ⟨u, c₂, hend, h⟩ := bind_eq_some.mp h
  cases h
  obtain ⟨w, t, hw, ht, hd, hbare, -⟩ := reads_expression.sound he
  obtain ⟨n, hn⟩ := statementEnd_sound hend hfindings
  exact ⟨e, w, t, c₁, n, rfl, hw, hn, ⟨ht, hd⟩, hbare⟩

theorem expressionLine_complete (inBlock : Bool) (f : Expr → Stmt) {c : Cursor}
    {w v : List TokenKind} {t : Expr} (ht : DerivesWhole w t) (hc : c.kinds = w ++ v)
    (hv : EndsStmt (v.headD .fileEnd)) :
    ∃ e c', expressionLine inBlock f c = (some (f e), c') ∧ c'.kinds = dropLineEnds v ∧
      c'.findings = c.findings ∧ e.bare = t.folded := by
  obtain ⟨e, c₁, he, hc₁, hfindings, hbare⟩ :=
    reads_expression.complete ht.1 ht.2 hc (stops_of_closesExpr hv.closesExpr)
  have hends : EndsStmt c₁.kind := by rwa [Cursor.kind_eq_headD, hc₁]
  obtain ⟨c₂, hend, hc₂, hfindings₂⟩ := statementEnd_complete inBlock hends
  refine ⟨e, c₂, ?_, by rw [hc₂, hc₁], by rw [hfindings₂, hfindings], hbare⟩
  rw [expressionLine, bind_of_eq_some he, bind_of_eq_some hend, pure_apply]

/-- The tokens from one cursor to another are a simple statement and the end of its line. -/
def SimpleBetween (c : Cursor) (s : Stmt) (c' : Cursor) : Prop :=
  ∃ w t c₁ n, c.kinds = w ++ c₁.kinds ∧ LineEnded c₁ n c' ∧ DerivesSimple w t ∧ s.bare = t.folded

/-- An assignment is recognised by its first two tokens. -/
theorem startsAssignment_iff {c : Cursor} : startsAssignment c = true ↔
    ∃ x v, c.kinds = .identifier x :: .symbol .assign :: v := by
  obtain ⟨rest, last, findings⟩ := c
  constructor
  · intro h
    simp only [startsAssignment] at h
    split at h
    · exact ⟨_, _, rfl⟩
    · cases h
  · rintro ⟨x, v, h⟩
    match rest with
    | [] => simp [Cursor.kinds] at h
    | [_] => simp [Cursor.kinds] at h
    | ⟨_, _⟩ :: ⟨_, _⟩ :: _ =>
        simp only [Cursor.kinds, List.map_cons, List.cons.injEq] at h
        obtain ⟨rfl, rfl, -⟩ := h
        rfl

theorem varStmt_sound {inBlock : Bool} {c c' : Cursor} {s : Stmt}
    (hk : c.kind = .keyword .varWord) (h : varStmt inBlock c = (some s, c'))
    (hfindings : c'.findings = []) : SimpleBetween c s c' := by
  rw [varStmt, advance_bind_apply] at h
  obtain ⟨x, c₁, hx, h⟩ := bind_eq_some.mp h
  obtain ⟨hc₁, -⟩ := ident_eq_some hx
  rw [expect_bind_apply] at h
  split at h
  · rename_i hassign
    obtain ⟨e, w, t, c₂, n, rfl, hw, hn, ht, hbare⟩ := expressionLine_sound h hfindings
    refine ⟨_, _, c₂, n, ?_, hn, .var (x := x.name) ht, ?_⟩
    · rw [Cursor.kinds_eq_cons hk (by simp), hc₁, Cursor.kinds_eq_cons hassign (by simp), hw]
      rfl
    · simp [Stmt.bare, Stmt.folded, Ident.bare, hbare]
  · simp at h

theorem assignStmt_sound {inBlock : Bool} {c c' : Cursor} {s : Stmt}
    (hk : startsAssignment c = true) (h : assignStmt inBlock c = (some s, c'))
    (hfindings : c'.findings = []) : SimpleBetween c s c' := by
  obtain ⟨x, c₁, hx, h⟩ := bind_eq_some.mp h
  obtain ⟨hc₁, -⟩ := ident_eq_some hx
  rw [advance_bind_apply] at h
  obtain ⟨y, v, hv⟩ := startsAssignment_iff.mp hk
  have hassign : c₁.kind = .symbol .assign := by
    rw [hv] at hc₁
    exact Cursor.kind_of_kinds_cons (List.cons.inj hc₁).2.symm
  obtain ⟨e, w, t, c₂, n, rfl, hw, hn, ht, hbare⟩ := expressionLine_sound h hfindings
  refine ⟨_, _, c₂, n, ?_, hn, .assign (x := x.name) ht, ?_⟩
  · rw [hc₁, Cursor.kinds_eq_cons hassign (by simp), hw]
    rfl
  · simp [Stmt.bare, Stmt.folded, Ident.bare, hbare]

theorem exprStmt_sound {inBlock : Bool} {c c' : Cursor} {s : Stmt}
    (h : exprStmt inBlock c = (some s, c')) (hfindings : c'.findings = []) :
    SimpleBetween c s c' := by
  obtain ⟨e, w, t, c₁, n, rfl, hw, hn, ht, hbare⟩ := expressionLine_sound h hfindings
  exact ⟨w, _, c₁, n, hw, hn, .expr ht, by simp [Stmt.bare, Stmt.folded, hbare]⟩

theorem returnValue_eq_some {c c' : Cursor} {value : Option Expr}
    (h : returnValue c = (some value, c')) :
    value = none ∧ c' = c ∨ ∃ e, value = some e ∧ expression c = (some e, c') := by
  rw [returnValue, kind_bind_apply] at h
  have hvalue : ∀ {r}, (expression >>= fun value => pure (some value)) c = r →
      r = (some value, c') → ∃ e, value = some e ∧ expression c = (some e, c') := by
    rintro r rfl hr
    obtain ⟨e, c₁, he, hr⟩ := bind_eq_some.mp hr
    cases hr
    exact ⟨e, rfl, he⟩
  generalize c.kind = k at h
  cases k with
  | lineEnd =>
      cases h
      exact .inl ⟨rfl, rfl⟩
  | fileEnd =>
      cases h
      exact .inl ⟨rfl, rfl⟩
  | symbol mark =>
      cases mark with
      | rightBrace =>
          cases h
          exact .inl ⟨rfl, rfl⟩
      | _ => exact .inr (hvalue rfl h)
  | _ => exact .inr (hvalue rfl h)

theorem returnStmt_sound {inBlock : Bool} {c c' : Cursor} {s : Stmt}
    (hk : c.kind = .keyword .returnWord) (h : returnStmt inBlock c = (some s, c'))
    (hfindings : c'.findings = []) : SimpleBetween c s c' := by
  have hc := Cursor.kinds_eq_cons hk (by simp)
  rw [returnStmt, advance_bind_apply] at h
  obtain ⟨value, c₁, hvalue, h⟩ := bind_eq_some.mp h
  obtain ⟨u, c₂, hend, h⟩ := bind_eq_some.mp h
  cases h
  obtain ⟨n, hn⟩ := statementEnd_sound hend hfindings
  rcases returnValue_eq_some hvalue with ⟨rfl, rfl⟩ | ⟨e, rfl, he⟩
  · exact ⟨_, _, c.advance, n, hc, hn, .giveBackNothing, rfl⟩
  · obtain ⟨w, t, hw, ht, hd, hbare, -⟩ := reads_expression.sound he
    refine ⟨_, _, c₁, n, ?_, hn, .giveBack ⟨ht, hd⟩, ?_⟩
    · rw [hc, hw]
      rfl
    · simp [Stmt.bare, Stmt.folded, hbare]

theorem returnValue_of_ends {c : Cursor} (h : EndsStmt c.kind) :
    returnValue c = (some none, c) := by
  rw [returnValue, kind_bind_apply]
  rcases h with hk | hk | hk <;> rw [hk] <;> rfl

theorem returnValue_of_opens {c c' : Cursor} {e : Expr} (hk : opensExpr c.kind = true)
    (he : expression c = (some e, c')) : returnValue c = (some (some e), c') := by
  rw [returnValue, kind_bind_apply]
  generalize c.kind = k at hk
  have hvalue : (expression >>= fun value => pure (some value)) c = (some (some e), c') := by
    rw [bind_of_eq_some he, pure_apply]
  cases k with
  | lineEnd => simp [opensExpr] at hk
  | fileEnd => simp [opensExpr] at hk
  | symbol mark =>
      cases mark with
      | rightBrace => simp [opensExpr] at hk
      | _ => exact hvalue
  | _ => exact hvalue

theorem returnStmt_complete (inBlock : Bool) {c : Cursor} {w v : List TokenKind} {t : Expr}
    (ht : DerivesWhole w t) (hc : c.kinds = .keyword .returnWord :: (w ++ v))
    (hv : EndsStmt (v.headD .fileEnd)) :
    ∃ s c', returnStmt inBlock c = (some s, c') ∧ c'.kinds = dropLineEnds v ∧
      c'.findings = c.findings ∧ s.bare = .giveBack .blank (some t.folded) := by
  have hadvance : c.advance.kinds = w ++ v := by simp [hc]
  obtain ⟨e, c₁, he, hc₁, hfindings, hbare⟩ :=
    reads_expression.complete ht.1 ht.2 hadvance (stops_of_closesExpr hv.closesExpr)
  have hopens : opensExpr c.advance.kind = true := by
    obtain ⟨k, u, rfl, hk⟩ := ht.exists_head
    rwa [Cursor.kind_of_kinds_cons hadvance]
  have hends : EndsStmt c₁.kind := by rwa [Cursor.kind_eq_headD, hc₁]
  obtain ⟨c₂, hend, hc₂, hfindings₂⟩ := statementEnd_complete inBlock hends
  refine ⟨.giveBack (c.peek.span.merge e.span) (some e), c₂, ?_, by rw [hc₂, hc₁], ?_, ?_⟩
  · rw [returnStmt, advance_bind_apply, bind_of_eq_some (returnValue_of_opens hopens he),
      bind_of_eq_some hend, pure_apply]
  · rw [hfindings₂, hfindings, Cursor.findings_advance]
  · simp [Stmt.bare, hbare]

theorem returnStmt_complete_nothing (inBlock : Bool) {c : Cursor} {v : List TokenKind}
    (hc : c.kinds = .keyword .returnWord :: v) (hv : EndsStmt (v.headD .fileEnd)) :
    ∃ s c', returnStmt inBlock c = (some s, c') ∧ c'.kinds = dropLineEnds v ∧
      c'.findings = c.findings ∧ s.bare = .giveBack .blank none := by
  have hadvance : c.advance.kinds = v := by simp [hc]
  have hends : EndsStmt c.advance.kind := by rwa [Cursor.kind_eq_headD, hadvance]
  obtain ⟨c₂, hend, hc₂, hfindings₂⟩ := statementEnd_complete inBlock hends
  refine ⟨.giveBack c.peek.span none, c₂, ?_, by rw [hc₂, hadvance], by simpa using hfindings₂,
    rfl⟩
  rw [returnStmt, advance_bind_apply, bind_of_eq_some (returnValue_of_ends hends),
    bind_of_eq_some hend, pure_apply]

/-! ## Compound statements -/

/-- The reader reads the blocks that nest at most `d` deep. -/
structure ReadsBlocks (block : Parser Block) (d : Nat) : Prop where
  sound : ∀ {c b c'}, block c = (some b, c') → c'.findings = [] →
    ∃ w t, c.kinds = w ++ c'.kinds ∧ DerivesBlock w t ∧ Stmt.nestingOfBlock t ≤ d ∧
      Stmt.bareBlock b = Stmt.foldedBlock t
  complete : ∀ {c w v t}, DerivesBlock w t → Stmt.nestingOfBlock t ≤ d → c.kinds = w ++ v →
    c.findings = [] → ∃ b c', block c = (some b, c') ∧ c'.kinds = v ∧ c'.findings = [] ∧
      Stmt.bareBlock b = Stmt.foldedBlock t
  honest : Honest block

/-- The tokens from one cursor to another are a compound statement. -/
def CompoundBetween (d : Nat) (c : Cursor) (s : Stmt) (c' : Cursor) : Prop :=
  ∃ w t, c.kinds = w ++ c'.kinds ∧ DerivesCompound w t ∧ t.blockNesting ≤ d ∧ s.bare = t.folded

section Compound

variable {block : Parser Block} {d : Nat}

theorem honest_funcStmt (hblock : Honest block) : Honest (funcStmt block) :=
  honest_bind honest_advance fun _ => honest_bind honest_ident fun _ =>
    honest_bind honest_params fun _ => honest_bind hblock fun _ => honest_pure _

theorem funcStmt_sound (hblock : ReadsBlocks block d) {c c' : Cursor} {s : Stmt}
    (hk : c.kind = .keyword .funcWord) (h : funcStmt block c = (some s, c'))
    (hfindings : c'.findings = []) : CompoundBetween d c s c' := by
  rw [funcStmt, advance_bind_apply] at h
  obtain ⟨x, c₁, hx, h⟩ := bind_eq_some.mp h
  obtain ⟨found, c₂, hfound, h⟩ := bind_eq_some.mp h
  obtain ⟨body, c₃, hbody, h⟩ := bind_eq_some.mp h
  cases h
  obtain ⟨hc₁, -⟩ := ident_eq_some hx
  have hfindings₂ := hblock.honest.findings_eq_nil hbody hfindings
  obtain ⟨w, xs, hw, hxs, rfl⟩ := params_sound hfound hfindings₂
  obtain ⟨v, t, hv, ht, hd, hbare⟩ := hblock.sound hbody hfindings
  refine ⟨_, _, ?_, .func (x := x.name) hxs ht, hd, ?_⟩
  · rw [Cursor.kinds_eq_cons hk (by simp), hc₁, hw, hv]
    simp
  · simp [Stmt.bare, Stmt.folded, Ident.bare, hbare]

theorem funcStmt_complete (hblock : ReadsBlocks block d) {c : Cursor} {x : String}
    {w v u : List TokenKind} {xs : List Ident} {t : Block} (hxs : DerivesParams w xs)
    (ht : DerivesBlock v t) (hd : Stmt.nestingOfBlock t ≤ d)
    (hc : c.kinds = .keyword .funcWord :: .identifier x :: .symbol .leftParen ::
      (w ++ .symbol .rightParen :: (v ++ u)))
    (hfindings : c.findings = []) :
    ∃ s c', funcStmt block c = (some s, c') ∧ c'.kinds = u ∧ c'.findings = [] ∧
      s.bare = .func .blank ⟨x, .blank⟩ xs (Stmt.foldedBlock t) := by
  have hadvance : c.advance.kinds = .identifier x :: .symbol .leftParen ::
      (w ++ .symbol .rightParen :: (v ++ u)) := by simp [hc]
  have hident := ident_of_kinds hadvance
  have hparams : c.advance.advance.kinds =
      .symbol .leftParen :: (w ++ .symbol .rightParen :: (v ++ u)) := by simp [hc]
  obtain ⟨found, c₁, hfound, hc₁, hfindings₁, hbares⟩ := params_complete hxs hparams
  obtain ⟨body, c₂, hbody, hc₂, hfindings₂, hbare⟩ :=
    hblock.complete ht hd hc₁ (by simpa [hfindings] using hfindings₁)
  refine ⟨.func (c.peek.span.merge body.span) ⟨x, c.advance.span⟩ found body, c₂, ?_, hc₂,
    hfindings₂, ?_⟩
  · rw [funcStmt, advance_bind_apply, bind_of_eq_some hident, bind_of_eq_some hfound,
      bind_of_eq_some hbody, pure_apply]
  · simp [Stmt.bare, Ident.bare, hbares, hbare]

theorem honest_whileStmt (hblock : Honest block) : Honest (whileStmt block) :=
  honest_bind honest_advance fun _ => honest_bind reads_expression.honest fun _ =>
    honest_bind hblock fun _ => honest_pure _

theorem whileStmt_sound (hblock : ReadsBlocks block d) {c c' : Cursor} {s : Stmt}
    (hk : c.kind = .keyword .whileWord) (h : whileStmt block c = (some s, c'))
    (hfindings : c'.findings = []) : CompoundBetween d c s c' := by
  rw [whileStmt, advance_bind_apply] at h
  obtain ⟨e, c₁, he, h⟩ := bind_eq_some.mp h
  obtain ⟨body, c₂, hbody, h⟩ := bind_eq_some.mp h
  cases h
  obtain ⟨w, t, hw, ht, hdt, hbare, -⟩ := reads_expression.sound he
  obtain ⟨v, b, hv, hb, hd, hbare'⟩ := hblock.sound hbody hfindings
  refine ⟨_, _, ?_, .loop ⟨ht, hdt⟩ hb, hd, ?_⟩
  · rw [Cursor.kinds_eq_cons hk (by simp), hw, hv]
    simp
  · simp [Stmt.bare, Stmt.folded, hbare, hbare']

/-- A condition and the block after it. -/
theorem condition_complete (hblock : ReadsBlocks block d) {c : Cursor} {w v u : List TokenKind}
    {t : Expr} {b : Block} (ht : DerivesWhole w t) (hb : DerivesBlock v b)
    (hd : Stmt.nestingOfBlock b ≤ d) (hc : c.kinds = w ++ (v ++ u))
    (hfindings : c.findings = []) :
    ∃ e c₁ body c₂, expression c = (some e, c₁) ∧ block c₁ = (some body, c₂) ∧ c₂.kinds = u ∧
      c₂.findings = [] ∧ e.bare = t.folded ∧ Stmt.bareBlock body = Stmt.foldedBlock b := by
  have hstops : Stops .disjunction ((v ++ u).headD .fileEnd) := by
    obtain ⟨v', rfl⟩ := hb.exists_cons
    exact stops_of_closesExpr rfl
  obtain ⟨e, c₁, he, hc₁, hfindings₁, hbare⟩ := reads_expression.complete ht.1 ht.2 hc hstops
  obtain ⟨body, c₂, hbody, hc₂, hfindings₂, hbare₂⟩ :=
    hblock.complete hb hd hc₁ (by rw [hfindings₁, hfindings])
  exact ⟨e, c₁, body, c₂, he, hbody, hc₂, hfindings₂, hbare, hbare₂⟩

theorem whileStmt_complete (hblock : ReadsBlocks block d) {c : Cursor} {w v u : List TokenKind}
    {t : Expr} {b : Block} (ht : DerivesWhole w t) (hb : DerivesBlock v b)
    (hd : Stmt.nestingOfBlock b ≤ d) (hc : c.kinds = .keyword .whileWord :: (w ++ (v ++ u)))
    (hfindings : c.findings = []) :
    ∃ s c', whileStmt block c = (some s, c') ∧ c'.kinds = u ∧ c'.findings = [] ∧
      s.bare = .loop .blank t.folded (Stmt.foldedBlock b) := by
  have hadvance : c.advance.kinds = w ++ (v ++ u) := by simp [hc]
  obtain ⟨e, c₁, body, c₂, he, hbody, hc₂, hfindings₂, hbare, hbare₂⟩ :=
    condition_complete hblock ht hb hd hadvance (by simpa using hfindings)
  refine ⟨.loop (c.peek.span.merge body.span) e body, c₂, ?_, hc₂, hfindings₂, ?_⟩
  · rw [whileStmt, advance_bind_apply, bind_of_eq_some he, bind_of_eq_some hbody, pure_apply]
  · simp [Stmt.bare, hbare, hbare₂]

theorem honest_branches (hblock : Honest block) (bound : List Token) :
    Honest (branches block bound) := by
  induction bound with
  | nil => exact honest_fail _
  | cons _ bound ih =>
      apply honest_bind reads_expression.honest
      intro condition
      apply honest_bind hblock
      intro body
      apply honest_bind (honest_of_success (fun c => ⟨_, rfl⟩) (fun _ => rfl))
      intro next
      apply honest_ite
      · apply honest_bind honest_skipLineEnds
        intro _
        apply honest_bind honest_advance
        intro _
        apply honest_bind (honest_eat _)
        intro found
        exact honest_ite (honest_bind ih fun _ => honest_pure _)
          (honest_bind hblock fun _ => honest_pure _)
      · exact honest_pure _

theorem honest_ifStmt (hblock : Honest block) : Honest (ifStmt block) :=
  honest_bind honest_advance fun _ =>
    honest_bind (honest_bounded (honest_branches hblock)) fun _ => honest_pure _

/-- One round of the chain of an `if`, once its condition and block have been read. -/
theorem branches_cons {t : Token} {bound : List Token} {c c₁ c₂ : Cursor} {e : Expr}
    {body : Block} (he : expression c = (some e, c₁)) (hbody : block c₁ = (some body, c₂)) :
    branches block (t :: bound) c =
      if c₂.kindPastLineEnds = .keyword .elseWord then
        if c₂.skipLineEnds.advance.kind = .keyword .ifWord then
          (branches block bound >>= fun rest => pure (.branch e body rest))
            c₂.skipLineEnds.advance.advance
        else
          (block >>= fun last => pure (.branch e body (.otherwise last)))
            c₂.skipLineEnds.advance
      else (some (.branch e body .done), c₂) := by
  rw [branches, bind_of_eq_some he, bind_of_eq_some hbody]
  change (if c₂.kindPastLineEnds = .keyword .elseWord then _ else _ : Parser Branches) c₂ = _
  split
  · rw [skipLineEnds_bind_apply, advance_bind_apply, eat_bind_apply]
    split <;> rfl
  · rfl

/-- An `else` past line ends, and the cursor behind it. -/
theorem kinds_eq_of_kindPastLineEnds {c : Cursor} {k : TokenKind} (h : c.kindPastLineEnds = k)
    (hk : k ≠ .fileEnd) : ∃ n, c.kinds = lineEnds n ++ k :: c.skipLineEnds.advance.kinds := by
  obtain ⟨n, hn⟩ := c.exists_kinds_eq_skipLineEnds
  have hkind : c.skipLineEnds.kind = k := by
    rw [Cursor.kind_eq_headD, Cursor.kinds_skipLineEnds, ← Cursor.kindPastLineEnds_eq, h]
  exact ⟨n, by rw [← Cursor.kinds_eq_cons hkind hk, ← hn]⟩

theorem branches_sound (hblock : ReadsBlocks block d) {bound : List Token} {c c' : Cursor}
    {found : Branches} (h : branches block bound c = (some found, c'))
    (hfindings : c'.findings = []) :
    ∃ w t, c.kinds = w ++ c'.kinds ∧ DerivesChoice w t ∧ Stmt.nestingOfBranches t ≤ d ∧
      Stmt.bareBranches found = Stmt.foldedBranches t := by
  induction bound generalizing c found with
  | nil => simp [branches, fail] at h
  | cons t bound ih =>
      have hround := h
      rw [branches] at hround
      obtain ⟨e, c₁, he, hround⟩ := bind_eq_some.mp hround
      obtain ⟨body, c₂, hbody, -⟩ := bind_eq_some.mp hround
      rw [branches_cons he hbody] at h
      obtain ⟨w, a, hw, ha, hda, hbare, -⟩ := reads_expression.sound he
      split at h
      · rename_i helse
        obtain ⟨n, hn⟩ := kinds_eq_of_kindPastLineEnds helse (by simp)
        split at h
        · rename_i hif
          obtain ⟨rest, c₃, hrest, h⟩ := bind_eq_some.mp h
          cases h
          have hfindings₂ : c₂.findings = [] := by
            simpa using (honest_branches hblock.honest bound).findings_eq_nil hrest hfindings
          obtain ⟨v, b, hv, hb, hdb, hbare₂⟩ := hblock.sound hbody hfindings₂
          obtain ⟨u, bs, hu, hbs, hdbs, hbares⟩ := ih hrest
          refine ⟨_, _, ?_, .again n ⟨ha, hda⟩ hb hbs, Nat.max_le.mpr ⟨hdb, hdbs⟩, ?_⟩
          · rw [hw, hv, hn, Cursor.kinds_eq_cons hif (by simp), hu]
            simp
          · simp [Stmt.bareBranches, Stmt.foldedBranches, hbare, hbare₂, hbares]
        · obtain ⟨last, c₃, hlast, h⟩ := bind_eq_some.mp h
          cases h
          have hfindings₂ : c₂.findings = [] := by
            simpa using hblock.honest.findings_eq_nil hlast hfindings
          obtain ⟨v, b, hv, hb, hdb, hbare₂⟩ := hblock.sound hbody hfindings₂
          obtain ⟨u, l, hu, hl, hdl, hbare₃⟩ := hblock.sound hlast hfindings
          refine ⟨_, _, ?_, .otherwise n ⟨ha, hda⟩ hb hl, Nat.max_le.mpr ⟨hdb, hdl⟩, ?_⟩
          · rw [hw, hv, hn, hu]
            simp
          · simp [Stmt.bareBranches, Stmt.foldedBranches, hbare, hbare₂, hbare₃]
      · cases h
        obtain ⟨v, b, hv, hb, hdb, hbare₂⟩ := hblock.sound hbody hfindings
        refine ⟨_, _, ?_, .done ⟨ha, hda⟩ hb, Nat.max_le.mpr ⟨hdb, Nat.zero_le d⟩, ?_⟩
        · rw [hw, hv]
          simp
        · simp [Stmt.bareBranches, Stmt.foldedBranches, hbare, hbare₂]

theorem ifStmt_sound (hblock : ReadsBlocks block d) {c c' : Cursor} {s : Stmt}
    (hk : c.kind = .keyword .ifWord) (h : ifStmt block c = (some s, c'))
    (hfindings : c'.findings = []) : CompoundBetween d c s c' := by
  rw [ifStmt, advance_bind_apply] at h
  obtain ⟨found, c₁, hfound, h⟩ := bind_eq_some.mp h
  cases h
  obtain ⟨w, t, hw, ht, hd, hbares⟩ := branches_sound hblock hfound hfindings
  refine ⟨_, _, ?_, .choose ht, hd, ?_⟩
  · rw [Cursor.kinds_eq_cons hk (by simp), hw]
    rfl
  · simp [Stmt.bare, Stmt.folded, hbares]

theorem kindPastLineEnds_of_kinds {c : Cursor} {n : Nat} {k : TokenKind} {v : List TokenKind}
    (hc : c.kinds = lineEnds n ++ k :: v) (hk : k ≠ .lineEnd) :
    c.kindPastLineEnds = k ∧ c.skipLineEnds.advance.kinds = v := by
  have hdrop : dropLineEnds c.kinds = k :: v := by
    rw [hc, dropLineEnds_lineEnds_append, dropLineEnds_cons hk]
  constructor
  · rw [Cursor.kindPastLineEnds_eq, hdrop]
    rfl
  · rw [Cursor.kinds_advance, Cursor.kinds_skipLineEnds, hdrop]
    rfl

theorem branches_complete (hblock : ReadsBlocks block d) {bound : List Token} {c : Cursor}
    {w v : List TokenKind} {t : Branches} (ht : DerivesChoice w t)
    (hd : Stmt.nestingOfBranches t ≤ d) (hc : c.kinds = w ++ v) (hfindings : c.findings = [])
    (hbound : c.kinds.length ≤ bound.length)
    (helse : (dropLineEnds v).headD .fileEnd ≠ .keyword .elseWord) :
    ∃ found c', branches block bound c = (some found, c') ∧ c'.kinds = v ∧ c'.findings = [] ∧
      Stmt.bareBranches found = Stmt.foldedBranches t := by
  match ht with
  | @DerivesChoice.done x y _ _ ha hb =>
      have hdb := (Nat.max_le.mp hd).1
      rw [List.append_assoc] at hc
      have hlength := congrArg List.length hc
      obtain ⟨k, x, rfl, -⟩ := ha.exists_head
      simp only [List.cons_append, List.length_cons] at hlength
      obtain ⟨_, bound, rfl⟩ := List.exists_cons_of_length_pos (l := bound) (by omega)
      obtain ⟨e, c₁, body, c₂, he, hbody, hc₂, hfindings₂, hbare, hbare₂⟩ :=
        condition_complete hblock ha hb hdb hc hfindings
      have hnext : c₂.kindPastLineEnds ≠ .keyword .elseWord := by
        rwa [Cursor.kindPastLineEnds_eq, hc₂]
      refine ⟨.branch e body .done, c₂, ?_, hc₂, hfindings₂, ?_⟩
      · rw [branches_cons he hbody, if_neg hnext]
      · simp [Stmt.bareBranches, Stmt.foldedBranches, hbare, hbare₂]
  | @DerivesChoice.otherwise x y u _ _ _ n ha hb hl =>
      have hd' := Nat.max_le.mp hd
      have hc' : c.kinds = x ++ (y ++ (lineEnds n ++ .keyword .elseWord :: (u ++ v))) := by
        simp [hc]
      have hlength := congrArg List.length hc'
      obtain ⟨k, x, rfl, -⟩ := ha.exists_head
      simp only [List.cons_append, List.length_cons] at hlength
      obtain ⟨_, bound, rfl⟩ := List.exists_cons_of_length_pos (l := bound) (by omega)
      obtain ⟨e, c₁, body, c₂, he, hbody, hc₂, hfindings₂, hbare, hbare₂⟩ :=
        condition_complete hblock ha hb hd'.1 hc' hfindings
      obtain ⟨hnext, hrest⟩ := kindPastLineEnds_of_kinds hc₂ (by simp)
      have hif : c₂.skipLineEnds.advance.kind ≠ .keyword .ifWord := by
        obtain ⟨u', rfl⟩ := hl.exists_cons
        rw [Cursor.kind_of_kinds_cons hrest]
        simp
      obtain ⟨last, c₃, hlast, hc₃, hfindings₃, hbare₃⟩ :=
        hblock.complete hl hd'.2 hrest (by simpa using hfindings₂)
      refine ⟨.branch e body (.otherwise last), c₃, ?_, hc₃, hfindings₃, ?_⟩
      · rw [branches_cons he hbody, if_pos hnext, if_neg hif, bind_of_eq_some hlast, pure_apply]
      · simp [Stmt.bareBranches, Stmt.foldedBranches, hbare, hbare₂, hbare₃]
  | @DerivesChoice.again x y u _ _ _ n ha hb hrest =>
      have hd' := Nat.max_le.mp hd
      have hc' : c.kinds = x ++ (y ++ (lineEnds n ++ .keyword .elseWord ::
          (.keyword .ifWord :: (u ++ v)))) := by
        simp [hc]
      have hlength := congrArg List.length hc'
      obtain ⟨k, x, rfl, -⟩ := ha.exists_head
      simp only [List.cons_append, List.length_cons, List.length_append] at hlength
      obtain ⟨_, bound, rfl⟩ := List.exists_cons_of_length_pos (l := bound) (by omega)
      rw [List.length_cons] at hbound
      obtain ⟨e, c₁, body, c₂, he, hbody, hc₂, hfindings₂, hbare, hbare₂⟩ :=
        condition_complete hblock ha hb hd'.1 hc' hfindings
      obtain ⟨hnext, hafter⟩ := kindPastLineEnds_of_kinds hc₂ (by simp)
      have hif : c₂.skipLineEnds.advance.kind = .keyword .ifWord :=
        Cursor.kind_of_kinds_cons hafter
      have hadvance : c₂.skipLineEnds.advance.advance.kinds = u ++ v := by
        rw [Cursor.kinds_advance, hafter, List.tail_cons]
      have hlength' : c₂.skipLineEnds.advance.advance.kinds.length ≤ bound.length := by
        rw [hadvance, List.length_append]
        omega
      obtain ⟨rest, c₃, hfound, hc₃, hfindings₃, hbares⟩ :=
        branches_complete hblock hrest hd'.2 hadvance (by simpa using hfindings₂) hlength' helse
      refine ⟨.branch e body rest, c₃, ?_, hc₃, hfindings₃, ?_⟩
      · rw [branches_cons he hbody, if_pos hnext, if_pos hif, bind_of_eq_some hfound, pure_apply]
      · simp [Stmt.bareBranches, Stmt.foldedBranches, hbare, hbare₂, hbares]

theorem ifStmt_complete (hblock : ReadsBlocks block d) {c : Cursor} {w v : List TokenKind}
    {t : Branches} (ht : DerivesChoice w t) (hd : Stmt.nestingOfBranches t ≤ d)
    (hc : c.kinds = .keyword .ifWord :: (w ++ v)) (hfindings : c.findings = [])
    (helse : (dropLineEnds v).headD .fileEnd ≠ .keyword .elseWord) :
    ∃ s c', ifStmt block c = (some s, c') ∧ c'.kinds = v ∧ c'.findings = [] ∧
      s.bare = .choose .blank (Stmt.foldedBranches t) := by
  have hadvance : c.advance.kinds = w ++ v := by simp [hc]
  obtain ⟨found, c', hfound, hv, hfindings', hbares⟩ :=
    branches_complete hblock ht hd hadvance (by simpa using hfindings)
      (Nat.le_of_eq (Cursor.kinds_length _)) helse
  refine ⟨.choose (c.peek.span.merge (found.lastSpan?.getD c.peek.span)) found, c', ?_, hv,
    hfindings', ?_⟩
  · rw [ifStmt, advance_bind_apply]
    exact bind_of_eq_some hfound
  · simp [Stmt.bare, hbares]

end Compound

end KitchenScript.Parser
