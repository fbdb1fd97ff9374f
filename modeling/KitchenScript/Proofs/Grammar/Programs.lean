import KitchenScript.Proofs.Grammar.Statements

/-!
# Programs are read as the grammar has them

The reader of programs accepts exactly the words of the grammar, and what it builds is, up to
spans, the tree of the word.  The loop over statements stops where the file or the block ends;
as long as nothing has been found wrong it neither stops earlier nor passes anything over.
-/

namespace KitchenScript.Parser

open Grammar

section Statement

variable {block : Parser Block} {d : Nat} {inBlock : Bool}

theorem honest_varStmt (inBlock : Bool) : Honest (varStmt inBlock) :=
  honest_bind honest_advance fun _ => honest_bind honest_ident fun _ =>
    honest_bind (honest_expect _) fun _ => honest_expressionLine inBlock _

theorem honest_assignStmt (inBlock : Bool) : Honest (assignStmt inBlock) :=
  honest_bind honest_ident fun _ => honest_bind honest_advance fun _ =>
    honest_expressionLine inBlock _

theorem honest_returnValue : Honest returnValue := by
  apply honest_bind honest_kind
  intro k
  have hvalue : Honest (expression >>= fun value => pure (some value)) :=
    honest_bind reads_expression.honest fun _ => honest_pure _
  cases k with
  | lineEnd => exact honest_pure none
  | fileEnd => exact honest_pure none
  | symbol mark =>
      cases mark with
      | rightBrace => exact honest_pure none
      | _ => exact hvalue
  | _ => exact hvalue

theorem honest_returnStmt (inBlock : Bool) : Honest (returnStmt inBlock) :=
  honest_bind honest_advance fun _ => honest_bind honest_returnValue fun _ =>
    honest_bind (honest_statementEnd inBlock) fun _ => honest_pure _

theorem honest_statement (hblock : Honest block) : Honest (statement inBlock block) := by
  intro c
  unfold statement
  split
  · exact honest_varStmt inBlock c
  · exact honest_funcStmt hblock c
  · exact honest_ifStmt hblock c
  · exact honest_whileStmt hblock c
  · exact honest_returnStmt inBlock c
  · exact honest_fail _ c
  · split
    · exact honest_assignStmt inBlock c
    · exact honest_expressionLine inBlock _ c

theorem statement_sound (hblock : ReadsBlocks block d) {c c' : Cursor} {s : Stmt}
    (h : statement inBlock block c = (some s, c')) (hfindings : c'.findings = []) :
    SimpleBetween c s c' ∨ CompoundBetween d c s c' := by
  unfold statement at h
  split at h
  · rename_i hk
    exact .inl (varStmt_sound hk h hfindings)
  · rename_i hk
    exact .inr (funcStmt_sound hblock hk h hfindings)
  · rename_i hk
    exact .inr (ifStmt_sound hblock hk h hfindings)
  · rename_i hk
    exact .inr (whileStmt_sound hblock hk h hfindings)
  · rename_i hk
    exact .inl (returnStmt_sound hk h hfindings)
  · simp [fail] at h
  · split at h
    · rename_i hassign
      exact .inl (assignStmt_sound hassign h hfindings)
    · exact .inl (exprStmt_sound h hfindings)

theorem statement_of_opensExpr {c : Cursor} (h : opensExpr c.kind = true) :
    statement inBlock block c =
      if startsAssignment c then assignStmt inBlock c else exprStmt inBlock c := by
  unfold statement
  split <;> rename_i hk <;> first | rfl | (rw [hk] at h; cases h)

/-- A whole expression is not taken for an assignment. -/
theorem ne_assignment_of_whole {w v u : List TokenKind} {t : Expr} {x : String}
    (ht : DerivesWhole w t) (hv : EndsStmt (v.headD .fileEnd)) :
    w ++ v ≠ .identifier x :: .symbol .assign :: u := by
  intro h
  match w with
  | [] =>
      obtain ⟨k, w, hw, -⟩ := ht.exists_head
      cases hw
  | [k] =>
      have htail : v = .symbol .assign :: u := (List.cons.inj h).2
      rw [htail] at hv
      simp [EndsStmt] at hv
  | k :: k' :: w =>
      have hk : k' = .symbol .assign := (List.cons.inj (List.cons.inj h).2).1
      have hall := List.all_eq_true.mp ht.1.all_inExpr k' (by simp)
      rw [hk] at hall
      cases hall

theorem statement_complete_simple (block : Parser Block) (inBlock : Bool) {c : Cursor}
    {w v : List TokenKind} {t : Stmt} (ht : DerivesSimple w t) (hc : c.kinds = w ++ v)
    (hv : EndsStmt (v.headD .fileEnd)) :
    ∃ s c', statement inBlock block c = (some s, c') ∧ c'.kinds = dropLineEnds v ∧
      c'.findings = c.findings ∧ s.bare = t.folded := by
  cases ht with
  | @var x u t ht =>
      have hk : c.kind = .keyword .varWord := Cursor.kind_of_kinds_cons hc
      have hname : c.advance.kinds = .identifier x :: .symbol .assign :: (u ++ v) := by simp [hc]
      have hassign : c.advance.advance.kind = .symbol .assign := by
        apply Cursor.kind_of_kinds_cons (v := u ++ v)
        simp [hc]
      have hvalue : c.advance.advance.advance.kinds = u ++ v := by simp [hc]
      obtain ⟨e, c', he, hc', hfindings, hbare⟩ := expressionLine_complete inBlock
        (fun value => .var (c.peek.span.merge value.span) ⟨x, c.advance.span⟩ value) ht hvalue hv
      refine ⟨.var (c.peek.span.merge e.span) ⟨x, c.advance.span⟩ e, c', ?_, hc',
        by simpa using hfindings, ?_⟩
      · unfold statement
        rw [hk]
        simp only [varStmt, advance_bind_apply, bind_of_eq_some (ident_of_kinds hname),
          expect_bind_apply, hassign, if_true]
        exact he
      · simp [Stmt.bare, Stmt.folded, Ident.bare, hbare]
  | @assign x u t ht =>
      have hopens : opensExpr c.kind = true := by
        rw [Cursor.kind_of_kinds_cons hc]
        rfl
      have hassign : startsAssignment c = true := startsAssignment_iff.mpr ⟨x, u ++ v, hc⟩
      have hvalue : c.advance.advance.kinds = u ++ v := by simp [hc]
      obtain ⟨e, c', he, hc', hfindings, hbare⟩ := expressionLine_complete inBlock
        (fun value => .assign (c.span.merge value.span) ⟨x, c.span⟩ value) ht hvalue hv
      refine ⟨.assign (c.span.merge e.span) ⟨x, c.span⟩ e, c', ?_, hc',
        by simpa using hfindings, ?_⟩
      · rw [statement_of_opensExpr hopens, if_pos hassign, assignStmt,
          bind_of_eq_some (ident_of_kinds hc), advance_bind_apply]
        exact he
      · simp [Stmt.bare, Stmt.folded, Ident.bare, hbare]
  | giveBack ht =>
      have hk : c.kind = .keyword .returnWord := Cursor.kind_of_kinds_cons hc
      obtain ⟨s, c', hs, hc', hfindings, hbare⟩ := returnStmt_complete inBlock ht hc hv
      refine ⟨s, c', ?_, hc', hfindings, ?_⟩
      · unfold statement
        rw [hk]
        exact hs
      · simp [hbare, Stmt.folded]
  | giveBackNothing =>
      have hk : c.kind = .keyword .returnWord := Cursor.kind_of_kinds_cons hc
      obtain ⟨s, c', hs, hc', hfindings, hbare⟩ := returnStmt_complete_nothing inBlock hc hv
      refine ⟨s, c', ?_, hc', hfindings, ?_⟩
      · unfold statement
        rw [hk]
        exact hs
      · simp [hbare, Stmt.folded]
  | expr ht =>
      obtain ⟨k, u, rfl, hk⟩ := ht.exists_head
      have hopens : opensExpr c.kind = true := by rwa [Cursor.kind_of_kinds_cons hc]
      have hassign : startsAssignment c ≠ true := by
        intro hassign
        obtain ⟨x, y, hy⟩ := startsAssignment_iff.mp hassign
        exact ne_assignment_of_whole ht hv (hc.symm.trans hy)
      obtain ⟨e, c', he, hc', hfindings, hbare⟩ :=
        expressionLine_complete inBlock (fun value => .expr value.span value) ht hc hv
      refine ⟨.expr e.span e, c', ?_, hc', hfindings, ?_⟩
      · rw [statement_of_opensExpr hopens, if_neg hassign]
        exact he
      · simp [Stmt.bare, Stmt.folded, hbare]

theorem statement_complete_compound (hblock : ReadsBlocks block d) (inBlock : Bool) {c : Cursor}
    {w v : List TokenKind} {t : Stmt} (ht : DerivesCompound w t) (hd : t.blockNesting ≤ d)
    (hc : c.kinds = w ++ v) (hfindings : c.findings = [])
    (helse : (dropLineEnds v).headD .fileEnd ≠ .keyword .elseWord) :
    ∃ s c', statement inBlock block c = (some s, c') ∧ c'.kinds = v ∧ c'.findings = [] ∧
      s.bare = t.folded := by
  cases ht with
  | @func x u u' xs body hxs hbody =>
      have hk : c.kind = .keyword .funcWord := Cursor.kind_of_kinds_cons hc
      have hword : c.kinds = .keyword .funcWord :: .identifier x :: .symbol .leftParen ::
          (u ++ .symbol .rightParen :: (u' ++ v)) := by simp [hc]
      obtain ⟨s, c', hs, hc', hfindings', hbare⟩ :=
        funcStmt_complete hblock hxs hbody hd hword hfindings
      refine ⟨s, c', ?_, hc', hfindings', ?_⟩
      · unfold statement
        rw [hk]
        exact hs
      · simp [hbare, Stmt.folded]
  | choose hbranches =>
      have hk : c.kind = .keyword .ifWord := Cursor.kind_of_kinds_cons hc
      obtain ⟨s, c', hs, hc', hfindings', hbare⟩ :=
        ifStmt_complete hblock hbranches hd hc hfindings helse
      refine ⟨s, c', ?_, hc', hfindings', ?_⟩
      · unfold statement
        rw [hk]
        exact hs
      · simp [hbare, Stmt.folded]
  | @loop u u' e body he hbody =>
      have hk : c.kind = .keyword .whileWord := Cursor.kind_of_kinds_cons hc
      have hword : c.kinds = .keyword .whileWord :: (u ++ (u' ++ v)) := by simp [hc]
      obtain ⟨s, c', hs, hc', hfindings', hbare⟩ :=
        whileStmt_complete hblock he hbody hd hword hfindings
      refine ⟨s, c', ?_, hc', hfindings', ?_⟩
      · unfold statement
        rw [hk]
        exact hs
      · simp [hbare, Stmt.folded]

end Statement

/-! ## The loop over statements -/

section Loop

variable {stmt : Parser Stmt} {inBlock : Bool} {d : Nat}

/-- Where the loop over statements may stop: the file ends, or the block does. -/
def Closes (inBlock : Bool) (k : TokenKind) : Prop :=
  k = .fileEnd ∨ inBlock = true ∧ k = .symbol .rightBrace

theorem findings_statements (inBlock : Bool) (hstmt : Honest stmt) (bound : List Token)
    (c : Cursor) :
    c.findings <+: (statements inBlock stmt bound c).2.findings := by
  induction bound generalizing c with
  | nil => exact List.prefix_rfl
  | cons _ bound ih =>
      rw [statements]
      split
      · exact List.prefix_rfl
      · split
        · refine List.IsPrefix.trans ?_ (ih _)
          simp
        · have hgrow := (hstmt c).1
          split <;> rename_i h <;> rw [h] at hgrow
          · refine hgrow.trans ?_
            have := ih (Cursor.skipLineEnds ‹_›)
            simpa using this
          · refine hgrow.trans ?_
            have := ih ((Cursor.synchronize inBlock ‹_›).skipLineEnds)
            simpa using this

/-- One round of the loop, in a reading that ends without findings. -/
theorem statements_cons {t : Token} {bound : List Token} {c c' : Cursor} {stmts : List Stmt}
    (hstmt : Honest stmt) (h : statements inBlock stmt (t :: bound) c = (stmts, c'))
    (hfindings : c'.findings = []) :
    stmts = [] ∧ c' = c ∧ Closes inBlock c.kind ∨
      ∃ s c₁ rest, stmt c = (some s, c₁) ∧ stmts = s :: rest ∧
        statements inBlock stmt bound c₁.skipLineEnds = (rest, c') := by
  have hnil : ∀ {c₀ : Cursor}, (statements inBlock stmt bound c₀).2 = c' → c₀.findings = [] := by
    intro c₀ hc₀
    have hgrow := findings_statements inBlock hstmt bound c₀
    rw [hc₀, hfindings] at hgrow
    exact List.prefix_nil.mp hgrow
  rw [statements] at h
  split at h
  · rename_i hstop
    cases h
    left
    refine ⟨rfl, rfl, ?_⟩
    rcases hstop with hend | hclose | hfull
    · exact .inl hend
    · exact .inr hclose
    · simp [Cursor.isFull, hfindings, Diagnostics.capacity] at hfull
  · split at h
    · have := hnil (congrArg Prod.snd h)
      simp at this
    · right
      split at h
      · rename_i s c₁ hs
        cases hrest : statements inBlock stmt bound c₁.skipLineEnds with
        | mk rest c₂ =>
            rw [hrest] at h
            cases h
            exact ⟨s, c₁, rest, hs, rfl, hrest⟩
      · rename_i c₁ hs
        have := hnil (congrArg Prod.snd h)
        exact absurd (by simpa using this) (hstmt.findings_ne_nil hs)

/-- What is read after a statement and the end of its line begins a line. -/
theorem endsLine_of_lineEnded {c c' : Cursor} {n m : Nat} {v u : List TokenKind}
    {stmts : List Stmt} (hn : LineEnded c n c') (hm : c'.kinds = lineEnds m ++ (v ++ u))
    (hv : DerivesBody v stmts) : EndsLine (lineEnds (n + m) ++ v) := by
  rcases Nat.eq_zero_or_pos (n + m) with hzero | hpos
  · obtain ⟨rfl, rfl⟩ : n = 0 ∧ m = 0 := by omega
    rcases hv.head with rfl | ⟨k, v, rfl, rfl | hk⟩
    · exact .inl rfl
    · exact .inr rfl
    · -- a statement cannot begin where the file or the block ends
      have hkind : c'.kind = k := Cursor.kind_of_kinds_cons hm
      rcases hn.2 with hlt | hend | hclose
      · omega
      · rw [← hkind, hend] at hk
        cases hk
      · rw [← hkind, hclose] at hk
        cases hk
  · obtain ⟨j, hj⟩ := Nat.exists_eq_add_one_of_ne_zero (Nat.ne_of_gt hpos)
    rw [hj]
    exact .inr rfl

/-- The loop reads a body, up to where it may stop. -/
theorem statements_sound (hhonest : Honest stmt)
    (hstmt : ∀ {c s c'}, stmt c = (some s, c') → c'.findings = [] →
      SimpleBetween c s c' ∨ CompoundBetween d c s c')
    {bound : List Token} {c c' : Cursor} {stmts : List Stmt}
    (h : statements inBlock stmt bound c = (stmts, c')) (hbound : c.kinds.length ≤ bound.length)
    (hfindings : c'.findings = []) :
    ∃ w ts, c.kinds = w ++ c'.kinds ∧ DerivesBody w ts ∧ Stmt.blockNestingAll ts ≤ d ∧
      Stmt.bareAll stmts = Stmt.foldedAll ts ∧ Closes inBlock c'.kind := by
  induction bound generalizing c stmts with
  | nil =>
      cases h
      have hnil : c'.kinds = [] := by simpa using hbound
      refine ⟨[], [], rfl, .done 0, Nat.zero_le d, rfl, .inl ?_⟩
      rw [Cursor.kind_eq_headD, hnil]
      rfl
  | cons t bound ih =>
      rcases statements_cons hhonest h hfindings with
        ⟨rfl, rfl, hcloses⟩ | ⟨s, c₁, rest, hs, rfl, hrest⟩
      · exact ⟨[], [], rfl, .done 0, Nat.zero_le d, rfl, hcloses⟩
      · have hfindings₁ : c₁.findings = [] := by
          have hgrow := findings_statements inBlock hhonest bound c₁.skipLineEnds
          rw [hrest, hfindings] at hgrow
          simpa using hgrow
        obtain ⟨m, hm⟩ := c₁.exists_kinds_eq_skipLineEnds
        rcases hstmt hs hfindings₁ with
          ⟨w, a, c₂, n, hw, hn, ha, hbare⟩ | ⟨w, a, hw, ha, hd, hbare⟩
        · have hlength : c₁.skipLineEnds.kinds.length ≤ bound.length := by
            obtain ⟨k, w, rfl, -⟩ := ha.exists_head
            rw [hw, hn.1, hm] at hbound
            simp only [List.length_append, List.length_cons] at hbound
            omega
          obtain ⟨v, ts, hv, hts, hdts, hbares, hcloses⟩ := ih hrest hlength
          have hends := endsLine_of_lineEnded hn (hm.trans (by rw [hv])) hts
          refine ⟨w ++ (lineEnds (n + m) ++ v), a :: ts, ?_,
            .simple 0 ha hends (hts.after_lineEnds (n + m)), ?_, ?_, hcloses⟩
          · rw [hw, hn.1, hm, hv, lineEnds_add]
            simp
          · rw [Stmt.blockNestingAll, ha.blockNesting_eq]
            exact Nat.max_le.mpr ⟨Nat.zero_le d, hdts⟩
          · rw [Stmt.bareAll, Stmt.foldedAll, hbare, hbares]
        · have hlength : c₁.skipLineEnds.kinds.length ≤ bound.length := by
            obtain ⟨k, w, rfl, -⟩ := ha.exists_head
            rw [hw, hm] at hbound
            simp only [List.length_append, List.length_cons] at hbound
            omega
          obtain ⟨v, ts, hv, hts, hdts, hbares, hcloses⟩ := ih hrest hlength
          refine ⟨w ++ (lineEnds m ++ v), a :: ts, ?_, .compound 0 ha (hts.after_lineEnds m),
            Nat.max_le.mpr ⟨hd, hdts⟩, ?_, hcloses⟩
          · rw [hw, hm, hv]
            simp
          · rw [Stmt.bareAll, Stmt.foldedAll, hbare, hbares]

theorem statements_of_closes {bound : List Token} {c : Cursor} (h : Closes inBlock c.kind) :
    statements inBlock stmt bound c = ([], c) := by
  cases bound with
  | nil => rfl
  | cons t bound =>
      rw [statements, if_pos]
      rcases h with hend | hclose
      · exact .inl hend
      · exact .inr (.inl hclose)

/-- A round on a statement, and what the rounds after it give. -/
theorem statements_of_statement {bound : List Token} {c c₁ : Cursor} {s : Stmt} {k : TokenKind}
    {x y : List TokenKind} {P : List Stmt → Cursor → Prop} (hc : c.kinds = k :: (x ++ y))
    (hk : opensStmt k = true) (hfindings : c.findings = []) (hs : stmt c = (some s, c₁))
    (hc₁ : c₁.skipLineEnds.kinds = dropLineEnds y) (hbound : c.kinds.length ≤ bound.length)
    (hrest : ∀ {bound : List Token}, c₁.skipLineEnds.kinds.length ≤ bound.length →
      ∃ rest c', statements inBlock stmt bound c₁.skipLineEnds = (rest, c') ∧ P rest c') :
    ∃ rest c', statements inBlock stmt bound c = (s :: rest, c') ∧ P rest c' := by
  have hlength := congrArg List.length hc
  rw [List.length_cons, List.length_append] at hlength
  obtain ⟨t, bound, rfl⟩ := List.exists_cons_of_length_pos (l := bound) (by omega)
  have hlength' : c₁.skipLineEnds.kinds.length ≤ bound.length := by
    have := length_dropLineEnds_le y
    rw [List.length_cons] at hbound
    rw [hc₁]
    omega
  obtain ⟨rest, c', hstatements, hP⟩ := hrest hlength'
  have hkind : c.kind = k := Cursor.kind_of_kinds_cons hc
  have hstop : ¬(c.kind = .fileEnd ∨ (inBlock = true ∧ c.kind = .symbol .rightBrace) ∨
      c.isFull = true) := by
    rw [hkind]
    rintro (rfl | ⟨-, rfl⟩ | hfull)
    · cases hk
    · cases hk
    · simp [Cursor.isFull, hfindings, Diagnostics.capacity] at hfull
  have hclose : c.kind ≠ .symbol .rightBrace := by
    rw [hkind]
    rintro rfl
    cases hk
  refine ⟨rest, c', ?_, hP⟩
  rw [statements, if_neg hstop, if_neg hclose, hs]
  simp only [hstatements]

end Loop

theorem Closes.endsStmt {inBlock : Bool} {k : TokenKind} (h : Closes inBlock k) : EndsStmt k := by
  rcases h with rfl | ⟨-, rfl⟩
  · exact .inr (.inl rfl)
  · exact .inr (.inr rfl)

theorem Closes.ne_lineEnd {inBlock : Bool} {k : TokenKind} (h : Closes inBlock k) :
    k ≠ .lineEnd := by
  rcases h with rfl | ⟨-, rfl⟩ <;> simp

theorem Closes.ne_else {inBlock : Bool} {k : TokenKind} (h : Closes inBlock k) :
    k ≠ .keyword .elseWord := by
  rcases h with rfl | ⟨-, rfl⟩ <;> simp

/-- A body that follows a block does not begin with an `else`. -/
theorem headD_ne_else {inBlock : Bool} {w v : List TokenKind} {ts : List Stmt}
    (ht : DerivesBody w ts) (hv : Closes inBlock (v.headD .fileEnd)) :
    (dropLineEnds (w ++ v)).headD .fileEnd ≠ .keyword .elseWord := by
  obtain ⟨n, hn⟩ := exists_lineEnds_append w
  rw [hn, List.append_assoc, dropLineEnds_lineEnds_append]
  rcases ht.dropLineEnds_eq with hnil | ⟨k, u, hku, hk⟩
  · rw [hnil, List.nil_append, dropLineEnds_of_headD_ne hv.ne_lineEnd]
    exact hv.ne_else
  · rw [hku, List.cons_append, dropLineEnds_cons (opensStmt.ne_lineEnd hk), List.headD_cons]
    rintro rfl
    cases hk

/-- The loop takes all of a body that is followed by what closes it. -/
theorem statements_complete {block : Parser Block} {d : Nat} (hblock : ReadsBlocks block d)
    (inBlock : Bool) {bound : List Token} {c : Cursor} {w v : List TokenKind} {ts : List Stmt}
    (ht : DerivesBody w ts) (hd : Stmt.blockNestingAll ts ≤ d)
    (hc : c.kinds = dropLineEnds (w ++ v)) (hfindings : c.findings = [])
    (hbound : c.kinds.length ≤ bound.length) (hv : Closes inBlock (v.headD .fileEnd)) :
    ∃ stmts c', statements inBlock (statement inBlock block) bound c = (stmts, c') ∧
      c'.kinds = v ∧ c'.findings = [] ∧ Stmt.bareAll stmts = Stmt.foldedAll ts := by
  match ht with
  | .done n =>
      rw [dropLineEnds_lineEnds_append, dropLineEnds_of_headD_ne hv.ne_lineEnd] at hc
      refine ⟨[], c, statements_of_closes ?_, hc, hfindings, rfl⟩
      rwa [Cursor.kind_eq_headD, hc]
  | @DerivesBody.simple u u' s rest n hs hends hrest =>
      have hd' := Nat.max_le.mp hd
      obtain ⟨k, x, rfl, hk⟩ := hs.exists_head
      have hword : c.kinds = k :: (x ++ (u' ++ v)) := by
        rw [hc, List.append_assoc, dropLineEnds_lineEnds_append, List.append_assoc,
          List.cons_append, dropLineEnds_cons (opensStmt.ne_lineEnd hk)]
      have hstop : EndsStmt ((u' ++ v).headD .fileEnd) := by
        rcases hends with rfl | hline
        · exact hv.endsStmt
        · obtain ⟨y, rfl⟩ := List.head?_eq_some_iff.mp hline
          exact .inl rfl
      obtain ⟨s', c₁, hs', hc₁, hfindings₁, hbare⟩ :=
        statement_complete_simple block inBlock hs hword hstop
      have hskip : c₁.skipLineEnds.kinds = dropLineEnds (u' ++ v) := by
        rw [Cursor.kinds_skipLineEnds, hc₁, dropLineEnds_dropLineEnds]
      have hfindings₂ : c₁.skipLineEnds.findings = [] := by
        rw [Cursor.findings_skipLineEnds, hfindings₁, hfindings]
      obtain ⟨stmts, c', hstmts, hc', hfindings', hbares⟩ :=
        statements_of_statement hword hk hfindings hs' hskip hbound fun hbound =>
          statements_complete hblock inBlock hrest hd'.2 hskip hfindings₂ hbound hv
      refine ⟨s' :: stmts, c', hstmts, hc', hfindings', ?_⟩
      rw [Stmt.bareAll, Stmt.foldedAll, hbare, hbares]
  | @DerivesBody.compound u u' s rest n hs hrest =>
      have hd' := Nat.max_le.mp hd
      obtain ⟨k, x, rfl, hk⟩ := hs.exists_head
      have hword : c.kinds = k :: (x ++ (u' ++ v)) := by
        rw [hc, List.append_assoc, dropLineEnds_lineEnds_append, List.append_assoc,
          List.cons_append, dropLineEnds_cons (opensStmt.ne_lineEnd hk)]
      obtain ⟨s', c₁, hs', hc₁, hfindings₁, hbare⟩ :=
        statement_complete_compound hblock inBlock hs hd'.1 hword hfindings (headD_ne_else hrest hv)
      have hskip : c₁.skipLineEnds.kinds = dropLineEnds (u' ++ v) := by
        rw [Cursor.kinds_skipLineEnds, hc₁]
      have hfindings₂ : c₁.skipLineEnds.findings = [] := by
        rw [Cursor.findings_skipLineEnds, hfindings₁]
      obtain ⟨stmts, c', hstmts, hc', hfindings', hbares⟩ :=
        statements_of_statement hword hk hfindings hs' hskip hbound fun hbound =>
          statements_complete hblock inBlock hrest hd'.2 hskip hfindings₂ hbound hv
      refine ⟨s' :: stmts, c', hstmts, hc', hfindings', ?_⟩
      rw [Stmt.bareAll, Stmt.foldedAll, hbare, hbares]

/-! ## Blocks -/

theorem honest_blockBody {stmt : Parser Stmt} (hstmt : Honest stmt) : Honest (blockBody stmt) := by
  intro c
  exact ⟨findings_statements true hstmt c.rest c, fun h => nomatch h⟩

theorem honest_block (levels : Nat) : Honest (block levels) := by
  induction levels with
  | zero =>
      rw [block]
      exact honest_bind honest_span fun _ => honest_bind (honest_expect _) fun _ =>
        honest_failAt _ _
  | succ levels ih =>
      rw [block]
      exact honest_bind honest_span fun _ => honest_bind (honest_expect _) fun _ =>
        honest_bind honest_skipLineEnds fun _ =>
          honest_bind (honest_blockBody (honest_statement ih)) fun _ =>
            honest_bind (honest_expect _) fun _ => honest_bind honest_lastSpan fun _ =>
              honest_pure _

theorem block_succ_apply {levels : Nat} {c c₁ : Cursor} {stmts : List Stmt}
    (hopen : c.kind = .symbol .leftBrace)
    (hbody : statements true (statement true (block levels)) c.advance.skipLineEnds.rest
      c.advance.skipLineEnds = (stmts, c₁)) :
    block (levels + 1) c =
      if c₁.kind = .symbol .rightBrace then
        (some (.mk (c.span.merge c₁.advance.last) stmts), c₁.advance)
      else (none, (expect (.symbol .rightBrace) c₁).2) := by
  have hstmts : blockBody (statement true (block levels)) c.advance.skipLineEnds =
      (some stmts, c₁) := by
    rw [blockBody, hbody]
  rw [block, span_bind_apply, expect_bind_apply, if_pos hopen, skipLineEnds_bind_apply,
    bind_of_eq_some hstmts, expect_bind_apply]
  split
  · rw [lastSpan_bind_apply, pure_apply]
  · rename_i hclose
    simp [expect, hclose]

/-- A level of blocks reads the grammar if the level below does. -/
theorem readsBlocks_succ {levels : Nat} (ih : ReadsBlocks (block levels) levels) :
    ReadsBlocks (block (levels + 1)) (levels + 1) := by
  constructor
  · intro c b c' h hfindings
    have hopen : c.kind = .symbol .leftBrace := by
      rw [block, span_bind_apply, expect_bind_apply] at h
      split at h
      · assumption
      · simp at h
    cases hbody : statements true (statement true (block levels)) c.advance.skipLineEnds.rest
        c.advance.skipLineEnds with
    | mk stmts c₁ =>
        rw [block_succ_apply hopen hbody] at h
        split at h
        · rename_i hclose
          cases h
          obtain ⟨w, ts, hw, hts, hd, hbares, -⟩ := statements_sound (honest_statement ih.honest)
            (statement_sound ih) hbody (Nat.le_of_eq (Cursor.kinds_length _))
            (by simpa using hfindings)
          obtain ⟨m, hm⟩ := c.advance.exists_kinds_eq_skipLineEnds
          refine ⟨_, _, ?_, .mk (hts.after_lineEnds m), Nat.succ_le_succ hd, ?_⟩
          · rw [Cursor.kinds_eq_cons hopen (by simp), hm, hw, Cursor.kinds_eq_cons hclose (by simp)]
            simp
          · rw [Stmt.bareBlock, Stmt.foldedBlock, hbares]
        · cases h
  · intro c w v t ht hd hc hfindings
    cases ht with
    | @mk u ts hts =>
        have hopen : c.kind = .symbol .leftBrace := Cursor.kind_of_kinds_cons hc
        have hskip : c.advance.skipLineEnds.kinds =
            dropLineEnds (u ++ .symbol .rightBrace :: v) := by
          simp [hc]
        obtain ⟨stmts, c₁, hbody, hc₁, hfindings₁, hbares⟩ :=
          statements_complete ih true hts (Nat.le_of_succ_le_succ hd) hskip
            (by simpa using hfindings) (Nat.le_of_eq (Cursor.kinds_length _)) (.inr ⟨rfl, rfl⟩)
        have hclose : c₁.kind = .symbol .rightBrace := Cursor.kind_of_kinds_cons hc₁
        refine ⟨.mk (c.span.merge c₁.advance.last) stmts, c₁.advance, ?_, by simp [hc₁],
          by simpa using hfindings₁, ?_⟩
        · rw [block_succ_apply hopen hbody, if_pos hclose]
        · rw [Stmt.bareBlock, Stmt.foldedBlock, hbares]
  · exact honest_block (levels + 1)

/-- Blocks are read to the depth for which there are levels. -/
theorem readsBlocks_block (levels : Nat) : ReadsBlocks (block levels) levels := by
  induction levels with
  | zero =>
      constructor
      · intro c b c' h hfindings
        rw [block, span_bind_apply, expect_bind_apply] at h
        split at h
        · simp [failAt] at h
        · simp at h
      · intro c w v t ht hd
        cases t with
        | mk s ts => exact absurd hd (Nat.not_succ_le_zero _)
      · exact honest_block 0
  | succ levels ih => exact readsBlocks_succ ih

end KitchenScript.Parser

namespace KitchenScript.Program

open KitchenScript.Parser Grammar

/-- What is left where the reading of a file has stopped is the end of the file. -/
theorem kinds_eq_of_derivesBody {w u v : List TokenKind} {stmts : List Stmt} {n : Nat}
    (hw : .fileEnd ∉ w) (h : w ++ [.fileEnd] = lineEnds n ++ (u ++ v))
    (hu : DerivesBody u stmts) (hv : v.headD .fileEnd = .fileEnd) : w = lineEnds n ++ u := by
  cases v with
  | nil =>
      have hmem : TokenKind.fileEnd ∈ lineEnds n ++ (u ++ []) := by
        rw [← h]
        simp
      simp [fileEnd_not_mem_lineEnds, hu.fileEnd_not_mem] at hmem
  | cons k v =>
      obtain rfl : k = .fileEnd := hv
      rw [← List.append_assoc] at h
      have hleft : .fileEnd ∉ lineEnds n ++ u := by
        simp [fileEnd_not_mem_lineEnds, hu.fileEnd_not_mem]
      rcases List.append_eq_append_iff.mp h with ⟨x, hx, hx'⟩ | ⟨x, hx, hx'⟩
      · cases x with
        | nil => simpa using hx.symm
        | cons k x =>
            obtain ⟨rfl, -⟩ := List.cons.inj hx'
            exact absurd (by simp [hx]) hleft
      · cases x with
        | nil => simpa using hx
        | cons k x =>
            obtain ⟨rfl, -⟩ := List.cons.inj hx'
            exact absurd (by simp [hx]) hw

theorem kinds_ofTokens (tokens : List Token) (last : Token) (hlast : last.kind = .fileEnd) :
    (Cursor.ofTokens (tokens ++ [last])).kinds = tokens.map Token.kind ++ [.fileEnd] := by
  simp [Cursor.kinds, Cursor.ofTokens, hlast]

theorem ofTokens_sound {tokens : List Token} {last : Token} {p : Program}
    (htokens : ∀ t ∈ tokens, t.kind ≠ .fileEnd) (hlast : last.kind = .fileEnd)
    (h : ofTokens (tokens ++ [last]) = (some p, [])) : TreeOf (tokens.map Token.kind) p.bare := by
  unfold ofTokens at h
  cases hread : statements false (statement false (block maxBlockDepth))
      (Cursor.ofTokens (tokens ++ [last])).skipLineEnds.rest
      (Cursor.ofTokens (tokens ++ [last])).skipLineEnds with
  | mk stmts c' =>
      simp only [hread, Prod.mk.injEq] at h
      obtain ⟨hp, hfindings⟩ := h
      rw [hfindings] at hp
      cases hp
      have hblock := readsBlocks_block maxBlockDepth
      obtain ⟨u, ts, hu, hts, hd, hbares, hcloses⟩ :=
        statements_sound (honest_statement hblock.honest) (statement_sound hblock) hread
          (Nat.le_of_eq (Cursor.kinds_length _)) hfindings
      obtain ⟨m, hm⟩ := (Cursor.ofTokens (tokens ++ [last])).exists_kinds_eq_skipLineEnds
      rw [kinds_ofTokens tokens last hlast, hu] at hm
      have hend : c'.kinds.headD .fileEnd = .fileEnd := by
        rw [← Cursor.kind_eq_headD]
        exact hcloses.resolve_right fun hclose => Bool.noConfusion hclose.1
      have hword := kinds_eq_of_derivesBody (by simpa using htokens) hm hts hend
      refine ⟨ts, ⟨?_, hd⟩, ?_⟩
      · rw [hword]
        exact hts.after_lineEnds m
      · rw [bare, hbares]

theorem ofTokens_complete {tokens : List Token} {last : Token} {stmts : List Stmt}
    (hlast : last.kind = .fileEnd) (h : DerivesProgram (tokens.map Token.kind) stmts) :
    ∃ p, ofTokens (tokens ++ [last]) = (some p, []) ∧ p.bare = ⟨.blank, Stmt.foldedAll stmts⟩ := by
  obtain ⟨found, c', hread, -, hfindings, hbares⟩ :=
    statements_complete (readsBlocks_block maxBlockDepth) false h.1 h.2
      (c := (Cursor.ofTokens (tokens ++ [last])).skipLineEnds) (v := [.fileEnd])
      (by rw [Cursor.kinds_skipLineEnds, kinds_ofTokens tokens last hlast])
      (by rw [Cursor.findings_skipLineEnds]; rfl) (Nat.le_of_eq (Cursor.kinds_length _))
      (.inl rfl)
  refine ⟨⟨(Cursor.ofTokens (tokens ++ [last])).span.merge c'.last, found⟩, ?_, ?_⟩
  · simp [ofTokens, hread, hfindings]
  · rw [bare, hbares]

/-- A file is read as the one program that its tokens derive, and only if they derive one. -/
theorem ofTokens_accepts_grammar (tokens : List Token) (last : Token)
    (htokens : ∀ t ∈ tokens, t.kind ≠ .fileEnd) (hlast : last.kind = .fileEnd) :
    ((∃ p, ofTokens (tokens ++ [last]) = (some p, [])) ↔
      ∃ t, TreeOf (tokens.map Token.kind) t) ∧
    ∀ p, ofTokens (tokens ++ [last]) = (some p, []) →
      ∀ t, TreeOf (tokens.map Token.kind) t ↔ t = p.bare := by
  refine ⟨⟨?_, ?_⟩, ?_⟩
  · rintro ⟨p, hp⟩
    exact ⟨p.bare, ofTokens_sound htokens hlast hp⟩
  · rintro ⟨t, stmts, hstmts, -⟩
    obtain ⟨p, hp, -⟩ := ofTokens_complete hlast hstmts
    exact ⟨p, hp⟩
  · intro p hp t
    constructor
    · rintro ⟨stmts, hstmts, rfl⟩
      -- the reader gives one answer, so any two derivations agree with it
      obtain ⟨q, hq, hbare⟩ := ofTokens_complete hlast hstmts
      rw [hp] at hq
      cases hq
      exact hbare.symm
    · rintro rfl
      exact ofTokens_sound htokens hlast hp

theorem ofTokens_accepts_grammar_loop :
    let tokens : List Token := [.keyword .varWord, .identifier "x", .symbol .assign, .symbol .minus,
      .number .minusOne, .lineEnd, .keyword .whileWord, .identifier "x", .symbol .leftBrace,
      .lineEnd, .symbol .rightBrace].map fun k => ⟨k, .blank⟩
    (∀ t ∈ tokens, t.kind ≠ .fileEnd) ∧
      ∀ t, TreeOf (tokens.map Token.kind) t ↔
        t = ⟨.blank, [.var .blank ⟨"x", .blank⟩ (.number .blank ⟨1, by decide, by decide⟩),
          .loop .blank (.name .blank "x") (.mk .blank [])]⟩ := by
  intro tokens
  have htokens : ∀ t ∈ tokens, t.kind ≠ .fileEnd := by decide
  exact ⟨htokens, (ofTokens_accepts_grammar tokens ⟨.fileEnd, .blank⟩ htokens rfl).2 _ rfl⟩

end KitchenScript.Program
