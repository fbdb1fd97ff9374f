import KitchenScript.Proofs.Joining.Expressions
import KitchenScript.Proofs.Spans.Written

/-!
# What a reader takes and what it finds

A reader goes from one cursor to another: it takes the tokens between the two, and adds findings.
`Cursor.Took` says this, and that the findings apply to tokens that were taken or to the one that
comes next, in the order of these.

Readers of expressions do more: they add no finding where they succeed, and exactly one where they
fail.  So an expression that fails may blame a token which it took long before, and its finding is
still not out of order.
-/

namespace KitchenScript

/-- The finding applies from the start of one of the tokens on. -/
def Finding.StartsIn (f : Finding) (w : List Token) : Prop :=
  ∃ t ∈ w, f.span.first = t.span.first

structure Placed (w : List Token) (fs : List Finding) : Prop where
  starts : ∀ f ∈ fs, f.StartsIn w
  sorted : fs.Pairwise fun f g => f.span.first ≤ g.span.first

theorem Finding.StartsIn.mono {f : Finding} {v w : List Token} (h : f.StartsIn v) (hvw : v ⊆ w) :
    f.StartsIn w := by
  rcases h with ⟨t, ht, hfirst⟩
  exact ⟨t, hvw ht, hfirst⟩

theorem Ordered.first_le {v w : List Token} {t : Token} (h : Ordered (v ++ t :: w)) {a b : Token}
    (ha : a ∈ v ++ [t]) (hb : b ∈ t :: w) : a.span.first ≤ b.span.first := by
  have hproper : a.span.first ≤ a.span.last := by
    apply h.proper a
    rcases List.mem_append.mp ha with ha | ha
    · exact List.mem_append_left _ ha
    · exact List.mem_append_right _ (List.mem_cons.mpr (.inl (List.mem_singleton.mp ha)))
  rcases List.mem_append.mp ha with ha | ha
  · exact le_trans hproper (le_of_lt (h.lt_of_mem ha hb))
  · rw [List.mem_singleton.mp ha] at hproper ⊢
    rcases List.mem_cons.mp hb with rfl | hb
    · exact le_refl _
    · have hbefore := (List.pairwise_cons.mp h.right.apart).1 b hb
      exact le_trans hproper (le_of_lt hbefore)

/-- Findings up to a token, and then findings from this token on. -/
theorem Placed.append {v w : List Token} {t : Token} {fs gs : List Finding}
    (hfs : Placed (v ++ [t]) fs) (hgs : Placed (t :: w) gs) (h : Ordered (v ++ t :: w)) :
    Placed (v ++ t :: w) (fs ++ gs) where
  starts := by
    intro f hf
    rcases List.mem_append.mp hf with hf | hf
    · apply (hfs.starts f hf).mono
      exact ((List.singleton_sublist.mpr List.mem_cons_self).append_left v).subset
    · exact (hgs.starts f hf).mono (List.subset_append_right v _)
  sorted := by
    rw [List.pairwise_append]
    refine ⟨hfs.sorted, hgs.sorted, ?_⟩
    intro f hf g hg
    rcases hfs.starts f hf with ⟨a, ha, hfirst⟩
    rcases hgs.starts g hg with ⟨b, hb, hfirst'⟩
    rw [hfirst, hfirst']
    exact h.first_le ha hb

namespace Cursor

/-- From the first cursor to the second these tokens were taken and these findings added. -/
structure Took (c : Cursor) (w : List Token) (fs : List Finding) (d : Cursor) : Prop where
  rest : c.rest = w ++ d.rest
  last : d.last = (w.getLast?.map Token.span).getD c.last
  inside : ∀ t ∈ w, t.kind ≠ .fileEnd
  findings : d.findings = c.findings ++ fs
  placed : Ordered (w ++ [d.peek]) → Placed (w ++ [d.peek]) fs

theorem rest_eq_peek_cons {c : Cursor} (h : c.kind ≠ .fileEnd) :
    c.rest = c.peek :: c.advance.rest := by
  obtain ⟨rest, last, findings⟩ := c
  cases rest with
  | nil => exact absurd rfl h
  | cons t rest => rfl

theorem last_advance {c : Cursor} (h : c.kind ≠ .fileEnd) : c.advance.last = c.span := by
  obtain ⟨rest, last, findings⟩ := c
  cases rest with
  | nil => exact absurd rfl h
  | cons t rest => rfl

theorem report_advance (c : Cursor) (problem : Problem) (span : Span) :
    (c.report problem span).advance = c.advance.report problem span := by
  obtain ⟨rest, last, findings⟩ := c
  cases rest <;> rfl

namespace Took

variable {c d e : Cursor} {v w : List Token} {fs gs : List Finding}

theorem refl (c : Cursor) : Took c [] [] c where
  rest := rfl
  last := rfl
  inside := by simp
  findings := (List.append_nil _).symm
  placed _ := ⟨by simp, .nil⟩

/-- The token to come is the first one that is taken next, or still to come after that. -/
theorem peek_cons (h : Took c w fs d) : ∃ v, w ++ [d.peek] = c.peek :: v := by
  cases w with
  | nil =>
      have hrest : c.rest = d.rest := h.rest
      have hpeek : c.peek = d.peek := by rw [peek, peek, hrest]
      exact ⟨[], by rw [hpeek]; rfl⟩
  | cons t w =>
      have hpeek : c.peek = t := by rw [peek, h.rest]; rfl
      exact ⟨w ++ [d.peek], by rw [hpeek]; rfl⟩

theorem trans (h : Took c v fs d) (h' : Took d w gs e) : Took c (v ++ w) (fs ++ gs) e where
  rest := by rw [h.rest, h'.rest, List.append_assoc]
  last := by
    rw [h'.last, h.last, List.getLast?_append]
    cases w.getLast? <;> rfl
  inside := List.forall_mem_append.mpr ⟨h.inside, h'.inside⟩
  findings := by rw [h'.findings, h.findings, List.append_assoc]
  placed := by
    intro hordered
    -- the last finding of the first part may apply to the token that the second part starts with
    rcases h'.peek_cons with ⟨u, hu⟩
    have hgs := h'.placed (by rw [List.append_assoc] at hordered; exact hordered.right)
    rw [List.append_assoc, hu] at hordered ⊢
    rw [hu] at hgs
    have hsublist : (v ++ [d.peek]).Sublist (v ++ d.peek :: u) :=
      (List.singleton_sublist.mpr List.mem_cons_self).append_left v
    exact (h.placed (hordered.sublist hsublist)).append hgs hordered

theorem advance (h : Took c w fs d) (hk : d.kind ≠ .fileEnd) :
    Took c (w ++ [d.peek]) fs d.advance := by
  have hstep : Took d [d.peek] [] d.advance :=
    { rest := rest_eq_peek_cons hk
      last := last_advance hk
      inside := by
        intro t ht
        rw [List.mem_singleton.mp ht]
        exact hk
      findings := by simp
      placed := fun _ => ⟨by simp, .nil⟩ }
  have htrans := h.trans hstep
  rwa [List.append_nil] at htrans

theorem skipLineEnds (h : Took c w fs d) :
    ∃ v, (∀ t ∈ v, t.kind = .lineEnd) ∧ Took c (w ++ v) fs d.skipLineEnds := by
  obtain ⟨rest, last, findings⟩ := d
  induction rest generalizing w last with
  | nil => exact ⟨[], by simp, by rw [List.append_nil]; exact h⟩
  | cons t rest ih =>
      by_cases ht : t.kind = .lineEnd
      · have hne : t.kind ≠ .fileEnd := by simp [ht]
        have hstep := h.advance hne
        rcases ih _ hstep with ⟨v, hv, htook⟩
        rw [skipLineEnds_cons ht]
        refine ⟨t :: v, List.forall_mem_cons.mpr ⟨ht, hv⟩, ?_⟩
        rw [List.append_assoc] at htook
        exact htook
      · rw [skipLineEnds_of_kind_ne (c := ⟨t :: rest, last, findings⟩) ht]
        exact ⟨[], by simp, by rw [List.append_nil]; exact h⟩

/-- A finding at a token that is not before the earlier findings. -/
theorem report {problem : Problem} {span : Span} (h : Took c w fs d)
    (hstarts : (⟨problem, span⟩ : Finding).StartsIn (w ++ [d.peek]))
    (hafter : Ordered (w ++ [d.peek]) → ∀ f ∈ fs, f.span.first ≤ span.first) :
    Took c w (fs ++ [⟨problem, span⟩]) (d.report problem span) where
  rest := h.rest
  last := h.last
  inside := h.inside
  findings := by rw [findings_report, h.findings, List.append_assoc]
  placed := by
    intro hordered
    have hplaced := h.placed hordered
    refine ⟨?_, ?_⟩
    · intro f hf
      rcases List.mem_append.mp hf with hf | hf
      · exact hplaced.starts f hf
      · rw [List.mem_singleton.mp hf]
        exact hstarts
    · rw [List.pairwise_append]
      refine ⟨hplaced.sorted, List.pairwise_singleton _ _, ?_⟩
      intro f hf g hg
      rw [List.mem_singleton.mp hg]
      exact hafter hordered f hf

theorem report_here (h : Took c w fs d) (problem : Problem) :
    Took c w (fs ++ [⟨problem, d.span⟩]) (d.report problem d.span) := by
  apply h.report ⟨d.peek, by simp, rfl⟩
  intro hordered f hf
  rcases (h.placed hordered).starts f hf with ⟨t, ht, hfirst⟩
  rw [hfirst]
  exact hordered.first_le ht List.mem_cons_self

/-- The span of the last token that was taken. -/
theorem exists_last (h : Took c w fs d) (hw : w ≠ []) :
    ∃ t, w.getLast? = some t ∧ d.last = t.span := by
  obtain ⟨t, ht⟩ := Option.ne_none_iff_exists'.mp (mt List.getLast?_eq_none_iff.mp hw)
  exact ⟨t, ht, by rw [h.last, ht]; rfl⟩

end Took

end Cursor

namespace Parser

open Cursor

/-- What reading an expression from a cursor leads to: a result that suits the tokens taken, or one
finding among these tokens and the next. -/
inductive Outcome (good : List Token → α → Prop) (c : Cursor) : Option α × Cursor → Prop where
  | read {w : List Token} {d : Cursor} {a : α} (h : Took c w [] d) (ha : good w a) :
      Outcome good c (some a, d)
  | failed {w : List Token} {d : Cursor} {problem : Problem} {span : Span} (h : Took c w [] d)
      (hspan : (⟨problem, span⟩ : Finding).StartsIn (w ++ [d.peek])) :
      Outcome good c (none, d.report problem span)

namespace Outcome

variable {good : List Token → α → Prop} {good' : List Token → β → Prop} {c d : Cursor}
  {w : List Token}

theorem failed_after {v : List Token} {e : Cursor} {problem : Problem} {span : Span}
    (h : Took c w [] d) (h' : Took d v [] e)
    (hspan : (⟨problem, span⟩ : Finding).StartsIn (v ++ [e.peek])) :
    Outcome good c (none, e.report problem span) := by
  refine .failed (h.trans h') ?_
  apply hspan.mono
  rw [List.append_assoc]
  exact List.subset_append_right w _

/-- What was taken before belongs to the reading. -/
theorem after {x : Option β × Cursor} {good : List Token → β → Prop} (h : Took c w [] d)
    (hx : Outcome good d x) (hgood : ∀ v b, good v b → good' (w ++ v) b) : Outcome good' c x := by
  cases hx with
  | read h' hb => exact .read (h.trans h') (hgood _ _ hb)
  | failed h' hspan => exact .failed_after h h' hspan

theorem pure {a : α} (h : Took c w [] d) (ha : good w a) :
    Outcome good c ((Parser.pure a : Parser α) d) :=
  .read h ha

theorem fail (h : Took c w [] d) (problem : Problem) :
    Outcome good c ((Parser.fail problem : Parser α) d) :=
  .failed h ⟨d.peek, by simp, rfl⟩

theorem bind {x : Parser α} {f : α → Parser β} (h : Took c w [] d) (hx : Outcome good d (x d))
    (hf : ∀ v a e, good v a → Took c (w ++ v) [] e → Outcome good' c (f a e)) :
    Outcome good' c ((x >>= f) d) := by
  change Outcome good' c (Parser.bind x f d)
  unfold Parser.bind
  split <;> rename_i hread <;> rw [hread] at hx
  · cases hx with
    | read h' ha => exact hf _ _ _ ha (h.trans h')
  · cases hx with
    | failed h' hspan => exact .failed_after h h' hspan

end Outcome

/-! ## Primitive readers -/

def IsOne (k : TokenKind) (w : List Token) : Prop :=
  ∃ t, w = [t] ∧ t.kind = k

def AreLineEnds (w : List Token) : Prop :=
  ∀ t ∈ w, t.kind = .lineEnd

theorem skipLineEnds_outcome (c : Cursor) :
    Outcome (fun w _ => AreLineEnds w) c (skipLineEnds c) := by
  rcases (Took.refl c).skipLineEnds with ⟨v, hv, h⟩
  exact .read h hv

theorem expect_outcome {k : TokenKind} (hk : k ≠ .fileEnd) (c : Cursor) :
    Outcome (fun w _ => IsOne k w) c (expect k c) := by
  unfold expect
  split
  · rename_i hkind
    exact .read ((Took.refl c).advance (by rwa [hkind])) ⟨c.peek, rfl, hkind⟩
  · exact .failed (.refl c) ⟨c.peek, by simp, rfl⟩

theorem eat_outcome {k : TokenKind} (hk : k ≠ .fileEnd) (c : Cursor) :
    Outcome (fun w found => if found then IsOne k w else w = []) c (eat k c) := by
  unfold eat
  split
  · rename_i hkind
    exact .read ((Took.refl c).advance (by rwa [hkind])) ⟨c.peek, rfl, hkind⟩
  · exact .read (.refl c) rfl

/-! ## Readers that go on after a finding -/

/-- What reading a part of the program leads to: a result, which suits the tokens taken if nothing
was found, or no result and a finding. -/
inductive Reading (good : List Token → α → Prop) (c : Cursor) : Option α × Cursor → Prop where
  | read {w : List Token} {fs : List Finding} {d : Cursor} {a : α} (h : Took c w fs d)
      (ha : fs = [] → good w a) : Reading good c (some a, d)
  | failed {w : List Token} {fs : List Finding} {d : Cursor} (h : Took c w fs d) (hfs : fs ≠ []) :
      Reading good c (none, d)

theorem Outcome.reading {good : List Token → α → Prop} {c : Cursor} {x : Option α × Cursor}
    (h : Outcome good c x) : Reading good c x := by
  cases h with
  | read h ha => exact .read h fun _ => ha
  | failed h hspan => exact .failed (h.report hspan (by simp)) (by simp)

namespace Reading

variable {good : List Token → α → Prop} {good' : List Token → β → Prop} {c d : Cursor}
  {w : List Token} {fs : List Finding}

theorem fail (h : Took c w fs d) (problem : Problem) :
    Reading good c ((Parser.fail problem : Parser α) d) :=
  .failed (h.report_here problem) (by simp)

theorem bind {x : Parser α} {f : α → Parser β} (h : Took c w fs d) (hx : Reading good d (x d))
    (hf : ∀ v gs a e, (gs = [] → fs = [] ∧ good v a) → Took c (w ++ v) gs e →
      Reading good' c (f a e)) :
    Reading good' c ((x >>= f) d) := by
  change Reading good' c (Parser.bind x f d)
  unfold Parser.bind
  split <;> rename_i hread <;> rw [hread] at hx
  · cases hx with
    | read h' ha =>
        refine hf _ _ _ _ ?_ (h.trans h')
        intro hnil
        rcases List.append_eq_nil_iff.mp hnil with ⟨hfs, hgs⟩
        exact ⟨hfs, ha hgs⟩
  · cases hx with
    | failed h' hgs =>
        refine .failed (h.trans h') ?_
        intro hnil
        exact hgs (List.append_eq_nil_iff.mp hnil).2

end Reading

end Parser

end KitchenScript
