import KitchenScript.Proofs.Kitchen.WellFormed
import KitchenScript.Proofs.Run.Budget
import KitchenScript.Proofs.Run.Code

/-!
# Programs without kitchen calls

Only a kitchen call looks at the kitchen or writes to the log.  In a program that has none, also not
in a function, every step is the same whatever kitchen and log it is made with.  So such a run
leaves both as they were, and all that the kitchen has a say in is the verdict, which is given by
the orders.
-/

namespace KitchenScript

namespace Expr

def isKitchenCall : Expr → Bool
  | builtin _ _ _ => true
  | _ => false

end Expr

/-- There is no kitchen call in the program, at no depth. -/
def Program.Idle (p : Program) : Prop :=
  ∀ e ∈ p.exprNodes, e.isKitchenCall = false

/-- The rules of a program without kitchen calls. -/
def Rules.idle : Rules where
  expr e := e.isKitchenCall = false
  stmt _ := True

theorem Rules.not_permits_idle (b : Builtin) : ¬Rules.idle.Permits b := by
  rintro ⟨span, args, hcall⟩
  cases hcall

theorem Program.Idle.onProgram {p : Program} (h : p.Idle) : Rules.idle.OnProgram p :=
  Rules.onProgram_of (fun _ _ => trivial) h

/-! ## The same run elsewhere -/

namespace Machine

/-- The machine with another kitchen and another log. -/
def elsewhere (m : Machine) (k : Kitchen) (log : Array Entry) : Machine :=
  { m with kitchen := k, log := log }

end Machine

namespace Config

def elsewhere (c : Config) (k : Kitchen) (log : Array Entry) : Config :=
  { c with machine := c.machine.elsewhere k log }

end Config

section Elsewhere

variable {limits : Limits} {c c' : Config} (k : Kitchen) (log : Array Entry)

theorem Exec.tick_elsewhere (m : Machine) :
    tick limits (m.elsewhere k log) = ((tick limits m).1, (tick limits m).2.elsewhere k log) := by
  have hsteps : (m.elsewhere k log).steps = m.steps := rfl
  simp only [tick, hsteps]
  split <;> rfl

/-- A move that is no kitchen call neither sees kitchen and log nor changes them. -/
theorem Move.Obeys.make_elsewhere {move : Move} (h : move.Obeys .idle) (m : Machine) :
    move.make limits (m.elsewhere k log) = (move.make limits m).elsewhere k log := by
  cases move with
  | go _ _ | set _ _ _ | operate _ _ _ _ | leave _ _ => rfl
  | spend focus stack =>
      rw [Move.make, Exec.tick_elsewhere]
      rfl
  | act request stack =>
      obtain ⟨b, hb⟩ := h.1
      exact absurd hb (Rules.not_permits_idle b)
  | enter f values stack =>
      have henv : (m.elsewhere k log).env = m.env := rfl
      simp only [Move.make, henv]
      split <;> rfl

namespace Config

theorem move?_elsewhere (c : Config) : (c.elsewhere k log).move? = c.move? :=
  rfl

theorem step_elsewhere (hc : c.Obeys .idle) (hstep : c.step limits = some c') :
    (c.elsewhere k log).step limits = some (c'.elsewhere k log) := by
  obtain ⟨move, hmove, rfl⟩ := Option.map_eq_some_iff.mp hstep
  rw [step, move?_elsewhere, hmove, ← (hc.move hmove).make_elsewhere k log c.machine]
  rfl

theorem Leads.elsewhere (h : Leads limits c c') (hc : c.Obeys .idle) :
    Leads limits (c.elsewhere k log) (c'.elsewhere k log) := by
  induction h using Relation.ReflTransGen.head_induction_on with
  | refl => exact Leads.refl
  | head hstep _ ih => exact Leads.head (step_elsewhere k log hc hstep) (ih (hc.step hstep))

theorem EndsIn.elsewhere {last : Config} (h : EndsIn limits c last) (hc : c.Obeys .idle) :
    EndsIn limits (c.elsewhere k log) (last.elsewhere k log) := by
  refine ⟨h.1.elsewhere k log hc, ?_⟩
  rw [step_eq_none_iff, move?_elsewhere]
  exact step_eq_none_iff.mp h.2

/-- A run ends with the kitchen and the log that it started with, since it would end with any others
as well. -/
theorem EndsIn.untouched {last : Config} (h : EndsIn limits c last) (hc : c.Obeys .idle) :
    last.machine.kitchen = c.machine.kitchen ∧ last.machine.log = c.machine.log := by
  have hsame : last.elsewhere c.machine.kitchen c.machine.log = last :=
    h.unique (h.elsewhere c.machine.kitchen c.machine.log hc)
  rw [← hsame]
  exact ⟨rfl, rfl⟩

end Config

end Elsewhere

/-! ## Verdicts -/

namespace Kitchen

variable {stations : List Station} {pantry : Pantry} {orders : List Food} {k : Kitchen}

/-- In a kitchen as it was built, only a run without orders is a success. -/
theorem verdict_of_build (h : build stations pantry orders = .ok k) :
    k.verdict =
      if orders = [] then (.success, ⟨.success, "All orders were delivered"⟩)
      else (.failure, ⟨.failure, "Delivered [] but the orders were " ++ listNames orders⟩) := by
  obtain ⟨-, rfl⟩ := build_eq_ok_iff.mp h
  unfold verdict ordersMet
  cases orders <;> rfl

end Kitchen

namespace Config

theorem report_run_congr {c c' : Config} (hfocus : c'.focus = c.focus)
    (hlog : c'.machine.log = c.machine.log)
    (hverdict : c'.machine.kitchen.verdict = c.machine.kitchen.verdict) :
    c'.run.report = c.run.report := by
  unfold run
  rw [hfocus, hlog, hverdict]
  cases c.focus <;> rfl

end Config

/-- The report of a run in which nothing was done: a fault or a verdict, and no entry but that of
the verdict. -/
inductive OnlyJudged (orders : List Food) : Report → Prop where
  | aborted (e : Fault) : OnlyJudged orders ⟨[], .aborted e⟩
  | success (h : orders = []) :
      OnlyJudged orders ⟨[⟨.success, "All orders were delivered"⟩], .success⟩
  | failure (h : orders ≠ []) :
      OnlyJudged orders
        ⟨[⟨.failure, "Delivered [] but the orders were " ++ listNames orders⟩], .failure⟩

theorem onlyJudged_run {stations : List Station} {pantry : Pantry} {orders : List Food}
    {k : Kitchen} (h : Kitchen.build stations pantry orders = .ok k) {c : Config}
    (hkitchen : c.machine.kitchen = k) (hlog : c.machine.log = #[]) :
    OnlyJudged orders c.run.report := by
  have hverdict := Kitchen.verdict_of_build h
  unfold Config.run
  rw [hkitchen, hlog, hverdict]
  cases c.focus with
  | fault e => exact .aborted e
  | _ =>
      by_cases horders : orders = []
      · rw [if_pos horders]
        exact .success horders
      · rw [if_neg horders]
        exact .failure horders

namespace Program

variable {p : Program}

/-- A program without kitchen calls, in a kitchen as it was built, leaves the kitchen alone and logs
at most the verdict, which is a success exactly if nothing was ordered.  In another kitchen with the
same orders it does the same. -/
theorem idle_run_untouched (hp : p.Idle) (limits : Limits) {stations : List Station}
    {pantry : Pantry} {orders : List Food} {k : Kitchen}
    (h : Kitchen.build stations pantry orders = .ok k) :
    (p.run limits k).kitchen = k ∧
    OnlyJudged orders (p.run limits k).report ∧
    ∀ (stations' : List Station) (pantry' : Pantry) (k' : Kitchen),
      Kitchen.build stations' pantry' orders = .ok k' →
        (p.run limits k').report = (p.run limits k).report ∧
          (p.run limits k').steps = (p.run limits k).steps := by
  obtain ⟨last, hlast, hrun⟩ := Config.exists_endsIn limits k p
  have hobeys := Config.obeys_initial hp.onProgram k
  obtain ⟨hkitchen, hlog⟩ := hlast.untouched hobeys
  rw [← hrun]
  refine ⟨?_, onlyJudged_run h hkitchen hlog, ?_⟩
  · rw [Config.run_kitchen, hkitchen]
    rfl
  · intro stations' pantry' k' h'
    obtain ⟨last', hlast', hrun'⟩ := Config.exists_endsIn limits k' p
    have hrequired : k'.required = k.required := by
      obtain ⟨-, rfl⟩ := Kitchen.build_eq_ok_iff.mp h
      obtain ⟨-, rfl⟩ := Kitchen.build_eq_ok_iff.mp h'
      rfl
    have hinitial : Config.initial k' p = (Config.initial k p).elsewhere k' #[] := by
      simp only [Config.initial, Machine.forKitchen, hrequired]
      rfl
    have hend := hlast.elsewhere k' #[] hobeys
    rw [← hinitial] at hend
    rw [← hrun', hend.unique hlast']
    have hverdict : k'.verdict = last.machine.kitchen.verdict := by
      rw [hkitchen, Kitchen.verdict_of_build h']
      exact (Kitchen.verdict_of_build h).symm
    refine ⟨Config.report_run_congr rfl hlog.symm hverdict, ?_⟩
    rw [Config.run_steps, Config.run_steps]
    rfl

/-- A loop that counts down by a function of the program, in the kitchen of the soup and in an empty
one where soup is ordered as well. -/
theorem idle_run_untouched_countdown :
    let span : Span := .point .start
    let n : Expr := .name span "n"
    let one : Number := ⟨1, by decide, by decide⟩
    let down : Stmt := .func span ⟨"down", span⟩ [⟨"n", span⟩]
      (.mk span [.giveBack span (some (.binary span .sub n (.number span one)))])
    let start : Stmt := .var span ⟨"n", span⟩ (.number span one)
    let count : Stmt := .loop span (.binary span .greater n (.number span .zero))
      (.mk span [.assign span ⟨"n", span⟩ (.call span ⟨"down", span⟩ [n])])
    let p : Program := ⟨span, [down, start, count]⟩
    let limits : Limits := ⟨20, 1, 0⟩
    let empty : Kitchen := ⟨.pantry, none, .empty, [], Kitchen.soup.required, []⟩
    p.Idle ∧ (p.run limits Kitchen.soup).kitchen = Kitchen.soup ∧
      OnlyJudged Kitchen.soup.required (p.run limits Kitchen.soup).report ∧
      (p.run limits empty).report = (p.run limits Kitchen.soup).report ∧
      (p.run limits empty).report.outcome = .failure ∧
      (p.run limits empty).steps = 6 := by
  intro span n one down start count p limits empty
  have hidle : p.Idle := by
    unfold Idle
    decide
  have hsoup : Kitchen.build Kitchen.soup.stations Kitchen.soup.pantry Kitchen.soup.required =
      .ok Kitchen.soup := rfl
  have hempty : Kitchen.build [] .empty Kitchen.soup.required = .ok empty := rfl
  obtain ⟨hkitchen, hreport, hothers⟩ := idle_run_untouched hidle limits hsoup
  obtain ⟨hsame, hsteps⟩ := hothers [] .empty empty hempty
  refine ⟨hidle, hkitchen, hreport, hsame, ?_, ?_⟩
  · rw [hsame]
    decide +kernel
  · rw [hsteps]
    decide +kernel

end Program

end KitchenScript
