import KitchenScript.Proofs.Kitchen.WellFormed

/-!
# The chef in the log

Whoever reads only the actions of a log can follow the chef: a move shows his place, and picking up
and putting down show his hands.  What is followed in this way is his place, always, and his hands,
with one exception.  A call that takes from a module without output leaves the chef with empty
hands and is shown as no action, so an item he held is still seen in his hands until the next entry
that shows them.
-/

namespace KitchenScript

structure Chef where
  location : Location
  hands : Option Food
deriving DecidableEq

def Kitchen.chef (k : Kitchen) : Chef :=
  ⟨k.location, k.hands⟩

namespace Chef

/-- The chef after an action, as far as the action shows him. -/
def watch (c : Chef) : Action → Chef
  | .move place => { c with location := place }
  | .pickUp item => { c with hands := some item }
  | .putDown _ => { c with hands := none }
  | .use _ | .noOp | .success | .failure => c

def watchAll (c : Chef) (log : List Entry) : Chef :=
  log.foldl (fun c entry => c.watch entry.action) c

/-- The chef who starts at the pantry with empty hands, as a log shows him at its end. -/
def replay (log : List Entry) : Chef :=
  watchAll ⟨.pantry, none⟩ log

theorem watch_of_terminal (c : Chef) {a : Action} (h : a.isTerminal = true) : c.watch a = c := by
  cases a <;> first | rfl | cases h

/-- Verdicts show nothing of the chef. -/
theorem watchAll_filter (c : Chef) (log : List Entry) :
    c.watchAll (log.filter fun e => !e.action.isTerminal) = c.watchAll log := by
  induction log generalizing c with
  | nil => rfl
  | cons entry rest ih =>
      cases hterminal : entry.action.isTerminal with
      | true =>
          rw [List.filter_cons_of_neg (by simp [hterminal]), ih]
          change _ = (c.watch entry.action).watchAll rest
          rw [watch_of_terminal c hterminal]
      | false =>
          rw [List.filter_cons_of_pos (by simp [hterminal])]
          exact ih (c.watch entry.action)

end Chef

/-- Are the hands empty because of a call that does not show it, after `emptied` told so of them
before this call? -/
def emptiesUnseen (emptied : Bool) (call : Request × Entry) : Bool :=
  match call.2.action, call.1 with
  | .pickUp _, _ | .putDown _, _ => false
  | .noOp, .operation (.take _) => true
  | _, _ => emptied

/-- Has a call found nothing to take since the last one that shows the hands? -/
def emptiedUnseen (calls : List (Request × Entry)) : Bool :=
  calls.foldl emptiesUnseen false

/-- What has been seen of the chef of a kitchen. -/
structure Chef.Seen (c : Chef) (emptied : Bool) (k : Kitchen) : Prop where
  location : c.location = k.location
  hands : k.hands = if emptied then none else c.hands

namespace Kitchen

variable {k k' : Kitchen}

theorem chef_goto {name : String} {target : Location} (h : k.goto name = .ok (target, k')) :
    k'.chef = { k.chef with location := target } := by
  obtain ⟨place, -, h⟩ := exists_of_bind_eq_ok h
  cases h
  rfl

theorem chef_get {name : String} {item : Food} (h : k.get name = .ok (item, k')) :
    k'.chef = { k.chef with hands := some item } := by
  obtain ⟨_, -, h⟩ := exists_of_bind_eq_ok h
  obtain ⟨pantry, -, h⟩ := exists_of_bind_eq_ok h
  cases h
  rfl

theorem chef_place {name item : String} {slot : Number} (h : k.place name item slot = .ok k') :
    k'.chef = { k.chef with hands := none } := by
  obtain ⟨m, -, h⟩ := exists_of_bind_eq_ok h
  obtain ⟨held, -, h⟩ := exists_of_bind_eq_ok h
  obtain ⟨m', -, h⟩ := exists_of_bind_eq_ok h
  cases h
  rfl

theorem chef_activate {name : String} {made : Food} (h : k.activate name = .ok (made, k')) :
    k'.chef = k.chef := by
  obtain ⟨m, -, h⟩ := exists_of_bind_eq_ok h
  obtain ⟨⟨made', m'⟩, -, h⟩ := exists_of_bind_eq_ok h
  cases h
  rfl

theorem chef_take {name : String} {output : Option Food} (h : k.take name = .ok (output, k')) :
    k'.chef = { k.chef with hands := output } := by
  obtain ⟨m, -, h⟩ := exists_of_bind_eq_ok h
  cases h
  rfl

theorem chef_deliver {item : Food} (h : k.deliver = .ok (item, k')) :
    k'.chef = { k.chef with hands := none } := by
  obtain ⟨_, -, h⟩ := exists_of_bind_eq_ok h
  cases hhands : k.hands with
  | none =>
      rw [hhands] at h
      cases h
  | some held =>
      rw [hhands] at h
      cases h
      rfl

end Kitchen

theorem Chef.Seen.occurs {c : Chef} {emptied : Bool} {k k' : Kitchen} {request : Request}
    {entry : Entry} (hseen : c.Seen emptied k) (h : Occurs k request entry k') :
    (c.watch entry.action).Seen (emptiesUnseen emptied (request, entry)) k' := by
  have hlocation := hseen.location
  have hhands := hseen.hands
  cases h with
  | goto h =>
      have hchef := Kitchen.chef_goto h
      exact ⟨(congrArg Chef.location hchef).symm, (congrArg Chef.hands hchef).trans hhands⟩
  | get h =>
      have hchef := Kitchen.chef_get h
      exact ⟨hlocation.trans (congrArg Chef.location hchef).symm, congrArg Chef.hands hchef⟩
  | place h =>
      have hchef := Kitchen.chef_place h
      exact ⟨hlocation.trans (congrArg Chef.location hchef).symm, congrArg Chef.hands hchef⟩
  | activate h =>
      have hchef := Kitchen.chef_activate h
      exact ⟨hlocation.trans (congrArg Chef.location hchef).symm,
        (congrArg Chef.hands hchef).trans hhands⟩
  | take h =>
      have hchef := Kitchen.chef_take h
      exact ⟨hlocation.trans (congrArg Chef.location hchef).symm, congrArg Chef.hands hchef⟩
  | takeNothing h =>
      have hchef := Kitchen.chef_take h
      exact ⟨hlocation.trans (congrArg Chef.location hchef).symm, congrArg Chef.hands hchef⟩
  | deliver h =>
      have hchef := Kitchen.chef_deliver h
      exact ⟨hlocation.trans (congrArg Chef.location hchef).symm, congrArg Chef.hands hchef⟩
  | print => exact ⟨hlocation, hhands⟩

theorem Chef.Seen.replays {c : Chef} {emptied : Bool} {k k' : Kitchen} {requests : List Request}
    {entries : List Entry} (hseen : c.Seen emptied k) (h : Replays k requests entries k') :
    (c.watchAll entries).Seen ((requests.zip entries).foldl emptiesUnseen emptied) k' := by
  induction h generalizing c emptied with
  | nil k => exact hseen
  | cons hfirst _ ih => exact ih (hseen.occurs hfirst)

/-! ## Entries that show nothing -/

namespace Kitchen

variable {k k' : Kitchen}

/-- An entry without an action is written for a call that leaves the kitchen as it is, but for the
hands, which are empty after finding nothing to take. -/
theorem eq_of_noOp (hk : (k.modules.map Module.name).Nodup) {request : Request} {message : String}
    (h : Occurs k request ⟨.noOp, message⟩ k') :
    k' = k ∨ ∃ module, message = module ++ " had nothing to take" ∧
      k' = { k with hands := none } := by
  cases h with
  | print => exact .inl rfl
  | @takeNothing _ module h =>
      right
      refine ⟨module, rfl, ?_⟩
      obtain ⟨m, hm, h⟩ := exists_of_bind_eq_ok h
      obtain ⟨bay, hbay, hname, -⟩ := exists_bay hm
      have houtput : m.output = none := congrArg Prod.fst (Except.ok.inj h)
      -- the output that is removed was empty, so the module is exchanged for itself
      have hsame : { m with output := none } = m := by
        rw [← houtput]
      have hexchange : k.exchange module m = k := by
        rw [← hname, exchange_eq hk hbay, ← hbay]
      simp only [Module.take, houtput, hsame, hexchange] at h
      cases h
      rfl

theorem nodup_of_occurs (hk : (k.modules.map Module.name).Nodup) {request : Request}
    {entry : Entry} (h : Occurs k request entry k') : (k'.modules.map Module.name).Nodup := by
  cases request with
  | print v =>
      cases h
      exact hk
  | operation op =>
      have hlayout := (changes_of_occurs hk h).continues.layout
      rwa [map_name_modules, hlayout, ← map_name_modules]

theorem nodup_of_build {stations : List Station} {pantry : Pantry} {orders : List Food}
    (h : build stations pantry orders = .ok k) : (k.modules.map Module.name).Nodup := by
  obtain ⟨hcheck, rfl⟩ := build_eq_ok_iff.mp h
  exact (names_of_checkStations hcheck).2.2.1

end Kitchen

namespace Config

theorem Leads.nodup {limits : Limits} {c c' : Config} (h : Leads limits c c')
    (hc : (c.machine.kitchen.modules.map Module.name).Nodup) :
    (c'.machine.kitchen.modules.map Module.name).Nodup := by
  refine h.invariant (P := fun c => (c.machine.kitchen.modules.map Module.name).Nodup) ?_ hc
  intro c c' hchange hc
  rcases hchange.occurs with ⟨request, entry, hoccurs, -⟩ | ⟨hsame, -⟩
  · exact Kitchen.nodup_of_occurs hc hoccurs
  · rwa [hsame]

end Config

theorem Kitchen.seen_of_build {stations : List Station} {pantry : Pantry} {orders : List Food}
    {k : Kitchen} (h : build stations pantry orders = .ok k) :
    Chef.Seen ⟨.pantry, none⟩ false k := by
  obtain ⟨-, rfl⟩ := build_eq_ok_iff.mp h
  exact ⟨rfl, rfl⟩

namespace Program

open Config

/-- The log of a run in a newly built kitchen shows where the chef is at its end.  It shows his
hands as well, unless a call has found nothing to take since they were last shown, and in that case
they are empty.  No other change of the kitchen is ever written down as no action. -/
theorem run_shows_chef (limits : Limits) {stations : List Station} {pantry : Pantry}
    {orders : List Food} {k : Kitchen} (h : Kitchen.build stations pantry orders = .ok k)
    (p : Program) :
    let run := p.run limits k
    let entries := run.report.log.filter fun e => !e.action.isTerminal
    (Chef.replay run.report.log).location = run.kitchen.location ∧
    (∃ requests, Replays k requests entries run.kitchen) ∧
    (∀ requests, Replays k requests entries run.kitchen →
      run.kitchen.hands =
        if emptiedUnseen (requests.zip entries) then none
        else (Chef.replay run.report.log).hands) ∧
    ∀ (c c' : Config) (message : String), Leads limits (initial k p) c →
      c.step limits = some c' → c'.machine.log = c.machine.log.push ⟨.noOp, message⟩ →
      c'.machine.kitchen = c.machine.kitchen ∨
        ∃ module, message = module ++ " had nothing to take" ∧
          c'.machine.kitchen = { c.machine.kitchen with hands := none } := by
  intro run entries
  have hreplays : ∃ requests, Replays k requests entries run.kitchen := by
    obtain ⟨last, hlast, hrun⟩ := exists_endsIn limits k p
    obtain ⟨requests, hrequests⟩ := hlast.1.recorded ⟨[], .nil k⟩
    have hentries : entries = last.machine.log.toList := by
      rw [← filter_log_run hrequests, hrun]
    have hkitchen : run.kitchen = last.machine.kitchen := by
      rw [← run_kitchen, hrun]
    exact ⟨requests, by rwa [hentries, hkitchen]⟩
  have hseen : ∀ requests, Replays k requests entries run.kitchen →
      (Chef.replay run.report.log).Seen (emptiedUnseen (requests.zip entries)) run.kitchen := by
    intro requests hrequests
    have hlast := (Kitchen.seen_of_build h).replays hrequests
    rwa [Chef.watchAll_filter] at hlast
  refine ⟨?_, hreplays, fun requests hrequests => (hseen requests hrequests).hands, ?_⟩
  · exact (hseen _ hreplays.choose_spec).location
  · intro c c' message hc hstep hlog
    have hnames := hc.nodup (Kitchen.nodup_of_build h)
    rcases (change_of_step hstep).occurs with ⟨request, entry, hoccurs, hpush⟩ | ⟨hsame, -⟩
    · rw [hlog] at hpush
      have hentry : entry = ⟨.noOp, message⟩ := (Array.push_eq_push.mp hpush).1.symm
      rw [hentry] at hoccurs
      exact Kitchen.eq_of_noOp hnames hoccurs
    · exact .inl hsame

/-- What the chef got from the pantry is gone when he finds nothing to take, and no entry says
so. -/
def emptyTake : Program :=
  let call : Builtin → String → Stmt := fun callee arg =>
    .expr (.point .start) (.builtin (.point .start) callee [.text (.point .start) arg])
  ⟨.point .start, [call .get "Broth", call .take "soup"]⟩

theorem replay_misses_empty_take :
    let soup := Kitchen.soup
    let run := emptyTake.run .standard soup
    Kitchen.build soup.stations soup.pantry soup.required = .ok soup ∧
      run.report.log.map Entry.action = [.pickUp ⟨"Broth"⟩, .noOp, .failure] ∧
      Chef.replay run.report.log = ⟨.pantry, some ⟨"Broth"⟩⟩ ∧
      run.kitchen.chef = ⟨.pantry, none⟩ ∧
      Chef.replay run.report.log ≠ run.kitchen.chef := by
  intro soup run
  have hreplay : Chef.replay run.report.log = ⟨.pantry, some ⟨"Broth"⟩⟩ := rfl
  have hchef : run.kitchen.chef = ⟨.pantry, none⟩ := rfl
  refine ⟨rfl, rfl, hreplay, hchef, ?_⟩
  rw [hreplay, hchef]
  decide

theorem run_shows_chef_empty_take :
    let soup := Kitchen.soup
    let run := emptyTake.run .standard soup
    let entries := run.report.log.filter fun e => !e.action.isTerminal
    let requests : List Request := [.operation (.get "Broth"), .operation (.take "soup")]
    Kitchen.build soup.stations soup.pantry soup.required = .ok soup ∧
      (Chef.replay run.report.log).location = run.kitchen.location ∧
      Replays soup requests entries run.kitchen ∧
      emptiedUnseen (requests.zip entries) = true ∧ run.kitchen.hands = none := by
  intro soup run entries requests
  have hbuild : Kitchen.build soup.stations soup.pantry soup.required = .ok soup := rfl
  have hreplays : Replays soup requests entries run.kitchen :=
    .cons (.get rfl) (.cons (.takeNothing rfl) (.nil _))
  have hshown := run_shows_chef .standard hbuild emptyTake
  have hhands := hshown.2.2.1 requests hreplays
  exact ⟨hbuild, hshown.1, hreplays, rfl, hhands⟩

end Program

end KitchenScript
