import TabRelay.Proofs.Bridge.Passing

/-!
# An opening stops at the first stage that fails

Starting and attaching go through their stages one after another.  The first that fails gives
the error, and none after it is entered.
-/

namespace TabRelay.Bridge

open TabRelay.Storage TabRelay.Web

variable {α β : Type}

/-! ## Stages one after another -/

/-- When some stages are done the others are gone through, up to the first that fails. -/
inductive Stops (s : Situation) : List Stage → List Stage → Except BridgeError α → Page → Prop where
  | finished {done : List Stage} {a : α} {last : Page} (hlast : Stands s done done last) :
      Stops s done [] (.ok a) last
  | failed {done rest : List Stage} {stage : Stage} {e : BridgeError} {last : Page}
      (hfails : s.failure? stage = some e) (hlast : Stands s (done ++ [stage]) done last) :
      Stops s done (stage :: rest) (.error e) last
  | passed {done rest : List Stage} {stage : Stage} {result : Except BridgeError α} {last : Page}
      (hpasses : s.failure? stage = none) (hrest : Stops s (done ++ [stage]) rest result last) :
      Stops s done (stage :: rest) result last

def Goes (s : Situation) (done stages : List Stage) (x : Bridging α) (page : Page) : Prop :=
  Stops s done stages (x.run.run page).1 (x.run.run page).2

section

variable {s : Situation} {done stages : List Stage} {page last : Page}
  {result : Except BridgeError α}

theorem Stops.congr {other : Page} (h : Stops s done stages result last)
    (hother : other.surface = last.surface) : Stops s done stages result other := by
  induction h with
  | finished hlast => exact .finished (hother.trans hlast)
  | failed hfails hlast => exact .failed hfails (hother.trans hlast)
  | passed hpasses _ ih => exact .passed hpasses (ih hother)

theorem Stops.map (h : Stops s done stages result last) (f : α → β) :
    Stops s done stages (result.map f) last := by
  induction h with
  | finished hlast => exact .finished hlast
  | failed hfails hlast => exact .failed hfails hlast
  | passed hpasses _ ih => exact .passed hpasses ih

namespace Goes

theorem of_run {x : Bridging α} (hrun : x.run.run page = (result, last))
    (h : Stops s done stages result last) : Goes s done stages x page := by
  rw [Goes, hrun]
  exact h

theorem lift_bind {x : Act β} {f : β → Bridging α}
    (h : Goes s done stages (f (page.result x)) (page.after x)) :
    Goes s done stages (liftM x >>= f) page := by
  rw [Goes, run_bind, run_lift]
  exact h

theorem get_bind {f : Page → Bridging α} (h : Goes s done stages (f page) page) :
    Goes s done stages (get >>= f) page := by
  rw [Goes, run_bind, run_get]
  exact h

theorem bind {stage : Stage} {x : Bridging β} {b : β} {f : β → Bridging α}
    (hpage : Stands s done done page) (hdoes : Does s stage page x b)
    (hrest : ∀ next, x.run.run page = (.ok b, next) →
      Stands s (done ++ [stage]) (done ++ [stage]) next →
      Goes s (done ++ [stage]) stages (f b) next) :
    Goes s done (stage :: stages) (x >>= f) page := by
  rw [Goes, run_bind]
  cases hdoes with
  | failed hfails hrun hnext =>
      rw [hrun]
      exact .failed hfails (hpage.failing hnext)
  | passed hpasses hrun hnext =>
      rw [hrun]
      exact .passed hpasses (hrest _ hrun (hpage.passing hnext))

theorem tryCatch {x : Bridging α} {handle : BridgeError → Bridging α}
    (h : Goes s done stages x page)
    (hhandle : ∀ e next, ∃ last, (handle e).run.run next = (.error e, last) ∧
      last.surface = next.surface) :
    Goes s done stages (MonadExcept.tryCatch x handle) page := by
  obtain ⟨result, next, hrun⟩ : ∃ result next, x.run.run page = (result, next) := ⟨_, _, rfl⟩
  rw [Goes, hrun] at h
  rw [Goes, run_tryCatch, hrun]
  cases result with
  | ok a => exact h
  | error e =>
      obtain ⟨last, hhandled, hlast⟩ := hhandle e next
      simp only [hhandled]
      exact h.congr hlast

theorem bind_returns {x : Bridging β} {f : β → Bridging α} (h : Goes s done stages x page)
    (hreturns : ∀ b, ∃ a, ∀ next, (f b).run.run next = (.ok a, next)) :
    Goes s done stages (x >>= f) page := by
  choose g hg using hreturns
  obtain ⟨result, next, hrun⟩ : ∃ result next, x.run.run page = (result, next) := ⟨_, _, rfl⟩
  rw [Goes, hrun] at h
  have hmapped := h.map g
  rw [Goes, run_bind, hrun]
  cases result with
  | ok b =>
      simp only [hg]
      exact hmapped
  | error e => exact hmapped

theorem entry {name : String} {act : Bridging α}
    (h : Goes s done stages act (page.entered name)) :
    Goes s done stages (Bridge.entry name act) page :=
  .of_run (run_entry name act page) (Stops.congr h rfl)

end Goes

end

/-! ## Where a sequence stops -/

namespace Situation

variable (s : Situation)

def reached : List Stage → List Stage
  | [] => []
  | stage :: rest => stage :: if (s.failure? stage).isSome then [] else reached rest

def passed (stages : List Stage) : List Stage :=
  stages.takeWhile fun stage => (s.failure? stage).isNone

variable {s}

theorem mem_reached {before after : List Stage} {stage : Stage} (hnew : stage ∉ before) :
    stage ∈ s.reached (before ++ stage :: after) ↔
      ∀ earlier ∈ before, s.failure? earlier = none := by
  induction before with
  | nil => simp [reached]
  | cons first before ih =>
      obtain ⟨hfirst, hbefore⟩ := not_or.mp (mt List.mem_cons.mpr hnew)
      rw [List.cons_append, reached, List.mem_cons, List.forall_mem_cons, ← ih hbefore]
      cases s.failure? first <;> simp [hfirst]

theorem reached_sublist (stages : List Stage) : (s.reached stages).Sublist stages := by
  induction stages with
  | nil => exact .slnil
  | cons stage rest ih =>
      rw [reached]
      split
      · exact (List.nil_sublist rest).cons_cons stage
      · exact ih.cons_cons stage

end Situation

namespace Stops

variable {s : Situation} {done stages : List Stage} {result : Except BridgeError α} {last : Page}

theorem error_iff (h : Stops s done stages result last) (e : BridgeError) :
    result = .error e ↔ stages.findSome? s.failure? = some e := by
  induction h with
  | finished hlast => simp
  | failed hfails hlast => simp [hfails]
  | passed hpasses _ ih => simpa [hpasses] using ih

theorem ok_iff (h : Stops s done stages result last) :
    (∃ a, result = .ok a) ↔ ∀ stage ∈ stages, s.failure? stage = none := by
  induction h with
  | finished hlast => simp
  | failed hfails hlast => simp [hfails]
  | passed hpasses _ ih => simpa [hpasses] using ih

theorem stands (h : Stops s done stages result last) :
    Stands s (done ++ s.reached stages) (done ++ s.passed stages) last := by
  induction h with
  | finished hlast => simpa [Situation.reached, Situation.passed] using hlast
  | failed hfails hlast => simpa [Situation.reached, Situation.passed, hfails] using hlast
  | passed hpasses _ ih => simpa [Situation.reached, Situation.passed, hpasses] using ih

end Stops

/-! ## Connecting -/

section

variable {s : Situation} {done : List Stage} {page : Page} {app : Nat}

theorem goes_connect_of_object (hpage : Stands s done done page)
    (hports : page.portsOf app = s.ports)
    (hobject : s.ports.isObject) (hsubscribe : .subscribe ∉ done) (hlisten : .listen ∉ done) :
    Goes s done [.changePort, .storePort, .subscribe, .listen] (connect app s.config) page := by
  unfold connect
  refine .get_bind (.bind hpage (does_findPort hports hobject rfl rfl rfl page) ?_)
  intro next _ hnext
  refine .bind hnext (does_findPort hports hobject rfl rfl rfl next) ?_
  intro next hstore hnext
  have hfound : page.findPort app s.config.storePort .subscribe =
      .ok ⟨app, s.config.storePort, s.port s.config.storePort⟩ :=
    (Prod.mk.inj ((run_except _ _).symm.trans hstore)).1
  have hmethod := (findPort_ok hfound).2.2.method
  -- The callbacks are connected under a handler, which frees one of them and throws again.
  refine .lift_bind (.bind_returns (.tryCatch ?acts fun e next => ⟨_, rfl, rfl⟩) ?returns)
  case returns =>
    intro result
    cases result <;> exact ⟨_, fun _ => rfl⟩
  case acts =>
    have hmade (relay : Relay) : Stands s _ _ (next.after (addPortCallback relay)) := hnext
    refine .bind (hmade _) (does_subscribe (hmade _) (by simp [hsubscribe]) hmethod _) ?_
    intro next _ hnext
    refine .bind hnext (does_listen hnext (by simp [hlisten]) _) ?_
    intro next _ hnext
    exact .lift_bind (.of_run rfl (.finished hnext))

theorem goes_connect (hpage : Stands s done done page)
    (hports : page.portsOf app = s.ports)
    (hsubscribe : .subscribe ∉ done) (hlisten : .listen ∉ done) :
    Goes s done [.ports, .changePort, .storePort, .subscribe, .listen] (connect app s.config)
      page := by
  cases hobject : s.ports.isObject with
  | false =>
      have hfails : s.failure? .ports = some .noPorts := by simp [Situation.failure?, hobject]
      have hnone := findPort_eq hports s.config.changePort .send
      rw [hobject] at hnone
      have hrun : (connect app s.config).run.run page = (.error .noPorts, page) := by
        simp only [connect, run_bind, run_get, run_except, hnone]
        rfl
      exact .of_run hrun (.failed hfails (hpage.failing page.surface_same))
  | true =>
      have hpasses : s.failure? .ports = none := by simp [Situation.failure?, hobject]
      have hready : Stands s (done ++ [.ports]) (done ++ [.ports]) page :=
        hpage.passing page.surface_same
      exact Stops.passed hpasses (goes_connect_of_object hready hports hobject
        (by simp [hsubscribe]) (by simp [hlisten]))

end

/-! ## Opening -/

namespace Opening

/-- What the opening is given: an application that is started gets the ports of the program. -/
def situation (page : Page) : Opening → Situation
  | start config => ⟨page, config, page.program.ports⟩
  | attach app config => ⟨page, config, page.portsOf app⟩

def stages : Opening → List Stage
  | start _ =>
      [.config, .window, .storage, .snapshot, .document, .init, .ports, .changePort, .storePort,
        .subscribe, .listen]
  | attach _ _ =>
      [.config, .window, .storage, .ports, .changePort, .storePort, .subscribe, .listen]

end Opening

theorem stands_entered (s : Situation) (name : String) : Stands s [] [] (s.page.entered name) :=
  (Surface.having_nil _).symm

theorem ports_of_launch {node flags : Value} {page next : Page} {app : Nat}
    (h : (launch node flags).run.run page = (.ok app, next)) :
    next.portsOf app = page.program.ports := by
  rw [run_launch] at h
  cases hthrown : page.thrownBy .init with
  | some thrown =>
      rw [hthrown] at h
      cases h
  | none =>
      rw [hthrown] at h
      cases h
      exact ports_launched page node flags

theorem goes_start (config : Value) (page : Page) :
    Goes (Opening.situation page (.start config)) [] (Opening.stages (.start config))
      (Bridge.start config) page := by
  refine .entry (.bind (stands_entered _ _) (does_readConfig _ _) ?_)
  intro next _ hnext
  refine .bind hnext (does_needWindow hnext) ?_
  intro next _ hnext
  refine .bind hnext (does_needArea hnext (by decide)) ?_
  intro next _ hnext
  refine .bind hnext (does_readSnapshot hnext (by decide)) ?_
  intro next _ hnext
  refine .bind hnext (does_mountNode hnext) ?_
  intro next _ hnext
  refine .bind hnext (does_launch hnext (by decide)) ?_
  intro last hlaunched hlast
  have hports := (ports_of_launch hlaunched).trans (congrArg AppSpec.ports hnext.program)
  exact .lift_bind (goes_connect hlast hports (by decide) (by decide))

theorem goes_attach (app : Nat) (config : Value) (page : Page) :
    Goes (Opening.situation page (.attach app config)) [] (Opening.stages (.attach app config))
      (Bridge.attach app config) page := by
  refine .entry (.bind (stands_entered _ _) (does_readConfig _ _) ?_)
  intro configured hconfig hconfigured
  refine .bind hconfigured (does_needWindow hconfigured) ?_
  intro found hwindow hfound
  refine .bind hfound (does_needArea hfound (by decide)) ?_
  intro last harea hlast
  have hkept (kind : AreaKind) : Keeps Page.apps (needArea kind).run :=
    .needArea (.of_calling fun _ => rfl)
  have happs : last.apps = page.apps := calc
    last.apps = found.apps := (hkept _).of_run harea
    _ = configured.apps := Keeps.needWindow.of_run hwindow
    _ = (page.entered "StorageBridge::attach").apps := (Keeps.readConfig config).of_run hconfig
  have hports : last.portsOf app = page.portsOf app := by rw [Page.portsOf, Page.portsOf, happs]
  exact goes_connect hlast hports (by decide) (by decide)

theorem goes_opening (opening : Opening) (page : Page) :
    Goes (opening.situation page) [] opening.stages opening.act page := by
  cases opening with
  | start config => exact goes_start config page
  | attach app config => exact goes_attach app config page

/-! ## Starting the program -/

section

variable {s : Situation}

theorem count_init (stages : List Stage) :
    (stages.flatMap s.calls).count .init = stages.count .init := by
  induction stages with
  | nil => rfl
  | cons stage rest ih =>
      have hstage : (s.calls stage).count .init = if stage = .init then 1 else 0 := by
        split
        · subst stage
          rfl
        · rename_i hother
          refine List.count_eq_zero.mpr fun hmem => hother ?_
          exact (Option.some.inj (Situation.stage?_of_mem_calls hmem)).symm
      rw [List.flatMap_cons, List.count_append, hstage, ih, List.count_cons, Nat.add_comm]
      simp only [beq_iff_eq]

def Stage.beforeInit : List Stage := [.config, .window, .storage, .snapshot, .document]

theorem count_init_reached (opening : Opening) :
    (s.reached opening.stages).count .init = 0 ∨
      (s.reached opening.stages).count .init = 1 ∧
        ∀ stage ∈ Stage.beforeInit, stage ∈ opening.stages ∧ s.failure? stage = none := by
  have honce : opening.stages.Nodup := by cases opening <;> simp [Opening.stages]
  have hcount := List.nodup_iff_count_le_one.mp
    (honce.sublist (s.reached_sublist opening.stages)) .init
  by_cases hmem : Stage.init ∈ s.reached opening.stages
  · refine .inr ⟨Nat.le_antisymm hcount (List.count_pos_iff.mpr hmem), ?_⟩
    cases opening with
    | start config =>
        have hnew : Stage.init ∉ Stage.beforeInit := by decide
        have hpassed := (Situation.mem_reached hnew).mp hmem
        exact fun stage hstage => ⟨List.mem_append_left _ hstage, hpassed stage hstage⟩
    | attach app config =>
        have hnone : Stage.init ∉ Opening.stages (.attach app config) := by simp [Opening.stages]
        exact absurd ((s.reached_sublist _).subset hmem) hnone
  · exact .inl (List.count_eq_zero.mpr hmem)

end

/-! ## The order of failures -/

/-- The first stage that fails decides how the opening ends, and what it did. -/
structure StopsAtFirst (s : Situation) (stages : List Stage)
    (result : Except BridgeError α) (last : Page) : Prop where
  error : ∀ e, result = .error e ↔ stages.findSome? s.failure? = some e
  ok : (∃ a, result = .ok a) ↔ ∀ stage ∈ stages, s.failure? stage = none
  called : ∀ call, last.called call =
    s.page.called call + ((s.reached stages).flatMap s.calls).count call
  effects : last.effects = s.page.effects ++ (s.passed stages).flatMap s.effects
  entries : last.entries = s.page.entries
  unwritten : ∀ call ∈ [PageCall.setItem, .removeItem], last.called call = s.page.called call
  init : last.called .init = s.page.called .init ∨
    last.called .init = s.page.called .init + 1 ∧
      ∀ stage ∈ Stage.beforeInit, stage ∈ stages ∧ s.failure? stage = none

theorem Stops.stopsAtFirst {s : Situation} {opening : Opening} {result : Except BridgeError α}
    {last : Page} (h : Stops s [] opening.stages result last) :
    StopsAtFirst s opening.stages result last := by
  have hstands : Stands s (s.reached opening.stages) (s.passed opening.stages) last := h.stands
  refine ⟨h.error_iff, h.ok_iff, hstands.called, congrArg Surface.effects hstands,
    hstands.entries, ?unwritten, ?init⟩
  case unwritten =>
    intro call hcall
    have hnone : call.stage? = none := by
      revert call
      decide
    have hnever : call ∉ (s.reached opening.stages).flatMap s.calls := by
      intro hmem
      obtain ⟨stage, -, hmade⟩ := List.mem_flatMap.mp hmem
      rw [Situation.stage?_of_mem_calls hmade] at hnone
      contradiction
    rw [hstands.called, List.count_eq_zero.mpr hnever, Nat.add_zero]
  case init =>
    rw [hstands.called, count_init]
    rcases count_init_reached opening with hzero | ⟨hone, hpassed⟩
    · exact .inl (by rw [hzero, Nat.add_zero])
    · exact .inr ⟨by rw [hone], hpassed⟩

/--
Starting and attaching go through their stages in order.  The first that fails gives the error,
whatever would fail after it, and no call and no effect belongs to a later one; the connection
is made exactly if none fails.  The flags that a program is started with are the stored entries,
but for one under `__proto__`.
-/
theorem openings_stop_at_the_first_failure (opening : Opening) (page : Page) :
    ∃ result last, opening.act.run.run page = (result, last) ∧
      StopsAtFirst (opening.situation page) opening.stages result last ∧
      ∃ fields, (opening.situation page).flags = .object fields ∧
        Carries fields (opening.situation page).entries ∧
        (IsExactly fields (opening.situation page).entries ↔
          (opening.situation page).entries.get? "__proto__" = none) := by
  have hcarries := carries_snapshot (opening.situation page).entries
  exact ⟨_, _, rfl, (goes_opening opening page).stopsAtFirst, _, rfl, hcarries,
    hcarries.isExactly_iff⟩

/-- An entry whose name sets the prototype of an object does not come to the program. -/
theorem prototype_entry_is_not_among_the_flags :
    ((pageWith [("__proto__", "x")]).after (start .undefined).run).effects =
        [.init (.element "myapp") (.object []), .subscribed "storeCache", .listening] ∧
      ¬ IsExactly [] [("__proto__", "x")] := by
  refine ⟨rfl, ?_⟩
  intro hexactly
  have hmem := (hexactly "__proto__" (.string "x")).mpr ⟨"x", rfl, rfl⟩
  contradiction

end TabRelay.Bridge
