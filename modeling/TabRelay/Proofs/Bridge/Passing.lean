import TabRelay.Proofs.Bridge.Stages

/-!
# Each act of an opening is one of its stages

An act fails with the error of its stage, or it passes.  Either way it makes the calls of the
stage, and when it passes it does what the stage does to the page.
-/

namespace TabRelay.Bridge

open TabRelay.Storage TabRelay.Web

variable {α : Type}

/-! ## The acts of an opening -/

section

variable {s : Situation} {reached passed : List Stage} {page : Page}

theorem does_readConfig (s : Situation) (page : Page) :
    Does s .config page (readConfig s.given) s.config := by
  have hrun : (readConfig s.given).run.run page =
      ((Config.ofValue s.given).mapError BridgeError.config, page) := rfl
  cases hconfig : Config.ofValue s.given with
  | error reason =>
      rw [hconfig] at hrun
      exact .failed (by rw [Situation.failure?, hconfig]) hrun page.surface_same
  | ok c =>
      rw [hconfig] at hrun
      have hc : c = s.config := by simp [Situation.config, hconfig, Except.toOption]
      exact .passed (by rw [Situation.failure?, hconfig]) (hc ▸ hrun) page.surface_same

theorem does_needWindow (h : Stands s reached passed page) :
    Does s .window page needWindow () := by
  cases hwindow : s.page.hasWindow with
  | false =>
      have hfails : s.failure? .window = some .noWindow := by simp [Situation.failure?, hwindow]
      refine .failed hfails ?_ page.surface_same
      simp only [needWindow, run_bind, run_get, h.hasWindow, hwindow]
      rfl
  | true =>
      have hpasses : s.failure? .window = none := by simp [Situation.failure?, hwindow]
      refine .passed hpasses ?_ page.surface_same
      simp only [needWindow, run_bind, run_get, h.hasWindow, hwindow]
      rfl

theorem does_needArea (h : Stands s reached passed page) (hnew : .storage ∉ reached) :
    Does s .storage page (needArea s.config.area) () := by
  have hattempt := run_attempt (getterOf s.config.area) page
  have hnext := page.surface_calling (getterOf s.config.area)
  rw [h.thrownBy (stage?_getterOf _) hnew] at hattempt
  cases hthrown : s.page.thrownBy (getterOf s.config.area) with
  | some thrown =>
      rw [hthrown] at hattempt
      have hfails : s.failure? .storage = some (.storage thrown) := by
        simp [Situation.failure?, hthrown]
      refine .failed hfails ?_ hnext
      rw [needArea, run_bind, run_adapt, hasArea, run_bind, hattempt]
  | none =>
      rw [hthrown] at hattempt
      have hentries : (page.calling (getterOf s.config.area)).entries = s.page.entries :=
        (page.entries_calling _).trans h.entries
      have hrun : (needArea s.config.area).run.run page =
          (if (s.page.entries s.config.area).isSome then .ok ()
            else .error (.storageUnavailable s.config.area),
            page.calling (getterOf s.config.area)) := by
        rw [needArea, run_bind, run_adapt, hasArea, run_bind, hattempt]
        simp only [run_bind, run_get, hentries]
        cases (s.page.entries s.config.area).isSome <;> rfl
      cases hsome : (s.page.entries s.config.area).isSome with
      | false =>
          have hfails : s.failure? .storage = some (.storageUnavailable s.config.area) := by
            simp [Situation.failure?, hthrown, hsome]
          exact .failed hfails (by simpa [hsome] using hrun) hnext
      | true =>
          have hpasses : s.failure? .storage = none := by
            simp [Situation.failure?, hthrown, hsome]
          exact .passed hpasses (by simpa [hsome] using hrun) hnext

theorem does_mountNode (h : Stands s reached passed page) :
    Does s .document page (mountNode s.config.node) s.node := by
  cases hdocument : s.page.hasDocument with
  | false =>
      have hfails : s.failure? .document = some .noDocument := by
        simp [Situation.failure?, hdocument]
      refine .failed hfails ?_ page.surface_same
      rw [mountNode, run_bind, run_get]
      simp only [h.hasDocument, hdocument]
      rfl
  | true =>
      have hpasses : s.failure? .document = none := by simp [Situation.failure?, hdocument]
      cases hnode : s.page.nodes.contains s.config.node with
      | false =>
          let missing : Mark :=
            .note .warning "mount node not found, passing null" [("node", s.config.node)]
          refine .passed hpasses ?_ ((page.surface_recorded_mark missing).trans page.surface_same)
          rw [mountNode, run_bind, run_get]
          simp only [h.hasDocument, hdocument, h.nodes, hnode, Situation.node]
          rfl
      | true =>
          refine .passed hpasses ?_ page.surface_same
          rw [mountNode, run_bind, run_get]
          simp only [h.hasDocument, hdocument, h.nodes, hnode, Situation.node]
          rfl

end

/-! ## Reading the snapshot -/

section

variable {q page : Page} {kind : AreaKind} {calls : List PageCall} {effects : List Trace}

theorem run_call (page : Page) (kind : AreaKind) (call : PageCall) (g : Entries → α) :
    (do attempt call; return g (← entriesOf kind) : Throwing α).run.run page =
      match page.thrownBy call with
      | some thrown => (.error thrown, page.calling call)
      | none => (.ok (g ((page.entries kind).getD [])), page.calling call) := by
  rw [run_bind, run_attempt]
  cases page.thrownBy call with
  | some thrown => rfl
  | none =>
      rw [← page.entries_calling call]
      rfl

theorem run_key {entries : Entries} (hentries : (page.entries kind).getD [] = entries) {index : Nat}
    (hindex : index < entries.length) :
    ((areaService kind).key index).run.run page = match page.thrownBy .key with
      | some thrown => (.error thrown, page.calling .key)
      | none => (.ok (some entries[index].1), page.calling .key) := by
  have hrun := run_call page kind .key fun es => es[index]?.map (·.1)
  rw [hentries, List.getElem?_eq_getElem hindex] at hrun
  exact hrun

theorem run_getItem {entries : Entries} (hentries : (page.entries kind).getD [] = entries)
    {key text : String} (htext : entries.get? key = some text) :
    ((areaService kind).get key).run.run page = match page.thrownBy .getItem with
      | some thrown => (.error thrown, page.calling .getItem)
      | none => (.ok (some text), page.calling .getItem) := by
  have hrun := run_call page kind .getItem fun es => es.get? key
  rw [hentries, htext] at hrun
  exact hrun

theorem run_collect {entries : Entries} (count index : Nat) {page : Page} {calls : List PageCall}
    (hpage : page.surface = q.surface.having calls effects)
    (hentries : (page.entries kind).getD [] = entries) (hcount : index + count ≤ entries.length)
    (hkey : calls.count .key = index) (hget : calls.count .getItem = index) (s : Snapshot) :
    ∃ next, (Snapshot.collect (areaService kind) index count s).run.run page =
        (match (q.readingFrom index count).2 with
          | some thrown => .error thrown
          | none => .ok (((entries.drop index).take count).foldl entries.readInto s), next) ∧
      next.surface = page.surface.having (q.readingFrom index count).1 [] := by
  induction count generalizing index page calls s with
  | zero => exact ⟨page, rfl, (Surface.having_nil _).symm⟩
  | succ count ih =>
      have hindex : index < entries.length := by omega
      have hfirst : (entries.drop index).take (count + 1) =
          entries[index] :: (entries.drop (index + 1)).take count := by
        rw [List.drop_eq_getElem_cons hindex, List.take_succ_cons]
      obtain ⟨text, htext⟩ := Entries.get?_isSome (List.getElem_mem hindex)
      have hnext := Page.surface_calling_of hpage .key
      rw [Snapshot.collect, run_bind, run_key hentries hindex, Page.thrownBy_of_surface hpage, hkey,
        Page.readingFrom]
      cases (q.scheduleOf .key).thrownAt (q.called .key + index) with
      | some thrown => exact ⟨_, rfl, page.surface_calling .key⟩
      | none =>
          have hlast := Page.surface_calling_of hnext .getItem
          have hstored : ((page.calling .key).entries kind).getD [] = entries := by
            rw [page.entries_calling, hentries]
          have hgetNext : (calls ++ [PageCall.key]).count .getItem = index := by simp [hget]
          simp only [run_bind, run_getItem hstored htext, Page.thrownBy_of_surface hnext, hgetNext]
          cases (q.scheduleOf .getItem).thrownAt (q.called .getItem + index) with
          | some thrown =>
              refine ⟨_, rfl, ?_⟩
              rw [Page.surface_calling, Page.surface_calling, Surface.having_having]
              rfl
          | none =>
              obtain ⟨last, hrun, hsurface⟩ := ih (index + 1) hlast
                (by rw [Page.entries_calling, hstored]) (by omega) (by simp [hkey]) (by simp [hget])
                (Keyed.insert entries[index].1 text s)
              refine ⟨last, ?_, ?_⟩
              · rw [hfirst, List.foldl_cons, Entries.readInto, htext]
                exact hrun
              · rw [hsurface, Page.surface_calling, Page.surface_calling, Surface.having_having,
                  Surface.having_having]
                rfl

theorem run_read {entries : Entries} (hpage : page.surface = q.surface.having calls effects)
    (hentries : (page.entries kind).getD [] = entries)
    (hnew : ∀ call ∈ [PageCall.length, .key, .getItem], call ∉ calls) :
    ∃ next, (Snapshot.read (areaService kind)).run.run page =
        (match (q.reading entries.length).2 with
          | some thrown => .error thrown
          | none => .ok entries.snapshot, next) ∧
      next.surface = page.surface.having (q.reading entries.length).1 [] := by
  have hnone : ∀ call ∈ [PageCall.length, .key, .getItem], calls.count call = 0 :=
    fun call hcall => List.count_eq_zero.mpr (hnew call hcall)
  have hlength : calls.count .length = 0 := hnone _ (by simp)
  have hrun : ((areaService kind).length).run.run page = match page.thrownBy .length with
      | some thrown => (.error thrown, page.calling .length)
      | none => (.ok entries.length, page.calling .length) := by
    have hrun := run_call page kind .length List.length
    rw [hentries] at hrun
    exact hrun
  have hthrown : page.thrownBy .length = q.thrownBy .length := by
    rw [Page.thrownBy_of_surface hpage, hlength]
    rfl
  have hnext := Page.surface_calling_of hpage .length
  rw [Snapshot.read, Snapshot.readReserving, run_bind, hrun, hthrown, Page.reading]
  cases q.thrownBy .length with
  | some thrown => exact ⟨_, rfl, page.surface_calling .length⟩
  | none =>
      obtain ⟨last, hrun, hsurface⟩ := run_collect entries.length 0 hnext
        (by rw [Page.entries_calling, hentries]) (by omega) (by simp [hnone]) (by simp [hnone]) []
      rw [List.drop_zero, List.take_length] at hrun
      refine ⟨last, hrun, ?_⟩
      rw [hsurface, Page.surface_calling, Surface.having_having]
      rfl

theorem run_readSnapshot (kind : AreaKind) (page : Page) :
    ∃ last, (readSnapshot kind).run.run page =
        (((Snapshot.read (areaService kind)).run.run
          (page.recorded (.mark (.enterRead kind.name)))).1.mapError BridgeError.storage, last) ∧
      last.surface = ((Snapshot.read (areaService kind)).run.run
        (page.recorded (.mark (.enterRead kind.name)))).2.surface := by
  obtain ⟨result, next, hrun⟩ : ∃ result next, (Snapshot.read (areaService kind)).run.run
      (page.recorded (.mark (.enterRead kind.name))) = (result, next) := ⟨_, _, rfl⟩
  have hmark : (mark (.enterRead kind.name)).run page =
      ((), page.recorded (.mark (.enterRead kind.name))) := rfl
  rw [readSnapshot, ExceptT.run_mk, run_bind_of_run hmark, run_bind_of_run hrun, hrun]
  cases result with
  | ok s => exact ⟨_, rfl, rfl⟩
  | error thrown => exact ⟨_, rfl, rfl⟩

theorem does_readSnapshot {s : Situation} {reached passed : List Stage} {page : Page}
    (h : Stands s reached passed page) (hnew : .snapshot ∉ reached) :
    Does s .snapshot page (readSnapshot s.config.area) s.entries.snapshot := by
  have hpage : (page.recorded (.mark (.enterRead s.config.area.name))).surface =
      s.page.surface.having (reached.flatMap s.calls) (passed.flatMap s.effects) := h
  have hentries : ((page.recorded (.mark (.enterRead s.config.area.name))).entries
      s.config.area).getD [] = s.entries :=
    congrArg (fun es => Option.getD (es s.config.area) []) h.entries
  have hstage : ∀ call ∈ [PageCall.length, .key, .getItem], call.stage? = some .snapshot := by
    decide
  have hcalls : ∀ call ∈ [PageCall.length, .key, .getItem], call ∉ reached.flatMap s.calls :=
    fun call hcall => Situation.not_mem_calls (hstage call hcall) hnew
  obtain ⟨next, hread, hnext⟩ := run_read hpage hentries hcalls
  obtain ⟨last, hrun, hlast⟩ := run_readSnapshot s.config.area page
  rw [hread] at hrun hlast
  have hsurface : last.surface = page.surface.having (s.calls .snapshot) [] := hlast.trans hnext
  cases hthrown : (s.page.reading s.entries.length).2 with
  | some thrown =>
      rw [hthrown] at hrun
      exact .failed (by rw [Situation.failure?, hthrown]; rfl) hrun hsurface
  | none =>
      rw [hthrown] at hrun
      exact .passed (by rw [Situation.failure?, hthrown]; rfl) hrun hsurface

end

/-! ## Launching -/

def Page.launched (page : Page) (node flags : Value) : Page :=
  ((page.calling .init).recorded (.init node flags)).after (addApp "main" page.program)

theorem run_launch (node flags : Value) (page : Page) :
    (launch node flags).run.run page = match page.thrownBy .init with
      | some thrown => (.error (.init thrown), page.calling .init)
      | none => (.ok page.apps.length, page.launched node flags) := by
  have hrun := run_attempt .init page
  cases hthrown : page.thrownBy .init with
  | some thrown =>
      rw [hthrown] at hrun
      simp only [launch, run_bind, run_adapt, hrun]
  | none =>
      rw [hthrown] at hrun
      simp only [launch, run_bind, run_adapt, hrun]
      rfl

theorem ports_launched (page : Page) (node flags : Value) :
    (page.launched node flags).portsOf page.apps.length = page.program.ports := by
  have happs : (page.launched node flags).apps =
      page.apps ++ [⟨"main", page.program.ports, page.program.echo, []⟩] := rfl
  simp [Page.portsOf, happs]

theorem surface_launched (page : Page) (node flags : Value) :
    (page.launched node flags).surface = page.surface.having [.init] [.init node flags] := by
  have hrecorded : (page.launched node flags).surface =
      ((page.calling .init).recorded (.init node flags)).surface := rfl
  rw [hrecorded, Page.surface_recorded _ rfl, Page.surface_calling, Surface.having_having]
  rfl

theorem does_launch {s : Situation} {reached passed : List Stage} {page : Page}
    (h : Stands s reached passed page) (hnew : .init ∉ reached) :
    Does s .init page (launch s.node s.flags) page.apps.length := by
  have hrun := run_launch s.node s.flags page
  rw [h.thrownBy rfl hnew] at hrun
  cases hthrown : s.page.thrownBy .init with
  | some thrown =>
      rw [hthrown] at hrun
      exact .failed (by rw [Situation.failure?, hthrown]; rfl) hrun (page.surface_calling .init)
  | none =>
      rw [hthrown] at hrun
      exact .passed (by rw [Situation.failure?, hthrown]; rfl) hrun (surface_launched ..)

/-! ## Connecting -/

section

variable {s : Situation} {page : Page} {app : Nat}

theorem findPort_eq (hports : page.portsOf app = s.ports)
    (name : String) (method : PortMethod) :
    page.findPort app name method =
      if s.ports.isObject then
        if s.hasPort name method then .ok ⟨app, name, s.port name⟩
        else .error (.missingPort name method)
      else .error .noPorts := by
  rw [Page.portsOf] at hports
  simp only [Page.findPort, hports]
  unfold Situation.hasPort Situation.port
  rcases s.ports.property name with thrown | port <;> rfl

theorem does_findPort (hports : page.portsOf app = s.ports)
    (hobject : s.ports.isObject) {stage : Stage} {name : String} {method : PortMethod}
    (hfailure : s.failure? stage =
      if s.hasPort name method then none else some (.missingPort name method))
    (hcalls : s.calls stage = []) (heffects : s.effects stage = []) (q : Page) :
    Does s stage q (liftM (page.findPort app name method)) ⟨app, name, s.port name⟩ := by
  have hfound := findPort_eq hports name method
  rw [if_pos hobject] at hfound
  cases hport : s.hasPort name method with
  | false =>
      rw [hport] at hfailure hfound
      have hrun := (run_except _ q).trans (congrArg (·, q) hfound)
      exact .failed hfailure hrun (by rw [hcalls, Surface.having_nil])
  | true =>
      rw [hport] at hfailure hfound
      have hrun := (run_except _ q).trans (congrArg (·, q) hfound)
      exact .passed hfailure hrun (by rw [hcalls, heffects, Surface.having_nil])

def Page.subscribed (page : Page) (port : Port) (callback : Nat) : Page :=
  ((page.calling .subscribe).recorded (.subscribed port.name)).modifyApp port.app fun app =>
    { app with subscribers := app.subscribers ++ [(port.name, callback)] }

theorem surface_subscribed (port : Port) (callback : Nat) :
    (page.subscribed port callback).surface =
      page.surface.having [.subscribe] [.subscribed port.name] := by
  have hrecorded : (page.subscribed port callback).surface =
      ((page.calling .subscribe).recorded (.subscribed port.name)).surface := rfl
  rw [hrecorded, Page.surface_recorded _ rfl, Page.surface_calling, Surface.having_having]
  rfl

theorem run_subscribePort {port : Port} (h : port.value.property "subscribe" = .ok .function)
    (callback : Nat) (page : Page) :
    (subscribePort port callback).run.run page =
      if port.value.isPort then
        match page.thrownBy .subscribe with
        | some thrown => (.error thrown, page.calling .subscribe)
        | none => (.ok (), page.subscribed port callback)
      else (.ok (), page) := by
  simp only [subscribePort, callPort, PortMethod.name, h]
  split
  · rw [run_bind, run_attempt]
    cases page.thrownBy .subscribe <;> rfl
  · rfl

theorem run_listen (reaction : Reaction) (page : Page) :
    ∃ next, (listen reaction).run.run page =
        (match page.thrownBy .addEventListener with
          | some thrown => .error thrown
          | none => .ok page.windowCallbacks.length, next) ∧
      next.surface = page.surface.having [.addEventListener]
        (if (page.thrownBy .addEventListener).isSome then [] else [.listening]) := by
  have hmade : (liftM (addWindowCallback reaction) : Throwing Nat).run.run page =
      (.ok page.windowCallbacks.length,
        { page with windowCallbacks := page.windowCallbacks ++ [⟨reaction, true⟩] }) := rfl
  have hthrown : Page.thrownBy
      { page with windowCallbacks := page.windowCallbacks ++ [⟨reaction, true⟩] }
      .addEventListener = page.thrownBy .addEventListener := rfl
  have hcalling := page.surface_calling .addEventListener
  simp only [listen, addListener, run_bind, run_tryCatch, run_attempt, hmade, hthrown]
  cases page.thrownBy .addEventListener with
  | some thrown => exact ⟨_, rfl, hcalling⟩
  | none =>
      have hmark : Trace.isMark .listening = false := rfl
      have hrecorded := (page.calling .addEventListener).surface_recorded hmark
      rw [hcalling, Surface.having_having] at hrecorded
      exact ⟨_, rfl, hrecorded⟩

theorem does_subscribe {reached passed : List Stage} (h : Stands s reached passed page)
    (hnew : .subscribe ∉ reached)
    (hmethod : (s.port s.config.storePort).property "subscribe" = .ok .function) (callback : Nat) :
    Does s .subscribe page
      ((subscribePort ⟨app, s.config.storePort, s.port s.config.storePort⟩ callback).adapt
        (BridgeError.port s.config.storePort)) () := by
  have hrun := @run_subscribePort ⟨app, s.config.storePort, s.port s.config.storePort⟩ hmethod
    callback page
  rw [h.thrownBy rfl hnew] at hrun
  cases hport : (s.port s.config.storePort).isPort with
  | false =>
      have hpasses : s.failure? .subscribe = none := by simp [Situation.failure?, hport]
      refine .passed hpasses (by rw [run_adapt, hrun, hport]; rfl) ?_
      simp [Situation.calls, Situation.effects, hport]
  | true =>
      cases hthrown : s.page.thrownBy .subscribe with
      | some thrown =>
          have hfails : s.failure? .subscribe = some (.port s.config.storePort thrown) := by
            simp [Situation.failure?, hport, hthrown]
          refine .failed hfails (by rw [run_adapt, hrun, hport, hthrown]; rfl) ?_
          simp [Situation.calls, hport, Page.surface_calling]
      | none =>
          have hpasses : s.failure? .subscribe = none := by
            simp [Situation.failure?, hport, hthrown]
          refine .passed hpasses (by rw [run_adapt, hrun, hport, hthrown]; rfl) ?_
          simp [Situation.calls, Situation.effects, hport, surface_subscribed]

theorem does_listen {reached passed : List Stage} (h : Stands s reached passed page)
    (hnew : .listen ∉ reached) (reaction : Reaction) :
    Does s .listen page ((listen reaction).adapt BridgeError.storage)
      page.windowCallbacks.length := by
  obtain ⟨next, hrun, hnext⟩ := run_listen reaction page
  rw [h.thrownBy rfl hnew] at hrun hnext
  cases hthrown : s.page.thrownBy .addEventListener with
  | some thrown =>
      rw [hthrown] at hrun hnext
      have hfails : s.failure? .listen = some (.storage thrown) := by
        simp [Situation.failure?, hthrown]
      exact .failed hfails (by rw [run_adapt, hrun]) hnext
  | none =>
      rw [hthrown] at hrun hnext
      have hpasses : s.failure? .listen = none := by simp [Situation.failure?, hthrown]
      exact .passed hpasses (by rw [run_adapt, hrun]) hnext

end

end TabRelay.Bridge
