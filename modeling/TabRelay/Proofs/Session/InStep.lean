import TabRelay.Proofs.Session.Showing

/-!
# Two machines in step

What relays, logs and queues do to the part that is seen they do to the whole as
well.  With that every step that is seen begins alike in two machines that agree,
and so does what the topmost frame makes of the answer.
-/

namespace TabRelay.Session

open TabRelay.Decoding TabRelay.Storage

variable {V : Type}

namespace Machine

namespace Shows

variable {v : View} {before : List (Entry V) × List (Entry V)} {m p : Machine V}

/-! ## Listeners -/

theorem runScript (h : Shows v before m p) (name : String) (steps : List (Step V)) :
    InStep v before (m.runScript name steps) (p.runScript name steps) :=
  (h.push (f := .script name steps) rfl).answer .ok

theorem recordChange (h : Shows v before m p) (hfree : m.Unheld) {log : Nat} (hlog : v.logs log)
    {change : Change V} (habout : v.about change.key?) :
    InStep v before (m.recordChange log change) (p.recordChange (rank v.logs log) change) := by
  simp only [Machine.recordChange, whenFree_of_unheld hfree,
    whenFree_of_unheld (h.unheld hfree)]
  have hupdate : Shows v before
      ((m.mark (.enterRecord change.key?)).update (m.system.pushToLog log change))
      ((p.mark (.enterRecord change.key?)).update
        (p.system.pushToLog (rank v.logs log) change)) := by
    refine (h.mark (by rfl) (by rfl)).update ?_ (h.closed.spares _ _ _)
    rw [h.system, System.pushToLog, View.system_log hlog, System.pushToLog,
      View.system_setLog hlog, View.log_append habout]
  exact (hupdate.mark (by rfl) (by rfl)).answer .ok

theorem tell (h : Shows v before m p) (hfree : m.Unheld) {listener : Listener}
    (hlistener : v.seesListener listener) {change : Change V} (habout : v.about change.key?) :
    InStep v before (m.tell listener change) (p.tell (v.listener listener) change) := by
  cases listener with
  | log log => exact h.recordChange hfree hlistener habout
  | none => exact h.answer .ok
  | script i =>
      have hscripts : p.system.scripts = m.system.scripts := by
        rw [h.system]
        rfl
      simp only [Machine.tell, View.listener, hscripts]
      cases m.system.scripts[i]? with
      | none => exact h.answer .ok
      | some script =>
          have hset : p.system.setScript i script.next.2 =
              v.system (m.system.setScript i script.next.2) := by
            rw [h.system]
            rfl
          exact ((h.record _).update hset (h.closed.spares _ _ _)).runScript _ _

theorem receive (h : Shows v before m p) (hfree : m.Unheld) {relay : Relay} (hrelay : v.seesRelay relay)
    {event : Event} (habout : v.about event.key) :
    InStep v before (m.receive relay event) (p.receive (v.relay relay) event) := by
  have hkind : (p.system.area (v.relay relay).handle.area).kind =
      (m.system.area relay.handle.area).kind := by
    rw [h.area]
    rfl
  simp only [Machine.receive, whenFree_of_unheld hfree, whenFree_of_unheld (h.unheld hfree), hkind]
  have hmarked : Shows v before (m.mark (.enterReceive event.key))
      (p.mark (.enterReceive event.key)) := h.mark (by rfl) (by rfl)
  split
  · have hwaiting := hmarked.push (f := .forwarding) rfl
    have hlistener : v.seesListener relay.listener := by
      simp only [View.seesRelay, Bool.and_eq_true] at hrelay
      exact hrelay.2
    exact hwaiting.tell (Unheld.push (hfree.of_stack rfl) (by simp [Frame.isDisposing]))
      hlistener habout
  · exact ((hmarked.mark (by rfl) (by rfl)).mark (by rfl) (by rfl)).answer _

/-! ## Relays -/

theorem nameLog (h : Shows v before m p) (hneat : m.system.Neat) {id : String}
    (hid : v.names .log id)
    (hnext : v.logs m.system.logs.length) : InStep v before (m.nameLog id) (p.nameLog id) := by
  refine Shows.answer (h.update ?_ ?_) .ok
  · have hadded := congrArg System.logs (View.system_addLog m.system hnext)
    simp only [System.addLog] at hadded ⊢
    rw [h.system, View.length_logs, ← hadded]
    simp only [View.system, View.named_insert hneat.listed.logs hid]
  · exact (h.closed.spares (m.system.logs ++ [[]]) m.system.scripts
      m.system.storageNames).nameLog (hnext.trans hid.symm)

theorem nameQueue (h : Shows v before m p) (hneat : m.system.Neat) {id : String}
    (hid : v.names .queue id)
    (hnext : v.queues m.system.queues.length) : InStep v before (m.nameQueue id) (p.nameQueue id) := by
  refine Shows.answer (h.update ?_ ?_) .ok
  · have hadded := congrArg System.queues (View.system_addQueue m.system hnext)
    simp only [System.addQueue] at hadded ⊢
    rw [h.system, View.length_queues, ← hadded]
    simp only [View.system, View.named_insert hneat.listed.queues hid]
  · exact h.closed.addQueue.nameQueue (hnext.trans hid.symm)

theorem deferTask (h : Shows v before m p) {queue : Nat} (hqueue : v.queues queue) {task : Task V}
    (htask : v.seesTask task) :
    Shows v before (m.update (m.system.defer queue task))
      (p.update (p.system.defer (rank v.queues queue) (v.task task))) := by
  refine h.update ?_ (View.Closed.setQueue h.closed ?_)
  · rw [h.system]
    exact (View.system_defer hqueue m.system task).symm
  · intro _ other hother
    rcases List.mem_append.mp hother with hother | hother
    · exact h.closed.tasks queue hqueue other hother
    · rw [List.mem_singleton.mp hother]
      exact htask

theorem defer (h : Shows v before m p) (hfree : m.Unheld) {queue : Nat} (hqueue : v.queues queue)
    {task : Task V} (htask : v.seesTask task) :
    InStep v before (m.defer queue task) (p.defer (rank v.queues queue) (v.task task)) := by
  simp only [Machine.defer, whenFree_of_unheld hfree, whenFree_of_unheld (h.unheld hfree)]
  exact (h.deferTask hqueue htask).answer .ok

theorem finishWrite (h : Shows v before m p) (hfree : m.Unheld) {relay : Relay}
    (hrelay : v.seesRelay relay) {w : Write V} (hkey : v.keys w.key) (stored : Option String)
    (a : Answer V) :
    InStep v before (m.finishWrite relay w stored a) (p.finishWrite (v.relay relay) w stored a) := by
  simp only [View.seesRelay, Bool.and_eq_true] at hrelay
  unfold Machine.finishWrite
  split
  · exact (h.mark (by rfl) (by rfl)).answer _
  · have hmark (mark : Mark) : (m.mark mark).Unheld := hfree.of_stack rfl
    have hmark' (mark : Mark) : (p.mark mark).Unheld := (h.unheld hfree).of_stack rfl
    simp only [whenFree_of_unheld (hmark _), whenFree_of_unheld (hmark' _)]
    have hseen : v.seesTask (.notice relay.listener (.committed w.key w.value)) := by
      simp only [View.seesTask, Bool.and_eq_true]
      exact ⟨hrelay.2, hkey⟩
    refine (((h.mark ?_ ?_).deferTask hrelay.1 hseen).mark (by rfl) (by rfl)).answer .ok <;>
      cases stored <;> rfl

theorem drain (h : Shows v before m p) (hfree : m.Unheld) {queue : Nat} (hqueue : v.queues queue)
    (started : Nat) : InStep v before (m.drain queue started) (p.drain (rank v.queues queue) started) := by
  have htasks : p.system.queue (rank v.queues queue) = (m.system.queue queue).map v.task := by
    rw [h.system, View.system_queue hqueue]
  simp only [Machine.drain, whenFree_of_unheld hfree, whenFree_of_unheld (h.unheld hfree), htasks]
  cases hleft : m.system.queue queue with
  | nil => exact h.answer _
  | cons task tasks =>
      have hseen := h.closed.tasks queue hqueue
      rw [hleft] at hseen
      obtain ⟨htask, htasks⟩ := List.forall_mem_cons.mp hseen
      have hupdate : Shows v before (m.update (m.system.setQueue queue tasks))
          (p.update (p.system.setQueue (rank v.queues queue) (tasks.map v.task))) := by
        refine h.update ?_ (h.closed.setQueue fun _ => htasks)
        rw [h.system, View.system_setQueue hqueue]
      have hpush := hupdate.push (f := .drain queue (started + 1)) hqueue
      have hunheld : ((m.update (m.system.setQueue queue tasks)).push
          (.drain queue (started + 1))).Unheld :=
        Unheld.push (hfree.of_stack rfl) (by simp [Frame.isDisposing])
      cases task with
      | notice listener change =>
          simp only [View.seesTask, Bool.and_eq_true] at htask
          exact hpush.tell hunheld htask.1 htask.2
      | script name steps => exact (hpush.record _).runScript name steps

end Shows

/-! ## When all keys are seen -/

namespace Shows

variable {v : View} {before : List (Entry V) × List (Entry V)} {m p : Machine V} (hall : ∀ key, v.keys key)

include hall

theorem log (h : Shows v before m p) {log : Nat} (hlog : v.logs log) :
    p.system.log (rank v.logs log) = m.system.log log := by
  rw [h.system, View.system_log hlog, View.log_of_all hall]

theorem setLog (h : Shows v before m p) (hfree : m.Unheld) {log : Nat} (hlog : v.logs log)
    (changes : List (Change V)) (a : Answer V) :
    InStep v before (m.setLog log changes a) (p.setLog (rank v.logs log) changes a) := by
  simp only [Machine.setLog, whenFree_of_unheld hfree, whenFree_of_unheld (h.unheld hfree)]
  have hset : p.system.setLog (rank v.logs log) changes = v.system (m.system.setLog log changes) := by
    rw [h.system, View.system_setLog hlog, View.log_of_all hall]
  exact Shows.answer (h.update hset (h.closed.spares _ _ _)) a

theorem askLog (h : Shows v before m p) (hfree : m.Unheld) {log : Nat} (hlog : v.logs log)
    (question : LogQuestion) :
    InStep v before (m.askLog log question) (p.askLog (rank v.logs log) question) := by
  simp only [Machine.askLog, whenFree_of_unheld hfree, whenFree_of_unheld (h.unheld hfree),
    h.log hall hlog]
  cases question <;> exact h.answer _

omit hall in
theorem askQueue (h : Shows v before m p) (hfree : m.Unheld) {queue : Nat} (hqueue : v.queues queue)
    (question : QueueQuestion) :
    InStep v before (m.askQueue queue question) (p.askQueue (rank v.queues queue) question) := by
  have htasks : p.system.queue (rank v.queues queue) = (m.system.queue queue).map v.task := by
    rw [h.system, View.system_queue hqueue]
  simp only [Machine.askQueue, whenFree_of_unheld hfree, whenFree_of_unheld (h.unheld hfree),
    htasks, List.length_map, List.isEmpty_map]
  cases question <;> exact h.answer _

theorem askRelay (h : Shows v before m p) (hfree : m.Unheld) {relay : Relay}
    (hrelay : v.seesRelay relay) (question : RelayQuestion) :
    InStep v before (m.askRelay relay question) (p.askRelay (v.relay relay) question) := by
  simp only [View.seesRelay, Bool.and_eq_true] at hrelay
  cases question with
  | kind =>
      have hkind : InStep v before (m.askArea relay.handle .kind) (p.askArea relay.handle .kind) :=
        h.askArea hfree hall relay.handle (by simp) (by simp)
      exact hkind
  | get key =>
      have hget : InStep v before (m.askArea relay.handle (.get key)) (p.askArea relay.handle (.get key)) :=
        h.askArea hfree hall relay.handle (by simp) (by simp)
      exact hget
  | logLength =>
      simp only [Machine.askRelay, View.relay]
      cases hlistener : relay.listener with
      | log log =>
          have hlog : v.logs log := by simpa [hlistener, View.seesListener] using hrelay.2
          simp only [View.listener, whenFree_of_unheld hfree, whenFree_of_unheld (h.unheld hfree),
            h.log hall hlog]
          exact h.answer _
      | none => exact h.answer _
      | script i => exact h.answer _

theorem snapshot (h : Shows v before m p) (hfree : m.Unheld) (relay : Relay) :
    InStep v before (m.snapshot relay) (p.snapshot (v.relay relay)) := by
  simp only [Machine.snapshot, whenFree_of_unheld hfree, whenFree_of_unheld (h.unheld hfree)]
  have hmarked : Shows v before
      (m.mark (.enterRead (m.system.area relay.handle.area).kind.name))
      (p.mark (.enterRead (p.system.area relay.handle.area).kind.name)) :=
    h.mark (by rfl) (by rfl)
  have hservice := hmarked.service hall relay.handle
  simp only [View.relay, hservice]
  split
  · exact (hmarked.mark (by rfl) (by rfl)).answer _
  · exact ((hmarked.mark (by rfl) (by rfl)).mark (by rfl) (by rfl)).answer _

theorem write [Storable V] (h : Shows v before m p) (hfree : m.Unheld) (hneat : m.system.Neat)
    {relay : Relay} (hrelay : v.seesRelay relay) (w : Write V) :
    InStep v before (m.write relay w) (p.write (v.relay relay) w) := by
  have hkept : Shows v before ((m.push (.keep relay.handle.area)).mark
      (.enterWrite w.key w.isRemoval))
      ((p.push (.keep relay.handle.area)).mark (.enterWrite w.key w.isRemoval)) :=
    (h.push (f := .keep relay.handle.area) rfl).mark (by rfl) (by rfl)
  have hseen (stored : Option String) : v.seesFrame (.writing relay w stored) := by
    simp [View.seesFrame, hrelay, hall w.key]
  have hunheld (stored : Option String) : (((m.push (.keep relay.handle.area)).mark
      (.enterWrite w.key w.isRemoval)).push (.writing relay w stored)).Unheld := by
    have hkeep : (m.push (.keep relay.handle.area)).Unheld := hfree.push (by simp [Frame.isDisposing])
    exact Unheld.push (Unheld.of_stack hkeep rfl) (by simp [Frame.isDisposing])
  unfold Machine.write
  split
  · exact (hkept.push (hseen none)).removeKey (hunheld none) relay.handle (hall w.key)
  · split
    · exact (hkept.mark (by rfl) (by rfl)).answer _
    · rename_i text htext
      exact (hkept.push (hseen (some text))).setText (hunheld _) { hneat with } relay.handle
        (hall w.key) (.inl hall) text

end Shows

/-! ## Steps -/

/-- The step can be done to what is seen alone: it names what is seen, makes what is seen, and
does not look at what is not. -/
structure Suits (v : View) (s : System V) (step : Step V) : Prop where
  names : ∀ named ∈ step.mentions, v.names named.1 named.2
  counts : step.countsSubscribers = false
  reads : step.isByKey = false → ∀ key, v.keys key
  changes : ∀ key, step.changedKey? = some key → v.keys key
  quota : (∀ key, v.keys key) ∨ ∀ i, (s.area i).quota = none
  registers : ∀ handle, step.subscribing? s = some handle → Shows.SeesRegistration v s handle
  log : ∀ id, step = .newLog id → v.logs s.logs.length
  queue : ∀ id, step = .newQueue id → v.queues s.queues.length

namespace Shows

variable {v : View} {before : List (Entry V) × List (Entry V)} {m p : Machine V} [Storable V]

/-! ### The families of steps -/

section Families

variable {step : Step V} (h : Shows v before m p) (hfree : m.Unheld) (hneat : m.system.Neat)
  (hsuits : Suits v m.system step)

include h hfree hneat hsuits

omit hneat hsuits in
theorem begin_storages (hfamily : step.family = .storages) :
    InStep v before (m.begin step) (p.begin (v.step step)) := by
  cases step with
  | new id kind => exact h.create id (by simp [View.area, View.entries, View.subscribers]) rfl
  | newWithQuota id kind quota =>
      exact h.create id (by simp [View.area, View.entries, View.subscribers]) rfl
  | newWithEntries id kind entries =>
      refine h.create id ?_ rfl
      simp [View.area, View.entries_ofPairs, View.subscribers]
  | openTab id storage => exact h.withStorage fun handle _ => h.openTab hfree id handle
  | sameTab id storage => exact h.withStorage fun handle _ => h.nameStorage id handle
  | dropStorage id => exact h.dropStorage id
  | setFaults storage faults =>
      refine h.withStorage fun handle _ => ?_
      rw [h.area]
      have hset : Shows v before
          (m.setArea handle.area ((m.system.area handle.area).setFaults handle.tab faults))
          (p.setArea handle.area
            ((v.area handle.area (m.system.area handle.area)).setFaults handle.tab faults)) :=
        h.setArea_same rfl rfl
      exact hset.answer .ok
  | _ => contradiction

theorem begin_entries (hfamily : step.family = .entries) :
    InStep v before (m.begin step) (p.begin (v.step step)) := by
  have hwhole (hread : step.isByKey = false) : ∀ key, v.keys key := hsuits.reads hread
  have hpushed (i : Nat) : (m.push (.keep i)).Unheld := hfree.push (by simp [Frame.isDisposing])
  have hquota (i : Nat) : (∀ key, v.keys key) ∨ (m.system.area i).quota = none :=
    hsuits.quota.imp id fun hnone => hnone i
  cases step with
  | askArea storage question =>
      refine h.withStorage fun handle _ => h.askArea hfree (hwhole rfl) handle ?_ ?_
      · rintro rfl
        exact absurd hsuits.counts (by simp [Step.countsSubscribers])
      · rintro rfl
        exact absurd hsuits.counts (by simp [Step.countsSubscribers])
  | set storage key text =>
      exact h.withStorage fun handle _ =>
        (h.push (f := .keep handle.area) rfl).setText (hpushed _) hneat handle
          (hsuits.changes key rfl) (hquota _) text
  | remove storage key =>
      exact h.withStorage fun handle _ =>
        (h.push (f := .keep handle.area) rfl).removeKey (hpushed _) handle (hsuits.changes key rfl)
  | clear storage =>
      exact h.withStorage fun handle _ =>
        (h.push (f := .keep handle.area) rfl).clearArea (hpushed _) (hwhole rfl) handle
  | dispatch storage event =>
      refine h.withStorage fun handle _ => h.withDecoded fun event => ?_
      simp only [whenFree_of_unheld hfree, whenFree_of_unheld (h.unheld hfree)]
      exact (h.push (f := .keep handle.area) rfl).deliver
        (View.about_of_all (hwhole rfl) event.key) handle.area none
  | _ => contradiction

theorem begin_subscriptions (hfamily : step.family = .subscriptions) :
    InStep v before (m.begin step) (p.begin (v.step step)) := by
  have hname {space : Space} {id : String} (hid : (space, id) ∈ step.mentions) :
      v.names space id := hsuits.names _ hid
  cases step with
  | subscribe storage id steps times own =>
      have hscript : v.script ⟨id, steps, times⟩ = ⟨id, steps, (v.script ⟨id, steps, times⟩).left⟩ := by
        unfold View.script
        split <;> rfl
      have hsubscribed := h.subscribe hfree hneat
        (fun handle hhandle => hsuits.registers handle hhandle) (hname List.mem_cons_self)
        ⟨id, steps, times⟩ own
      rw [hscript] at hsubscribed
      exact hsubscribed
  | dropSubscription id => exact h.dropSubscription (hname List.mem_cons_self)
  | showSubscription id => exact absurd hsuits.counts (by simp [Step.countsSubscribers])
  | _ => contradiction

theorem begin_logs (hfamily : step.family = .logs) :
    InStep v before (m.begin step) (p.begin (v.step step)) := by
  have hwhole (hread : step.isByKey = false) : ∀ key, v.keys key := hsuits.reads hread
  have hname {space : Space} {id : String} (hid : (space, id) ∈ step.mentions) :
      v.names space id := hsuits.names _ hid
  cases step with
  | newLog id => exact h.nameLog hneat (hname List.mem_cons_self) (hsuits.log id rfl)
  | pushToLog log change =>
      refine h.withDecoded fun change => h.withLog (hname List.mem_cons_self) fun log hlog => ?_
      rw [h.log (hwhole rfl) hlog]
      exact h.setLog (hwhole rfl) hfree hlog _ _
  | notifyLog log change =>
      exact h.withDecoded fun change => h.withLog (hname List.mem_cons_self) fun log hlog =>
        h.recordChange hfree hlog (View.about_of_all (hwhole rfl) change.key?)
  | popFromLog log =>
      refine h.withLog (hname List.mem_cons_self) fun log hlog => ?_
      rw [h.log (hwhole rfl) hlog]
      exact h.setLog (hwhole rfl) hfree hlog _ _
  | drainLog log =>
      refine h.withLog (hname List.mem_cons_self) fun log hlog => ?_
      rw [h.log (hwhole rfl) hlog]
      exact h.setLog (hwhole rfl) hfree hlog _ _
  | clearLog log =>
      exact h.withLog (hname List.mem_cons_self) fun log hlog =>
        h.setLog (hwhole rfl) hfree hlog _ _
  | askLog log question =>
      exact h.withLog (hname List.mem_cons_self) fun log hlog =>
        h.askLog (hwhole rfl) hfree hlog question
  | _ => contradiction

theorem begin_queues (hfamily : step.family = .queues) :
    InStep v before (m.begin step) (p.begin (v.step step)) := by
  have hname {space : Space} {id : String} (hid : (space, id) ∈ step.mentions) :
      v.names space id := hsuits.names _ hid
  cases step with
  | newQueue id => exact h.nameQueue hneat (hname List.mem_cons_self) (hsuits.queue id rfl)
  | defer queue name steps =>
      exact h.withQueue (hname List.mem_cons_self) fun queue hqueue =>
        h.defer hfree hqueue (show v.seesTask (.script name steps) from rfl)
  | runPending queue =>
      exact h.withQueue (hname List.mem_cons_self) fun queue hqueue => h.drain hfree hqueue 0
  | askQueue queue question =>
      exact h.withQueue (hname List.mem_cons_self) fun queue hqueue =>
        h.askQueue hfree hqueue question
  | _ => contradiction

omit hfree in
theorem begin_relays (hfamily : step.family = .relays) :
    InStep v before (m.begin step) (p.begin (v.step step)) := by
  have hname {space : Space} {id : String} (hid : (space, id) ∈ step.mentions) :
      v.names space id := hsuits.names _ hid
  cases step with
  | relayToLog id storage queue log =>
      exact h.withLog (hname (by simp [Step.mentions])) fun log hlog =>
        h.makeRelay hneat (hname List.mem_cons_self) (hname (by simp [Step.mentions])) storage
          (show v.seesListener (.log log) from hlog)
  | relayToNone id storage queue =>
      exact h.makeRelay hneat (hname List.mem_cons_self) (hname (by simp [Step.mentions])) storage
        (show v.seesListener .none from rfl)
  | relayToScript id storage queue steps times =>
      exact h.makeScriptRelay hneat (hname List.mem_cons_self) (hname (by simp [Step.mentions]))
        storage _
  | sameRelay id relay =>
      exact h.withRelay (hname (by simp [Step.mentions])) fun relay hrelay _ =>
        h.nameRelay hneat (hname List.mem_cons_self) hrelay
  | dropRelay id => exact h.dropRelay (hname List.mem_cons_self)
  | _ => contradiction

theorem begin_relayed (hfamily : step.family = .relayed) :
    InStep v before (m.begin step) (p.begin (v.step step)) := by
  have hwhole (hread : step.isByKey = false) : ∀ key, v.keys key := hsuits.reads hread
  have hname {space : Space} {id : String} (hid : (space, id) ∈ step.mentions) :
      v.names space id := hsuits.names _ hid
  have hpushed (i : Nat) : (m.push (.keep i)).Unheld := hfree.push (by simp [Frame.isDisposing])
  cases step with
  | askRelay relay question =>
      exact h.withRelay (hname List.mem_cons_self) fun relay hrelay _ =>
        h.askRelay (hwhole rfl) hfree hrelay question
  | snapshot relay =>
      exact h.withRelay (hname List.mem_cons_self) fun relay _ _ =>
        h.snapshot (hwhole rfl) hfree relay
  | write relay w =>
      exact h.withRelay (hname List.mem_cons_self) fun relay hrelay _ =>
        h.write (hwhole rfl) hfree hneat hrelay w
  | writeRequest relay w =>
      exact h.withDecoded fun w => h.withRelay (hname List.mem_cons_self) fun relay hrelay _ =>
        h.write (hwhole rfl) hfree hneat hrelay w
  | receive relay event =>
      exact h.withRelay (hname List.mem_cons_self) fun relay hrelay _ =>
        h.withDecoded fun event =>
          (h.push (f := .keep relay.handle.area) rfl).receive (hpushed _) hrelay
            (View.about_of_all (hwhole rfl) event.key)
  | listen relay id =>
      refine h.withRelay (hname List.mem_cons_self) fun relay hrelay hrelayName =>
        h.listen hfree hneat ?_ (hname (by simp [Step.mentions])) hrelay
      exact hsuits.registers relay.handle (by simp [Step.subscribing?, hrelayName])
  | _ => contradiction

theorem begin : InStep v before (m.begin step) (p.begin (v.step step)) := by
  cases hfamily : step.family with
  | storages => exact h.begin_storages hfree hfamily
  | entries => exact h.begin_entries hfree hneat hsuits hfamily
  | subscriptions => exact h.begin_subscriptions hfree hneat hsuits hfamily
  | logs => exact h.begin_logs hfree hneat hsuits hfamily
  | queues => exact h.begin_queues hfree hneat hsuits hfamily
  | relays => exact h.begin_relays hneat hsuits hfamily
  | relayed => exact h.begin_relayed hfree hneat hsuits hfamily

end Families

end Shows

end Machine

end TabRelay.Session
