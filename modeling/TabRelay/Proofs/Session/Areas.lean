import TabRelay.Proofs.Session.Order
import TabRelay.Proofs.Text.Keyed

/-!
# What a step does to the areas

`Alters m` lists what the areas may be after one step of the machine.  A call to
an area, a creation and a subscription are told from the step before they happen,
and `operates`, `creates` and `subscribes` say that they do happen.
-/

namespace TabRelay.Session

open TabRelay.Decoding TabRelay.Storage

variable {V : Type}

/-! ## What listeners, handlers and queues leave alone -/

theorem Tells.eq {s s' : System V} {change : Change V} {listener : Listener}
    {frames : List (Frame V)} (h : Tells s change listener s' frames) :
    ∃ logs scripts, s' = { s with logs, scripts } := by
  cases h <;> exact ⟨_, _, rfl⟩

theorem Receives.eq {s s' : System V} {relay : Relay} {event : Event} {frames : List (Frame V)}
    {a : Answer V} (h : Receives s relay event s' frames a) :
    ∃ logs scripts, s' = { s with logs, scripts } := by
  cases h with
  | forwards harea htells => exact htells.eq
  | ignores harea => exact ⟨_, _, rfl⟩

theorem Reacts.eq {s s' : System V} {i : Nat} {event : Event} {frames : List (Frame V)}
    {a : Answer V} (h : Reacts s i event s' frames a) :
    ∃ handlers logs scripts, s' = { s with handlers, logs, scripts } := by
  cases h with
  | missing hhandler => exact ⟨_, _, _, rfl⟩
  | script hhandler hreaction => exact ⟨_, _, _, rfl⟩
  | forward hhandler hreaction hreceives =>
      obtain ⟨logs, scripts, rfl⟩ := hreceives.eq
      exact ⟨_, _, _, rfl⟩

theorem Drains.eq {s s' : System V} {queue started : Nat} {frames : List (Frame V)}
    {a : Answer V} (h : Drains s queue started s' frames a) :
    ∃ queues logs scripts, s' = { s with queues, logs, scripts } := by
  cases h with
  | done hqueue => exact ⟨_, _, _, rfl⟩
  | notice hqueue htells =>
      obtain ⟨logs, scripts, rfl⟩ := htells.eq
      exact ⟨_, _, _, rfl⟩
  | script hqueue => exact ⟨_, _, _, rfl⟩

namespace Machine

inductive Alters [Storable V] (m : Machine V) : List Area → Prop where
  | keeps : Alters m m.system.areas
  | creates {step : Step V} {id : String} {area : Area} (hrun : m.control = .run step)
      (hnew : step.newArea? = some (id, area)) : Alters m (m.system.areas ++ [area])
  | operates {call : Invocation} (hcall : m.invocation? = some call) :
      Alters m (m.system.setArea call.handle.area
        ((m.system.area call.handle.area).perform call.operation).area).areas
  | retabs (i : Nat) (tabs : List Faults) :
      Alters m (m.system.setArea i { m.system.area i with tabs }).areas
  | subscribes {h : Handle} (hsubscribing : m.subscribing? = some h) :
      Alters m (m.system.setArea h.area
        ((m.system.area h.area).subscribe h.tab m.system.handlers.length).1).areas
  | reaps {b : Answer V} {i : Nat} (hdone : m.control = .done b)
      (hdead : m.beneath.isAlive i = false) :
      Alters m (m.system.setArea i { m.system.area i with subscribers := [] }).areas
  | detaches {b : Answer V} {sub : Subscription} {left : List Subscription}
      {rest : List (Frame V)} (hdone : m.control = .done b)
      (hstack : m.stack = .drop (sub :: left) :: rest)
      (hheld : m.isHeld (.area sub.area) = false) (halive : m.beneath.isAlive sub.area) :
      Alters m (m.system.setArea sub.area
        ((m.system.area sub.area).unsubscribe sub.id)).areas

variable [Storable V]

theorem Begins.alters {m : Machine V} {step : Step V} {s : System V} {pushed : List (Frame V)}
    {a : Answer V} (hrun : m.control = .run step) (h : Begins m step s pushed a) :
    m.Alters s.areas := by
  cases h with
  | creates hnew => exact .creates hrun hnew
  | opensTab hname => exact .retabs _ _
  | operates hcall hwaiting houtcome =>
      subst houtcome
      exact .operates hcall
  | setsFaults hname => exact .retabs _ _
  | subscribes hsubscribing htake =>
      obtain ⟨names, rfl⟩ := System.takeSubscriptions_eq htake
      exact .subscribes hsubscribing
  | failsToSubscribe htake =>
      obtain ⟨names, rfl⟩ := System.takeSubscriptions_eq htake
      exact .keeps
  | listens hsubscribing hname => exact .subscribes hsubscribing
  | startsDraining hdrains =>
      obtain ⟨queues, logs, scripts, rfl⟩ := hdrains.eq
      exact .keeps
  | receives hname hreceives =>
      obtain ⟨logs, scripts, rfl⟩ := hreceives.eq
      exact .keeps
  | _ => exact .keeps

omit [Storable V] in
theorem Continues.areas {m : Machine V} {top : Frame V} {b : Answer V} {s : System V}
    {pushed : List (Frame V)} {control : Control V} {warned : List (Entry V)}
    (h : Continues m top b s pushed control warned) : s.areas = m.system.areas := by
  cases h with
  | calls b hrunning hreacts =>
      obtain ⟨handlers, logs, scripts, rfl⟩ := hreacts.eq
      rfl
  | drains b hdrains =>
      obtain ⟨queues, logs, scripts, rfl⟩ := hdrains.eq
      rfl
  | _ => rfl

theorem Effect.alters {m : Machine V} {s : System V} {pushed : List (Frame V)}
    {control : Control V} {warned : List (Entry V)} (h : Effect m s pushed control warned) :
    m.Alters s.areas := by
  cases h with
  | rests hrest hbelow => exact .keeps
  | begins hrun hbegins => exact hbegins.alters hrun
  | continues hdone hstack hcontinues =>
      rw [hcontinues.areas]
      exact .keeps
  | frees hdone hstack hfreeing hfrees =>
      cases hfrees with
      | reaps hkeeps hdead => exact .reaps hdone hdead
      | detaches halive hheld hfound => exact .detaches hdone hstack hheld halive
      | _ => exact .keeps

theorem Orderly.alters {m : Machine V} (h : m.Orderly) : m.Alters m.advance.system.areas := by
  obtain ⟨pushed, warned, heffect, -⟩ := advance_becomes h
  exact heffect.alters

/-! ## Names -/

omit [Storable V] in
theorem mem_nameStorage {s : System V} {id : String} {h : Handle} {p : String × Handle}
    (hp : p ∈ (s.nameStorage id h).storageNames) : p ∈ s.storageNames ∨ p.2 = h := by
  rcases Keyed.mem_insert hp with rfl | hp
  · exact .inr rfl
  · exact .inl hp

omit [Storable V] in
theorem mem_nameRelay {s : System V} {id : String} {relay : Relay} {p : String × Relay}
    (hp : p ∈ (s.nameRelay id relay).relayNames) : p ∈ s.relayNames ∨ p.2 = relay := by
  rcases Keyed.mem_insert hp with rfl | hp
  · exact .inr rfl
  · exact .inl hp

theorem Begins.storageNames {m : Machine V} {step : Step V} {s : System V}
    {pushed : List (Frame V)} {a : Answer V} (h : Begins m step s pushed a) :
    ∀ p ∈ s.storageNames, (∃ q ∈ m.system.storageNames, q.2.area = p.2.area) ∨
      p.2.area = m.system.areas.length ∧ m.system.areas.length < s.areas.length := by
  intro p hp
  cases h with
  | creates hnew =>
      rcases mem_nameStorage hp with hp | hp
      · exact .inl ⟨p, hp, rfl⟩
      · refine .inr ⟨by rw [hp], ?_⟩
        simp [System.nameStorage, System.addArea]
  | opensTab hname =>
      rcases mem_nameStorage hp with hp | hp
      · exact .inl ⟨p, hp, rfl⟩
      · exact .inl ⟨_, Keyed.mem_of_lookup? hname, by rw [hp]⟩
  | namesTab hname =>
      rcases mem_nameStorage hp with hp | hp
      · exact .inl ⟨p, hp, rfl⟩
      · exact .inl ⟨_, Keyed.mem_of_lookup? hname, by rw [hp]⟩
  | dropsTab hname => exact .inl ⟨p, (Keyed.erase_sublist _ _).mem hp, rfl⟩
  | subscribes hsubscribing htake =>
      obtain ⟨names, rfl⟩ := System.takeSubscriptions_eq htake
      exact .inl ⟨p, hp, rfl⟩
  | failsToSubscribe htake =>
      obtain ⟨names, rfl⟩ := System.takeSubscriptions_eq htake
      exact .inl ⟨p, hp, rfl⟩
  | startsDraining hdrains =>
      obtain ⟨queues, logs, scripts, rfl⟩ := hdrains.eq
      exact .inl ⟨p, hp, rfl⟩
  | receives hname hreceives =>
      obtain ⟨logs, scripts, rfl⟩ := hreceives.eq
      exact .inl ⟨p, hp, rfl⟩
  | _ => exact .inl ⟨p, hp, rfl⟩

theorem Begins.relayNames {m : Machine V} {step : Step V} {s : System V}
    {pushed : List (Frame V)} {a : Answer V} (h : Begins m step s pushed a) :
    ∀ p ∈ s.relayNames, (∃ q ∈ m.system.relayNames, q.2 = p.2) ∨
      (∃ q ∈ m.system.storageNames, q.2 = p.2.handle) ∧
        (∃ q ∈ m.system.queueNames, q.2 = p.2.queue) ∧
        ∀ log, p.2.listener = .log log → ∃ q ∈ m.system.logNames, q.2 = log := by
  intro p hp
  cases h with
  | namesRelay hhandle hqueue hlog hscripts =>
      rcases mem_nameRelay hp with hp | hp
      · exact .inl ⟨p, hp, rfl⟩
      · obtain ⟨name, hname⟩ := hhandle
        obtain ⟨queue, hqueue⟩ := hqueue
        refine .inr ⟨⟨_, Keyed.mem_of_lookup? hname, by rw [hp]⟩,
          ⟨_, Keyed.mem_of_lookup? hqueue, by rw [hp]⟩, ?_⟩
        intro log hlistener
        obtain ⟨id, hid⟩ := hlog log (hp ▸ hlistener)
        exact ⟨_, Keyed.mem_of_lookup? hid, rfl⟩
  | renamesRelay hname =>
      rcases mem_nameRelay hp with hp | hp
      · exact .inl ⟨p, hp, rfl⟩
      · exact .inl ⟨_, Keyed.mem_of_lookup? hname, by rw [hp]⟩
  | dropsRelay hname => exact .inl ⟨p, (Keyed.erase_sublist _ _).mem hp, rfl⟩
  | subscribes hsubscribing htake =>
      obtain ⟨names, rfl⟩ := System.takeSubscriptions_eq htake
      exact .inl ⟨p, hp, rfl⟩
  | failsToSubscribe htake =>
      obtain ⟨names, rfl⟩ := System.takeSubscriptions_eq htake
      exact .inl ⟨p, hp, rfl⟩
  | startsDraining hdrains =>
      obtain ⟨queues, logs, scripts, rfl⟩ := hdrains.eq
      exact .inl ⟨p, hp, rfl⟩
  | receives hname hreceives =>
      obtain ⟨logs, scripts, rfl⟩ := hreceives.eq
      exact .inl ⟨p, hp, rfl⟩
  | _ => exact .inl ⟨p, hp, rfl⟩

omit [Storable V] in
structure SameNames (s s' : System V) : Prop where
  storages : s'.storageNames = s.storageNames
  relays : s'.relayNames = s.relayNames
  logs : s'.logNames = s.logNames
  queues : s'.queueNames = s.queueNames

omit [Storable V] in
theorem Continues.names {m : Machine V} {top : Frame V} {b : Answer V} {s : System V}
    {pushed : List (Frame V)} {control : Control V} {warned : List (Entry V)}
    (h : Continues m top b s pushed control warned) : SameNames m.system s := by
  cases h with
  | calls b hrunning hreacts =>
      obtain ⟨handlers, logs, scripts, rfl⟩ := hreacts.eq
      exact ⟨rfl, rfl, rfl, rfl⟩
  | drains b hdrains =>
      obtain ⟨queues, logs, scripts, rfl⟩ := hdrains.eq
      exact ⟨rfl, rfl, rfl, rfl⟩
  | _ => exact ⟨rfl, rfl, rfl, rfl⟩

omit [Storable V] in
theorem Frees.names {m : Machine V} {top : Frame V} {s : System V} {pushed : List (Frame V)}
    (h : Frees m top s pushed) : SameNames m.system s := by
  cases h <;> exact ⟨rfl, rfl, rfl, rfl⟩

theorem asked?_named {s : System V} {step : Step V} {call : Invocation}
    (h : step.asked? s = some call) :
    (∃ p ∈ s.storageNames, p.2 = call.handle) ∨ ∃ p ∈ s.relayNames, p.2.handle = call.handle := by
  have hstorage {id : String} {operation : Operation}
      (h : (Keyed.lookup? id s.storageNames).map (Invocation.mk · operation) = some call) :
      ∃ p ∈ s.storageNames, p.2 = call.handle := by
    obtain ⟨handle, hname, rfl⟩ := Option.map_eq_some_iff.mp h
    exact ⟨_, Keyed.mem_of_lookup? hname, rfl⟩
  have hrelay {id : String} {w : Write V}
      (h : (Keyed.lookup? id s.relayNames).bind (fun relay =>
        (operationFor? w).map (Invocation.mk relay.handle ·)) = some call) :
      ∃ p ∈ s.relayNames, p.2.handle = call.handle := by
    obtain ⟨relay, hname, hmap⟩ := Option.bind_eq_some_iff.mp h
    obtain ⟨operation, hoperation, rfl⟩ := Option.map_eq_some_iff.mp hmap
    exact ⟨_, Keyed.mem_of_lookup? hname, rfl⟩
  cases step with
  | set storage key text => exact .inl (hstorage h)
  | remove storage key => exact .inl (hstorage h)
  | clear storage => exact .inl (hstorage h)
  | askArea storage question =>
      cases question <;> first | exact .inl (hstorage h) | contradiction
  | askRelay relay question =>
      cases question with
      | get key =>
          obtain ⟨r, hname, rfl⟩ := Option.map_eq_some_iff.mp h
          exact .inr ⟨_, Keyed.mem_of_lookup? hname, rfl⟩
      | _ => contradiction
  | write relay w => exact .inr (hrelay h)
  | writeRequest relay decoded =>
      cases decoded with
      | error e => contradiction
      | ok w => exact .inr (hrelay h)
  | _ => contradiction

/-! ## What is sure to happen -/

omit [Storable V] in
theorem subscribing?_eq_some {m : Machine V} {h : Handle} (hsubscribing : m.subscribing? = some h) :
    ∃ step, m.control = .run step ∧ step.subscribing? m.system = some h ∧
      .subscribe ∉ (m.system.faultsOf h).failing := by
  unfold subscribing? at hsubscribing
  split at hsubscribing
  · rename_i step hrun
    obtain ⟨hstep, hallowed⟩ := Option.filter_eq_some_iff.mp hsubscribing
    exact ⟨step, hrun, hstep, by simpa using hallowed⟩
  · contradiction

theorem invocation?_eq_some {m : Machine V} {call : Invocation}
    (h : m.invocation? = some call) :
    ∃ step, m.control = .run step ∧ step.asked? m.system = some call ∧
      call.operation.isBarred (m.system.faultsOf call.handle) = false := by
  unfold invocation? at h
  split at h
  · rename_i step hrun
    obtain ⟨hasked, hbarred⟩ := Option.filter_eq_some_iff.mp h
    exact ⟨step, hrun, hasked, by simpa using hbarred⟩
  · contradiction

theorem write_operates {m : Machine V} {step : Step V} {id : String} {relay : Relay}
    {w : Write V} {operation : Operation} (hfree : m.Unheld)
    (hwrite : step.relayWrite? = some (id, w))
    (hname : Keyed.lookup? id m.system.relayNames = some relay)
    (hasked : operationFor? w = some operation)
    (hbarred : operation.isBarred (m.system.faultsOf relay.handle) = false) :
    ∃ waiting trace, m.Awaits step relay.handle waiting ∧
      m.write relay w =
        operated { m with stack := waiting ++ m.stack, trace } relay.handle operation := by
  obtain ⟨stored, call, heq⟩ := write_eq (hfree.not_meets _) hasked
  refine ⟨_, .mark (.enterWrite w.key w.isRemoval) :: m.trace,
    .relayed stored hwrite hname rfl, ?_⟩
  rw [heq]
  exact if_neg (Bool.not_eq_true _ ▸ hbarred)

omit [Storable V] in
theorem service_reads {m : Machine V} {h : Handle} (hfaults : m.system.faultsOf h = {}) :
    m.service h = ⟨.ok (m.system.area h.area).length,
      fun index => .ok ((m.system.area h.area).keyAt? index),
      fun key => .ok ((m.system.area h.area).get? key)⟩ := by
  simp [service, hfaults, Faults.check, pure, Except.pure, bind, Except.bind]

omit [Storable V] in
theorem askArea_operates {m : Machine V} {h : Handle} {question : AreaQuestion}
    {operation : Operation} (hfree : m.Unheld) (hfaults : m.system.faultsOf h = {})
    (hquestion : question = .length ∧ operation = .length ∨
      (∃ index, question = .keyAt index ∧ operation = .keyAt index) ∨
      ∃ key, question = .get key ∧ operation = .get key) :
    m.askArea h question = m.operated h operation := by
  have hservice := service_reads hfaults
  rcases hquestion with ⟨rfl, rfl⟩ | ⟨index, rfl, rfl⟩ | ⟨key, rfl, rfl⟩
  all_goals
    simp [askArea, whenFree_of_unheld hfree, hservice, answerExcept, answer, operated,
      Area.perform, System.setArea_area, deliveries, replied]

theorem begin_operates {m : Machine V} {step : Step V} {call : Invocation} (hfree : m.Unheld)
    (hasked : step.asked? m.system = some call)
    (hbarred : call.operation.isBarred (m.system.faultsOf call.handle) = false) :
    ∃ waiting trace, m.Awaits step call.handle waiting ∧
      m.begin step =
        operated { m with stack := waiting ++ m.stack, trace } call.handle call.operation := by
  have hkeep (h : Handle) : (m.push (.keep h.area)).Unheld := hfree.push (by simp [Frame.isDisposing])
  cases step with
  | set storage key text =>
      obtain ⟨h, hname, rfl⟩ := Option.map_eq_some_iff.mp hasked
      refine ⟨_, m.trace, .direct rfl, ?_⟩
      simp only [begin, withStorage, withNamed, hname]
      exact (setText_eq ((hkeep h).not_meets _)).trans (if_neg (Bool.not_eq_true _ ▸ hbarred))
  | remove storage key =>
      obtain ⟨h, hname, rfl⟩ := Option.map_eq_some_iff.mp hasked
      refine ⟨_, m.trace, .direct rfl, ?_⟩
      simp only [begin, withStorage, withNamed, hname]
      exact (removeKey_eq ((hkeep h).not_meets _)).trans (if_neg (Bool.not_eq_true _ ▸ hbarred))
  | clear storage =>
      obtain ⟨h, hname, rfl⟩ := Option.map_eq_some_iff.mp hasked
      refine ⟨_, m.trace, .direct rfl, ?_⟩
      simp only [begin, withStorage, withNamed, hname]
      exact clearArea_eq ((hkeep h).not_meets _)
  | askArea storage question =>
      cases question with
      | length =>
          obtain ⟨h, hname, rfl⟩ := Option.map_eq_some_iff.mp hasked
          refine ⟨[], m.trace, .reads rfl, ?_⟩
          simp only [begin, withStorage, withNamed, hname]
          exact askArea_operates hfree (by simpa [Operation.isBarred] using hbarred)
            (.inl ⟨rfl, rfl⟩)
      | keyAt index =>
          obtain ⟨h, hname, rfl⟩ := Option.map_eq_some_iff.mp hasked
          refine ⟨[], m.trace, .reads rfl, ?_⟩
          simp only [begin, withStorage, withNamed, hname]
          exact askArea_operates hfree (by simpa [Operation.isBarred] using hbarred)
            (.inr (.inl ⟨index, rfl, rfl⟩))
      | get key =>
          obtain ⟨h, hname, rfl⟩ := Option.map_eq_some_iff.mp hasked
          refine ⟨[], m.trace, .reads rfl, ?_⟩
          simp only [begin, withStorage, withNamed, hname]
          exact askArea_operates hfree (by simpa [Operation.isBarred] using hbarred)
            (.inr (.inr ⟨key, rfl, rfl⟩))
      | _ => contradiction
  | askRelay relay question =>
      cases question with
      | get key =>
          obtain ⟨r, hname, rfl⟩ := Option.map_eq_some_iff.mp hasked
          refine ⟨[], m.trace, .reads rfl, ?_⟩
          simp only [begin, withRelay, withNamed, hname, askRelay]
          exact askArea_operates hfree (by simpa [Operation.isBarred] using hbarred)
            (.inr (.inr ⟨key, rfl, rfl⟩))
      | _ => contradiction
  | write relay w =>
      obtain ⟨r, hname, hmap⟩ := Option.bind_eq_some_iff.mp hasked
      obtain ⟨operation, hoperation, rfl⟩ := Option.map_eq_some_iff.mp hmap
      simp only [begin, withRelay, withNamed, hname]
      exact write_operates hfree rfl hname hoperation hbarred
  | writeRequest relay decoded =>
      cases decoded with
      | error e => contradiction
      | ok w =>
          obtain ⟨r, hname, hmap⟩ := Option.bind_eq_some_iff.mp hasked
          obtain ⟨operation, hoperation, rfl⟩ := Option.map_eq_some_iff.mp hmap
          simp only [begin, withDecoded, withRelay, withNamed, hname]
          exact write_operates hfree rfl hname hoperation hbarred
  | _ => contradiction

theorem Orderly.operates {m : Machine V} (h : m.Orderly) {call : Invocation}
    (hcall : m.invocation? = some call) :
    ∃ step waiting trace, m.control = .run step ∧ step.asked? m.system = some call ∧
      m.Awaits step call.handle waiting ∧
      m.advance =
        operated { m with stack := waiting ++ m.stack, trace } call.handle call.operation := by
  obtain ⟨step, hrun, hasked, hbarred⟩ := invocation?_eq_some hcall
  have hfree : m.Unheld := unheld_of_no_disposing (h.running step hrun)
  obtain ⟨waiting, trace, hwaiting, hbegin⟩ := begin_operates hfree hasked hbarred
  have hadvance : m.advance = m.begin step := by simp only [Machine.advance, hrun]
  exact ⟨step, waiting, trace, hrun, hasked, hwaiting, hadvance.trans hbegin⟩

theorem advance_creates {m : Machine V} {step : Step V} {id : String} {area : Area}
    (hrun : m.control = .run step) (hnew : step.newArea? = some (id, area)) :
    m.advance.system.areas = m.system.areas ++ [area] := by
  simp only [advance, hrun]
  cases step with
  | new id kind =>
      cases hnew
      simp only [begin, create, nameStorage_eq]
      rfl
  | newWithQuota id kind quota =>
      cases hnew
      simp only [begin, create, nameStorage_eq]
      rfl
  | newWithEntries id kind entries =>
      cases hnew
      simp only [begin, create, nameStorage_eq]
      rfl
  | _ => contradiction

end Machine

end TabRelay.Session
