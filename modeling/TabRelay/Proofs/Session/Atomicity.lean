import TabRelay.Proofs.Session.Committing
import TabRelay.Proofs.Session.Delivering
import TabRelay.Proofs.Session.Storing
import TabRelay.Session.Draft

/-!
# A write is done as a whole or not at all

A write that fails leaves everything as it was, and nobody hears of it.  A write
that succeeds has changed its key and queued its notice when it returns; if the
handlers that hear of it only record what they hear, it has changed nothing else.
-/

namespace TabRelay

open TabRelay.Storage

namespace Write

variable {V : Type} [Storable V]

def Unencodable (w : Write V) (source : String) : Prop :=
  ∃ value, w.value = some value ∧ Storable.stored value = .error source

theorem Unencodable.unique {w : Write V} {source source' : String} (h : w.Unencodable source)
    (h' : w.Unencodable source') : source = source' := by
  obtain ⟨value, hvalue, hstored⟩ := h
  obtain ⟨value', hvalue', hstored'⟩ := h'
  rw [hvalue] at hvalue'
  cases hvalue'
  rw [hstored] at hstored'
  exact Except.error.inj hstored'

def applyTo (w : Write V) (map : PlainMap) : PlainMap :=
  match w.value with
  | none => map.erase w.key
  | some value =>
      match Storable.stored value with
      | .error _ => map
      | .ok text => map.set w.key text

end Write

namespace Session

variable {V : Type}

namespace Machine

variable [Storable V]

/-! ## What a write comes to -/

def Exceeds (m : Machine V) (i : Nat) (w : Write V) (quota : Nat) : Prop :=
  ∃ value text, w.value = some value ∧ Storable.stored value = .ok text ∧
    (m.system.area i).quota = some quota ∧ quota < ((m.system.map i).set w.key text).bytes

/-- The step has failed: everything is as it was, and no handler was called. -/
structure Untouched (m : Machine V) (later : List (Move V)) : Prop where
  system : (m.advance.playAll later).system = m.system
  stack : (m.advance.playAll later).stack = m.stack
  meanwhile : ∀ x ∈ m.advance.history later, x.system = m.system
  quiet : ∀ x ∈ m :: m.advance.history later, x.visiting? = none

/-- The write is done: nothing has changed but its key, the queue that has its notice at the
end, and logs in which handlers record. -/
structure Applied (m : Machine V) (relay : Relay) (w : Write V) (later : List (Move V)) :
    Prop where
  map : (m.advance.playAll later).system.map relay.handle.area =
    w.applyTo (m.system.map relay.handle.area)
  areas : ∀ i ≠ relay.handle.area, (m.advance.playAll later).system.area i = m.system.area i
  subscribers : ∀ i, ((m.advance.playAll later).system.area i).subscribers =
    (m.system.area i).subscribers
  queue : (m.advance.playAll later).system.queue relay.queue =
    m.system.queue relay.queue ++ [.notice relay.listener (.committed w.key w.value)]
  queues : ∀ i ≠ relay.queue, (m.advance.playAll later).system.queue i = m.system.queue i
  /-- Such as the relay's own log, if no relay of another tab shares it. -/
  logs : ∀ log,
    (∀ sub ∈ m.audience relay.handle.area (some relay.handle.tab), ∀ other,
      m.system.forwarding? sub.handler = some other → other.listener ≠ .log log) →
    (∀ x ∈ m.advance.history later, x.recordsIn? ≠ some log) →
    (m.advance.playAll later).system.log log = m.system.log log

structure AllOrNothing (m : Machine V) (relay : Relay) (w : Write V) : Prop where
  outcome : ∀ later a, m.Ends later a → a = .ok ∨ ∃ e, a = .writeError e ∧ e.key = w.key
  encode : ∀ later a, m.Ends later a → ∀ key source,
    a = .writeError (.encode key source) ↔ key = w.key ∧ w.Unencodable source
  storage : ∀ later a, m.Ends later a → ∀ key e,
    a = .writeError (.storage key e) ↔
      key = w.key ∧ ∃ quota, e = .quotaExceeded w.key quota ∧ m.Exceeds relay.handle.area w quota
  removal : ∀ later a, m.Ends later a → w.value = none → a = .ok
  fails : (∃ source, w.Unencodable source) ∨ (∃ quota, m.Exceeds relay.handle.area w quota) →
    ∃ n e, m.Ends (List.replicate n .advance) (.writeError e)
  nothing : ∀ later e, m.Ends later (.writeError e) → m.Untouched later
  all : ∀ later, m.Ends later .ok →
    (∀ x ∈ m.advance.history later, x.onlyRecords) → m.Applied relay w later

theorem asked?_of_relayWrite {s : System V} {step : Step V} {id : String} {w : Write V}
    {relay : Relay} (hwrite : step.relayWrite? = some (id, w))
    (hname : Keyed.lookup? id s.relayNames = some relay) :
    step.asked? s = (operationFor? w).map (⟨relay.handle, ·⟩) := by
  cases step with
  | write name w' =>
      cases hwrite
      simp [Step.asked?, hname]
  | writeRequest name decoded =>
      cases decoded with
      | error e => contradiction
      | ok w' =>
          cases hwrite
          simp [Step.asked?, hname]
  | _ => contradiction

theorem invocation?_of_relayWrite {m : Machine V} {step : Step V} {id : String} {w : Write V}
    {relay : Relay} {operation : Operation} (hrun : m.control = .run step)
    (hwrite : step.relayWrite? = some (id, w))
    (hname : Keyed.lookup? id m.system.relayNames = some relay)
    (hfaults : m.system.faultsOf relay.handle = {})
    (hoperation : operationFor? w = some operation) :
    m.invocation? = some ⟨relay.handle, operation⟩ := by
  refine invocation?_of_run hrun ?_ ?_
  · rw [asked?_of_relayWrite hwrite hname, hoperation]
    rfl
  · obtain ⟨key, text, rfl | rfl⟩ := operationFor?_eq_some hoperation <;>
      simp [Operation.isBarred, hfaults]

theorem goesBack_of_unencodable {m : Machine V} {step : Step V} {id : String} {w : Write V}
    {relay : Relay} {source : String} (hrun : m.control = .run step)
    (hwrite : step.relayWrite? = some (id, w))
    (hname : Keyed.lookup? id m.system.relayNames = some relay) (hnone : w.Unencodable source) :
    GoesBack m relay (.encode w.key source) m.advance := by
  obtain ⟨value, hvalue, hstored⟩ := hnone
  have hadvance := advance_write hrun hwrite hname
  simp only [write, hvalue, hstored] at hadvance
  rw [hadvance]
  exact .told rfl rfl rfl

theorem Orderly.operates_write {m : Machine V} (h : m.Orderly) {step : Step V} {id : String}
    {w : Write V} {relay : Relay} {operation : Operation} (hrun : m.control = .run step)
    (hwrite : step.relayWrite? = some (id, w))
    (hname : Keyed.lookup? id m.system.relayNames = some relay)
    (hcall : m.invocation? = some ⟨relay.handle, operation⟩) {outcome : Outcome Area}
    (houtcome : (m.system.area relay.handle.area).perform operation = outcome) :
    m.advance.system = m.system.setArea relay.handle.area outcome.area ∧
      m.advance.control = .done (replied outcome.reply) ∧
      ∃ stored, m.advance.stack = deliveries outcome relay.handle.tab ++
        .writing relay w stored :: .keep relay.handle.area :: m.stack := by
  subst houtcome
  obtain ⟨step', waiting, trace, hrun', -, hwaiting, hadvance⟩ := h.operates hcall
  rw [hrun] at hrun'
  cases hrun'
  rw [hadvance]
  cases hwaiting with
  | reads hdirect => simp [hwrite] at hdirect
  | direct hdirect => simp [hwrite] at hdirect
  | relayed stored hwrite' hname' hhandle =>
      rw [hwrite] at hwrite'
      cases hwrite'
      rw [hname] at hname'
      cases hname'
      exact ⟨rfl, rfl, stored, rfl⟩

theorem goesBack_of_exceeds {m : Machine V} (horderly : m.Orderly) (hgrounded : Grounded m.system)
    {step : Step V} {id : String} {w : Write V} {relay : Relay} {quota : Nat}
    (hrun : m.control = .run step) (hwrite : step.relayWrite? = some (id, w))
    (hname : Keyed.lookup? id m.system.relayNames = some relay)
    (hfaults : m.system.faultsOf relay.handle = {})
    (hexceeds : m.Exceeds relay.handle.area w quota) :
    GoesBack m relay (.storage w.key (.quotaExceeded w.key quota)) m.advance := by
  obtain ⟨value, text, hvalue, hstored, hquota, hbytes⟩ := hexceeds
  have hoperation : operationFor? w = some (.set w.key text) := by
    simp only [operationFor?, hvalue, hstored]
  have hcall := invocation?_of_relayWrite hrun hwrite hname hfaults hoperation
  have hrefused : (m.system.area relay.handle.area).perform (.set w.key text) =
      ⟨m.system.area relay.handle.area, none, .refused (.quotaExceeded w.key quota)⟩ := by
    have hfits : (m.system.area relay.handle.area).fits w.key text = false := by
      have hneeded := Area.neededBytes_eq (hgrounded.sorted_area relay.handle.area) w.key text
      simp only [Area.fits, hquota, hneeded]
      exact decide_eq_false (Nat.not_le.mpr hbytes)
    simp [Area.perform, Area.set, hfits, hquota]
  obtain ⟨hsystem, hcontrol, stored, hstack⟩ :=
    horderly.operates_write hrun hwrite hname hcall hrefused
  exact .refused w stored _ rfl hcontrol hstack (hsystem.trans (System.setArea_area ..))

theorem operationFor?_of_encodable {w : Write V} (h : ∀ source, ¬w.Unencodable source) :
    ∃ operation, operationFor? w = some operation := by
  cases hvalue : w.value with
  | none => exact ⟨.remove w.key, by simp only [operationFor?, hvalue]⟩
  | some value =>
      cases hstored : Storable.stored value with
      | error source => exact absurd ⟨value, hvalue, hstored⟩ (h source)
      | ok text => exact ⟨.set w.key text, by simp only [operationFor?, hvalue, hstored]⟩

theorem taken_of_fits {m : Machine V} (hgrounded : Grounded m.system) {w : Write V} {i : Nat}
    {operation : Operation} (hoperation : operationFor? w = some operation)
    (hfits : ∀ quota, ¬m.Exceeds i w quota) :
    ((m.system.area i).perform operation).reply = .done ∧
      ((m.system.area i).plain.perform operation).area.map = w.applyTo (m.system.map i) := by
  cases hvalue : w.value with
  | none =>
      simp only [operationFor?, hvalue, Option.some.injEq] at hoperation
      subst hoperation
      simp only [Write.applyTo, hvalue]
      exact ⟨rfl, rfl⟩
  | some value =>
      cases hstored : Storable.stored value with
      | error source => simp [operationFor?, hvalue, hstored] at hoperation
      | ok text =>
          simp only [operationFor?, hvalue, hstored, Option.some.injEq] at hoperation
          subst hoperation
          have hsorted := hgrounded.sorted_area i
          have htakes : (m.system.area i).fits w.key text := by
            cases hquota : (m.system.area i).quota with
            | none => simp only [Area.fits, hquota]
            | some quota =>
                have hbytes : ((m.system.map i).set w.key text).bytes ≤ quota :=
                  Nat.not_lt.mp fun hlt => hfits quota ⟨value, text, hvalue, hstored, hquota, hlt⟩
                simp only [Area.fits, hquota, Area.neededBytes_eq hsorted, decide_eq_true_eq]
                exact hbytes
          have hplain := Area.plain_perform_set hsorted w.key text
          rw [if_pos htakes] at hplain
          have hreply := (Area.perform_refines hsorted (.set w.key text)).reply
          rw [hplain] at hreply
          refine ⟨hreply, ?_⟩
          rw [hplain]
          simp only [Write.applyTo, hvalue, hstored]
          rfl

theorem Orderly.underway {m : Machine V} (horderly : m.Orderly) (hgrounded : Grounded m.system)
    {step : Step V} {id : String} {w : Write V} {relay : Relay} {operation : Operation}
    (hrun : m.control = .run step) (hwrite : step.relayWrite? = some (id, w))
    (hname : Keyed.lookup? id m.system.relayNames = some relay)
    (hcall : m.invocation? = some ⟨relay.handle, operation⟩)
    (hreply : ((m.system.area relay.handle.area).perform operation).reply = .done)
    {spared : Nat → Prop}
    (hspares : ∀ sub ∈ m.audience relay.handle.area (some relay.handle.tab),
      Spares spared m.system sub.handler) :
    Underway spared m.advance.system relay w m.stack m.advance := by
  obtain ⟨hsystem, hcontrol, stored, hstack⟩ :=
    horderly.operates_write hrun hwrite hname hcall rfl
  rw [hreply] at hcontrol
  cases hraised : ((m.system.area relay.handle.area).perform operation).raised with
  | none =>
      simp only [deliveries, hraised, Option.toList_none, List.map_nil, List.nil_append] at hstack
      exact .stored stored hcontrol hstack (.refl _)
  | some event =>
      simp only [deliveries, hraised, Option.toList_some, List.map_cons, List.map_nil] at hstack
      refine .delivering [] event _ stored hstack (by simp) (fun i hi => ?_) (.refl _)
      obtain ⟨sub, hsub, rfl⟩ := List.mem_map.mp hi
      have hlength := hgrounded.called hcall
      refine ⟨?_, ?_⟩
      · refine System.mem_subscribed (i := relay.handle.area) ?_
        rw [hsystem, System.area_setArea_self _ hlength]
        exact (List.mem_filter.mp hsub).1
      · rw [subscribers_perform] at hsub
        have hspared := hspares sub hsub
        rw [hsystem]
        exact hspared

theorem Orderly.returns_ok {m : Machine V} (h : m.Orderly) {call : Invocation}
    {step : Step V} {write : String × Write V} (hrun : m.control = .run step)
    (hwrite : step.relayWrite? = some write) (hcall : m.invocation? = some call)
    (hreply : ((m.system.area call.handle.area).perform call.operation).reply = .done)
    {later : List (Move V)} {a : Answer V} (hends : m.Ends later a) : a = .ok := by
  have hanswer := (h.due hcall).returned h.advance later hends.returned
  rw [hanswer, hreply]
  simp only [reported, hrun, Step.reported, hwrite, replied]

theorem Orderly.write_cases {m : Machine V} (horderly : m.Orderly) (hgrounded : Grounded m.system)
    {step : Step V} {id : String} {w : Write V} {relay : Relay} (hrun : m.control = .run step)
    (hwrite : step.relayWrite? = some (id, w))
    (hname : Keyed.lookup? id m.system.relayNames = some relay)
    (hfaults : m.system.faultsOf relay.handle = {}) :
    (∃ e, GoesBack m relay e m.advance ∧
      ((∃ source, e = .encode w.key source ∧ w.Unencodable source) ∨
        ∃ quota, e = .storage w.key (.quotaExceeded w.key quota) ∧
          m.Exceeds relay.handle.area w quota)) ∨
    (∀ source, ¬w.Unencodable source) ∧ (∀ quota, ¬m.Exceeds relay.handle.area w quota) ∧
      m.advance.system.map relay.handle.area = w.applyTo (m.system.map relay.handle.area) ∧
      (∃ changed, m.advance.system = m.system.setArea relay.handle.area changed ∧
        changed.subscribers = (m.system.area relay.handle.area).subscribers) ∧
      (∀ later a, m.Ends later a → a = .ok) ∧
      ∀ spared, (∀ sub ∈ m.audience relay.handle.area (some relay.handle.tab),
          Spares spared m.system sub.handler) →
        Underway spared m.advance.system relay w m.stack m.advance := by
  by_cases hencodes : ∃ source, w.Unencodable source
  · obtain ⟨source, hnone⟩ := hencodes
    exact .inl ⟨_, goesBack_of_unencodable hrun hwrite hname hnone, .inl ⟨source, rfl, hnone⟩⟩
  · by_cases hfits : ∃ quota, m.Exceeds relay.handle.area w quota
    · obtain ⟨quota, hexceeds⟩ := hfits
      exact .inl ⟨_, goesBack_of_exceeds horderly hgrounded hrun hwrite hname hfaults hexceeds,
        .inr ⟨quota, rfl, hexceeds⟩⟩
    · have hfits := not_exists.mp hfits
      obtain ⟨operation, hoperation⟩ := operationFor?_of_encodable (not_exists.mp hencodes)
      have hcall := invocation?_of_relayWrite hrun hwrite hname hfaults hoperation
      obtain ⟨hreply, hmap⟩ := taken_of_fits hgrounded hoperation hfits
      have hsystem := (horderly.operates_write hrun hwrite hname hcall rfl).1
      refine .inr ⟨not_exists.mp hencodes, hfits, ?_, ⟨_, hsystem, subscribers_perform ..⟩, ?_, ?_⟩
      · rw [horderly.map_advance hgrounded hcall, hmap]
      · exact fun later a hends => horderly.returns_ok hrun hwrite hcall hreply hends
      · exact fun spared => horderly.underway hgrounded hrun hwrite hname hcall hreply

omit [Storable V] in
theorem addressed_of_stack {s : System V} {stack stack' : List (Frame V)} (h : Addressed s stack)
    (hstack : ∀ relay w stored, .writing relay w stored ∈ stack' →
      .writing relay w stored ∈ stack) : Addressed s stack' :=
  ⟨h.logNames, h.queueNames, h.relays,
    fun relay w stored hmem => h.writing relay w stored (hstack relay w stored hmem), h.notices⟩

theorem addressed_playAll (moves : List (Move V)) :
    Addressed (idle.playAll moves).system (idle.playAll moves).stack := by
  apply orderly_induction (P := fun _ m => Addressed m.system m.stack)
  · exact (ledger_idle 0 0).addressed
  · exact fun past m step h hstack => addressed_of_stack h (by simp [start])
  · exact fun past m runner old left stack h hstack => addressed_of_stack h (by simp [hstack])
  · intro past m horderly h
    obtain ⟨pushed, warned, heffect, hstack, -⟩ := advance_becomes horderly
    rw [hstack]
    exact heffect.addressed h

/-! ## Every write -/

theorem GoesBack.untouched {m : Machine V} {relay : Relay} {e : WriteError AreaError}
    {later : List (Move V)} {a : Answer V} (h : GoesBack m relay e m.advance)
    (hnamed : ∃ p ∈ m.system.relayNames, p.2 = relay) (hends : m.Ends later a)
    (hquiet : m.visiting? = none) : a = .writeError e ∧ m.Untouched later := by
  obtain ⟨hlast, hsettled, hall⟩ := hends.keeps (P := GoesBack m relay e) (R := fun _ => True)
    (fun x move hx hunsettled _ => hx.play hnamed hunsettled move) (fun _ _ => trivial) h
  obtain ⟨ha, hstack⟩ := hlast.settled hsettled
  refine ⟨ha, hlast.system, hstack, fun x hx => (hall x hx).1.system, ?_⟩
  exact List.forall_mem_cons.mpr ⟨hquiet, fun x hx => (hall x hx).1.visiting? (hall x hx).2⟩

theorem GoesBack.returns {m : Machine V} {relay : Relay} {e : WriteError AreaError}
    (h : GoesBack m relay e m.advance) (hnamed : ∃ p ∈ m.system.relayNames, p.2 = relay) :
    ∃ n a, m.Ends (List.replicate n .advance) a := by
  have hadvance (n : Nat) (x : Machine V) (hx : GoesBack m relay e x ∧ x.stack.length = n)
      (hunsettled : x.settled? m.stack.length = none) :
      ∃ less < n, GoesBack m relay e x.advance ∧ x.advance.stack.length = less := by
    obtain ⟨hback, rfl⟩ := hx
    obtain ⟨hnext, hshorter⟩ := hback.advance hnamed hunsettled
    exact ⟨_, hshorter, hnext, rfl⟩
  obtain ⟨n, a, hends, -⟩ := exists_endsFrom hadvance ⟨h, rfl⟩
  exact ⟨n, a, hends⟩

theorem applied_of_recorded {m : Machine V} {relay : Relay} {w : Write V} {later : List (Move V)}
    {spared : Nat → Prop} {changed : Area}
    (hsame : Recorded spared
      ((m.system.setArea relay.handle.area changed).defer relay.queue
        (.notice relay.listener (.committed w.key w.value))) (m.advance.playAll later).system)
    (hmap : (m.system.setArea relay.handle.area changed).map relay.handle.area =
      w.applyTo (m.system.map relay.handle.area))
    (hsubscribers : changed.subscribers = (m.system.area relay.handle.area).subscribers)
    (hqueue : relay.queue < m.system.queues.length)
    (hlogs : ∀ log,
      (∀ sub ∈ m.audience relay.handle.area (some relay.handle.tab), ∀ other,
        m.system.forwarding? sub.handler = some other → other.listener ≠ .log log) →
      (∀ x ∈ m.advance.history later, x.recordsIn? ≠ some log) → spared log) :
    m.Applied relay w later where
  map := by
    rw [← hmap, System.map, System.map, System.area_congr hsame.areas]
    rfl
  areas i hi := by
    rw [System.area_congr hsame.areas]
    exact System.area_setArea_ne changed (Ne.symm hi)
  subscribers i := by
    rw [System.area_congr hsame.areas]
    by_cases hi : relay.handle.area = i
    · subst hi
      exact System.subscribers_setArea hsubscribers
    · exact congrArg Area.subscribers (System.area_setArea_ne changed hi)
  queue := by
    rw [System.queue, hsame.queues, queue_defer, if_pos ⟨rfl, hqueue⟩]
    rfl
  queues i hi := by
    rw [System.queue, hsame.queues, queue_defer, if_neg fun h => hi h.1.symm, List.append_nil]
    rfl
  logs log hforwards hrecords := hsame.logs log (hlogs log hforwards hrecords)

omit [Storable V] in
theorem Exceeds.unique [Storable V] {m : Machine V} {i : Nat} {w : Write V} {quota quota' : Nat}
    (h : m.Exceeds i w quota) (h' : m.Exceeds i w quota') : quota = quota' := by
  obtain ⟨-, -, -, -, hquota, -⟩ := h
  obtain ⟨-, -, -, -, hquota', -⟩ := h'
  rw [hquota] at hquota'
  exact Option.some.inj hquota'

theorem Exceeds.encodes {m : Machine V} {i : Nat} {w : Write V} {quota : Nat}
    (h : m.Exceeds i w quota) (source : String) : ¬w.Unencodable source := by
  rintro ⟨value, hvalue, hstored⟩
  obtain ⟨value', text, hvalue', hstored', -, -⟩ := h
  rw [hvalue] at hvalue'
  cases hvalue'
  rw [hstored] at hstored'
  contradiction

theorem allOrNothing_of_failure {m : Machine V} {relay : Relay} {w : Write V}
    {e : WriteError AreaError}
    (hfails : ∀ later a, m.Ends later a → a = .writeError e ∧ m.Untouched later)
    (hreturns : ∃ n a, m.Ends (List.replicate n .advance) a)
    (hwhy : (∃ source, e = .encode w.key source ∧ w.Unencodable source) ∨
      ∃ quota, e = .storage w.key (.quotaExceeded w.key quota) ∧
        m.Exceeds relay.handle.area w quota) : m.AllOrNothing relay w where
  outcome later a hends := by
    refine .inr ⟨e, (hfails later a hends).1, ?_⟩
    rcases hwhy with ⟨source, rfl, -⟩ | ⟨quota, rfl, -⟩ <;> rfl
  encode later a hends key source := by
    rw [(hfails later a hends).1]
    rcases hwhy with ⟨source', rfl, hnone⟩ | ⟨quota, rfl, hexceeds⟩
    · constructor
      · rintro ⟨⟩
        exact ⟨rfl, hnone⟩
      · rintro ⟨rfl, hnone'⟩
        rw [hnone.unique hnone']
    · simp [hexceeds.encodes source]
  storage later a hends key e' := by
    rw [(hfails later a hends).1]
    rcases hwhy with ⟨source, rfl, hnone⟩ | ⟨quota, rfl, hexceeds⟩
    · simp only [Answer.writeError.injEq, reduceCtorEq, false_iff, not_and, not_exists]
      exact fun _ quota _ hexceeds => hexceeds.encodes source hnone
    · constructor
      · rintro ⟨⟩
        exact ⟨rfl, quota, rfl, hexceeds⟩
      · rintro ⟨rfl, quota', rfl, hexceeds'⟩
        rw [hexceeds.unique hexceeds']
  removal later a hends hremoval := by
    rcases hwhy with ⟨source, -, value, hvalue, -⟩ | ⟨quota, -, value, text, hvalue, -⟩ <;>
      simp [hremoval] at hvalue
  fails _ := by
    obtain ⟨n, a, hends⟩ := hreturns
    exact ⟨n, e, (hfails _ a hends).1 ▸ hends⟩
  nothing later e' hends := (hfails later _ hends).2
  all later hends := by
    have hcontra := (hfails later _ hends).1
    contradiction

theorem allOrNothing_of_success {m : Machine V} {relay : Relay} {w : Write V}
    (hok : ∀ later a, m.Ends later a → a = .ok)
    (hencodes : ∀ source, ¬w.Unencodable source)
    (hfits : ∀ quota, ¬m.Exceeds relay.handle.area w quota)
    (hall : ∀ later, m.Ends later .ok →
      (∀ x ∈ m.advance.history later, x.onlyRecords) → m.Applied relay w later) :
    m.AllOrNothing relay w where
  outcome later a hends := .inl (hok later a hends)
  encode later a hends key source := by simp [hok later a hends, hencodes source]
  storage later a hends key e := by simp [hok later a hends, hfits]
  removal later a hends _ := hok later a hends
  fails h := by
    rcases h with ⟨source, hnone⟩ | ⟨quota, hexceeds⟩
    · exact absurd hnone (hencodes source)
    · exact absurd hexceeds (hfits quota)
  nothing later e hends := by
    have hcontra := hok later _ hends
    contradiction
  all := hall

theorem Underway.applied {m : Machine V} {spared : Nat → Prop} {relay : Relay} {w : Write V}
    {later : List (Move V)} (h : Underway spared m.advance.system relay w m.stack m.advance)
    (horderly : m.Orderly) (hnamed : ∃ p ∈ m.advance.system.relayNames, p.2 = relay)
    (hends : m.Ends later .ok)
    (hrecords : ∀ x ∈ m.advance.history later,
      x.onlyRecords ∧ ∀ log, x.recordsIn? = some log → ¬spared log) :
    Recorded spared (m.advance.system.defer relay.queue
      (.notice relay.listener (.committed w.key w.value))) (m.advance.playAll later).system := by
  obtain ⟨⟨-, hlast⟩, hsettled, -⟩ := hends.keeps
    (P := fun x => x.Orderly ∧ Underway spared m.advance.system relay w m.stack x)
    (fun x move hx hunsettled hR =>
      ⟨hx.1.play move, hx.2.play hx.1 hnamed hunsettled move hR⟩)
    hrecords ⟨horderly.advance, h⟩
  exact (hlast.settled hsettled).2

/--
A write through a relay leaves no trace if it fails, and it fails exactly if its value has no
text or the text does not fit.  Else its key is set or erased and its notice is queued, and
handlers that only record change nothing else.
-/
theorem write_is_all_or_nothing (before : List (Move V)) {step : Step V} {id : String}
    {w : Write V} {relay : Relay} (hrun : (idle.playAll before).control = .run step)
    (hwrite : step.relayWrite? = some (id, w))
    (hname : Keyed.lookup? id (idle.playAll before).system.relayNames = some relay)
    (hfaults : (idle.playAll before).system.faultsOf relay.handle = {}) :
    (idle.playAll before).AllOrNothing relay w := by
  have horderly := orderly_playAll before
  have hgrounded := grounded_playAll before
  have haddressed := addressed_playAll before
  generalize idle.playAll before = m at *
  have hnamed : ∃ p ∈ m.system.relayNames, p.2 = relay := ⟨_, Keyed.mem_of_lookup? hname, rfl⟩
  have hquiet : m.visiting? = none := by simp [visiting?, hrun]
  rcases horderly.write_cases hgrounded hrun hwrite hname hfaults with
    ⟨e, hback, hwhy⟩ | ⟨hencodes, hfits, hmap, ⟨changed, hsystem, hsubscribers⟩, hok, hunderway⟩
  · exact allOrNothing_of_failure (fun later a hends => hback.untouched hnamed hends hquiet)
      (hback.returns hnamed) hwhy
  · refine allOrNothing_of_success hok hencodes hfits fun later hends honly => ?_
    let spared (log : Nat) : Prop :=
      (∀ sub ∈ m.audience relay.handle.area (some relay.handle.tab), ∀ other,
        m.system.forwarding? sub.handler = some other → other.listener ≠ .log log) ∧
      ∀ x ∈ m.advance.history later, x.recordsIn? ≠ some log
    have hspares : ∀ sub ∈ m.audience relay.handle.area (some relay.handle.tab),
        Spares spared m.system sub.handler := by
      intro sub hsub other log hforwards hlistener hspared
      exact hspared.1 sub hsub other hforwards hlistener
    have hsame := (hunderway spared hspares).applied horderly (by rw [hsystem]; exact hnamed) hends
      fun x hx => ⟨honly x hx, fun log hlog hspared => hspared.2 x hx hlog⟩
    rw [hsystem] at hsame hmap
    exact applied_of_recorded hsame hmap hsubscribers
      (haddressed.relays _ (Keyed.mem_of_lookup? hname)).queue fun log h h' => ⟨h, h'⟩

def narrowTabs : List (Move Draft) :=
  inTurn [(.newWithQuota "a" .localArea 6, 1), (.openTab "b" "a", 1), (.newLog "l", 1),
    (.newLog "m", 1), (.newQueue "q", 1), (.relayToLog "r" "a" "q" "l", 1),
    (.relayToLog "s" "b" "q" "m", 1), (.listen "s" "y", 2)]

def fittingWrite : List (Move Draft) :=
  narrowTabs ++ [.begin (.write "r" (.store "k" (.json (.bool false))))]

def exceedingWrite : List (Move Draft) :=
  narrowTabs ++ [.begin (.write "r" (.store "kk" (.json (.bool false))))]

theorem narrow_writes :
    (idle.playAll fittingWrite).Applied ⟨⟨0, 0⟩, 0, .log 0⟩
        (.store "k" (.json (.bool false))) (List.replicate 8 .advance) ∧
      (idle.playAll exceedingWrite).Ends (List.replicate 2 .advance)
        (.writeError (.storage "kk" (.quotaExceeded "kk" 6))) ∧
      (idle.playAll exceedingWrite).Untouched (List.replicate 2 .advance) := by
  have hfits : (idle.playAll fittingWrite).Ends (List.replicate 8 .advance) .ok := by
    decide +kernel
  have hexceeds : (idle.playAll exceedingWrite).Ends (List.replicate 2 .advance)
      (.writeError (.storage "kk" (.quotaExceeded "kk" 6))) := by decide +kernel
  have hfitting : (idle.playAll fittingWrite).AllOrNothing ⟨⟨0, 0⟩, 0, .log 0⟩
      (.store "k" (.json (.bool false))) :=
    write_is_all_or_nothing fittingWrite rfl rfl (by decide +kernel) (by decide +kernel)
  have hexceeding : (idle.playAll exceedingWrite).AllOrNothing ⟨⟨0, 0⟩, 0, .log 0⟩
      (.store "kk" (.json (.bool false))) :=
    write_is_all_or_nothing exceedingWrite rfl rfl (by decide +kernel) (by decide +kernel)
  exact ⟨hfitting.all _ hfits (by decide +kernel), hexceeds, hexceeding.nothing _ _ hexceeds⟩

end Machine

end Session

end TabRelay
