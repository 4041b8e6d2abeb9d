import TabRelay.Proofs.Session.View

/-!
# Steps that are seen

A machine shows another one when the other is what is seen of it.  A step that
names only what is seen keeps the two in step: it does to the part what it does to
the whole.
-/

namespace TabRelay.Session

open TabRelay.Decoding TabRelay.Storage

variable {V : Type}

/-! ## Steps -/

namespace Step

/-- The subscriptions, logs, queues and relays that a step names, apart from the subscriptions
that are to be owned. -/
def mentions : Step V → List (Space × String)
  | .subscribe _ id _ _ _ => [(.subscription, id)]
  | .dropSubscription id => [(.subscription, id)]
  | .showSubscription id => [(.subscription, id)]
  | .newLog id => [(.log, id)]
  | .pushToLog log _ => [(.log, log)]
  | .notifyLog log _ => [(.log, log)]
  | .popFromLog log => [(.log, log)]
  | .drainLog log => [(.log, log)]
  | .clearLog log => [(.log, log)]
  | .askLog log _ => [(.log, log)]
  | .newQueue id => [(.queue, id)]
  | .defer queue _ _ => [(.queue, queue)]
  | .runPending queue => [(.queue, queue)]
  | .askQueue queue _ => [(.queue, queue)]
  | .relayToLog id _ queue log => [(.relay, id), (.queue, queue), (.log, log)]
  | .relayToNone id _ queue => [(.relay, id), (.queue, queue)]
  | .relayToScript id _ queue _ _ => [(.relay, id), (.queue, queue)]
  | .sameRelay id relay => [(.relay, id), (.relay, relay)]
  | .dropRelay id => [(.relay, id)]
  | .askRelay relay _ => [(.relay, relay)]
  | .snapshot relay => [(.relay, relay)]
  | .write relay _ => [(.relay, relay)]
  | .writeRequest relay _ => [(.relay, relay)]
  | .receive relay _ => [(.relay, relay)]
  | .listen relay id => [(.relay, relay), (.subscription, id)]
  | _ => []

def countsSubscribers : Step V → Bool
  | .askArea _ .subscriberCount => true
  | .askArea _ .shown => true
  | .showSubscription _ => true
  | _ => false

/-- The step changes an area at one key at most, and reads nothing.  A handler that it subscribes
only records. -/
def isByKey : Step V → Bool
  | .new .. | .newWithEntries .. | .openTab .. | .sameTab .. | .dropStorage _ | .set ..
  | .remove .. | .dropSubscription _ | .newLog _ | .newQueue _ | .relayToLog ..
  | .relayToNone .. | .sameRelay .. | .dropRelay _ | .listen .. => true
  | .subscribe _ _ steps _ _ => steps.isEmpty
  | _ => false

def changedKey? : Step V → Option String
  | .set _ key _ => some key
  | .remove _ key => some key
  | _ => none

end Step

theorem key_of_set {a b : Area} {key text : String} {event : Event}
    (h : a.set key text = .ok (b, some event)) : event.key = some key := by
  simp only [Area.set] at h
  split at h
  · split at h
    · cases h
    · cases h
      rfl
  · contradiction

theorem subscribers_of_set {a b : Area} {key text : String} {raised : Option Event}
    (h : a.set key text = .ok (b, raised)) : b.subscribers = a.subscribers := by
  have hperform := subscribers_perform a (.set key text)
  rwa [Area.perform, h] at hperform

theorem key_of_remove {a : Area} {key : String} {event : Event}
    (h : (a.remove key).2 = some event) : event.key = some key := by
  simp only [Area.remove] at h
  split at h
  · contradiction
  · cases h
    rfl

namespace View

variable {v : View}

/-! ## What an area does -/

theorem about_of_all (h : ∀ key, v.keys key) (key : Option String) : v.about key := by
  cases key with
  | none => rfl
  | some key => exact h key

theorem entries_of_all {α : Type} (h : ∀ key, v.keys key) (items : Keyed α) :
    v.entries items = items :=
  List.filter_eq_self.mpr fun p _ => h p.1

theorem log_of_all (h : ∀ key, v.keys key) (changes : List (Change V)) : v.log changes = changes :=
  List.filter_eq_self.mpr fun change _ => about_of_all h change.key?

theorem log_append {change : Change V} (h : v.about change.key?) (changes : List (Change V)) :
    v.log (changes ++ [change]) = v.log changes ++ [change] := by
  simp [log, h]

theorem entries_ofPairs (pairs : List (String × String)) :
    v.entries (Keyed.ofPairs pairs) = Keyed.ofPairs (pairs.filter fun p => v.keys p.1) := by
  induction pairs using List.reverseRecOn with
  | nil => rfl
  | append_singleton pairs p ih =>
      obtain ⟨key, text⟩ := p
      rw [Keyed.ofPairs_append_singleton, entries, List.filter_append]
      by_cases hkey : v.keys key
      · have hpair : [(key, text)].filter (fun p => v.keys p.1) = [(key, text)] := by simp [hkey]
        rw [Keyed.insert_filter (Keyed.sorted_ofPairs pairs) hkey, hpair,
          Keyed.ofPairs_append_singleton, ← ih]
        rfl
      · have hnone : [(key, text)].filter (fun p => v.keys p.1) = [] := by simp [hkey]
        rw [Keyed.insert_filter_unseen hkey, hnone, List.append_nil, ← ih]
        rfl

@[simp] theorem faultsOf_area (i : Nat) (a : Area) (tab : Nat) :
    (v.area i a).faultsOf tab = a.faultsOf tab := rfl

@[simp] theorem faultsOf_system (s : System V) (h : Handle) :
    (v.system s).faultsOf h = s.faultsOf h := by
  simp [System.faultsOf]

theorem area_get? {key : String} (hkey : v.keys key) (i : Nat) (a : Area) :
    (v.area i a).get? key = a.get? key :=
  Keyed.lookup?_filter hkey a.entries

theorem area_set {i : Nat} {a : Area} {key : String} (hkey : v.keys key)
    (hsorted : Keyed.Sorted a.entries) (hquota : (∀ key, v.keys key) ∨ a.quota = none)
    (text : String) :
    (v.area i a).set key text = (a.set key text).map (Prod.map (v.area i) id) := by
  have hfits : (v.area i a).fits key text = a.fits key text := by
    rcases hquota with hall | hnone
    · have hentries : (v.area i a).entries = a.entries := entries_of_all hall a.entries
      have hneeded : (v.area i a).neededBytes key text = a.neededBytes key text := by
        rw [Area.neededBytes, Area.neededBytes, hentries]
      have hquota : (v.area i a).quota = a.quota := rfl
      cases hsome : a.quota <;> simp [Area.fits, hquota, hsome, hneeded]
    · simp only [Area.fits, area, hnone]
  have hentries : v.entries (Keyed.insert key text a.entries) =
      Keyed.insert key text (v.entries a.entries) := Keyed.insert_filter hsorted hkey text
  simp only [Area.set, hfits, area_get? hkey]
  split
  · split <;> simp [Except.map, area, hentries]
  · rfl

theorem area_remove {i : Nat} {a : Area} {key : String} (hkey : v.keys key) :
    (v.area i a).remove key = Prod.map (v.area i) id (a.remove key) := by
  have hentries : v.entries (Keyed.erase key a.entries) =
      Keyed.erase key (v.entries a.entries) := Keyed.erase_filter hkey a.entries
  simp only [Area.remove, area_get? hkey]
  cases a.get? key <;> simp [area, hentries]

theorem area_clear {i : Nat} {a : Area} (hall : ∀ key, v.keys key) :
    (v.area i a).clear = Prod.map (v.area i) id a.clear := by
  have hentries : (v.area i a).entries = a.entries := entries_of_all hall a.entries
  simp only [Area.clear, hentries]
  split
  · rfl
  · simp [area, entries]

structure SeesNext (v : View) (s : System V) (handle : Handle) : Prop where
  handler : v.handlers s.handlers.length
  id : v.subscriptions handle.area (s.area handle.area).nextSubscriber

theorem system_nameSubscription {s : System V} (hsorted : Keyed.Sorted s.subscriptionNames)
    {id : String} (hid : v.names .subscription id) (sub : Subscription) :
    v.system (s.nameSubscription id sub) =
      (v.system s).nameSubscription id (v.subscription sub) := by
  simp only [system, System.nameSubscription, named_insert hsorted hid]

theorem system_registered {s : System V} (hsorted : Keyed.Sorted s.subscriptionNames)
    {id : String} (hid : v.names .subscription id) {handle : Handle} (hnext : v.SeesNext s handle)
    (reaction : Reaction V) :
    v.system (Machine.registered s handle id reaction) =
      Machine.registered (v.system s) handle id (v.reaction reaction) := by
  have hsame : Keyed.Sorted ((s.addHandler reaction).1.setArea handle.area
      ((s.area handle.area).subscribe handle.tab s.handlers.length).1).subscriptionNames := hsorted
  rw [Machine.registered, system_nameSubscription hsame hid, system_setArea,
    system_addHandler s hnext.handler, area_subscribed hnext.handler hnext.id,
    Machine.registered, system_area, length_handlers]
  rfl

end View

/-! ## What a machine shows -/

namespace Machine

/-- The second machine is what is seen of the first one. -/
structure Shown (v : View) (m p : Machine V) : Prop where
  system : p.system = v.system m.system
  stack : p.stack = m.stack.map v.frame
  closed : v.Closed m.system
  frames : ∀ frame ∈ m.stack, v.seesFrame frame

/-- And both have told the same since they had told what is given for each. -/
structure Shows (v : View) (before : List (Entry V) × List (Entry V)) (m p : Machine V) : Prop
    extends Shown v m p where
  said : ∃ since, v.said m.trace = since ++ before.1 ∧ v.said p.trace = since ++ before.2

/-- The machines also do the same next. -/
structure InStep (v : View) (before : List (Entry V) × List (Entry V)) (m p : Machine V) : Prop
    extends Shows v before m p where
  control : p.control = v.control m.control

namespace Shows

variable {v : View} {before : List (Entry V) × List (Entry V)} {m p : Machine V}

theorem answer (h : Shows v before m p) (a : Answer V) :
    InStep v before (m.answer a) (p.answer a) :=
  ⟨⟨⟨h.system, h.stack, h.closed, h.frames⟩, h.said⟩, rfl⟩

theorem record (h : Shows v before m p) (entry : Entry V) :
    Shows v before (m.record entry) (p.record entry) := by
  refine ⟨⟨h.system, h.stack, h.closed, h.frames⟩, ?_⟩
  obtain ⟨since, hm, hp⟩ := h.said
  simp only [View.said] at hm hp
  by_cases hsees : v.seesEntry entry
  · exact ⟨entry :: since, by simp [View.said, Machine.record, hsees, hm],
      by simp [View.said, Machine.record, hsees, hp]⟩
  · exact ⟨since, by simp [View.said, Machine.record, hsees, hm],
      by simp [View.said, Machine.record, hsees, hp]⟩

theorem mark (h : Shows v before m p) {mark other : Mark}
    (hmark : (Entry.mark mark : Entry V).isWarning = false)
    (hother : (Entry.mark other : Entry V).isWarning = false) :
    Shows v before (m.mark mark) (p.mark other) := by
  refine ⟨⟨h.system, h.stack, h.closed, h.frames⟩, ?_⟩
  simpa [View.said, Machine.mark, Machine.record, View.seesEntry, hmark, hother] using h.said

theorem push (h : Shows v before m p) {f : Frame V} (hframe : v.seesFrame f) :
    Shows v before (m.push f) (p.push (v.frame f)) where
  system := h.system
  stack := by simp [Machine.push, h.stack]
  closed := h.closed
  frames := List.forall_mem_cons.mpr ⟨hframe, h.frames⟩
  said := h.said

theorem update (h : Shows v before m p) {s s' : System V} (hs : s' = v.system s) (hclosed : v.Closed s) :
    Shows v before (m.update s) (p.update s') :=
  ⟨⟨hs, h.stack, hclosed, h.frames⟩, h.said⟩

theorem pop (h : Shows v before m p) {frame : Frame V} {rest : List (Frame V)}
    (hstack : m.stack = frame :: rest) :
    v.seesFrame frame ∧ p.stack = v.frame frame :: rest.map v.frame ∧
      Shows v before { m with stack := rest } { p with stack := rest.map v.frame } := by
  have hframes := h.frames
  rw [hstack] at hframes
  obtain ⟨hframe, hrest⟩ := List.forall_mem_cons.mp hframes
  exact ⟨hframe, by rw [h.stack, hstack, List.map_cons], ⟨h.system, rfl, h.closed, hrest⟩, h.said⟩

theorem unheld (h : Shows v before m p) (hfree : m.Unheld) : p.Unheld := by
  intro cell
  by_contra hheld
  simp only [Bool.not_eq_false, isHeld, h.stack, List.any_map, List.any_eq_true] at hheld
  obtain ⟨frame, hframe, hcell⟩ := hheld
  cases frame with
  | held other =>
      have hother : m.isHeld other := List.any_eq_true.mpr ⟨_, hframe, by simp⟩
      rw [hfree other] at hother
      contradiction
  | _ => simp [View.frame] at hcell

theorem area (h : Shows v before m p) (i : Nat) : p.system.area i = v.area i (m.system.area i) := by
  rw [h.system, View.system_area]

theorem faultsOf (h : Shows v before m p) (handle : Handle) :
    p.system.faultsOf handle = m.system.faultsOf handle := by
  rw [h.system, View.faultsOf_system]

/-! ### Looking things up -/

theorem withStorage (h : Shows v before m p) {id : String} {next next' : Handle → Machine V}
    (hnext : ∀ handle, Keyed.lookup? id m.system.storageNames = some handle →
      InStep v before (next handle) (next' handle)) :
    InStep v before (m.withStorage id next) (p.withStorage id next') := by
  simp only [Machine.withStorage, withNamed, h.system, View.system]
  cases hname : Keyed.lookup? id m.system.storageNames with
  | none => exact h.answer _
  | some handle => exact hnext handle hname

theorem withNamed {α : Type} (h : Shows v before m p) {names : Keyed α} {space : Space}
    {f : α → α} {id : String}
    (hid : v.names space id) {next next' : α → Machine V}
    (hnext : ∀ a, Keyed.lookup? id names = some a → InStep v before (next a) (next' (f a))) :
    InStep v before (m.withNamed names id next) (p.withNamed (v.named space f names) id next') := by
  simp only [Machine.withNamed, View.lookup?_named hid]
  cases hname : Keyed.lookup? id names with
  | none => exact h.answer _
  | some a => exact hnext a hname

theorem withRelay (h : Shows v before m p) {id : String} (hid : v.names .relay id)
    {next next' : Relay → Machine V}
    (hnext : ∀ relay, v.seesRelay relay → Keyed.lookup? id m.system.relayNames = some relay →
      InStep v before (next relay) (next' (v.relay relay))) :
    InStep v before (m.withRelay id next) (p.withRelay id next') := by
  simp only [Machine.withRelay, h.system]
  exact h.withNamed hid fun relay hname => hnext relay (h.closed.seesRelay hid hname) hname

theorem withLog (h : Shows v before m p) {id : String} (hid : v.names .log id) {next next' : Nat → Machine V}
    (hnext : ∀ log, v.logs log → InStep v before (next log) (next' (rank v.logs log))) :
    InStep v before (m.withLog id next) (p.withLog id next') := by
  simp only [Machine.withLog, h.system]
  exact h.withNamed hid fun log hname => hnext log (h.closed.seesLog hid hname)

theorem withQueue (h : Shows v before m p) {id : String} (hid : v.names .queue id)
    {next next' : Nat → Machine V}
    (hnext : ∀ queue, v.queues queue → InStep v before (next queue) (next' (rank v.queues queue))) :
    InStep v before (m.withQueue id next) (p.withQueue id next') := by
  simp only [Machine.withQueue, h.system]
  exact h.withNamed hid fun queue hname => hnext queue (h.closed.seesQueue hid hname)

theorem withDecoded {α : Type} (h : Shows v before m p) {decoded : Decoded α}
    {next next' : α → Machine V} (hnext : ∀ a, InStep v before (next a) (next' a)) :
    InStep v before (m.withDecoded decoded next) (p.withDecoded decoded next') := by
  cases decoded with
  | error e => exact h.answer _
  | ok a => exact hnext a

theorem answerExcept {α : Type} (h : Shows v before m p) (result : Except AreaError α)
    (f : α → Answer V) : InStep v before (m.answerExcept result f) (p.answerExcept result f) := by
  cases result <;> exact h.answer _

/-! ### Areas -/

theorem setArea (h : Shows v before m p) {i : Nat} {a a' : Area} (ha : a' = v.area i a)
    (hsubscribers : ∀ t ∈ a.subscribers, v.subscriptions i t.id = v.handlers t.handler) :
    Shows v before (m.setArea i a) (p.setArea i a') := by
  refine h.update ?_ (h.closed.setArea hsubscribers)
  rw [h.system, ha, View.system_setArea]

theorem setArea_same (h : Shows v before m p) {i : Nat} {a a' : Area} (ha : a' = v.area i a)
    (hsame : a.subscribers = (m.system.area i).subscribers) :
    Shows v before (m.setArea i a) (p.setArea i a') :=
  h.setArea ha (hsame ▸ h.closed.subscribers i)

theorem deliver (h : Shows v before m p) {event : Event} (habout : v.about event.key) (i : Nat)
    (writer : Option Nat) : InStep v before (m.deliver i writer event) (p.deliver i writer event) := by
  have hpush : Shows v before (m.push (.delivery event ((m.system.area i).recipients writer)))
      (p.push (.delivery event (v.numbers ((m.system.area i).recipients writer)))) :=
    h.push habout
  simp only [Machine.deliver, h.area, View.area_recipients]
  exact hpush.answer .ok

theorem deliverRaised (h : Shows v before m p) (handle : Handle) {raised : Option Event}
    (habout : ∀ event, raised = some event → v.about event.key) :
    InStep v before (m.deliverRaised handle raised) (p.deliverRaised handle raised) := by
  cases raised with
  | none => exact h.answer .ok
  | some event => exact h.deliver (habout event rfl) handle.area (some handle.tab)

theorem setText (h : Shows v before m p) (hfree : m.Unheld) (hneat : m.system.Neat) (handle : Handle)
    {key : String} (hkey : v.keys key)
    (hquota : (∀ key, v.keys key) ∨ (m.system.area handle.area).quota = none) (text : String) :
    InStep v before (m.setText handle key text) (p.setText handle key text) := by
  simp only [Machine.setText, h.faultsOf, whenFree_of_unheld hfree,
    whenFree_of_unheld (h.unheld hfree)]
  cases (m.system.faultsOf handle).check .set with
  | error e => exact h.answer _
  | ok _ =>
      simp only [h.area, View.area_set hkey (hneat.entries handle.area) hquota]
      cases hset : (m.system.area handle.area).set key text with
      | error e => exact h.answer _
      | ok result =>
          obtain ⟨a, raised⟩ := result
          refine (h.setArea_same rfl (subscribers_of_set hset)).deliverRaised handle ?_
          rintro event rfl
          rw [key_of_set hset]
          exact hkey

theorem removeKey (h : Shows v before m p) (hfree : m.Unheld) (handle : Handle) {key : String}
    (hkey : v.keys key) : InStep v before (m.removeKey handle key) (p.removeKey handle key) := by
  simp only [Machine.removeKey, h.faultsOf, whenFree_of_unheld hfree,
    whenFree_of_unheld (h.unheld hfree)]
  cases (m.system.faultsOf handle).check .remove with
  | error e => exact h.answer _
  | ok _ =>
      simp only [h.area, View.area_remove hkey]
      refine (h.setArea_same rfl (subscribers_perform _ (.remove key))).deliverRaised handle ?_
      intro event hevent
      rw [key_of_remove hevent]
      exact hkey

theorem clearArea (h : Shows v before m p) (hfree : m.Unheld) (hall : ∀ key, v.keys key)
    (handle : Handle) : InStep v before (m.clearArea handle) (p.clearArea handle) := by
  simp only [Machine.clearArea, h.area, View.area_clear hall, whenFree_of_unheld hfree,
    whenFree_of_unheld (h.unheld hfree)]
  refine (h.setArea_same rfl (subscribers_perform _ .clear)).deliverRaised handle ?_
  exact fun event _ => View.about_of_all hall event.key

theorem service (h : Shows v before m p) (hall : ∀ key, v.keys key) (handle : Handle) :
    p.service handle = m.service handle := by
  have hentries : (v.area handle.area (m.system.area handle.area)).entries =
      (m.system.area handle.area).entries := View.entries_of_all hall _
  simp only [Machine.service, h.faultsOf, h.area, Area.length, Area.keyAt?, Area.get?, hentries]

theorem askArea (h : Shows v before m p) (hfree : m.Unheld) (hall : ∀ key, v.keys key)
    (handle : Handle) {question : AreaQuestion} (hcount : question ≠ .subscriberCount)
    (hshown : question ≠ .shown) :
    InStep v before (m.askArea handle question) (p.askArea handle question) := by
  simp only [Machine.askArea, h.service hall, h.area, whenFree_of_unheld hfree,
    whenFree_of_unheld (h.unheld hfree)]
  cases question with
  | kind => exact h.answer _
  | length => exact h.answerExcept _ _
  | isEmpty => exact h.answerExcept _ _
  | keyAt index => exact h.answerExcept _ _
  | get key => exact h.answerExcept _ _
  | subscriberCount => exact absurd rfl hcount
  | entries =>
      have hentries : (v.area handle.area (m.system.area handle.area)).entries =
          (m.system.area handle.area).entries := View.entries_of_all hall _
      rw [hentries]
      exact h.answer _
  | shown => exact absurd rfl hshown

/-! ### Storage and relay names -/

theorem nameStorage (h : Shows v before m p) (id : String) (handle : Handle) :
    InStep v before (m.nameStorage id handle) (p.nameStorage id handle) := by
  have hnamed : Shows v before (m.update (m.system.nameStorage id handle))
      (p.update (p.system.nameStorage id handle)) :=
    h.update (by rw [h.system]; rfl) (h.closed.spares _ _ _)
  have hsame : p.system.storageNames = m.system.storageNames := by rw [h.system]; rfl
  simp only [Machine.nameStorage, hsame]
  cases Keyed.lookup? id m.system.storageNames with
  | none => exact hnamed.answer .ok
  | some old => exact (hnamed.push rfl).answer .ok

theorem create (h : Shows v before m p) (id : String) {a a' : Area}
    (ha : a' = v.area m.system.areas.length a) (hnew : a.subscribers = []) :
    InStep v before (m.create id a) (p.create id a') := by
  have hadded : Shows v before (m.update (m.system.addArea a).1) (p.update (p.system.addArea a').1) :=
    h.update (by rw [h.system, ha, View.system_addArea]) (h.closed.addArea hnew)
  have hlength : (p.system.addArea a').2 = (m.system.addArea a).2 := by
    simp [System.addArea, h.system]
  simp only [Machine.create, hlength]
  exact hadded.nameStorage id _

theorem openTab (h : Shows v before m p) (hfree : m.Unheld) (id : String) (handle : Handle) :
    InStep v before (m.openTab id handle) (p.openTab id handle) := by
  simp only [Machine.openTab, h.area, whenFree_of_unheld hfree,
    whenFree_of_unheld (h.unheld hfree)]
  have hset : Shows v before
      (m.setArea handle.area (m.system.area handle.area).openTab.1)
      (p.setArea handle.area (v.area handle.area (m.system.area handle.area)).openTab.1) :=
    h.setArea_same rfl rfl
  exact hset.nameStorage id _

theorem dropStorage (h : Shows v before m p) (id : String) :
    InStep v before (m.dropStorage id) (p.dropStorage id) := by
  refine h.withStorage fun handle _ => ?_
  have hupdate : Shows v before
      (m.update { m.system with storageNames := Keyed.erase id m.system.storageNames })
      (p.update { p.system with storageNames := Keyed.erase id p.system.storageNames }) :=
    h.update (by rw [h.system]; rfl) (h.closed.spares _ _ _)
  exact (hupdate.push rfl).answer .ok

theorem nameRelay (h : Shows v before m p) (hneat : m.system.Neat) {id : String} (hid : v.names .relay id)
    {relay : Relay} (hrelay : v.seesRelay relay) :
    InStep v before (m.nameRelay id relay) (p.nameRelay id (v.relay relay)) := by
  have hnamed : Shows v before (m.update (m.system.nameRelay id relay))
      (p.update (p.system.nameRelay id (v.relay relay))) := by
    refine h.update ?_ (h.closed.nameRelay ?_)
    · rw [h.system]
      simp only [System.nameRelay, View.system, View.named_insert hneat.listed.relays hid]
    · rw [hid]
      exact hrelay
  have hlookup : Keyed.lookup? id p.system.relayNames =
      (Keyed.lookup? id m.system.relayNames).map v.relay := by
    rw [h.system]
    exact View.lookup?_named hid _
  simp only [Machine.nameRelay, hlookup]
  cases Keyed.lookup? id m.system.relayNames with
  | none => exact hnamed.answer .ok
  | some old => exact (hnamed.push rfl).answer .ok

theorem dropRelay (h : Shows v before m p) {id : String} (hid : v.names .relay id) :
    InStep v before (m.dropRelay id) (p.dropRelay id) := by
  refine h.withRelay hid fun relay _ _ => ?_
  have hupdate : Shows v before
      (m.update { m.system with relayNames := Keyed.erase id m.system.relayNames })
      (p.update { p.system with relayNames := Keyed.erase id p.system.relayNames }) := by
    refine h.update ?_ (h.closed.dropRelay id)
    rw [h.system]
    simp only [View.system, View.named_erase hid]
  exact (hupdate.push rfl).answer .ok

theorem makeRelay (h : Shows v before m p) (hneat : m.system.Neat) {id queue : String}
    (hid : v.names .relay id) (hqueue : v.names .queue queue) (storage : String) {listener : Listener}
    (hlistener : v.seesListener listener) :
    InStep v before (m.makeRelay id storage queue listener)
      (p.makeRelay id storage queue (v.listener listener)) := by
  refine h.withStorage fun handle _ => h.withQueue hqueue fun queue hqueue => ?_
  refine h.nameRelay hneat hid ?_
  simp [View.seesRelay, hqueue, hlistener]

theorem makeScriptRelay (h : Shows v before m p) (hneat : m.system.Neat) {id queue : String}
    (hid : v.names .relay id) (hqueue : v.names .queue queue) (storage : String) (script : Script V) :
    InStep v before (m.makeScriptRelay id storage queue script)
      (p.makeScriptRelay id storage queue script) := by
  refine h.withStorage fun handle _ => h.withQueue hqueue fun queue hqueue => ?_
  have hadded : Shows v before (m.update (m.system.addScript script).1)
      (p.update (p.system.addScript script).1) :=
    h.update (by rw [h.system]; rfl) (h.closed.spares _ _ _)
  have hnumber : (p.system.addScript script).2 = (m.system.addScript script).2 := by
    rw [h.system]
    rfl
  simp only [hnumber]
  refine hadded.nameRelay { hneat with listed := { hneat.listed with } } hid ?_
  simp [View.seesRelay, View.seesListener, hqueue]

/-! ### Subscriptions -/

theorem dropOld (h : Shows v before m p) {old : Option Subscription}
    (hold : ∀ sub, old = some sub → v.seesSubscription sub) :
    InStep v before ((m.push (.drop old.toList)).answer .ok)
      ((p.push (.drop (old.map v.subscription).toList)).answer .ok) := by
  have hpush := h.push (f := .drop old.toList) rfl
  have hframe : v.frame (.drop old.toList) = (.drop (old.map v.subscription).toList : Frame V) := by
    cases old <;> simp_all [View.frame, View.owned]
  rw [hframe] at hpush
  exact hpush.answer .ok

theorem register (h : Shows v before m p) (hfree : m.Unheld) (hneat : m.system.Neat) {handle : Handle}
    (hnumbered : v.SeesNext m.system handle) {id : String} (hid : v.names .subscription id)
    {r : Reaction V} (hreaction : v.seesReaction r) :
    InStep v before (m.register handle id r) (p.register handle id (v.reaction r)) := by
  have hregistered : Shows v before (m.update (registered m.system handle id r))
      (p.update (registered p.system handle id (v.reaction r))) := by
    refine h.update ?_ ?_
    · rw [h.system, View.system_registered hneat.subscriptions hid hnumbered]
    · refine View.Closed.nameSubscription (View.Closed.setArea (h.closed.addHandler ?_) ?_) ?_
      · rw [hnumbered.handler]
        exact hreaction
      · intro t ht
        rcases List.mem_append.mp ht with ht | ht
        · exact h.closed.subscribers handle.area t ht
        · rw [List.mem_singleton.mp ht]
          exact hnumbered.id.trans hnumbered.handler.symm
      · exact hnumbered.id.trans hid.symm
  have hlookup : Keyed.lookup? id p.system.subscriptionNames =
      (Keyed.lookup? id m.system.subscriptionNames).map v.subscription := by
    rw [h.system]
    exact View.lookup?_named hid _
  rw [register_eq (hfree _), register_eq (h.unheld hfree _)]
  have hold : ∀ sub, Keyed.lookup? id m.system.subscriptionNames = some sub →
      v.seesSubscription sub := fun sub hsub => h.closed.seesSubscription hid hsub
  have hdrop := hregistered.dropOld hold
  rw [← hlookup] at hdrop
  exact hdrop

def SeesRegistration (v : View) (s : System V) (handle : Handle) : Prop :=
  .subscribe ∉ (s.faultsOf handle).failing → v.SeesNext s handle

theorem seesNext_of_check {s : System V} {handle : Handle} (h : SeesRegistration v s handle)
    (hcheck : (s.faultsOf handle).check .subscribe = .ok ()) : v.SeesNext s handle :=
  h (not_failing_of_check hcheck)

theorem listen (h : Shows v before m p) (hfree : m.Unheld) (hneat : m.system.Neat) {relay : Relay}
    (hnumbered : SeesRegistration v m.system relay.handle) {id : String} (hid : v.names .subscription id)
    (hrelay : v.seesRelay relay) :
    InStep v before (m.listen relay id) (p.listen (v.relay relay) id) := by
  have hfaults : p.system.faultsOf (v.relay relay).handle = m.system.faultsOf relay.handle :=
    h.faultsOf relay.handle
  simp only [Machine.listen, hfaults]
  cases hcheck : (m.system.faultsOf relay.handle).check .subscribe with
  | error e => exact h.answer _
  | ok _ =>
      exact h.register hfree hneat (seesNext_of_check hnumbered hcheck) hid
        (r := .forward relay) hrelay

theorem subscribe (h : Shows v before m p) (hfree : m.Unheld) (hneat : m.system.Neat)
    {storage id : String}
    (hnumbered : ∀ handle, Keyed.lookup? storage m.system.storageNames = some handle →
      SeesRegistration v m.system handle)
    (hid : v.names .subscription id) (script : Script V) (own : List String) :
    InStep v before (m.subscribe storage id script own)
      (p.subscribe storage id (v.script script) (own.filter (v.names .subscription))) := by
  cases htake : m.system.takeSubscriptions own with
  | mk taken subs =>
      obtain ⟨hclosed, htaken⟩ := h.closed.takeSubscriptions htake
      have hsorted := System.sorted_takeSubscriptions hneat.subscriptions htake
      obtain ⟨names, rfl⟩ := System.takeSubscriptions_eq htake
      have hupdate : Shows v before (m.update { m.system with subscriptionNames := names })
          (p.update (v.system { m.system with subscriptionNames := names })) :=
        h.update rfl hclosed
      have hfails (a : Answer V) :
          InStep v before (((m.update { m.system with subscriptionNames := names }).push
            (.drop subs)).answer a)
            (((p.update (v.system { m.system with subscriptionNames := names })).push
              (.drop (v.owned subs))).answer a) :=
        (hupdate.push (f := .drop subs) rfl).answer a
      rw [← h.system] at htaken
      simp only [Machine.subscribe, htake, htaken]
      have hlookup : Keyed.lookup? storage
          (v.system { m.system with subscriptionNames := names }).storageNames =
            Keyed.lookup? storage m.system.storageNames := rfl
      rw [hlookup]
      cases hname : Keyed.lookup? storage m.system.storageNames with
      | none => exact hfails _
      | some handle =>
          have hfaults : (v.system { m.system with subscriptionNames := names }).faultsOf handle =
              m.system.faultsOf handle := View.faultsOf_system _ handle
          have hsame : System.faultsOf { m.system with subscriptionNames := names } handle =
              m.system.faultsOf handle := rfl
          simp only [hfaults, hsame]
          cases hcheck : (m.system.faultsOf handle).check .subscribe with
          | error e => exact hfails _
          | ok _ =>
              have hnext := seesNext_of_check (hnumbered handle hname) hcheck
              exact hupdate.register (hfree.of_stack rfl)
                { hneat with listed := { hneat.listed with }, subscriptions := hsorted }
                ⟨hnext.handler, hnext.id⟩ hid (r := .script script subs) rfl

theorem dropSubscription (h : Shows v before m p) {id : String} (hid : v.names .subscription id) :
    InStep v before (m.dropSubscription id) (p.dropSubscription id) := by
  simp only [Machine.dropSubscription, h.system]
  refine h.withNamed hid fun sub hname => ?_
  have hsub := h.closed.seesSubscription hid hname
  have hupdate : Shows v before
      (m.update { m.system with
        subscriptionNames := Keyed.erase id m.system.subscriptionNames })
      (p.update { v.system m.system with
        subscriptionNames := Keyed.erase id (v.system m.system).subscriptionNames }) := by
    refine h.update ?_ (h.closed.dropSubscription id)
    simp only [View.system, View.named_erase hid]
  have hframe : v.frame (.drop [sub]) = (.drop [v.subscription sub] : Frame V) := by
    simp [View.frame, View.owned, hsub]
  have hpush := hupdate.push (f := .drop [sub]) rfl
  rw [hframe] at hpush
  exact hpush.answer .ok

end Shows

end Machine

end TabRelay.Session
