import TabRelay.Proofs.Session.Attached
import TabRelay.Proofs.Session.Renumbering

/-!
# A part of a session

A `View` says which keys, names and numbers of a session are seen.  The system
that is seen holds what is left when all others are taken out, with new numbers;
`Closed` says that what is seen refers to nothing else.  Whatever is done to a
part that is seen is done to the system that is seen.
-/

namespace TabRelay.Session

open TabRelay.Decoding TabRelay.Storage

variable {V : Type}

/-- What a name is for; the same text can name one thing of each kind. -/
inductive Space where
  | subscription
  | log
  | queue
  | relay
  deriving DecidableEq, Repr

structure View where
  keys : String → Bool
  names : Space → String → Bool
  handlers : Nat → Bool
  subscriptions : Nat → Nat → Bool
  logs : Nat → Bool
  queues : Nat → Bool
  /-- Whether it is seen how often handlers are called or passed over. -/
  calls : Bool

namespace View

variable (v : View)

/-! ## What is seen -/

def about (key : Option String) : Bool := key.all v.keys

def entries {α : Type} (items : Keyed α) : Keyed α := items.filter fun p => v.keys p.1

def subscriber (i : Nat) (s : Subscriber) : Subscriber :=
  ⟨rank (v.subscriptions i) s.id, s.tab, rank v.handlers s.handler⟩

def subscribers (i : Nat) (subscribers : List Subscriber) : List Subscriber :=
  (subscribers.filter fun s => v.handlers s.handler).map (v.subscriber i)

def area (i : Nat) (area : Area) : Area :=
  { area with
    entries := v.entries area.entries
    subscribers := v.subscribers i area.subscribers
    nextSubscriber := rank (v.subscriptions i) area.nextSubscriber }

def seesSubscription (sub : Subscription) : Bool := v.subscriptions sub.area sub.id

def subscription (sub : Subscription) : Subscription :=
  ⟨sub.area, rank (v.subscriptions sub.area) sub.id⟩

def owned (subs : List Subscription) : List Subscription :=
  (subs.filter v.seesSubscription).map v.subscription

def listener : Listener → Listener
  | .log log => .log (rank v.logs log)
  | listener => listener

def relay (relay : Relay) : Relay :=
  ⟨relay.handle, rank v.queues relay.queue, v.listener relay.listener⟩

def script (script : Script V) : Script V :=
  if !v.calls && script.steps.isEmpty then { script with left := none } else script

def reaction : Reaction V → Reaction V
  | .script script own => .script (v.script script) (v.owned own)
  | .forward relay => .forward (v.relay relay)

def handler (handler : Handler V) : Handler V :=
  { handler with reaction := v.reaction handler.reaction }

def numbers (handlers : List Nat) : List Nat :=
  (handlers.filter v.handlers).map (rank v.handlers)

def log (changes : List (Change V)) : List (Change V) :=
  changes.filter fun change => v.about change.key?

def task : Task V → Task V
  | .notice listener change => .notice (v.listener listener) change
  | task => task

def named {α : Type} (space : Space) (f : α → α) (items : Keyed α) : Keyed α :=
  Keyed.mapValues f (items.filter fun p => v.names space p.1)

def system (s : System V) : System V where
  areas := s.areas.mapIdx v.area
  handlers := (rest v.handlers s.handlers).map v.handler
  logs := (rest v.logs s.logs).map v.log
  queues := (rest v.queues s.queues).map (·.map v.task)
  scripts := s.scripts
  storageNames := s.storageNames
  subscriptionNames := v.named .subscription v.subscription s.subscriptionNames
  logNames := v.named .log (rank v.logs) s.logNames
  queueNames := v.named .queue (rank v.queues) s.queueNames
  relayNames := v.named .relay v.relay s.relayNames

def cell : Cell → Cell
  | .area i => .area i
  | .queue queue => .queue (rank v.queues queue)
  | .log log => .log (rank v.logs log)

def frame : Frame V → Frame V
  | .delivery event left => .delivery event (v.numbers left)
  | .turn i => .turn (rank v.handlers i)
  | .held cell => .held (v.cell cell)
  | .release left => .release (v.numbers left)
  | .drop left => .drop (v.owned left)
  | .writing relay write stored => .writing (v.relay relay) write stored
  | .drain queue started => .drain (rank v.queues queue) started
  | frame => frame

def seesEntry : Entry V → Bool
  | .heard _ event => v.about event.key
  | .told _ change => v.about change.key?
  | .mark mark => v.calls && (Entry.mark mark : Entry V).isWarning
  | _ => true

def said (trace : List (Entry V)) : List (Entry V) := trace.filter v.seesEntry

/-- What is seen of the entries of a new area, and of the subscriptions that a handler owns. -/
def step : Step V → Step V
  | .newWithEntries id kind entries =>
      .newWithEntries id kind (entries.filter fun p => v.keys p.1)
  | .subscribe storage id steps times own =>
      .subscribe storage id steps (v.script ⟨id, steps, times⟩).left
        (own.filter fun id => v.names .subscription id)
  | step => step

def control : Control V → Control V
  | .run step => .run (v.step step)
  | control => control

/-! ## Closed systems -/

def seesListener : Listener → Bool
  | .log log => v.logs log
  | _ => true

def seesRelay (relay : Relay) : Bool := v.queues relay.queue && v.seesListener relay.listener

def hushes (relay : Relay) : Bool :=
  match relay.listener with
  | .log log => !v.logs log
  | .none => true
  | .script _ => false

def seesReaction : Reaction V → Bool
  | .script _ _ => true
  | .forward relay => v.seesRelay relay

def hushesReaction : Reaction V → Bool
  | .script _ _ => false
  | .forward relay => v.hushes relay

def seesTask : Task V → Bool
  | .notice listener change => v.seesListener listener && v.about change.key?
  | .script _ _ => true

def seesFrame : Frame V → Bool
  | .delivery event _ => v.about event.key
  | .turn i => v.handlers i
  | .held (.area _) => true
  | .held _ => false
  | .release left => left.all v.handlers
  | .writing relay write _ => v.seesRelay relay && v.keys write.key
  | .drain queue _ => v.queues queue
  | _ => true

def fitsRelay (seen : Bool) (relay : Relay) : Bool :=
  if seen then v.seesRelay relay else v.hushes relay

def fitsReaction (seen : Bool) (reaction : Reaction V) : Bool :=
  if seen then v.seesReaction reaction else v.hushesReaction reaction

/-- What is seen refers to what is seen, and the rest leaves it alone. -/
structure Closed (s : System V) : Prop where
  subscribers : ∀ i, ∀ t ∈ (s.area i).subscribers, v.subscriptions i t.id = v.handlers t.handler
  handlers : ∀ i handler, s.handlers[i]? = some handler →
    v.fitsReaction (v.handlers i) handler.reaction
  tasks : ∀ i, v.queues i → ∀ task ∈ s.queue i, v.seesTask task
  subscriptions : ∀ p ∈ s.subscriptionNames, v.seesSubscription p.2 = v.names .subscription p.1
  logNames : ∀ p ∈ s.logNames, v.logs p.2 = v.names .log p.1
  queueNames : ∀ p ∈ s.queueNames, v.queues p.2 = v.names .queue p.1
  relays : ∀ p ∈ s.relayNames, v.fitsRelay (v.names .relay p.1) p.2

variable {v}

/-! ## Areas -/

@[simp] theorem area_default (i : Nat) : v.area i default = default := by
  simp [area, entries, subscribers, default, instInhabitedArea.default]

@[simp] theorem system_area (s : System V) (i : Nat) :
    (v.system s).area i = v.area i (s.area i) := by
  simp only [System.area, system, List.getD_eq_getElem?_getD, List.getElem?_mapIdx]
  cases s.areas[i]? with
  | none => exact (area_default i).symm
  | some a => rfl

theorem system_setArea (s : System V) (i : Nat) (a : Area) :
    v.system (s.setArea i a) = (v.system s).setArea i (v.area i a) := by
  simp only [system, System.setArea, List.mapIdx_set]

theorem system_addArea (s : System V) (a : Area) :
    v.system (s.addArea a).1 = ((v.system s).addArea (v.area s.areas.length a)).1 := by
  simp only [system, System.addArea, List.mapIdx_concat]

@[simp] theorem length_areas (s : System V) :
    (v.system s).areas.length = s.areas.length := by
  simp [system]

theorem area_unsubscribed {i : Nat} {a : Area}
    (h : ∀ t ∈ a.subscribers, v.subscriptions i t.id = v.handlers t.handler) {id : Nat}
    (hid : v.subscriptions i id) :
    v.area i (a.unsubscribe id) = (v.area i a).unsubscribe (rank (v.subscriptions i) id) := by
  have hsubscribers : v.subscribers i (a.subscribers.filter fun s => s.id ≠ id) =
      (v.subscribers i a.subscribers).filter fun s => s.id ≠ rank (v.subscriptions i) id := by
    simp only [subscribers, List.filter_map, List.filter_filter]
    congr 1
    refine List.filter_congr ?_
    intro t ht
    by_cases hseen : v.handlers t.handler
    · have ht : v.subscriptions i t.id := (h t ht).trans hseen
      simp [hseen, subscriber, rank_inj _ ht hid]
    · simp [hseen]
  simp only [area, Area.unsubscribe, hsubscribers]

theorem area_unsubscribed_unseen {i : Nat} {a : Area}
    (h : ∀ t ∈ a.subscribers, v.subscriptions i t.id = v.handlers t.handler) {id : Nat}
    (hid : ¬ v.subscriptions i id) : v.area i (a.unsubscribe id) = v.area i a := by
  have hsubscribers : v.subscribers i (a.subscribers.filter fun s => s.id ≠ id) =
      v.subscribers i a.subscribers := by
    simp only [subscribers, List.filter_filter]
    congr 1
    refine List.filter_congr ?_
    intro t ht
    by_cases hseen : v.handlers t.handler
    · have hne : t.id ≠ id := by
        rintro rfl
        exact hid ((h t ht).trans hseen)
      simp [hseen, hne]
    · simp [hseen]
  simp only [area, Area.unsubscribe, hsubscribers]

theorem area_subscriber? {i : Nat} {a : Area}
    (h : ∀ t ∈ a.subscribers, v.subscriptions i t.id = v.handlers t.handler) {id : Nat}
    (hid : v.subscriptions i id) :
    (v.area i a).subscriber? (rank (v.subscriptions i) id) =
      (a.subscriber? id).map (v.subscriber i) := by
  simp only [Area.subscriber?, area, subscribers, List.find?_map, List.find?_filter]
  congr 1
  rw [← List.head?_filter, ← List.head?_filter]
  refine congrArg List.head? (List.filter_congr ?_)
  intro t ht
  by_cases hseen : v.handlers t.handler
  · have ht : v.subscriptions i t.id := (h t ht).trans hseen
    simp [hseen, subscriber, rank_inj _ ht hid]
  · have hne : t.id ≠ id := by
      rintro rfl
      exact hseen ((h t ht).symm.trans hid)
    simp [hseen, hne]

theorem area_subscribed {i : Nat} {a : Area} {handler : Nat} (hhandler : v.handlers handler)
    (hid : v.subscriptions i a.nextSubscriber) (tab : Nat) :
    v.area i (a.subscribe tab handler).1 =
      ((v.area i a).subscribe tab (rank v.handlers handler)).1 := by
  simp [area, Area.subscribe, subscribers, subscriber, hhandler, rank_succ, hid]

theorem area_subscribed_unseen {i : Nat} {a : Area} {handler : Nat}
    (hhandler : ¬ v.handlers handler) (hid : ¬ v.subscriptions i a.nextSubscriber) (tab : Nat) :
    v.area i (a.subscribe tab handler).1 = v.area i a := by
  simp [area, Area.subscribe, subscribers, hhandler, rank_succ, hid]

theorem area_recipients (i : Nat) (a : Area) (writer : Option Nat) :
    (v.area i a).recipients writer = v.numbers (a.recipients writer) := by
  simp only [Area.recipients, area, subscribers, numbers, List.filter_map, List.map_map,
    List.filter_filter]
  refine congrArg (List.map _) (List.filter_congr fun t _ => ?_)
  by_cases hseen : v.handlers t.handler <;> by_cases hwriter : writer = some t.tab <;>
    simp [subscriber, hseen, hwriter]

/-! ## Handlers -/

@[simp] theorem length_handlers (s : System V) :
    (v.system s).handlers.length = rank v.handlers s.handlers.length := by
  simp [system, length_rest]

theorem getElem?_handlers {i : Nat} (hi : v.handlers i) (s : System V) :
    (v.system s).handlers[rank v.handlers i]? = s.handlers[i]?.map v.handler := by
  simp [system, getElem?_rest hi]

theorem system_addHandler (s : System V) (hseen : v.handlers s.handlers.length)
    (reaction : Reaction V) :
    v.system (s.addHandler reaction).1 =
      ((v.system s).addHandler (v.reaction reaction)).1 := by
  simp [system, System.addHandler, rest_append_singleton, hseen, handler]

theorem system_addHandler_unseen (s : System V) (hseen : ¬ v.handlers s.handlers.length)
    (reaction : Reaction V) : v.system (s.addHandler reaction).1 = v.system s := by
  simp [system, System.addHandler, rest_append_singleton, hseen]

theorem system_setHandler {i : Nat} (hi : v.handlers i) (s : System V) (handler : Handler V) :
    v.system (s.setHandler i handler) =
      (v.system s).setHandler (rank v.handlers i) (v.handler handler) := by
  simp [system, System.setHandler, rest_set hi]

theorem system_setHandler_unseen {i : Nat} (hi : ¬ v.handlers i) (s : System V)
    (handler : Handler V) : v.system (s.setHandler i handler) = v.system s := by
  simp [system, System.setHandler, rest_set_unseen hi]

/-! ## Logs and queues -/

theorem system_log {i : Nat} (hi : v.logs i) (s : System V) :
    (v.system s).log (rank v.logs i) = v.log (s.log i) := by
  simp only [System.log, system, List.getD_eq_getElem?_getD, List.getElem?_map, getElem?_rest hi]
  cases s.logs[i]? <;> rfl

theorem system_setLog {i : Nat} (hi : v.logs i) (s : System V) (changes : List (Change V)) :
    v.system (s.setLog i changes) = (v.system s).setLog (rank v.logs i) (v.log changes) := by
  simp [system, System.setLog, rest_set hi]

theorem system_setLog_unseen {i : Nat} (hi : ¬ v.logs i) (s : System V)
    (changes : List (Change V)) : v.system (s.setLog i changes) = v.system s := by
  simp [system, System.setLog, rest_set_unseen hi]

theorem system_addLog (s : System V) (hseen : v.logs s.logs.length) :
    v.system s.addLog.1 = (v.system s).addLog.1 := by
  simp [system, System.addLog, rest_append_singleton, hseen, log]

theorem system_addLog_unseen (s : System V) (hseen : ¬ v.logs s.logs.length) :
    v.system s.addLog.1 = v.system s := by
  simp [system, System.addLog, rest_append_singleton, hseen]

@[simp] theorem length_logs (s : System V) :
    (v.system s).logs.length = rank v.logs s.logs.length := by
  simp [system, length_rest]

theorem system_queue {i : Nat} (hi : v.queues i) (s : System V) :
    (v.system s).queue (rank v.queues i) = (s.queue i).map v.task := by
  simp only [System.queue, system, List.getD_eq_getElem?_getD, List.getElem?_map,
    getElem?_rest hi]
  cases s.queues[i]? <;> rfl

theorem system_setQueue {i : Nat} (hi : v.queues i) (s : System V) (tasks : List (Task V)) :
    v.system (s.setQueue i tasks) =
      (v.system s).setQueue (rank v.queues i) (tasks.map v.task) := by
  simp [system, System.setQueue, rest_set hi]

theorem system_defer {i : Nat} (hi : v.queues i) (s : System V) (task : Task V) :
    v.system (s.defer i task) = (v.system s).defer (rank v.queues i) (v.task task) := by
  simp [System.defer, system_setQueue hi, system_queue hi]

theorem system_addQueue (s : System V) (hseen : v.queues s.queues.length) :
    v.system s.addQueue.1 = (v.system s).addQueue.1 := by
  simp [system, System.addQueue, rest_append_singleton, hseen]

theorem system_addQueue_unseen (s : System V) (hseen : ¬ v.queues s.queues.length) :
    v.system s.addQueue.1 = v.system s := by
  simp [system, System.addQueue, rest_append_singleton, hseen]

@[simp] theorem length_queues (s : System V) :
    (v.system s).queues.length = rank v.queues s.queues.length := by
  simp [system, length_rest]

/-! ## Names -/

section

variable {α : Type} {space : Space} {f : α → α} {id : String}

theorem lookup?_named (hid : v.names space id) (items : Keyed α) :
    Keyed.lookup? id (v.named space f items) = (Keyed.lookup? id items).map f := by
  rw [named, Keyed.lookup?_mapValues, Keyed.lookup?_filter hid]

theorem named_insert {items : Keyed α} (hsorted : Keyed.Sorted items) (hid : v.names space id) (a : α) :
    v.named space f (Keyed.insert id a items) = Keyed.insert id (f a) (v.named space f items) := by
  rw [named, Keyed.insert_filter hsorted hid, Keyed.insert_mapValues, named]

theorem named_insert_unseen (hid : ¬ v.names space id) (a : α) (items : Keyed α) :
    v.named space f (Keyed.insert id a items) = v.named space f items := by
  rw [named, Keyed.insert_filter_unseen hid, named]

theorem named_erase (hid : v.names space id) (items : Keyed α) :
    v.named space f (Keyed.erase id items) = Keyed.erase id (v.named space f items) := by
  rw [named, Keyed.erase_filter hid, Keyed.erase_mapValues, named]

theorem named_erase_unseen (hid : ¬ v.names space id) (items : Keyed α) :
    v.named space f (Keyed.erase id items) = v.named space f items := by
  rw [named, Keyed.erase_filter_unseen hid, named]

end

/-! ## Closed systems stay closed -/

namespace Closed

variable {s : System V}

theorem spares (h : v.Closed s) (logs : List (List (Change V))) (scripts : List (Script V))
    (storageNames : Keyed Handle) : v.Closed { s with logs, scripts, storageNames } :=
  { h with }

theorem setArea (h : v.Closed s) {i : Nat} {a : Area}
    (ha : ∀ t ∈ a.subscribers, v.subscriptions i t.id = v.handlers t.handler) :
    v.Closed (s.setArea i a) :=
  { h with
    subscribers := by
      intro j t ht
      rcases System.mem_setArea ht with ht | ⟨hij, ht⟩
      · exact h.subscribers j t ht
      · exact hij ▸ ha t ht }

theorem addArea (h : v.Closed s) {a : Area} (ha : a.subscribers = []) :
    v.Closed (s.addArea a).1 :=
  { h with
    subscribers := by
      intro i t ht
      rcases s.area_addArea_or a i with hsame | hadded
      · exact h.subscribers i t (hsame ▸ ht)
      · rw [hadded, ha] at ht
        contradiction }

theorem addHandler (h : v.Closed s) {reaction : Reaction V}
    (hfits : v.fitsReaction (v.handlers s.handlers.length) reaction) :
    v.Closed (s.addHandler reaction).1 :=
  { h with
    handlers := by
      intro i handler hhandler
      simp only [System.addHandler, List.getElem?_append] at hhandler
      split at hhandler
      · exact h.handlers i handler hhandler
      · obtain ⟨hlt, rfl⟩ := List.getElem?_eq_some_iff.mp hhandler
        have hi : i = s.handlers.length := by
          simp only [List.length_singleton] at hlt
          omega
        subst hi
        simpa using hfits }

theorem setHandler (h : v.Closed s) {i : Nat} {handler : Handler V}
    (hfits : v.fitsReaction (v.handlers i) handler.reaction) :
    v.Closed (s.setHandler i handler) :=
  { h with
    handlers := by
      intro j other hother
      simp only [System.setHandler, List.getElem?_set] at hother
      split at hother
      · rename_i hij
        subst hij
        split at hother
        · cases hother
          exact hfits
        · contradiction
      · exact h.handlers j other hother }

theorem setQueue (h : v.Closed s) {i : Nat} {tasks : List (Task V)}
    (htasks : v.queues i → ∀ task ∈ tasks, v.seesTask task) : v.Closed (s.setQueue i tasks) :=
  { h with
    tasks := by
      intro j hj task htask
      simp only [System.queue, System.setQueue, List.getD_eq_getElem?_getD,
        List.getElem?_set] at htask
      split at htask
      · rename_i hij
        subst hij
        split at htask
        · exact htasks hj task htask
        · contradiction
      · exact h.tasks j hj task (by simpa [System.queue] using htask) }

theorem addQueue (h : v.Closed s) : v.Closed s.addQueue.1 :=
  { h with
    tasks := by
      intro i hi task htask
      refine h.tasks i hi task ?_
      simp only [System.queue, System.addQueue, List.getD_eq_getElem?_getD,
        List.getElem?_append] at htask ⊢
      split at htask
      · exact htask
      · cases hlast : i - s.queues.length <;> simp [hlast] at htask }

theorem nameSubscription (h : v.Closed s) {id : String} {sub : Subscription}
    (hsub : v.seesSubscription sub = v.names .subscription id) : v.Closed (s.nameSubscription id sub) :=
  { h with
    subscriptions := by
      intro p hp
      rcases Keyed.mem_insert hp with rfl | hp
      · exact hsub
      · exact h.subscriptions p hp }

theorem dropSubscription (h : v.Closed s) (id : String) :
    v.Closed { s with subscriptionNames := Keyed.erase id s.subscriptionNames } :=
  { h with subscriptions := fun p hp => h.subscriptions p ((Keyed.erase_sublist _ _).mem hp) }

theorem nameLog (h : v.Closed s) {id : String} {log : Nat} (hlog : v.logs log = v.names .log id) :
    v.Closed { s with logNames := Keyed.insert id log s.logNames } :=
  { h with
    logNames := by
      intro p hp
      rcases Keyed.mem_insert hp with rfl | hp
      · exact hlog
      · exact h.logNames p hp }

theorem nameQueue (h : v.Closed s) {id : String} {queue : Nat}
    (hqueue : v.queues queue = v.names .queue id) :
    v.Closed { s with queueNames := Keyed.insert id queue s.queueNames } :=
  { h with
    queueNames := by
      intro p hp
      rcases Keyed.mem_insert hp with rfl | hp
      · exact hqueue
      · exact h.queueNames p hp }

theorem nameRelay (h : v.Closed s) {id : String} {relay : Relay}
    (hrelay : v.fitsRelay (v.names .relay id) relay) : v.Closed (s.nameRelay id relay) :=
  { h with
    relays := by
      intro p hp
      rcases Keyed.mem_insert hp with rfl | hp
      · exact hrelay
      · exact h.relays p hp }

theorem dropRelay (h : v.Closed s) (id : String) :
    v.Closed { s with relayNames := Keyed.erase id s.relayNames } :=
  { h with relays := fun p hp => h.relays p ((Keyed.erase_sublist _ _).mem hp) }

/-! ### What is found -/

theorem seesSubscription (h : v.Closed s) {id : String} {sub : Subscription}
    (hid : v.names .subscription id)
    (hname : Keyed.lookup? id s.subscriptionNames = some sub) : v.seesSubscription sub :=
  (h.subscriptions _ (Keyed.mem_of_lookup? hname)).trans hid

theorem seesLog (h : v.Closed s) {id : String} {log : Nat} (hid : v.names .log id)
    (hname : Keyed.lookup? id s.logNames = some log) : v.logs log :=
  (h.logNames _ (Keyed.mem_of_lookup? hname)).trans hid

theorem seesQueue (h : v.Closed s) {id : String} {queue : Nat} (hid : v.names .queue id)
    (hname : Keyed.lookup? id s.queueNames = some queue) : v.queues queue :=
  (h.queueNames _ (Keyed.mem_of_lookup? hname)).trans hid

theorem seesRelay (h : v.Closed s) {id : String} {relay : Relay} (hid : v.names .relay id)
    (hname : Keyed.lookup? id s.relayNames = some relay) : v.seesRelay relay := by
  have hfits := h.relays _ (Keyed.mem_of_lookup? hname)
  rwa [hid] at hfits

theorem hushes (h : v.Closed s) {id : String} {relay : Relay} (hid : ¬ v.names .relay id)
    (hname : Keyed.lookup? id s.relayNames = some relay) : v.hushes relay := by
  have hfits := h.relays _ (Keyed.mem_of_lookup? hname)
  rwa [Bool.eq_false_iff.mpr hid] at hfits

theorem seesReaction (h : v.Closed s) {i : Nat} {handler : Handler V} (hi : v.handlers i)
    (hhandler : s.handlers[i]? = some handler) : v.seesReaction handler.reaction := by
  have hfits := h.handlers i handler hhandler
  rwa [hi] at hfits

theorem hushesReaction (h : v.Closed s) {i : Nat} {handler : Handler V} (hi : ¬ v.handlers i)
    (hhandler : s.handlers[i]? = some handler) : v.hushesReaction handler.reaction := by
  have hfits := h.handlers i handler hhandler
  rwa [Bool.eq_false_iff.mpr hi] at hfits

theorem takeSubscriptions (h : v.Closed s) {own : List String} {taken : System V}
    {subs : List Subscription} (htake : s.takeSubscriptions own = (taken, subs)) :
    v.Closed taken ∧ (v.system s).takeSubscriptions (own.filter (v.names .subscription)) =
      (v.system taken, v.owned subs) := by
  induction own generalizing s taken subs with
  | nil =>
      cases htake
      exact ⟨h, rfl⟩
  | cons id own ih =>
      simp only [System.takeSubscriptions] at htake
      cases hname : Keyed.lookup? id s.subscriptionNames with
      | none =>
          simp only [hname] at htake
          obtain ⟨hclosed, htaken⟩ := ih h htake
          refine ⟨hclosed, ?_⟩
          by_cases hid : v.names .subscription id
          · have hlookup : Keyed.lookup? id (v.system s).subscriptionNames = none := by
              simp only [system, lookup?_named hid, hname, Option.map_none]
            simp only [List.filter_cons_of_pos hid, System.takeSubscriptions, hlookup]
            exact htaken
          · rw [List.filter_cons_of_neg hid]
            exact htaken
      | some sub =>
          simp only [hname] at htake
          have hsub := h.subscriptions _ (Keyed.mem_of_lookup? hname)
          cases htail : System.takeSubscriptions
              { s with subscriptionNames := Keyed.erase id s.subscriptionNames } own with
          | mk rest tail =>
              rw [htail] at htake
              cases htake
              obtain ⟨hclosed, htaken⟩ := ih (h.dropSubscription id) htail
              refine ⟨hclosed, ?_⟩
              by_cases hid : v.names .subscription id
              · have hlookup : Keyed.lookup? id (v.system s).subscriptionNames =
                    some (v.subscription sub) := by
                  simp only [system, lookup?_named hid, hname, Option.map_some]
                have herase : v.system { s with
                      subscriptionNames := Keyed.erase id s.subscriptionNames } =
                    { v.system s with
                      subscriptionNames := Keyed.erase id (v.system s).subscriptionNames } := by
                  simp only [system, named_erase hid]
                rw [herase] at htaken
                simp only [List.filter_cons_of_pos hid, System.takeSubscriptions, hlookup, htaken]
                simp [owned, hsub, hid]
              · have herase : v.system { s with
                      subscriptionNames := Keyed.erase id s.subscriptionNames } = v.system s := by
                  simp only [system, named_erase_unseen hid]
                rw [herase] at htaken
                rw [List.filter_cons_of_neg hid, htaken]
                simp [owned, hsub, hid]

end Closed

end View

end TabRelay.Session
