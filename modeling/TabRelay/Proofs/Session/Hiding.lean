import TabRelay.Proofs.Session.Aside

/-!
# Steps that are not seen

A step that changes a key that is not seen, or makes, uses or drops what is not
seen, changes nothing of what is seen when it begins.
-/

namespace TabRelay.Session

open TabRelay.Decoding TabRelay.Storage

variable {V : Type}

namespace View

variable {v : View}

/-- The step only changes a key that is not seen, or is about a relay that is not seen and
tells a log that is not seen or nothing. -/
def hides (v : View) : Step V → Bool
  | .set _ key _ => !v.keys key
  | .remove _ key => !v.keys key
  | .newLog id => !v.names .log id
  | .newQueue id => !v.names .queue id
  | .relayToLog id _ _ log => !v.names .relay id && !v.names .log log
  | .relayToNone id _ _ => !v.names .relay id
  | .sameRelay id relay => !v.names .relay id && !v.names .relay relay
  | .dropRelay id => !v.names .relay id
  | .listen relay id => !v.names .relay relay && !v.names .subscription id
  | .dropSubscription id => !v.names .subscription id
  | _ => false

structure Hides (v : View) (s : System V) (step : Step V) : Prop where
  hidden : v.hides step
  registers : ∀ handle, step.subscribing? s = some handle →
    .subscribe ∉ (s.faultsOf handle).failing →
    ¬ v.handlers s.handlers.length ∧
      ¬ v.subscriptions handle.area (s.area handle.area).nextSubscriber
  log : ∀ id, step = .newLog id → ¬ v.logs s.logs.length
  queue : ∀ id, step = .newQueue id → ¬ v.queues s.queues.length

def hidesOperation (v : View) : Operation → Bool
  | .set key _ => !v.keys key
  | .remove key => !v.keys key
  | _ => false

theorem area_perform_unseen {operation : Operation} (hhides : v.hidesOperation operation)
    (i : Nat) (a : Area) : v.area i (a.perform operation).area = v.area i a := by
  cases operation with
  | set key text =>
      have hkey : ¬ v.keys key := by simpa [hidesOperation] using hhides
      have hentries : v.entries (Keyed.insert key text a.entries) = v.entries a.entries :=
        Keyed.insert_filter_unseen hkey text a.entries
      simp only [Area.perform]
      cases hset : a.set key text with
      | error e => rfl
      | ok result =>
          simp only [Area.set] at hset
          split at hset
          · split at hset <;> cases hset <;> simp [area, hentries]
          · contradiction
  | remove key =>
      have hkey : ¬ v.keys key := by simpa [hidesOperation] using hhides
      have hentries : v.entries (Keyed.erase key a.entries) = v.entries a.entries :=
        Keyed.erase_filter_unseen hkey a.entries
      simp only [Area.perform, Area.remove]
      split
      · rfl
      · simp [area, hentries]
  | _ => contradiction

theorem raised_unseen {operation : Operation} (hhides : v.hidesOperation operation) {a : Area}
    {event : Event} (hraised : (a.perform operation).raised = some event) :
    ¬ v.about event.key := by
  cases operation with
  | set key text =>
      have hkey : ¬ v.keys key := by simpa [hidesOperation] using hhides
      cases hset : a.set key text with
      | error e => simp [Area.perform, hset] at hraised
      | ok result =>
          obtain ⟨b, raised⟩ := result
          simp only [Area.perform, hset] at hraised
          rw [key_of_set (hraised ▸ hset)]
          exact hkey
  | remove key =>
      have hkey : ¬ v.keys key := by simpa [hidesOperation] using hhides
      rw [key_of_remove hraised]
      exact hkey
  | _ => contradiction

end View

namespace Machine

/-- What a step that is not seen pushes: it keeps an area that has a name, tells of a key that is
not seen, or drops what is not seen. -/
inductive Unseen (v : View) (s : System V) : Frame V → Prop where
  | keep {i : Nat} (hnames : s.Names i) : Unseen v s (.keep i)
  | delivery {event : Event} {left : List Nat} (habout : ¬ v.about event.key)
      (hleft : ∀ i ∈ left, i ∈ s.subscribed) : Unseen v s (.delivery event left)
  | drop {left : List Subscription} (hunseen : ∀ sub ∈ left, ¬ v.seesSubscription sub) :
      Unseen v s (.drop left)

def Hushed (v : View) (m m' : Machine V) : Prop :=
  ∃ pushed, Mute v pushed m m' ∧ ∀ frame ∈ pushed, Unseen v m.system frame

section

variable {v : View} {m : Machine V}

theorem Mute.hushed {m' : Machine V} (h : Mute v [] m m') : Hushed v m m' := ⟨[], h, by simp⟩

theorem Mute.hushed_one {m' : Machine V} {f : Frame V} (h : Mute v [f] m m')
    (hunseen : Unseen v m.system f) : Hushed v m m' := ⟨[f], h, by simpa using hunseen⟩

theorem hushed_answer (a : Answer V) : Hushed v m (m.answer a) :=
  Mute.hushed ⟨rfl, rfl, id, ⟨a, rfl⟩, rfl⟩

theorem hushed_withNamed {α : Type} {names : Keyed α} {id : String} {next : α → Machine V}
    (hnext : ∀ a, Keyed.lookup? id names = some a → Hushed v m (next a)) :
    Hushed v m (m.withNamed names id next) := by
  unfold withNamed
  cases hname : Keyed.lookup? id names with
  | none => exact hushed_answer _
  | some a => exact hnext a hname

theorem hushed_operates {operation : Operation} (hhides : v.hidesOperation operation)
    (storage : String) (e : AreaError) :
    Hushed v m (m.withStorage storage fun handle =>
      if operation.isBarred ((m.push (.keep handle.area)).system.faultsOf handle) then
        (m.push (.keep handle.area)).answer (.areaError e)
      else (m.push (.keep handle.area)).operated handle operation) := by
  refine hushed_withNamed fun handle hname => ?_
  have hkeep : Unseen v m.system (.keep handle.area : Frame V) :=
    .keep (System.names_of_storage hname)
  split
  · exact Mute.hushed_one ⟨rfl, rfl, id, ⟨_, rfl⟩, rfl⟩ hkeep
  · refine ⟨deliveries ((m.system.area handle.area).perform operation) handle.tab ++
      [.keep handle.area], ⟨?_, ?_, fun hclosed => ?_, ⟨_, rfl⟩, rfl⟩, ?_⟩
    · simp [operated, push]
    · have hview := View.area_perform_unseen hhides handle.area (m.system.area handle.area)
      rw [← View.system_area] at hview
      refine (View.system_setArea _ _ _).trans ?_
      have hsame : (m.push (.keep handle.area)).system = m.system := rfl
      rw [hsame, hview]
      exact System.setArea_area _ _
    · refine View.Closed.setArea hclosed ?_
      rw [subscribers_perform]
      exact hclosed.subscribers handle.area
    · refine List.forall_mem_append.mpr ⟨fun frame hframe => ?_, by simpa using hkeep⟩
      obtain ⟨event, hraised, rfl⟩ := List.mem_map.mp hframe
      refine .delivery (View.raised_unseen hhides (Option.mem_toList.mp hraised)) fun i hi => ?_
      simp only [Area.recipients, subscribers_perform] at hi
      exact mem_recipients hi

/-! ## What is made and dropped unseen -/

theorem hushed_nameLog {id : String} (hid : ¬ v.names .log id)
    (hnext : ¬ v.logs m.system.logs.length) : Hushed v m (m.nameLog id) := by
  refine Mute.hushed ⟨rfl, ?_, fun hclosed => ?_, ⟨_, rfl⟩, rfl⟩
  · have hadded := congrArg System.logs (View.system_addLog_unseen m.system hnext)
    simp only [View.system, System.addLog, nameLog, answer, update] at hadded ⊢
    rw [hadded, View.named_insert_unseen hid]
  · exact (hclosed.spares (m.system.logs ++ [[]]) m.system.scripts
      m.system.storageNames).nameLog ((Bool.eq_false_iff.mpr hnext).trans
        (Bool.eq_false_iff.mpr hid).symm)

theorem hushed_nameQueue {id : String} (hid : ¬ v.names .queue id)
    (hnext : ¬ v.queues m.system.queues.length) : Hushed v m (m.nameQueue id) := by
  refine Mute.hushed ⟨rfl, ?_, fun hclosed => ?_, ⟨_, rfl⟩, rfl⟩
  · have hadded := congrArg System.queues (View.system_addQueue_unseen m.system hnext)
    simp only [View.system, System.addQueue, nameQueue, answer, update] at hadded ⊢
    rw [hadded, View.named_insert_unseen hid]
  · exact hclosed.addQueue.nameQueue ((Bool.eq_false_iff.mpr hnext).trans
      (Bool.eq_false_iff.mpr hid).symm)

theorem hushed_nameRelay {id : String} (hid : ¬ v.names .relay id) {relay : Relay}
    (hhushes : v.hushes relay) : Hushed v m (m.nameRelay id relay) := by
  have hsystem : v.system (m.system.nameRelay id relay) = v.system m.system := by
    simp only [View.system, System.nameRelay, View.named_insert_unseen hid]
  have hclosed (hclosed : v.Closed m.system) : v.Closed (m.system.nameRelay id relay) := by
    refine hclosed.nameRelay ?_
    rw [Bool.eq_false_iff.mpr hid]
    exact hhushes
  simp only [nameRelay]
  cases hold : Keyed.lookup? id m.system.relayNames with
  | none => exact Mute.hushed ⟨rfl, hsystem, hclosed, ⟨_, rfl⟩, rfl⟩
  | some old =>
      exact Mute.hushed_one ⟨rfl, hsystem, hclosed, ⟨_, rfl⟩, rfl⟩
        (.keep (System.names_of_relay hold))

theorem hushed_makeRelay {id : String} (hid : ¬ v.names .relay id) (storage queue : String)
    {listener : Listener} (hhushes : ∀ handle queue, v.hushes ⟨handle, queue, listener⟩) :
    Hushed v m (m.makeRelay id storage queue listener) :=
  hushed_withNamed fun _ _ => hushed_withNamed fun _ _ => hushed_nameRelay hid (hhushes _ _)

theorem hushed_dropRelay {id : String} (hid : ¬ v.names .relay id) : Hushed v m (m.dropRelay id) := by
  refine hushed_withNamed fun relay hname => ?_
  refine Mute.hushed_one ⟨rfl, ?_, fun hclosed => hclosed.dropRelay id, ⟨_, rfl⟩, rfl⟩
    (.keep (System.names_of_relay hname))
  simp only [View.system, answer, push, update, View.named_erase_unseen hid]

theorem hushed_dropSubscription (hclosed : v.Closed m.system) {id : String}
    (hid : ¬ v.names .subscription id) : Hushed v m (m.dropSubscription id) := by
  refine hushed_withNamed fun sub hname => ?_
  refine Mute.hushed_one ⟨rfl, ?_, fun hclosed => hclosed.dropSubscription id, ⟨_, rfl⟩, rfl⟩
    (.drop ?_)
  · simp only [View.system, answer, push, update, View.named_erase_unseen hid]
  · intro other hother hseen
    rw [List.mem_singleton.mp hother] at hseen
    exact hid ((hclosed.subscriptions _ (Keyed.mem_of_lookup? hname)).symm.trans hseen)

theorem hushed_listen (hclosed : v.Closed m.system) (hfree : m.Unheld) {relay : Relay}
    {id : String} (hid : ¬ v.names .subscription id) (hhushes : v.hushes relay)
    (hnext : .subscribe ∉ (m.system.faultsOf relay.handle).failing →
      ¬ v.handlers m.system.handlers.length ∧
        ¬ v.subscriptions relay.handle.area (m.system.area relay.handle.area).nextSubscriber) :
    Hushed v m (m.listen relay id) := by
  simp only [listen]
  cases hcheck : (m.system.faultsOf relay.handle).check .subscribe with
  | error e => exact hushed_answer _
  | ok _ =>
      obtain ⟨hhandler, hnumber⟩ := hnext (not_failing_of_check hcheck)
      rw [register_eq (hfree _)]
      refine Mute.hushed_one ⟨rfl, ?_, fun hclosed => ?_, ⟨_, rfl⟩, rfl⟩ (.drop ?_)
      · have harea := View.area_subscribed_unseen (a := m.system.area relay.handle.area) hhandler
          hnumber relay.handle.tab
        have hnamed : v.system (registered m.system relay.handle id (.forward relay)) =
            v.system ((m.system.addHandler (.forward relay)).1.setArea relay.handle.area
              ((m.system.area relay.handle.area).subscribe relay.handle.tab
                m.system.handlers.length).1) := by
          simp only [View.system, registered, System.nameSubscription,
            View.named_insert_unseen hid]
        refine hnamed.trans ((View.system_setArea _ _ _).trans ?_)
        rw [View.system_addHandler_unseen m.system hhandler, harea, ← View.system_area]
        exact System.setArea_area _ _
      · refine View.Closed.nameSubscription (View.Closed.setArea (hclosed.addHandler ?_) ?_) ?_
        · rw [Bool.eq_false_iff.mpr hhandler]
          exact hhushes
        · intro t ht
          rcases List.mem_append.mp ht with ht | ht
          · exact hclosed.subscribers relay.handle.area t ht
          · rw [List.mem_singleton.mp ht]
            exact (Bool.eq_false_iff.mpr hnumber).trans (Bool.eq_false_iff.mpr hhandler).symm
        · exact (Bool.eq_false_iff.mpr hnumber).trans (Bool.eq_false_iff.mpr hid).symm
      · intro sub hsub hseen
        have hname := Option.mem_toList.mp hsub
        exact hid ((hclosed.subscriptions _ (Keyed.mem_of_lookup? hname)).symm.trans hseen)

variable [Storable V]

theorem hushed_begin (hclosed : v.Closed m.system) (hfree : m.Unheld) {step : Step V}
    (hhides : v.Hides m.system step) : Hushed v m (m.begin step) := by
  have hunnamed {space : Space} {id : String} (hid : (!v.names space id) = true) :
      ¬ v.names space id := by
    simpa using hid
  have hhidden := hhides.hidden
  have hpushed (i : Nat) : (m.push (.keep i)).Unheld := hfree.push (by simp [Frame.isDisposing])
  cases step with
  | set storage key text =>
      simp only [Machine.begin, setText_eq ((hpushed _).not_meets _)]
      have hoperation : v.hidesOperation (.set key text) := hhidden
      exact hushed_operates hoperation storage _
  | remove storage key =>
      simp only [Machine.begin, removeKey_eq ((hpushed _).not_meets _)]
      have hoperation : v.hidesOperation (.remove key) := hhidden
      exact hushed_operates hoperation storage _
  | newLog id => exact hushed_nameLog (hunnamed hhidden) (hhides.log id rfl)
  | newQueue id => exact hushed_nameQueue (hunnamed hhidden) (hhides.queue id rfl)
  | relayToLog id storage queue log =>
      simp only [View.hides, Bool.and_eq_true] at hhidden
      refine hushed_withNamed fun number hlog => ?_
      refine hushed_makeRelay (hunnamed hhidden.1) storage queue fun _ _ => ?_
      have hunseen := hclosed.logNames _ (Keyed.mem_of_lookup? hlog)
      simp only [View.hushes, hunseen]
      exact hhidden.2
  | relayToNone id storage queue =>
      exact hushed_makeRelay (hunnamed hhidden) storage queue fun _ _ => rfl
  | sameRelay id relay =>
      simp only [View.hides, Bool.and_eq_true] at hhidden
      exact hushed_withNamed fun found hname => hushed_nameRelay (hunnamed hhidden.1)
        (hclosed.hushes (hunnamed hhidden.2) hname)
  | dropRelay id => exact hushed_dropRelay (hunnamed hhidden)
  | dropSubscription id => exact hushed_dropSubscription hclosed (hunnamed hhidden)
  | listen relay id =>
      simp only [View.hides, Bool.and_eq_true] at hhidden
      refine hushed_withNamed fun found hname => ?_
      exact hushed_listen hclosed hfree (hunnamed hhidden.2)
        (hclosed.hushes (hunnamed hhidden.1) hname)
        (hhides.registers found.handle (by simp [Step.subscribing?, hname]))
  | _ => contradiction

end

namespace Apart

variable {v : View} {m p : Machine V} {above rest : List (Frame V)}

theorem spared_of_subscribed (h : Apart v above rest m p) {left : List Nat}
    (hleft : ∀ i ∈ left, i ∈ m.system.subscribed) : Spared v p left := by
  intro i hi hseen
  rw [h.shown.isReferred_eq hseen]
  by_contra hunreferred
  exact (not_referred (Bool.eq_false_iff.mpr hunreferred)).1 (hleft i hi)

variable [Storable V]

theorem begins (h : Apart v above rest m p) (hsound : m.Sound) (hunaided : v.Unaided m)
    {step : Step V} (hrun : m.control = .run step) (hhides : v.Hides m.system step) :
    ∃ pushed, (∀ frame ∈ pushed, Aside v p frame) ∧ Apart v (pushed ++ above) rest m.advance p ∧
      (∃ b, m.advance.control = .done b) ∧ v.said m.advance.trace = v.said m.trace := by
  have hfree := unheld_of_no_disposing (hsound.orderly.running step hrun)
  have hclosed : v.Closed m.system := h.shown.closed
  obtain ⟨pushed, hmute, hunseen⟩ := hushed_begin hclosed hfree hhides
  have hadvance : m.advance = m.begin step := by rw [Machine.advance, hrun]
  have hpushed : ∀ frame ∈ pushed, Aside v p frame := by
    intro frame hframe
    cases hunseen frame hframe with
    | keep hnames => exact .keep (h.isAlive_of_kept (hunaided _ (isAlive_iff.mpr (.inl hnames))))
    | delivery habout hleft => exact .delivery habout (h.spared_of_subscribed hleft)
    | drop hunseen => exact .drop hunseen
  rw [hadvance]
  exact ⟨pushed, hpushed, h.mute hmute hpushed, hmute.done, hmute.said⟩

end Apart

end Machine

end TabRelay.Session
