import TabRelay.Proofs.Session.Awaiting
import TabRelay.Proofs.Session.Nesting
import TabRelay.Proofs.Session.Ownership

/-!
# What is done between two steps

A script may go on with other steps than it was made of, so that nothing bounds
the steps that a call leads to.  But whatever they are, the machine itself does
not go round in circles: each step brings a bounded amount of work with it, and
every other advance lowers the work that is left.
-/

namespace TabRelay.Session

open TabRelay.Storage

variable {V : Type}

/-- At least the number of advances until the frame and what it pushes are gone, if no step
begins meanwhile. -/
def Frame.work : Frame V → Nat
  | .script _ _ | .nested _ _ | .forwarding | .drain _ _ => 1
  | .keep _ | .held _ => 2
  | .turn _ | .writing _ _ _ => 3
  | .delivery _ left => 1 + 6 * left.length
  | .release left => 1 + left.length
  | .drop left => 1 + 5 * left.length

def work (frames : List (Frame V)) : Nat := (frames.map (·.work)).sum

def Control.work : Control V → Nat
  | .done _ => 2
  | _ => 0

/-- A task may run a script, so that it counts twice. -/
def System.work (s : System V) : Nat := s.load + (s.queues.map List.length).sum

def System.breadth (s : System V) : Nat := s.subscribed.length + s.subscriptionNames.length

namespace Machine

def work (m : Machine V) : Nat := m.control.work + Session.work m.stack + m.system.work

end Machine

@[simp] theorem work_nil : work ([] : List (Frame V)) = 0 := rfl

@[simp] theorem work_cons (frame : Frame V) (rest : List (Frame V)) :
    work (frame :: rest) = frame.work + work rest := by
  simp [work]

@[simp] theorem work_append (first second : List (Frame V)) :
    work (first ++ second) = work first + work second := by
  simp [work]

/-! ## Queues -/

section

variable {s s' : System V}

theorem work_setQueue {queue : Nat} {task : Task V} {tasks : List (Task V)}
    (h : s.queue queue = task :: tasks) : (s.setQueue queue tasks).work + 2 = s.work := by
  have hload := load_setQueue h
  have hsum := sum_map_set (f := List.length) tasks (queue_eq_some h)
  simp only [System.work, System.setQueue, List.length_cons] at hload hsum ⊢
  omega

theorem work_defer (queue : Nat) (task : Task V) : (s.defer queue task).work ≤ s.work + 2 := by
  have hload := load_defer (s := s) queue task
  suffices hsum : ((s.defer queue task).queues.map List.length).sum ≤
      (s.queues.map List.length).sum + 1 by
    simp only [System.work]
    omega
  by_cases hqueue : queue < s.queues.length
  · have hfound : s.queues[queue]? = some (s.queue queue) := by simp [System.queue, hqueue]
    have hsum := sum_map_set (f := List.length) (s.queue queue ++ [task]) hfound
    simp only [System.defer, System.setQueue, List.length_append, List.length_singleton] at hsum ⊢
    omega
  · simp only [System.defer, System.setQueue, List.set_eq_of_length_le (Nat.le_of_not_lt hqueue)]
    exact Nat.le_succ _

theorem Tells.work_eq {change : Change V} {listener : Listener} {frames : List (Frame V)}
    (h : Tells s change listener s' frames) :
    s'.work = s.work ∧ s'.breadth = s.breadth ∧ Session.work frames ≤ 1 := by
  obtain ⟨logs, scripts, hsystem⟩ := h.eq
  refine ⟨hsystem ▸ rfl, hsystem ▸ rfl, ?_⟩
  cases h <;> simp [Frame.work]

theorem Receives.work_eq {relay : Relay} {event : Event} {frames : List (Frame V)} {a : Answer V}
    (h : Receives s relay event s' frames a) :
    s'.work = s.work ∧ s'.breadth = s.breadth ∧ Session.work frames ≤ 2 := by
  cases h with
  | forwards harea htells =>
      obtain ⟨hwork, hbreadth, hframes⟩ := htells.work_eq
      refine ⟨hwork, hbreadth, ?_⟩
      simp only [work_append, work_cons, work_nil, Frame.work]
      omega
  | ignores harea => exact ⟨rfl, rfl, Nat.zero_le 2⟩

theorem Reacts.work_eq {i : Nat} {event : Event} {frames : List (Frame V)} {a : Answer V}
    (h : Reacts s i event s' frames a) :
    s'.work = s.work ∧ s'.breadth = s.breadth ∧ Session.work frames ≤ 2 := by
  have hload := h.load_eq
  obtain ⟨handlers, logs, scripts, hsystem⟩ := h.eq
  refine ⟨by rw [System.work, System.work, hload, hsystem], hsystem ▸ rfl, ?_⟩
  cases h with
  | missing hhandler => exact Nat.zero_le 2
  | script hhandler hreaction => simp [Frame.work]
  | forward hhandler hreaction hreceives => exact hreceives.work_eq.2.2

theorem Drains.work_lt {queue started : Nat} {frames : List (Frame V)} {a : Answer V}
    (h : Drains s queue started s' frames a) :
    Session.work frames + s'.work < 1 + s.work ∧ s'.breadth = s.breadth := by
  cases h with
  | done hqueue => exact ⟨by simp, rfl⟩
  | @notice listener change tasks s' frames hqueue htells =>
      obtain ⟨hwork, hbreadth, hframes⟩ := htells.work_eq
      have hset := work_setQueue hqueue
      refine ⟨?_, hbreadth⟩
      simp only [work_append, work_cons, work_nil, Frame.work]
      omega
  | script hqueue =>
      have hset := work_setQueue hqueue
      refine ⟨?_, rfl⟩
      simp only [work_cons, work_nil, Frame.work]
      omega

end

/-! ## One advance -/

namespace Machine

theorem work_of_isFreeing {frames : List (Frame V)} (h : ∀ frame ∈ frames, frame.isFreeing)
    (e : Extent) (free : Nat) : Session.work frames = (frames.map (Frame.cost e free)).sum := by
  refine congrArg List.sum (List.map_congr_left fun frame hframe => ?_)
  have hfreeing := h frame hframe
  cases frame <;> first | rfl | contradiction

theorem Frees.work_lt {m : Machine V} {top : Frame V} {s : System V} {pushed : List (Frame V)}
    (h : Frees m top s pushed) (hfreeing : top.isFreeing)
    (hlives : ∀ i ∈ top.mentions, m.system.Lives i) :
    Session.work pushed + s.work < top.work + m.system.work ∧ s.breadth ≤ m.system.breadth := by
  have hcost := h.cost_lt hlives ⟨0, 0⟩ 0
  have hpushed := work_of_isFreeing h.isFreeing ⟨0, 0⟩ 0
  have htop : Session.work [top] = ([top].map (Frame.cost ⟨0, 0⟩ 0)).sum :=
    work_of_isFreeing (by simpa using hfreeing) ⟨0, 0⟩ 0
  have hsame : s.queues = m.system.queues ∧ s.subscriptionNames = m.system.subscriptionNames := by
    cases h <;> exact ⟨rfl, rfl⟩
  have hkept : Kept (fun _ => true) m.system s := h.kept
  have hsubscribed := hkept.subscribed.length_le
  simp only [work_cons, work_nil, List.map_cons, List.map_nil, List.sum_cons, List.sum_nil]
    at htop
  simp only [System.work, System.breadth, hsame]
  omega

theorem Continues.work_lt {m : Machine V} {top : Frame V} {b : Answer V} {s : System V}
    {pushed : List (Frame V)} {control : Control V} {warned : List (Entry V)}
    (h : Continues m top b s pushed control warned) :
    control.work + Session.work pushed + s.work < 2 + top.work + m.system.work ∧
      s.breadth = m.system.breadth := by
  cases h with
  | finishes b hspent =>
      refine ⟨?_, rfl⟩
      cases top <;> first
        | contradiction
        | (simp only [Control.work, Frame.work, work_nil]; omega)
  | calls b hrunning hreacts =>
      obtain ⟨hwork, hbreadth, hframes⟩ := hreacts.work_eq
      refine ⟨?_, hbreadth⟩
      simp only [Control.work, Frame.work, work_append, work_cons, work_nil, List.length_cons]
      omega
  | writeEnds relay w stored hb =>
      have hdefer := work_defer (s := m.system) relay.queue
        (.notice relay.listener (.committed w.key w.value))
      refine ⟨?_, rfl⟩
      simp only [Control.work, Frame.work, work_nil]
      omega
  | drains b hdrains =>
      obtain ⟨hwork, hbreadth⟩ := hdrains.work_lt
      refine ⟨?_, hbreadth⟩
      simp only [Control.work, Frame.work]
      omega
  | _ =>
      refine ⟨?_, rfl⟩
      simp only [Control.work, Frame.work, work_cons, work_nil, List.length_cons, List.length_nil]
      omega

theorem work_le_of_same {s s' : System V} {more : Nat} (hhandlers : s'.handlers = s.handlers)
    (hqueues : s'.queues = s.queues)
    (hsubscribed : s'.subscribed.length ≤ s.subscribed.length + more) :
    s'.work ≤ s.work + more := by
  simp only [System.work, System.load, hhandlers, hqueues]
  omega

theorem length_takeSubscriptions {s taken : System V} {own : List String}
    {subs : List Subscription} (h : s.takeSubscriptions own = (taken, subs)) :
    subs.length + taken.subscriptionNames.length = s.subscriptionNames.length := by
  have hvalues := (System.values_takeSubscriptions h).length_eq
  simpa [Keyed.values] using hvalues

theorem work_registered (s : System V) (h : Handle) (id : String) (reaction : Reaction V) :
    (registered s h id reaction).work ≤ s.work + reaction.load + 1 ∧
      (registered s h id reaction).breadth ≤ s.breadth + 2 := by
  have hsubscribed : (registered s h id reaction).subscribed.length ≤ s.subscribed.length + 1 := by
    rcases subscribed_subscribe (s := s) (h := h) (n := s.handlers.length) with hperm | hsame
    · exact Nat.le_of_eq hperm.length_eq
    · exact Nat.le_succ_of_le (Nat.le_of_eq (congrArg List.length hsame))
  have hnames := Keyed.length_insert_le id
    (⟨h.area, (s.area h.area).nextSubscriber⟩ : Subscription) s.subscriptionNames
  have hloads : ((registered s h id reaction).handlers.map (·.load)).sum =
      (s.handlers.map (·.load)).sum + reaction.load := by
    simp [registered, System.nameSubscription, System.setArea, System.addHandler, Handler.load]
  have hqueues : (registered s h id reaction).queues = s.queues := rfl
  have hnamed : (registered s h id reaction).subscriptionNames =
      Keyed.insert id ⟨h.area, (s.area h.area).nextSubscriber⟩ s.subscriptionNames := rfl
  simp only [System.work, System.load, System.breadth, hqueues, hloads, hnamed]
  omega

theorem work_dropsOldSubscription (s : System V) (id : String) :
    Session.work (dropsOldSubscription s id : List (Frame V)) ≤ 6 := by
  simp only [dropsOldSubscription, work_cons, work_nil, Frame.work]
  cases Keyed.lookup? id s.subscriptionNames <;> simp

theorem work_keeps {α : Type} (found : Option α) (area : α → Nat) :
    Session.work (found.toList.map fun a => (.keep (area a) : Frame V)) ≤ 2 := by
  cases found <;> simp [Frame.work]

section

variable [Storable V] {m : Machine V}

omit [Storable V] in
theorem work_awaits {step : Step V} {handle : Handle} {waiting : List (Frame V)}
    (h : m.Awaits step handle waiting) : Session.work waiting ≤ 5 := by
  cases h <;> simp [Frame.work]

omit [Storable V] in
theorem length_recipients_le (s : System V) (i : Nat) (writer : Option Nat) :
    ((s.area i).recipients writer).length ≤ s.breadth :=
  (recipients_sublist s i writer).length_le.trans (Nat.le_add_right _ _)

omit [Storable V] in
theorem work_deliveries {s : System V} {h : Handle} {operation : Operation}
    {outcome : Outcome Area} (houtcome : (s.area h.area).perform operation = outcome) :
    Session.work (deliveries outcome h.tab : List (Frame V)) ≤ 1 + 6 * s.breadth := by
  have hcount : (outcome.area.recipients (some h.tab)).length ≤ s.breadth := by
    rw [Area.recipients, ← houtcome, subscribers_perform]
    exact length_recipients_le s h.area (some h.tab)
  simp only [deliveries]
  cases outcome.raised with
  | none => exact Nat.zero_le _
  | some event =>
      simp only [Option.toList_some, List.map_cons, List.map_nil, work_cons, work_nil, Frame.work]
      omega

omit [Storable V] in
theorem work_begins_of_same {s s' : System V} {pushed : List (Frame V)}
    (hhandlers : s'.handlers = s.handlers) (hqueues : s'.queues = s.queues)
    (hsubscribed : s'.subscribed.length = s.subscribed.length)
    (hnames : s'.subscriptionNames.length ≤ s.subscriptionNames.length)
    (hpushed : Session.work pushed ≤ 9 + 6 * s.breadth) :
    Session.work pushed + s'.work ≤ s.work + 9 + 6 * s.breadth ∧ s'.breadth ≤ s.breadth + 2 := by
  have hwork : s'.work ≤ s.work + 0 :=
    work_le_of_same hhandlers hqueues (Nat.le_of_eq hsubscribed)
  simp only [System.breadth] at hpushed ⊢
  omega

theorem Begins.work_le {step : Step V} {s : System V} {pushed : List (Frame V)} {a : Answer V}
    (h : Begins m step s pushed a) :
    Session.work pushed + s.work ≤ m.system.work + 9 + 6 * m.system.breadth ∧
      s.breadth ≤ m.system.breadth + 2 := by
  cases h with
  | creates hnew =>
      refine work_begins_of_same rfl rfl ?_ (Nat.le_refl _) (Nat.le_trans (work_keeps _ _) (by omega))
      simp [System.subscribed, System.nameStorage, System.addArea, subscribers_newArea hnew]
  | opensTab hname =>
      refine work_begins_of_same rfl rfl ?_ (Nat.le_refl _) (Nat.le_trans (work_keeps _ _) (by omega))
      exact congrArg List.length (System.subscribed_setArea rfl)
  | @operates step call waiting outcome hcall hwaiting houtcome =>
      refine work_begins_of_same rfl rfl ?_ (Nat.le_refl _) ?_
      · refine congrArg List.length (System.subscribed_setArea ?_)
        rw [← houtcome, subscribers_perform]
      · have hwaits := work_awaits hwaiting
        have hdeliveries := work_deliveries houtcome
        rw [work_append]
        omega
  | barred e hasked hwaiting =>
      exact work_begins_of_same rfl rfl rfl (Nat.le_refl _) (Nat.le_trans (work_awaits hwaiting) (by omega))
  | @dispatches storage h event hname =>
      refine work_begins_of_same rfl rfl rfl (Nat.le_refl _) ?_
      have hcount := length_recipients_le m.system h.area none
      simp only [work_cons, work_nil, Frame.work]
      omega
  | setsFaults hname =>
      refine work_begins_of_same rfl rfl ?_ (Nat.le_refl _) (Nat.zero_le _)
      exact congrArg List.length (System.subscribed_setArea rfl)
  | @subscribes storage id steps times own s subs h hsubscribing htake =>
      have htaken := length_takeSubscriptions htake
      have hregistered := work_registered s h id (.script ⟨id, steps, times⟩ subs)
      have hold := work_dropsOldSubscription s id
      obtain ⟨names, rfl⟩ := System.takeSubscriptions_eq htake
      have hwork : ({ m.system with subscriptionNames := names } : System V).work =
          m.system.work := rfl
      have hbreadth : ({ m.system with subscriptionNames := names } : System V).breadth =
          m.system.subscribed.length + names.length := rfl
      have hbefore : m.system.breadth =
          m.system.subscribed.length + m.system.subscriptionNames.length := rfl
      rw [hwork, hbreadth] at hregistered
      simp only [Reaction.load] at hregistered htaken
      omega
  | @failsToSubscribe storage id steps times own s subs htake a =>
      have htaken := length_takeSubscriptions htake
      obtain ⟨names, rfl⟩ := System.takeSubscriptions_eq htake
      refine work_begins_of_same rfl rfl rfl (by omega) ?_
      simp only [work_cons, work_nil, Frame.work, System.breadth]
      omega
  | @listens name id relay hsubscribing hname =>
      have hregistered := work_registered m.system relay.handle id (.forward relay)
      have hold := work_dropsOldSubscription m.system id
      simp only [Reaction.load] at hregistered
      omega
  | dropsSubscription hname =>
      refine work_begins_of_same rfl rfl rfl (Keyed.erase_sublist _ _).length_le ?_
      simp only [work_cons, work_nil, Frame.work, List.length_singleton]
      omega
  | createsQueue id =>
      refine ⟨?_, Nat.le_add_right _ _⟩
      have hsum : ((m.system.queues ++ [[]]).map List.length).sum =
          (m.system.queues.map List.length).sum := by simp
      simp only [System.work, System.load, System.addQueue, System.subscribed, hsum, work_nil]
      omega
  | @defers queue id name steps =>
      have hdefer := work_defer (s := m.system) queue (.script name steps)
      exact ⟨by rw [work_nil]; omega, Nat.le_add_right _ _⟩
  | startsDraining hdrains hname =>
      obtain ⟨hwork, hbreadth⟩ := hdrains.work_lt
      omega
  | receives hname hreceives =>
      obtain ⟨hwork, hbreadth, hframes⟩ := hreceives.work_eq
      simp only [work_append, work_cons, work_nil, Frame.work]
      omega
  | namesRelay | renamesRelay =>
      exact work_begins_of_same rfl rfl rfl (Nat.le_refl _) (Nat.le_trans (work_keeps _ _) (by omega))
  | namesTab hname =>
      exact work_begins_of_same rfl rfl rfl (Nat.le_refl _) (Nat.le_trans (work_keeps _ _) (by omega))
  | _ =>
      refine work_begins_of_same rfl rfl rfl (Nat.le_refl _) ?_
      simp only [work_cons, work_nil, Frame.work]
      omega

/-- Every advance lowers the work that is left, but for those that begin a step. -/
theorem Orderly.work_advance (h : m.Orderly) (hgoes : ¬m.Stops)
    (hcustody : Custody m.system m.stack) {depth : Nat} (hunsettled : m.settled? depth = none) :
    m.advance.work + 1 ≤
        m.work + (if m.isBeginning then 12 + 6 * m.system.breadth else 0) ∧
      m.advance.system.breadth ≤ m.system.breadth + (if m.isBeginning then 2 else 0) := by
  obtain ⟨pushed, warned, heffect, hstack, -⟩ := advance_becomes h
  simp only [work, hstack, work_append]
  cases hcontrol : m.control with
  | conflict cell => exact absurd ⟨cell, hcontrol⟩ hgoes
  | run step =>
      obtain ⟨a, hdone, hbegins⟩ := heffect.of_run hcontrol
      obtain ⟨hwork, hbreadth⟩ := hbegins.work_le
      have hbeginning : m.isBeginning = true := by simp [isBeginning, hcontrol]
      rw [hdone, below_of_run hcontrol, hbeginning]
      simp only [Control.work, if_true]
      omega
  | done b =>
      have hbeginning : m.isBeginning = false := by simp [isBeginning, hcontrol]
      cases htop : m.stack with
      | nil => simp [settled?, hcontrol, htop] at hunsettled
      | cons top rest =>
          rw [below_of_done hcontrol htop, hbeginning]
          rcases heffect.of_done hcontrol htop with hcontinues | ⟨hfreeing, hfrees, hdone⟩
          · obtain ⟨hwork, hbreadth⟩ := hcontinues.work_lt
            simp only [Control.work, work_cons, Bool.false_eq_true, if_false] at hwork ⊢
            omega
          · obtain ⟨hwork, hbreadth⟩ := hfrees.work_lt hfreeing
              (hcustody.mentioned top (by simp [htop]))
            rw [hdone]
            simp only [Control.work, work_cons, Bool.false_eq_true, if_false]
            omega

/-! ## Bounded many advances -/

def begun (past : List (Machine V)) : Nat := past.countP (·.isBeginning)

omit [Storable V] in
@[simp] theorem begun_nil : begun ([] : List (Machine V)) = 0 := rfl

omit [Storable V] in
theorem begun_singleton (m : Machine V) : begun [m] = if m.isBeginning then 1 else 0 := by
  simp [begun, List.countP_cons]

omit [Storable V] in
@[simp] theorem begun_append (first second : List (Machine V)) :
    begun (first ++ second) = begun first + begun second :=
  List.countP_append

theorem work_decide (m : Machine V) (left : List (Step V)) :
    (m.play (.decide left)).work = m.work := by
  simp only [play]
  split
  · rename_i runner old rest hstack
    simp [work, hstack, Frame.work]
  · rfl

theorem work_playAll (before : List (Move V)) {depth limit : Nat} (later : List (Move V))
    (hunsettled : (idle.playAll before).returned? depth later = none)
    (hlimit : begun ((idle.playAll before).history later) ≤ limit) :
    ((idle.playAll before).history later).length + (idle.playAll (before ++ later)).work ≤
        (idle.playAll before).work + begun ((idle.playAll before).history later) *
          (12 + 6 * ((idle.playAll before).system.breadth + 2 * limit)) ∧
      (idle.playAll (before ++ later)).system.breadth ≤ (idle.playAll before).system.breadth +
        2 * begun ((idle.playAll before).history later) := by
  -- Only an advance adds to the history, and it takes one from the work, unless it begins a step.
  induction later using List.reverseRecOn with
  | nil => simp
  | append_singleton later move ih =>
      have hlast : idle.playAll (before ++ (later ++ [move])) =
          (idle.playAll (before ++ later)).play move := by
        rw [← List.append_assoc, playAll_append _ (before ++ later)]
        rfl
      have hearlier := not_returned_of_append hunsettled
      have hsettled := settled?_of_not_returned hearlier
      rw [history_append, ← playAll_append, begun_append] at hlimit ⊢
      rw [← playAll_append] at hsettled
      obtain ⟨hwork, hbreadth⟩ := ih hearlier (Nat.le_trans (Nat.le_add_right _ _) hlimit)
      rw [hlast]
      cases move with
      | begin step =>
          rw [play_begin_of_unsettled hsettled]
          simpa only [history, List.append_nil, begun_nil, Nat.add_zero] using ⟨hwork, hbreadth⟩
      | decide left =>
          rw [work_decide, system_decide]
          simpa only [history, List.append_nil, begun_nil, Nat.add_zero] using ⟨hwork, hbreadth⟩
      | advance =>
          have hadvance := (orderly_playAll (before ++ later)).work_advance
            (never_stops (before ++ later)) (custody_playAll (before ++ later)) hsettled
          simp only [history, playAll_append, begun_singleton, List.length_append,
            List.length_singleton] at hadvance hwork hbreadth hlimit ⊢
          generalize (idle.playAll before).playAll later = m at hadvance hwork hbreadth hlimit ⊢
          have hplay : m.play .advance = m.advance := rfl
          rw [hplay]
          cases hbeginning : m.isBeginning with
          | false =>
              simp only [hbeginning, Bool.false_eq_true, if_false, Nat.add_zero] at hadvance ⊢
              omega
          | true =>
              simp only [hbeginning, if_true] at hadvance hlimit ⊢
              rw [Nat.succ_mul]
              omega

end

end Machine

end TabRelay.Session
