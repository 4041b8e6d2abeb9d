import TabRelay.Proofs.Session.Custody
import TabRelay.Proofs.Session.Grounded

/-!
# Who owns a subscription

A subscription is owned by the name that it was given, by the handler that took
it or by a frame that is about to drop it.  What a step makes and what was owned
before it is what the step drops and what is owned after it.  So each subscription
that was ever made is owned or was dropped, and this once.
-/

namespace TabRelay.Session

open TabRelay.Decoding TabRelay.Storage

variable {V : Type}

/-! ## Owners -/

def Reaction.owns : Reaction V → List Subscription
  | .script _ own => own
  | .forward _ => []

def Handler.owns (handler : Handler V) : List Subscription :=
  if handler.freed then [] else handler.reaction.owns

def Frame.drops : Frame V → List Subscription
  | .drop left => left
  | _ => []

def owned (s : System V) (stack : List (Frame V)) : List Subscription :=
  Keyed.values s.subscriptionNames ++ s.handlers.flatMap Handler.owns ++ stack.flatMap Frame.drops

/-- A handler that the machine registers. -/
structure Registration where
  area : Nat
  subscriber : Subscriber
  deriving DecidableEq, Repr

def Registration.subscription (r : Registration) : Subscription := ⟨r.area, r.subscriber.id⟩

namespace Machine

def registering? (m : Machine V) : Option Registration :=
  m.subscribing?.map fun h =>
    ⟨h.area, (m.system.area h.area).nextSubscriber, h.tab, m.system.handlers.length⟩

def dropping? (m : Machine V) : Option Subscription :=
  match m.control, m.stack with
  | .done _, .drop (sub :: _) :: _ => some sub
  | _, _ => none

theorem dropping?_of_run {m : Machine V} {step : Step V} (hrun : m.control = .run step) :
    m.dropping? = none := by
  simp [dropping?, hrun]

theorem dropping?_of_drop {m : Machine V} {b : Answer V} {sub : Subscription}
    {left : List Subscription} {rest : List (Frame V)} (hdone : m.control = .done b)
    (hstack : m.stack = .drop (sub :: left) :: rest) : m.dropping? = some sub := by
  simp [dropping?, hdone, hstack]

theorem dropping?_of_drops {m : Machine V} {top : Frame V} {rest : List (Frame V)}
    (hstack : m.stack = top :: rest) (hdrops : top.drops = []) : m.dropping? = none := by
  unfold dropping?
  split
  · rename_i sub left tail hdone hdrop
    rw [hstack] at hdrop
    cases hdrop
    contradiction
  · rfl

theorem dropping?_of_rests {m : Machine V} (hbelow : m.below = m.stack) : m.dropping? = none := by
  unfold dropping?
  split
  · rename_i hdone hstack
    simp [below, hdone, hstack] at hbelow
  · rfl

end Machine

theorem Frame.drops_of_not_isDisposing {frame : Frame V} (h : ¬ frame.isDisposing) :
    frame.drops = [] := by
  cases frame <;> first | rfl | simp [isDisposing] at h

theorem Frame.drops_of_not_hasMore {frame : Frame V} (h : ¬ frame.hasMore) : frame.drops = [] := by
  cases frame with
  | drop left => cases left <;> simp_all [drops, hasMore]
  | _ => rfl

theorem Frame.drops_of_keeps {frame : Frame V} {i : Nat} (h : frame.keeps i) :
    frame.drops = [] := by
  cases frame <;> first | rfl | simp [keeps] at h

theorem Frame.drops_of_not_isFreeing {frame : Frame V} (h : ¬ frame.isFreeing) :
    frame.drops = [] := by
  cases frame <;> first | rfl | simp [isFreeing] at h

theorem owned_of_same {s s' : System V} {pushed stack : List (Frame V)}
    (hnames : s'.subscriptionNames = s.subscriptionNames)
    (hhandlers : s'.handlers.flatMap Handler.owns = s.handlers.flatMap Handler.owns)
    (hpushed : ∀ frame ∈ pushed, frame.drops = []) :
    owned s' (pushed ++ stack) = owned s stack := by
  have hnone : pushed.flatMap Frame.drops = [] := List.flatMap_eq_nil_iff.mpr hpushed
  rw [owned, owned, hnames, hhandlers, List.flatMap_append, hnone, List.nil_append]

theorem owned_cons {s : System V} {top : Frame V} {rest : List (Frame V)} (h : top.drops = []) :
    owned s (top :: rest) = owned s rest := by
  rw [owned, owned, List.flatMap_cons, h, List.nil_append]

namespace System

theorem values_takeSubscriptions {s taken : System V} {own : List String}
    {subs : List Subscription} (h : s.takeSubscriptions own = (taken, subs)) :
    (subs ++ Keyed.values taken.subscriptionNames).Perm (Keyed.values s.subscriptionNames) := by
  induction own generalizing s taken subs with
  | nil =>
      cases h
      exact List.Perm.refl _
  | cons id own ih =>
      simp only [takeSubscriptions] at h
      split at h
      · exact ih h
      · rename_i sub hname
        cases htail : System.takeSubscriptions
            { s with subscriptionNames := Keyed.erase id s.subscriptionNames } own with
        | mk rest tail =>
            rw [htail] at h
            cases h
            have herase := Keyed.values_erase id s.subscriptionNames
            rw [hname] at herase
            exact ((ih htail).cons sub).trans herase

theorem sorted_takeSubscriptions {s taken : System V} {own : List String}
    {subs : List Subscription} (hsorted : Keyed.Sorted s.subscriptionNames)
    (h : s.takeSubscriptions own = (taken, subs)) : Keyed.Sorted taken.subscriptionNames := by
  induction own generalizing s taken subs with
  | nil =>
      cases h
      exact hsorted
  | cons id own ih =>
      simp only [takeSubscriptions] at h
      split at h
      · exact ih hsorted h
      · cases htail : System.takeSubscriptions
            { s with subscriptionNames := Keyed.erase id s.subscriptionNames } own with
        | mk rest tail =>
            rw [htail] at h
            cases h
            exact ih (Keyed.sorted_erase hsorted id) htail

end System

theorem nextSubscriber_perform (a : Area) (operation : Operation) :
    (a.perform operation).area.nextSubscriber = a.nextSubscriber := by
  obtain ⟨entries, harea⟩ := area_perform a operation
  rw [harea]

namespace Machine

/-! ## Steps that subscribe -/

theorem owned_registered {s : System V} (hsorted : Keyed.Sorted s.subscriptionNames) (h : Handle)
    (id : String) (reaction : Reaction V) (stack : List (Frame V)) :
    (owned (registered s h id reaction) (dropsOldSubscription s id ++ stack)).Perm
      (⟨h.area, (s.area h.area).nextSubscriber⟩ :: reaction.owns ++ owned s stack) := by
  have hvalues := Keyed.values_insert hsorted id
    (⟨h.area, (s.area h.area).nextSubscriber⟩ : Subscription)
  rw [List.perm_iff_count] at hvalues ⊢
  intro sub
  have hcount := hvalues sub
  simp only [owned, registered, dropsOldSubscription, System.nameSubscription, System.addHandler,
    System.setArea, Frame.drops, Handler.owns, List.flatMap_append, List.flatMap_cons,
    List.flatMap_nil, List.append_nil, List.count_append, List.count_cons, List.count_nil,
    List.cons_append, Bool.false_eq_true, if_false] at hcount ⊢
  omega

variable [Storable V]

theorem Orderly.subscribes {m : Machine V} (horderly : m.Orderly) {h : Handle}
    (hsubscribing : m.subscribing? = some h) :
    ∃ own s id reaction, m.system.takeSubscriptions own = (s, reaction.owns) ∧
      m.advance.system = registered s h id reaction ∧
      m.advance.stack = dropsOldSubscription s id ++ m.stack := by
  obtain ⟨step, hrun, hstep, hallowed⟩ := subscribing?_eq_some hsubscribing
  have hcheck : (m.system.faultsOf h).check .subscribe = .ok () := if_neg hallowed
  have hfree : m.Unheld := unheld_of_no_disposing (horderly.running step hrun)
  cases step with
  | subscribe storage id steps times own =>
      cases htake : m.system.takeSubscriptions own with
      | mk s subs =>
          obtain ⟨names, rfl⟩ := System.takeSubscriptions_eq htake
          have htaken : (m.update { m.system with subscriptionNames := names }).Unheld :=
            hfree.of_stack rfl
          have hadvance : m.advance =
              (m.update { m.system with subscriptionNames := names }).register h id
                (.script ⟨id, steps, times⟩ subs) := by
            have hcheck' : (System.faultsOf { m.system with subscriptionNames := names } h).check
                .subscribe = .ok () := hcheck
            simp only [Step.subscribing?] at hstep
            simp only [Machine.advance, hrun, begin, Machine.subscribe, htake, hstep, hcheck']
          rw [hadvance, register_eq (htaken _)]
          exact ⟨own, _, id, _, htake, rfl, rfl⟩
  | listen name id =>
      obtain ⟨relay, hname, rfl⟩ := Option.map_eq_some_iff.mp hstep
      have hadvance : m.advance = m.register relay.handle id (.forward relay) := by
        simp only [Machine.advance, hrun, begin, withRelay, withNamed, hname, listen, hcheck]
      rw [hadvance, register_eq (hfree _)]
      exact ⟨[], m.system, id, _, rfl, rfl, rfl⟩
  | _ => contradiction

/-! ## Steps that do not -/

omit [Storable V] in
theorem Awaits.drops {m : Machine V} {step : Step V} {h : Handle} {waiting : List (Frame V)}
    (hwaiting : m.Awaits step h waiting) : ∀ frame ∈ waiting, frame.drops = [] := by
  intro frame hframe
  exact Frame.drops_of_not_isDisposing (hwaiting.not_isDisposing frame hframe)

omit [Storable V] in
theorem drops_of_isWork {frames : List (Frame V)} (h : ∀ frame ∈ frames, frame.isWork) :
    ∀ frame ∈ frames, frame.drops = [] := by
  intro frame hframe
  exact Frame.drops_of_not_isDisposing (Frame.not_isDisposing_of_isWork (h frame hframe))

theorem Begins.owned {m : Machine V} {step : Step V} {s : System V} {pushed : List (Frame V)}
    {a : Answer V} (h : Begins m step s pushed a) (hnone : m.subscribing? = none)
    (stack : List (Frame V)) :
    (owned m.system stack).Perm (owned s (pushed ++ stack)) := by
  have hsame (hnames : s.subscriptionNames = m.system.subscriptionNames)
      (hhandlers : s.handlers = m.system.handlers)
      (hpushed : ∀ frame ∈ pushed, frame.drops = []) :
      (Session.owned m.system stack).Perm (Session.owned s (pushed ++ stack)) := by
    rw [owned_of_same hnames (by rw [hhandlers]) hpushed]
  cases h with
  | operates hcall hwaiting houtcome =>
      refine hsame rfl rfl ?_
      intro frame hframe
      rcases List.mem_append.mp hframe with hframe | hframe
      · obtain ⟨event, rfl⟩ := mem_deliveries hframe
        rfl
      · exact hwaiting.drops frame hframe
  | barred e hasked hwaiting => exact hsame rfl rfl hwaiting.drops
  | subscribes hsubscribing htake =>
      rw [hnone] at hsubscribing
      contradiction
  | listens hsubscribing hname =>
      rw [hnone] at hsubscribing
      contradiction
  | @failsToSubscribe storage id steps times own s subs htake a =>
      have hvalues := System.values_takeSubscriptions htake
      obtain ⟨names, rfl⟩ := System.takeSubscriptions_eq htake
      rw [List.perm_iff_count] at hvalues ⊢
      intro sub
      have hcount := hvalues sub
      simp only [Session.owned, Frame.drops, List.count_append, List.flatMap_append,
        List.flatMap_cons, List.flatMap_nil, List.append_nil] at hcount ⊢
      omega
  | @dropsSubscription id sub hname =>
      have hvalues := Keyed.values_erase id m.system.subscriptionNames
      rw [hname] at hvalues
      rw [List.perm_iff_count] at hvalues ⊢
      intro other
      have hcount := hvalues other
      simp only [Session.owned, Frame.drops, List.count_append, List.flatMap_append,
        List.flatMap_cons, List.flatMap_nil, List.append_nil, Option.toList_some] at hcount ⊢
      omega
  | startsDraining hdrains =>
      have hwork := drops_of_isWork hdrains.isWork
      obtain ⟨queues, logs, scripts, rfl⟩ := hdrains.eq
      exact hsame rfl rfl hwork
  | receives hname hreceives =>
      have hwork := drops_of_isWork hreceives.isWork
      obtain ⟨logs, scripts, rfl⟩ := hreceives.eq
      refine hsame rfl rfl ?_
      intro frame hframe
      rcases List.mem_append.mp hframe with hframe | hframe
      · exact hwork frame hframe
      · rw [List.mem_singleton.mp hframe]
        rfl
  | _ => exact hsame rfl rfl (by simp [Frame.drops, dropsOldStorage, dropsOldRelay])

omit [Storable V] in
theorem Continues.owned {m : Machine V} {top : Frame V} {b : Answer V} {s : System V}
    {pushed : List (Frame V)} {control : Control V} {warned : List (Entry V)}
    (h : Continues m top b s pushed control warned) (rest : List (Frame V)) :
    owned s (pushed ++ rest) = owned m.system (top :: rest) := by
  have htop : top.drops = [] := Frame.drops_of_not_isFreeing h.inOrder.1
  rw [owned_cons htop]
  cases h with
  | @calls b a event i left s frames hrunning hreacts =>
      have hwork := drops_of_isWork hreacts.isWork
      have hpushed : ∀ frame ∈ frames ++ [.turn i, .delivery event left], frame.drops = [] := by
        intro frame hframe
        rcases List.mem_append.mp hframe with hframe | hframe
        · exact hwork frame hframe
        · simp only [List.mem_cons, List.not_mem_nil, or_false] at hframe
          rcases hframe with rfl | rfl <;> rfl
      cases hreacts with
      | missing hhandler => exact owned_of_same rfl rfl hpushed
      | script hhandler hreaction =>
          refine owned_of_same rfl (flatMap_set_of_eq ?_) hpushed
          intro found hfound
          rw [hhandler] at hfound
          cases hfound
          simp [Handler.owns, Reaction.owns, hreaction]
      | forward hhandler hreaction hreceives =>
          obtain ⟨logs, scripts, rfl⟩ := hreceives.eq
          exact owned_of_same rfl rfl hpushed
  | drains b hdrains =>
      have hwork := drops_of_isWork hdrains.isWork
      obtain ⟨queues, logs, scripts, rfl⟩ := hdrains.eq
      exact owned_of_same rfl rfl hwork
  | _ => exact owned_of_same rfl rfl (by simp [Frame.drops])

omit [Storable V] in
theorem Frees.owned {m : Machine V} {top : Frame V} {b : Answer V} {s : System V}
    {pushed rest : List (Frame V)} (h : Frees m top s pushed) (hdone : m.control = .done b)
    (hstack : m.stack = top :: rest) (hfreeing : top.isFreeing)
    (hlives : ∀ i ∈ top.mentions, m.system.Lives i) :
    (owned m.system (top :: rest)).Perm (m.dropping?.toList ++ owned s (pushed ++ rest)) := by
  have hkept (hdrops : top.drops = []) (hnames : s.subscriptionNames = m.system.subscriptionNames)
      (hhandlers : s.handlers = m.system.handlers)
      (hpushed : ∀ frame ∈ pushed, frame.drops = []) :
      (Session.owned m.system (top :: rest)).Perm
        (m.dropping?.toList ++ Session.owned s (pushed ++ rest)) := by
    rw [dropping?_of_drops hstack hdrops, owned_cons hdrops,
      owned_of_same hnames (by rw [hhandlers]) hpushed]
    exact List.Perm.refl _
  cases h with
  | pops hmore halive => exact hkept (Frame.drops_of_not_hasMore hmore) rfl rfl (by simp)
  | reaps hkeeps hdead =>
      exact hkept (Frame.drops_of_keeps hkeeps) rfl rfl (by simp [Frame.drops])
  | letsGo i left => exact hkept rfl rfl rfl (by simp [Frame.drops])
  | @frees i left handler hreferred hhandler =>
      obtain ⟨found, hfound, hfreed⟩ := hlives i List.mem_cons_self
      rw [hhandler] at hfound
      cases hfound
      have hperm := flatMap_set_perm (f := Handler.owns) (b := { handler with freed := true })
        hhandler
      have howns : handler.reaction.owned.drops = handler.owns := by
        cases hreaction : handler.reaction <;>
          simp [Reaction.owned, Frame.drops, Handler.owns, hfreed, hreaction, Reaction.owns]
      rw [dropping?_of_drops hstack rfl]
      rw [List.perm_iff_count] at hperm ⊢
      intro sub
      have hcount := hperm sub
      have hnone : Handler.owns { handler with freed := true } = [] := rfl
      have hrelease (left : List Nat) : (Frame.release left : Frame V).drops = [] := rfl
      simp only [Session.owned, System.setHandler, List.count_append, List.flatMap_append,
        List.flatMap_cons, List.flatMap_nil, List.append_nil, Option.toList_none, List.nil_append,
        howns, hnone, hrelease] at hcount ⊢
      omega
  | leaves hleaves =>
      rw [dropping?_of_drop hdone hstack]
      exact List.perm_middle
  | detaches halive hheld hfound =>
      rw [dropping?_of_drop hdone hstack]
      exact List.perm_middle

/-! ## Each subscription is dropped at most once -/

theorem Orderly.conserves {m : Machine V} (horderly : m.Orderly)
    (hcustody : Custody m.system m.stack) (hsorted : Keyed.Sorted m.system.subscriptionNames) :
    ((m.registering?.map (·.subscription)).toList ++ owned m.system m.stack).Perm
      (m.dropping?.toList ++ owned m.advance.system m.advance.stack) := by
  cases hsubscribing : m.subscribing? with
  | some h =>
      obtain ⟨own, s, id, reaction, htake, hsystem, hstack⟩ := horderly.subscribes hsubscribing
      have hvalues := System.values_takeSubscriptions htake
      have hnames := System.sorted_takeSubscriptions hsorted htake
      obtain ⟨names, rfl⟩ := System.takeSubscriptions_eq htake
      have hregistered := owned_registered hnames h id reaction m.stack
      have hdropping : m.dropping? = none := by
        obtain ⟨step, hrun, -⟩ := subscribing?_eq_some hsubscribing
        exact dropping?_of_run hrun
      rw [hsystem, hstack, hdropping, registering?, hsubscribing]
      rw [List.perm_iff_count] at hvalues hregistered ⊢
      intro sub
      have hcount := hvalues sub
      have hcounts := hregistered sub
      simp only [owned, System.area, Registration.subscription, Option.map_some,
        Option.toList_some, Option.toList_none, List.nil_append, List.cons_append,
        List.count_append, List.count_cons] at hcount hcounts ⊢
      omega
  | none =>
      obtain ⟨pushed, warned, heffect, hpushed, -⟩ := advance_becomes horderly
      rw [registering?, hsubscribing, hpushed]
      generalize m.advance.system = s at heffect ⊢
      generalize m.advance.control = control at heffect
      cases heffect with
      | rests hrest hbelow =>
          rw [dropping?_of_rests hbelow, hbelow]
          exact List.Perm.refl _
      | begins hrun hbegins =>
          rw [dropping?_of_run hrun, below_of_run hrun]
          exact hbegins.owned hsubscribing m.stack
      | @continues b top rest s pushed control warned hdone hstack hcontinues =>
          have hdropping : m.dropping? = none :=
            dropping?_of_drops hstack (Frame.drops_of_not_isFreeing hcontinues.inOrder.1)
          rw [hdropping, below_of_done hdone hstack, hstack, hcontinues.owned rest]
          exact List.Perm.refl _
      | @frees b top rest s pushed hdone hstack hfreeing hfrees =>
          rw [below_of_done hdone hstack]
          have hlives : ∀ i ∈ top.mentions, m.system.Lives i :=
            hcustody.mentioned top (hstack ▸ List.mem_cons_self)
          have howned := hfrees.owned hdone hstack hfreeing hlives
          rwa [← hstack] at howned

/-! ## Numbers are not used twice -/

omit [Storable V] in
theorem nextSubscriber_setArea {s : System V} {j : Nat} {changed : Area}
    (hle : (s.area j).nextSubscriber ≤ changed.nextSubscriber) (i : Nat) :
    (s.area i).nextSubscriber ≤ ((s.setArea j changed).area i).nextSubscriber := by
  by_cases hij : j = i
  · subst hij
    by_cases hj : j < s.areas.length
    · rwa [System.area_setArea_self _ hj]
    · rw [System.area_of_length_le (Nat.le_of_not_lt hj)]
      exact Nat.zero_le _
  · rw [System.area_setArea_ne _ hij]

theorem Alters.nextSubscriber_le {m : Machine V} {s : System V} (h : m.Alters s.areas) (i : Nat) :
    (m.system.area i).nextSubscriber ≤ (s.area i).nextSubscriber := by
  have hset {j : Nat} {changed : Area} (hareas : s.areas = (m.system.setArea j changed).areas)
      (hle : (m.system.area j).nextSubscriber ≤ changed.nextSubscriber) :
      (m.system.area i).nextSubscriber ≤ (s.area i).nextSubscriber := by
    rw [System.area_congr hareas]
    exact nextSubscriber_setArea hle i
  generalize hareas : s.areas = areas at h
  cases h with
  | keeps => rw [System.area_congr hareas]
  | creates hrun hnew =>
      by_cases hi : i < m.system.areas.length
      · simp [System.area, hareas, List.getElem?_append, hi]
      · rw [System.area_of_length_le (Nat.le_of_not_lt hi)]
        exact Nat.zero_le _
  | operates hcall =>
      refine hset hareas (Nat.le_of_eq ?_)
      exact (nextSubscriber_perform _ _).symm
  | retabs j tabs => exact hset hareas (Nat.le_refl _)
  | subscribes hsubscribing => exact hset hareas (Nat.le_succ _)
  | reaps hdone hdead => exact hset hareas (Nat.le_refl _)
  | detaches hdone hstack hheld halive => exact hset hareas (Nat.le_refl _)

theorem Effect.handlers_length_le {m : Machine V} {s : System V} {pushed : List (Frame V)}
    {control : Control V} {warned : List (Entry V)} (h : Effect m s pushed control warned) :
    m.system.handlers.length ≤ s.handlers.length := by
  cases h with
  | rests hrest hbelow => exact Nat.le_refl _
  | begins hrun hbegins =>
      rcases hbegins.handlers with ⟨hhandlers, -⟩ | ⟨h, reaction, -, hhandlers, -⟩
      · rw [hhandlers]
      · simp [hhandlers]
  | continues hdone hstack hcontinues =>
      cases hcontinues with
      | calls b hrunning hreacts =>
          cases hreacts with
          | missing hhandler => exact Nat.le_refl _
          | script hhandler hreaction => simp [System.setHandler]
          | forward hhandler hreaction hreceives =>
              obtain ⟨logs, scripts, rfl⟩ := hreceives.eq
              exact Nat.le_refl _
      | drains b hdrains =>
          obtain ⟨queues, logs, scripts, rfl⟩ := hdrains.eq
          exact Nat.le_refl _
      | _ => exact Nat.le_refl _
  | frees hdone hstack hfreeing hfrees =>
      cases hfrees with
      | frees hreferred hhandler => simp [System.setHandler]
      | _ => exact Nat.le_refl _

theorem Effect.sortedNames {m : Machine V} {s : System V} {pushed : List (Frame V)}
    {control : Control V} {warned : List (Entry V)} (h : Effect m s pushed control warned)
    (hsorted : Keyed.Sorted m.system.subscriptionNames) : Keyed.Sorted s.subscriptionNames := by
  cases h with
  | rests hrest hbelow => exact hsorted
  | begins hrun hbegins =>
      cases hbegins with
      | subscribes hsubscribing htake =>
          exact Keyed.sorted_insert (System.sorted_takeSubscriptions hsorted htake) _ _
      | listens hsubscribing hname => exact Keyed.sorted_insert hsorted _ _
      | failsToSubscribe htake => exact System.sorted_takeSubscriptions hsorted htake
      | dropsSubscription hname => exact Keyed.sorted_erase hsorted _
      | startsDraining hdrains =>
          obtain ⟨queues, logs, scripts, rfl⟩ := hdrains.eq
          exact hsorted
      | receives hname hreceives =>
          obtain ⟨logs, scripts, rfl⟩ := hreceives.eq
          exact hsorted
      | _ => exact hsorted
  | continues hdone hstack hcontinues =>
      cases hcontinues with
      | calls b hrunning hreacts =>
          obtain ⟨handlers, logs, scripts, rfl⟩ := hreacts.eq
          exact hsorted
      | drains b hdrains =>
          obtain ⟨queues, logs, scripts, rfl⟩ := hdrains.eq
          exact hsorted
      | _ => exact hsorted
  | frees hdone hstack hfreeing hfrees =>
      cases hfrees <;> exact hsorted

theorem Orderly.numbers {m : Machine V} (horderly : m.Orderly) (hgrounded : Grounded m.system)
    {r : Registration} (hregistering : m.registering? = some r) :
    r.subscriber.id = (m.system.area r.area).nextSubscriber ∧
      r.subscriber.id < (m.advance.system.area r.area).nextSubscriber ∧
      r.subscriber.handler = m.system.handlers.length ∧
      r.subscriber.handler < m.advance.system.handlers.length := by
  obtain ⟨h, hsubscribing, rfl⟩ := Option.map_eq_some_iff.mp hregistering
  have hlength := hgrounded.subscribed hsubscribing
  obtain ⟨own, s, id, reaction, htake, hsystem, -⟩ := horderly.subscribes hsubscribing
  obtain ⟨names, rfl⟩ := System.takeSubscriptions_eq htake
  have harea : m.advance.system.area h.area =
      ((m.system.area h.area).subscribe h.tab m.system.handlers.length).1 := by
    rw [hsystem]
    exact System.area_setArea_self (s := m.system) _ hlength
  refine ⟨rfl, ?_, rfl, ?_⟩
  · rw [harea]
    exact Nat.lt_succ_self _
  · rw [hsystem]
    simp [registered, System.nameSubscription, System.setArea, System.addHandler]

/-! ## The course of a session -/

omit [Storable V] in
def registrations (past : List (Machine V)) : List Registration := past.filterMap (·.registering?)

omit [Storable V] in
def dropped (past : List (Machine V)) : List Subscription := past.filterMap (·.dropping?)

omit [Storable V] in
/-- Each subscription that was made is owned or was dropped, and no two registrations have
a number in common. -/
structure Tenure (past : List (Machine V)) (m : Machine V) : Prop where
  custody : Custody m.system m.stack
  grounded : Grounded m.system
  sorted : Keyed.Sorted m.system.subscriptionNames
  conserved : ((registrations past).map (·.subscription)).Perm
    (dropped past ++ owned m.system m.stack)
  numbered : ∀ r ∈ registrations past, r.subscriber.id < (m.system.area r.area).nextSubscriber ∧
    r.subscriber.handler < m.system.handlers.length
  apart : (registrations past).Pairwise fun r r' =>
    r.subscription ≠ r'.subscription ∧ r.subscriber.handler ≠ r'.subscriber.handler

omit [Storable V] in
theorem registrations_append (past : List (Machine V)) (m : Machine V) :
    registrations (past ++ [m]) = registrations past ++ m.registering?.toList := by
  rw [registrations, List.filterMap_append, ← registrations]
  cases hregistering : m.registering? <;> simp [hregistering]

omit [Storable V] in
theorem dropped_append (past : List (Machine V)) (m : Machine V) :
    dropped (past ++ [m]) = dropped past ++ m.dropping?.toList := by
  rw [dropped, List.filterMap_append, ← dropped]
  cases hdropping : m.dropping? <;> simp [hdropping]

theorem Tenure.conserves {past : List (Machine V)} {m : Machine V} (h : Tenure past m)
    (horderly : m.Orderly) :
    ((registrations (past ++ [m])).map (·.subscription)).Perm
      (dropped (past ++ [m]) ++ owned m.advance.system m.advance.stack) := by
  have hconserved := h.conserved
  have hstep := horderly.conserves h.custody h.sorted
  rw [registrations_append, dropped_append]
  rw [List.perm_iff_count] at hconserved hstep ⊢
  intro sub
  have hcount := hconserved sub
  have hcounts := hstep sub
  have hnew : (m.registering?.toList.map (·.subscription)).count sub =
      (m.registering?.map (·.subscription)).toList.count sub := by
    cases m.registering? <;> rfl
  simp only [List.map_append, List.count_append] at hcount hcounts ⊢
  omega

theorem Tenure.advance {past : List (Machine V)} {m : Machine V} (h : Tenure past m)
    (horderly : m.Orderly) : Tenure (past ++ [m]) m.advance := by
  obtain ⟨pushed, warned, heffect, -⟩ := advance_becomes horderly
  have hids := heffect.alters.nextSubscriber_le
  have hhandlers := heffect.handlers_length_le
  refine ⟨horderly.custody h.custody, heffect.grounded h.grounded, heffect.sortedNames h.sorted,
    h.conserves horderly, ?_, ?_⟩
  · intro r hr
    rw [registrations_append] at hr
    rcases List.mem_append.mp hr with hr | hr
    · obtain ⟨hid, hhandler⟩ := h.numbered r hr
      have hle := hids r.area
      constructor <;> omega
    · obtain ⟨-, hid, -, hhandler⟩ := horderly.numbers h.grounded (Option.mem_toList.mp hr)
      exact ⟨hid, hhandler⟩
  · rw [registrations_append]
    refine List.pairwise_append.mpr ⟨h.apart, ?_, ?_⟩
    · cases m.registering? with
      | none => exact .nil
      | some r => exact List.pairwise_singleton _ _
    · intro r hr r' hr'
      obtain ⟨hid, hhandler⟩ := h.numbered r hr
      obtain ⟨hid', -, hhandler', -⟩ := horderly.numbers h.grounded (Option.mem_toList.mp hr')
      constructor
      · intro hsame
        simp only [Registration.subscription, Subscription.mk.injEq] at hsame
        rw [hsame.1] at hid
        omega
      · omega

omit [Storable V] in
theorem Tenure.begin {past : List (Machine V)} {m : Machine V} (h : Tenure past m)
    (hstack : m.stack = []) (step : Step V) : Tenure past (.start m.system step) := by
  obtain ⟨hcustody, hgrounded, hsorted, hconserved, hnumbered, hapart⟩ := h
  rw [hstack] at hcustody hconserved
  exact ⟨hcustody, hgrounded, hsorted, hconserved, hnumbered, hapart⟩

omit [Storable V] in
theorem Tenure.decide {past : List (Machine V)} {m : Machine V} (h : Tenure past m)
    {runner : String} {old left : List (Step V)} {stack : List (Frame V)}
    (hstack : m.stack = .script runner old :: stack) :
    Tenure past { m with stack := .script runner left :: stack } := by
  obtain ⟨hcustody, hgrounded, hsorted, hconserved, hnumbered, hapart⟩ := h
  rw [hstack] at hcustody hconserved
  exact ⟨hcustody.decide, hgrounded, hsorted, hconserved, hnumbered, hapart⟩

theorem tenure_playAll (moves : List (Move V)) :
    Tenure (idle.history moves) (idle.playAll moves) := by
  apply orderly_induction (P := Tenure)
  · refine ⟨?_, ?_, .nil, List.Perm.refl _, by simp [registrations], .nil⟩
    · exact ⟨by simp [idle, System.subscribed], by simp [idle], List.nodup_nil, List.nodup_nil⟩
    · exact ⟨by simp [idle], by simp [idle], by simp [idle]⟩
  · exact fun past m step h hstack => h.begin hstack step
  · exact fun past m runner old left stack h hstack => h.decide hstack
  · exact fun past m horderly h => h.advance horderly

end Machine

end TabRelay.Session
