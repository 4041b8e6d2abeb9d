import TabRelay.Proofs.Session.Committing
import TabRelay.Proofs.Session.Delivering

/-!
# Handlers that subscribe nothing

A tame step subscribes no handler, defers no task and makes no queue and no relay,
and the queues that it drains hold notices for listeners that only record.  As long
as all steps are tame, no handler comes to an area, every handler runs the same
steps at each call, and so all that is done goes on to be tame.
-/

namespace TabRelay.Session

open TabRelay.Storage

variable {V : Type}

def Listener.isScript : Listener → Bool
  | .script _ => true
  | _ => false

def Task.runsScript : Task V → Bool
  | .notice listener _ => listener.isScript
  | .script _ _ => true

/-- Of the queues only those in `drained` are drained. -/
def Step.isTame (s : System V) (drained : Nat → Bool) : Step V → Bool
  | .subscribe .. | .listen .. | .receive .. => false
  | .defer .. | .newQueue _ => false
  | .relayToLog .. | .relayToNone .. | .relayToScript .. => false
  | .runPending name => (Keyed.lookup? name s.queueNames).all drained
  | _ => true

namespace System

def told (s : System V) : Listener → List (Step V)
  | .script i => (s.scripts[i]?).elim [] (·.steps)
  | _ => []

def steps (s : System V) : Reaction V → List (Step V)
  | .script script _ => script.steps
  | .forward relay => s.told relay.listener

def body (s : System V) (i : Nat) : List (Step V) :=
  (s.handlers[i]?).elim [] fun handler => s.steps handler.reaction

end System

/-- The handlers run tame steps, and no script listens to a queue that is drained. -/
structure Tame (drained : Nat → Bool) (s : System V) : Prop where
  bodies : ∀ i ∈ s.subscribed, ∀ step ∈ s.body i, step.isTame s drained
  relays : ∀ p ∈ s.relayNames, drained p.2.queue → ¬p.2.listener.isScript
  queues : ∀ queue, drained queue → ∀ task ∈ s.queue queue, ¬task.runsScript

structure Kept (drained : Nat → Bool) (s s' : System V) : Prop where
  bodies : ∀ i, s'.body i = s.body i
  queueNames : s'.queueNames = s.queueNames
  relays : ∀ p ∈ s'.relayNames, ∃ q ∈ s.relayNames, q.2 = p.2
  subscribed : s'.subscribed.Subperm s.subscribed
  queues : ∀ queue, drained queue → ∀ task ∈ s'.queue queue,
    task ∈ s.queue queue ∨ ¬task.runsScript

theorem Step.isTame_congr {s s' : System V} (h : s'.queueNames = s.queueNames)
    (drained : Nat → Bool) (step : Step V) : step.isTame s' drained = step.isTame s drained := by
  cases step <;> simp only [isTame, h]

section

variable {drained : Nat → Bool} {s s' s'' : System V}

theorem Kept.refl (s : System V) : Kept drained s s :=
  ⟨fun _ => rfl, rfl, fun p hp => ⟨p, hp, rfl⟩, List.Subperm.refl _, fun _ _ _ => .inl⟩

theorem Kept.trans (h : Kept drained s s') (h' : Kept drained s' s'') : Kept drained s s'' where
  bodies i := (h'.bodies i).trans (h.bodies i)
  queueNames := h'.queueNames.trans h.queueNames
  relays p hp := by
    obtain ⟨q, hq, hsame⟩ := h'.relays p hp
    obtain ⟨r, hr, hsame'⟩ := h.relays q hq
    exact ⟨r, hr, hsame'.trans hsame⟩
  subscribed := h'.subscribed.trans h.subscribed
  queues queue hdrained task htask := by
    rcases h'.queues queue hdrained task htask with htask | hrecords
    · exact h.queues queue hdrained task htask
    · exact .inr hrecords

theorem Kept.isTame (h : Kept drained s s') (step : Step V) :
    step.isTame s' drained = step.isTame s drained :=
  step.isTame_congr h.queueNames drained

theorem Tame.kept (htame : Tame drained s) (h : Kept drained s s') : Tame drained s' where
  bodies i hi step hstep := by
    rw [h.isTame]
    exact htame.bodies i (h.subscribed.subset hi) step (h.bodies i ▸ hstep)
  relays p hp hdrained := by
    obtain ⟨q, hq, hsame⟩ := h.relays p hp
    rw [← hsame] at hdrained ⊢
    exact htame.relays q hq hdrained
  queues queue hdrained task htask := by
    rcases h.queues queue hdrained task htask with htask | hrecords
    · exact htame.queues queue hdrained task htask
    · exact hrecords

/-! ## Handlers run the same steps at each call -/

@[simp] theorem Script.next_steps (script : Script V) : script.next.2.steps = script.steps := by
  unfold Script.next
  split <;> rfl

theorem Script.next_sublist (script : Script V) : script.next.1.Sublist script.steps := by
  unfold Script.next
  split
  · exact List.Sublist.refl _
  · exact List.nil_sublist _
  · exact List.Sublist.refl _

theorem body_setScript {i : Nat} {script : Script V} (h : s.scripts[i]? = some script) (j : Nat) :
    (s.setScript i script.next.2).body j = s.body j := by
  have htold (listener : Listener) :
      (s.setScript i script.next.2).told listener = s.told listener := by
    cases listener with
    | script k =>
        simp only [System.told, System.setScript, List.getElem?_set]
        split
        · rename_i hik
          subst hik
          simp only [if_pos (List.getElem?_eq_some_iff.mp h).1, h, Option.elim_some,
            Script.next_steps]
        · rfl
    | _ => rfl
  have hsteps (reaction : Reaction V) :
      (s.setScript i script.next.2).steps reaction = s.steps reaction := by
    cases reaction with
    | script script own => rfl
    | forward relay => exact htold relay.listener
  simp only [System.body, hsteps]
  rfl

theorem body_setHandler {i : Nat} {handler changed : Handler V} (h : s.handlers[i]? = some handler)
    (hsteps : s.steps changed.reaction = s.steps handler.reaction) (j : Nat) :
    (s.setHandler i changed).body j = s.body j := by
  simp only [System.body, System.setHandler, List.getElem?_set]
  split
  · rename_i hij
    subst hij
    simp only [if_pos (List.getElem?_eq_some_iff.mp h).1, h, Option.elim_some]
    exact hsteps
  · rfl

theorem Tells.kept {change : Change V} {listener : Listener} {frames : List (Frame V)}
    (h : Tells s change listener s' frames) : Kept drained s s' := by
  cases h with
  | toScript hscript => exact { Kept.refl s with bodies := body_setScript hscript }
  | toLog log => exact { Kept.refl s with }
  | toNone => exact .refl s
  | toNoScript i => exact .refl s

theorem Receives.kept {relay : Relay} {event : Event} {frames : List (Frame V)} {a : Answer V}
    (h : Receives s relay event s' frames a) : Kept drained s s' := by
  cases h with
  | forwards harea htells => exact htells.kept
  | ignores harea => exact .refl s

theorem Reacts.kept {i : Nat} {event : Event} {frames : List (Frame V)} {a : Answer V}
    (h : Reacts s i event s' frames a) : Kept drained s s' := by
  cases h with
  | missing hhandler => exact .refl s
  | @script handler script own hhandler hreaction =>
      refine { Kept.refl s with bodies := body_setHandler hhandler ?_ }
      rw [hreaction]
      exact script.next_steps
  | forward hhandler hreaction hreceives => exact hreceives.kept

theorem Drains.kept {queue started : Nat} {frames : List (Frame V)} {a : Answer V}
    (h : Drains s queue started s' frames a) : Kept drained s s' := by
  have hsets {task : Task V} {tasks : List (Task V)} (hqueue : s.queue queue = task :: tasks) :
      Kept drained s (s.setQueue queue tasks) := by
    refine { (Kept.refl s : Kept drained s s) with queues := fun q _ other hother => .inl ?_ }
    simp only [System.queue, System.setQueue, Machine.getD_set] at hother
    split at hother
    · rename_i hsame
      rw [← hsame.1, hqueue]
      exact List.mem_cons_of_mem _ hother
    · exact hother
  cases h with
  | done hqueue => exact .refl s
  | notice hqueue htells => exact (hsets hqueue).trans htells.kept
  | script hqueue => exact hsets hqueue

theorem Tells.frames {change : Change V} {listener : Listener} {frames : List (Frame V)}
    (h : Tells s change listener s' frames) :
    frames = [] ∨ listener.isScript ∧ ∃ name left, frames = [.script name left] ∧
      left.Sublist (s.told listener) := by
  cases h with
  | @toScript i script hscript =>
      refine .inr ⟨rfl, _, _, rfl, ?_⟩
      simp only [System.told, hscript, Option.elim_some]
      exact script.next_sublist
  | _ => exact .inl rfl

theorem Reacts.frames {i : Nat} {event : Event} {frames : List (Frame V)} {a : Answer V}
    (h : Reacts s i event s' frames a) :
    ∃ scripts more, frames = scripts ++ more ∧ (more = [] ∨ more = [.forwarding]) ∧
      (scripts = [] ∨ ∃ name left, scripts = [.script name left] ∧ left.Sublist (s.body i)) := by
  cases h with
  | missing hhandler => exact ⟨[], [], rfl, .inl rfl, .inl rfl⟩
  | @script handler script own hhandler hreaction =>
      refine ⟨_, [], (List.append_nil _).symm, .inl rfl, .inr ⟨_, _, rfl, ?_⟩⟩
      simp only [System.body, hhandler, Option.elim_some, hreaction]
      exact script.next_sublist
  | forward hhandler hreaction hreceives =>
      cases hreceives with
      | ignores harea => exact ⟨[], [], rfl, .inl rfl, .inl rfl⟩
      | forwards harea htells =>
          refine ⟨_, _, rfl, .inr rfl, ?_⟩
          rcases htells.frames with hnone | ⟨-, name, left, hframes, hleft⟩
          · exact .inl hnone
          · refine .inr ⟨name, left, hframes, ?_⟩
            simp only [System.body, hhandler, Option.elim_some, hreaction]
            exact hleft

theorem Drains.frames {queue started : Nat} {frames : List (Frame V)} {a : Answer V}
    (h : Drains s queue started s' frames a) (hqueue : ∀ task ∈ s.queue queue, ¬task.runsScript) :
    frames = [] ∧ s' = s ∨ frames = [.drain queue (started + 1)] ∧
      ∃ task tasks, s.queue queue = task :: tasks ∧
        ∃ logs, s' = { s.setQueue queue tasks with logs } := by
  cases h with
  | done hqueue => exact .inl ⟨rfl, rfl⟩
  | @notice listener change tasks s' frames hnext htells =>
      have hrecords := hqueue _ (hnext ▸ List.mem_cons_self)
      refine .inr ⟨?_, _, _, hnext, ?_⟩
      · rcases htells.frames with rfl | ⟨hscript, -⟩
        · rfl
        · exact absurd hscript hrecords
      · cases htells with
        | toLog log => exact ⟨_, rfl⟩
        | toNone => exact ⟨_, rfl⟩
        | toNoScript i => exact ⟨_, rfl⟩
        | toScript hscript => exact absurd rfl hrecords
  | script hnext =>
      have hrecords := hqueue _ (hnext ▸ List.mem_cons_self)
      exact absurd rfl hrecords

end

/-! ## What is done goes on to be tame -/

def Frame.isTame (s : System V) (drained : Nat → Bool) : Frame V → Prop
  | .script _ left => ∀ step ∈ left, step.isTame s drained
  | .delivery _ left => left.Subperm s.subscribed
  | .turn i => i ∈ s.subscribed
  | .writing relay _ _ => drained relay.queue → ¬relay.listener.isScript
  | .drain queue _ => drained queue
  | _ => True

variable {drained : Nat → Bool}

theorem Drains.tames {s s' start : System V} {queue started : Nat} {frames : List (Frame V)}
    {a : Answer V} (h : Drains s queue started s' frames a) (hdrained : drained queue)
    (hqueue : ∀ task ∈ s.queue queue, ¬task.runsScript) :
    ∀ frame ∈ frames, frame.isTame start drained := by
  rcases h.frames hqueue with ⟨rfl, -⟩ | ⟨rfl, -⟩
  · simp
  · simpa [Frame.isTame] using hdrained

namespace Machine

theorem recipients_sublist (s : System V) (i : Nat) (writer : Option Nat) :
    ((s.area i).recipients writer).Sublist s.subscribed := by
  by_cases hi : i < s.areas.length
  · have harea : s.area i ∈ s.areas := by
      simp only [System.area, List.getD_eq_getElem?_getD, List.getElem?_eq_getElem hi,
        Option.getD_some]
      exact List.getElem_mem hi
    refine (List.filter_sublist.map _).trans ?_
    rw [System.subscribed, List.flatMap_def]
    exact List.sublist_flatten_of_mem (List.mem_map_of_mem harea)
  · simp [System.area, List.getElem?_eq_none (Nat.le_of_not_lt hi), default,
      instInhabitedArea.default, Area.recipients]

theorem Begins.kept [Storable V] {m : Machine V} {step : Step V} {s : System V}
    {pushed : List (Frame V)} {a : Answer V} (h : Begins m step s pushed a)
    (hstep : step.isTame m.system drained) : Kept drained m.system s := by
  have hsets {i : Nat} {changed : Area}
      (hsame : changed.subscribers = (m.system.area i).subscribers) :
      Kept drained m.system (m.system.setArea i changed) := by
    refine { Kept.refl m.system with subscribed := ?_ }
    rw [System.subscribed_setArea hsame]
  cases h with
  | creates hnew =>
      refine { Kept.refl m.system with subscribed := ?_ }
      simp only [System.subscribed, System.nameStorage, System.addArea, List.flatMap_append,
        List.flatMap_singleton, subscribers_newArea hnew, List.map_nil, List.append_nil]
      exact List.Subperm.refl _
  | @opensTab id storage h hname =>
      have hopened : Kept drained m.system
          (m.system.setArea h.area (m.system.area h.area).openTab.1) := hsets rfl
      exact { hopened with }
  | operates hcall hwaiting houtcome => exact hsets (by rw [← houtcome, subscribers_perform])
  | setsFaults hname => exact hsets rfl
  | startsDraining hdrains hname => exact hdrains.kept
  | namesRelay hhandle hqueue hlog hscripts hmakes => cases step <;> contradiction
  | renamesRelay hname =>
      refine { Kept.refl m.system with relays := fun p hp => ?_ }
      rcases mem_nameRelay hp with hp | hp
      · exact ⟨p, hp, rfl⟩
      · exact ⟨_, Keyed.mem_of_lookup? hname, hp.symm⟩
  | dropsRelay hname =>
      exact { Kept.refl m.system with
        relays := fun p hp => ⟨p, (Keyed.erase_sublist _ _).mem hp, rfl⟩ }
  | subscribes hsubscribing htake => contradiction
  | failsToSubscribe htake => contradiction
  | listens hsubscribing hname => contradiction
  | createsQueue id => contradiction
  | defers => contradiction
  | receives hname hreceives => contradiction
  | _ => exact { Kept.refl m.system with }

theorem Begins.tames [Storable V] {m : Machine V} {start : System V} {step : Step V}
    {s : System V} {pushed : List (Frame V)} {a : Answer V} (h : Begins m step s pushed a)
    (htame : Tame drained start) (hkept : Kept drained start m.system)
    (hstep : step.isTame start drained) : ∀ frame ∈ pushed, frame.isTame start drained := by
  have hnow := htame.kept hkept
  have hwaits {step : Step V} {handle : Handle} {waiting : List (Frame V)}
      (hwaiting : m.Awaits step handle waiting) :
      ∀ frame ∈ waiting, frame.isTame start drained := by
    cases hwaiting with
    | relayed stored hwrite hname hhandle =>
        have hrelay := hnow.relays _ (Keyed.mem_of_lookup? hname)
        simpa [Frame.isTame] using hrelay
    | _ => simp [Frame.isTame]
  cases h with
  | operates hcall hwaiting houtcome =>
      intro frame hframe
      rcases List.mem_append.mp hframe with hframe | hframe
      · obtain ⟨event, rfl⟩ := mem_deliveries hframe
        rw [Frame.isTame, Area.recipients, ← houtcome, subscribers_perform]
        exact (recipients_sublist ..).subperm.trans hkept.subscribed
      · exact hwaits hwaiting frame hframe
  | barred e hasked hwaiting => exact hwaits hwaiting
  | @dispatches storage h event hname =>
      have hrecipients := recipients_sublist m.system h.area none
      simpa [Frame.isTame] using hrecipients.subperm.trans hkept.subscribed
  | startsDraining hdrains hname =>
      rw [← hkept.isTame, Step.isTame, hname] at hstep
      exact hdrains.tames hstep (hnow.queues _ hstep)
  | receives hname hreceives => contradiction
  | _ => simp [Frame.isTame, dropsOldStorage, dropsOldRelay, dropsOldSubscription]

theorem Continues.kept {m : Machine V} {start : System V} {top : Frame V} {b : Answer V}
    {s : System V} {pushed : List (Frame V)} {control : Control V} {warned : List (Entry V)}
    (h : Continues m top b s pushed control warned) (htop : top.isTame start drained) :
    Kept drained m.system s := by
  cases h with
  | calls b hrunning hreacts => exact hreacts.kept
  | drains b hdrains => exact hdrains.kept
  | writeEnds relay w stored hb =>
      have hsame : Kept drained m.system m.system := .refl _
      refine { hsame with queues := fun queue hdrained task htask => ?_ }
      rw [System.queue, queue_defer] at htask
      rcases List.mem_append.mp htask with htask | htask
      · exact .inl htask
      · split at htask
        · rename_i hsame
          rw [List.mem_singleton.mp htask]
          exact .inr (htop (hsame.1 ▸ hdrained))
        · contradiction
  | _ => exact .refl m.system

theorem Continues.tames {m : Machine V} {start : System V} {top : Frame V} {b : Answer V}
    {s : System V} {pushed : List (Frame V)} {control : Control V} {warned : List (Entry V)}
    (h : Continues m top b s pushed control warned) (htame : Tame drained start)
    (hkept : Kept drained start m.system) (htop : top.isTame start drained) :
    (∀ frame ∈ pushed, frame.isTame start drained) ∧
      ∀ step, control = .run step → step.isTame start drained := by
  cases h with
  | runsStep b runner step left =>
      refine ⟨?_, ?_⟩
      · simpa [Frame.isTame] using fun other hother => htop other (List.mem_cons_of_mem _ hother)
      · rintro _ ⟨⟩
        exact htop step List.mem_cons_self
  | @skips b event i left hrunning =>
      refine ⟨?_, nofun⟩
      simpa [Frame.isTame] using (List.sublist_cons_self i left).subperm.trans htop
  | @calls b a event i left s frames hrunning hreacts =>
      have hi : i ∈ start.subscribed := List.Subperm.subset htop List.mem_cons_self
      have hleft : left.Subperm start.subscribed :=
        (List.sublist_cons_self i left).subperm.trans htop
      refine ⟨?_, nofun⟩
      obtain ⟨scripts, more, rfl, hmore, hscripts⟩ := hreacts.frames
      intro frame hframe
      simp only [List.append_assoc, List.mem_append, List.mem_cons, List.not_mem_nil,
        or_false] at hframe
      rcases hframe with hframe | hframe | rfl | rfl
      · rcases hscripts with rfl | ⟨name, steps, rfl, hsteps⟩
        · contradiction
        · rw [List.mem_singleton.mp hframe]
          intro step hstep
          exact htame.bodies i hi step (hkept.bodies i ▸ hsteps.subset hstep)
      · rcases hmore with rfl | rfl
        · contradiction
        · rw [List.mem_singleton.mp hframe]
          trivial
      · exact hi
      · exact hleft
  | drains b hdrains => exact ⟨hdrains.tames htop ((htame.kept hkept).queues _ htop), nofun⟩
  | _ => exact ⟨by simp [Frame.isTame], nofun⟩

theorem Frees.kept {m : Machine V} {top : Frame V} {s : System V} {pushed : List (Frame V)}
    (h : Frees m top s pushed) : Kept drained m.system s := by
  cases h with
  | @reaps top i hkeeps hdead =>
      refine { Kept.refl m.system with subscribed := ?_ }
      have hperm := subscribed_reap m.system i
      exact (List.sublist_append_right _ _).subperm.trans hperm.symm.subperm
  | frees hreferred hhandler =>
      exact { Kept.refl m.system with bodies := body_setHandler hhandler rfl }
  | detaches halive hheld hfound =>
      refine { Kept.refl m.system with subscribed := ?_ }
      obtain ⟨other, hperm⟩ := subscribed_unsubscribe hfound
      exact (List.sublist_append_right _ _).subperm.trans hperm.symm.subperm
  | _ => exact .refl m.system

theorem Frees.tames {m : Machine V} {start : System V} {top : Frame V} {s : System V}
    {pushed : List (Frame V)} (h : Frees m top s pushed) :
    ∀ frame ∈ pushed, frame.isTame start drained := by
  intro frame hframe
  have hfreeing := h.isFreeing frame hframe
  cases frame <;> trivial

end Machine

end TabRelay.Session
