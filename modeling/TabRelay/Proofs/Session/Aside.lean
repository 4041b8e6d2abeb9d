import TabRelay.Proofs.Session.Resuming

/-!
# What goes on unseen

A step that is not seen puts frames on the stack of the whole that the part does
not have.  Until they are gone they change nothing of what is seen: a relay that
listens unseen tells a log that is not seen or nothing, a change to a key that is
not seen makes observers write down what is not seen, and whatever is let go of
is not seen, or something that is seen still refers to it.
-/

namespace TabRelay.Session

open TabRelay.Decoding TabRelay.Storage

variable {V : Type}

def Relay.records (relay : Relay) : Bool :=
  match relay.listener with
  | .script _ => false
  | _ => true

def Reaction.records : Reaction V → Bool
  | .script body _ => body.steps.isEmpty
  | .forward relay => relay.records

def Frame.isNested : Frame V → Bool
  | .nested _ _ => true
  | _ => false

def Frame.outcome (a : Answer V) : Frame V → List (Entry V)
  | .nested runner step => [.nested runner step a]
  | _ => []

theorem Frame.outcome_of_unnested {frame : Frame V} (h : ¬ frame.isNested) (a : Answer V) :
    frame.outcome a = [] := by
  cases frame with
  | nested runner step => exact absurd rfl h
  | _ => rfl

namespace System

theorem setLog_log (s : System V) (i : Nat) : s.setLog i (s.log i) = s := by
  by_cases hi : i < s.logs.length
  · simp [setLog, log, hi]
  · simp [setLog, List.set_eq_of_length_le (Nat.le_of_not_lt hi)]

theorem setHandler_same {s : System V} {i : Nat} {handler : Handler V}
    (h : s.handlers[i]? = some handler) : s.setHandler i handler = s := by
  obtain ⟨hi, rfl⟩ := List.getElem?_eq_some_iff.mp h
  simp [setHandler]

end System

namespace View

variable {v : View}

theorem said_mark {mark : Mark} (h : (Entry.mark mark : Entry V).isWarning = false)
    (trace : List (Entry V)) : v.said (.mark mark :: trace) = v.said trace := by
  simp [said, seesEntry, h]

theorem said_unseen {entry : Entry V} (h : v.seesEntry entry = false) (trace : List (Entry V)) :
    v.said (entry :: trace) = v.said trace := by
  simp [said, h]

theorem exists_unseen {key : Option String} (h : ¬ v.about key) : ∃ key, ¬ v.keys key := by
  cases key with
  | none => exact absurd rfl h
  | some key => exact ⟨key, h⟩

theorem system_pushToLog_unseen {s : System V} {i : Nat} {change : Change V}
    (h : v.logs i → ¬ v.about change.key?) : v.system (s.pushToLog i change) = v.system s := by
  by_cases hi : v.logs i
  · have hlog : v.log (s.log i ++ [change]) = v.log (s.log i) := by simp [log, h hi]
    rw [System.pushToLog, system_setLog hi, hlog, ← system_log hi, System.setLog_log]
  · exact system_setLog_unseen hi s _

theorem system_setHandler_same {s : System V} {i : Nat} {old handler : Handler V}
    (hold : s.handlers[i]? = some old) (hsame : v.handler handler = v.handler old) :
    v.system (s.setHandler i handler) = v.system s := by
  by_cases hi : v.handlers i
  · rw [system_setHandler hi, hsame, ← system_setHandler hi, System.setHandler_same hold]
  · exact system_setHandler_unseen hi s handler

/-- The handler is not seen, or it makes a record of what is not seen. -/
def Ignores (v : View) (s : System V) (event : Event) (i : Nat) : Prop :=
  ¬ v.handlers i ∨ ¬ v.about event.key ∧ v.calls = false ∧
    ∀ handler, s.handlers[i]? = some handler → handler.reaction.records

/-- All keys are seen, or handlers make records, and it is not seen how often they do. -/
def Quiet (v : View) (m : Machine V) : Prop :=
  (∀ key, v.keys key) ∨
    v.calls = false ∧ ∀ handler ∈ m.system.handlers, handler.reaction.records

end View

namespace Machine

/-- The machine puts frames on its stack and answers, and nothing of it is seen. -/
structure Mute (v : View) (pushed : List (Frame V)) (m m' : Machine V) : Prop where
  stack : m'.stack = pushed ++ m.stack
  system : v.system m'.system = v.system m.system
  closed : v.Closed m.system → v.Closed m'.system
  done : ∃ a, m'.control = .done a
  said : v.said m'.trace = v.said m.trace

theorem Mute.trans {v : View} {pushed more : List (Frame V)} {m m' m'' : Machine V}
    (h : Mute v pushed m m') (h' : Mute v more m' m'') : Mute v (more ++ pushed) m m'' where
  stack := by rw [h'.stack, h.stack, List.append_assoc]
  system := h'.system.trans h.system
  closed hclosed := h'.closed (h.closed hclosed)
  done := h'.done
  said := h'.said.trans h.said

/-! ## Relays and handlers -/

section

variable {v : View} {m : Machine V}

theorem mute_recordChange (hfree : m.Unheld) {log : Nat} {change : Change V}
    (h : v.logs log → ¬ v.about change.key?) : Mute v [] m (m.recordChange log change) := by
  rw [recordChange, whenFree_of_unheld hfree]
  exact
    { stack := rfl
      system := View.system_pushToLog_unseen h
      closed := fun hclosed => hclosed.spares _ _ _
      done := ⟨_, rfl⟩
      said := (View.said_mark (by rfl) _).trans (View.said_mark (by rfl) _) }

theorem mute_tell (hfree : m.Unheld) {listener : Listener} {change : Change V}
    (hscript : ∀ i, listener ≠ .script i)
    (hlog : ∀ log, listener = .log log → v.logs log → ¬ v.about change.key?) :
    Mute v [] m (m.tell listener change) := by
  cases listener with
  | log log => exact mute_recordChange hfree (hlog log rfl)
  | none => exact ⟨rfl, rfl, id, ⟨_, rfl⟩, rfl⟩
  | script i => exact absurd rfl (hscript i)

theorem mute_receive (hfree : m.Unheld) {relay : Relay} {event : Event}
    (hscript : ∀ i, relay.listener ≠ .script i)
    (hlog : ∀ log, relay.listener = .log log → v.logs log → ¬ v.about event.key) :
    ∃ pushed, (pushed = [] ∨ pushed = [.forwarding]) ∧ Mute v pushed m (m.receive relay event) := by
  simp only [receive, whenFree_of_unheld hfree]
  split
  · have hwaiting : (((m.mark (.enterReceive event.key)).push .forwarding)).Unheld :=
      Unheld.push (hfree.of_stack rfl) (by simp [Frame.isDisposing])
    have htold : Mute v [] ((m.mark (.enterReceive event.key)).push .forwarding)
        (((m.mark (.enterReceive event.key)).push .forwarding).tell relay.listener
          (.external event.key event.newText)) := mute_tell hwaiting hscript hlog
    exact ⟨[.forwarding], .inr rfl, htold.stack, htold.system, htold.closed, htold.done,
      htold.said.trans (View.said_mark (by rfl) _)⟩
  · refine ⟨[], .inl rfl, rfl, rfl, id, ⟨_, rfl⟩, ?_⟩
    exact (View.said_mark (by rfl) _).trans
      ((View.said_mark (by rfl) _).trans (View.said_mark (by rfl) _))

theorem mute_react (hfree : m.Unheld) (hclosed : v.Closed m.system) {event : Event} {i : Nat}
    (hignores : v.Ignores m.system event i) :
    ∃ pushed, (pushed = [] ∨ pushed = [.forwarding] ∨
        ¬ v.about event.key ∧ ∃ name, pushed = [.script name []]) ∧
      Mute v pushed m (m.react i event) := by
  cases hhandler : m.system.handlers[i]? with
  | none =>
      refine ⟨[], .inl rfl, ?_⟩
      simp only [react, hhandler]
      exact ⟨rfl, rfl, id, ⟨_, rfl⟩, rfl⟩
  | some handler =>
      obtain ⟨reaction, freed⟩ := handler
      cases reaction with
      | forward relay =>
          have hquiet : (∀ n, relay.listener ≠ .script n) ∧
              ∀ log, relay.listener = .log log → v.logs log → ¬ v.about event.key := by
            rcases hignores with hunseen | ⟨habout, -, hrecords⟩
            · have hhushes := hclosed.hushesReaction hunseen hhandler
              simp only [View.hushesReaction, View.hushes] at hhushes
              constructor
              · intro n hn
                simp [hn] at hhushes
              · intro log hlog hseen
                simp [hlog, hseen] at hhushes
            · have hrecord := hrecords _ hhandler
              refine ⟨fun n hn => ?_, fun _ _ _ => habout⟩
              simp [Reaction.records, Relay.records, hn] at hrecord
          obtain ⟨pushed, hpushed, hmute⟩ := mute_receive hfree hquiet.1 hquiet.2
          refine ⟨pushed, hpushed.imp id .inl, ?_⟩
          simpa only [react, hhandler] using hmute
      | script script own =>
          rcases hignores with hunseen | ⟨habout, hcalls, hrecords⟩
          · have hhushes := hclosed.hushesReaction hunseen hhandler
            contradiction
          · obtain ⟨name, steps, times⟩ := script
            have hsteps : steps = [] := List.isEmpty_iff.mp (hrecords _ hhandler)
            subst hsteps
            have hnext : (⟨name, [], times⟩ : Script V).next.1 = [] ∧
                (⟨name, [], times⟩ : Script V).next.2.name = name ∧
                v.script (⟨name, [], times⟩ : Script V).next.2 = v.script ⟨name, [], times⟩ := by
              rcases times with _ | _ | n <;> simp [Script.next, View.script, hcalls]
            obtain ⟨hnone, hname, hscript⟩ := hnext
            refine ⟨[.script name []], .inr (.inr ⟨habout, name, rfl⟩), ?_⟩
            have hsame : v.handler ⟨.script (⟨name, [], times⟩ : Script V).next.2 own, freed⟩ =
                v.handler ⟨.script ⟨name, [], times⟩ own, freed⟩ := by
              simp only [View.handler, View.reaction, hscript]
            simp only [react, hhandler, hnone, hname]
            refine ⟨rfl, View.system_setHandler_same hhandler hsame, fun hclosed => ?_, ⟨_, rfl⟩, ?_⟩
            · refine View.Closed.setHandler hclosed ?_
              have hfits := hclosed.handlers i _ hhandler
              exact hfits
            · exact View.said_unseen (by simpa [View.seesEntry] using habout) m.trace

theorem mute_visit (hfree : m.Unheld) (hclosed : v.Closed m.system) {event : Event} {i : Nat}
    (hignores : v.Ignores m.system event i) (hcalls : m.isRunning i → v.calls = false)
    (left : List Nat) :
    ∃ pushed, (pushed = [] ∨ pushed = [.turn i] ∨ pushed = [.forwarding, .turn i] ∨
        ¬ v.about event.key ∧ ∃ name, pushed = [.script name [], .turn i]) ∧
      Mute v (pushed ++ [.delivery event left]) m (m.visit event i left) := by
  unfold visit
  split
  · rename_i hrunning
    refine ⟨[], .inl rfl, rfl, rfl, id, ⟨_, rfl⟩, ?_⟩
    exact View.said_unseen (by simp [View.seesEntry, hcalls hrunning]) m.trace
  · have hdelivery : (m.push (.delivery event left)).Unheld :=
      hfree.push (by simp [Frame.isDisposing])
    have hturn : ((m.push (.delivery event left)).push (.turn i)).Unheld :=
      hdelivery.push (by simp [Frame.isDisposing])
    have hignored : v.Ignores ((m.push (.delivery event left)).push (.turn i)).system event i :=
      hignores
    obtain ⟨pushed, hpushed, hmute⟩ := mute_react hturn hclosed hignored
    refine ⟨pushed ++ [.turn i], ?_, ?_, hmute.system, hmute.closed, hmute.done, hmute.said⟩
    · rcases hpushed with rfl | rfl | ⟨habout, name, rfl⟩
      · exact .inr (.inl rfl)
      · exact .inr (.inr (.inl rfl))
      · exact .inr (.inr (.inr ⟨habout, name, rfl⟩))
    · rw [hmute.stack]
      simp [push]

end

/-! ## Frames of the whole alone -/

def Spared (v : View) (p : Machine V) (handlers : List Nat) : Prop :=
  ∀ i ∈ handlers, v.handlers i → p.isReferred (rank v.handlers i)

/-- The frame does nothing to what is seen, as long as that stays as it is. -/
inductive Aside (v : View) (p : Machine V) : Frame V → Prop where
  | script (name : String) {key : String} (hkey : ¬ v.keys key) : Aside v p (.script name [])
  | delivery {event : Event} {left : List Nat} (habout : ¬ v.about event.key)
      (hspared : Spared v p left) : Aside v p (.delivery event left)
  | turn {i : Nat} (hspared : Spared v p [i]) : Aside v p (.turn i)
  | keep {i : Nat} (halive : p.isAlive i) : Aside v p (.keep i)
  | held {i : Nat} (halive : p.isAlive i) : Aside v p (.held (.area i))
  | release {left : List Nat} (hspared : Spared v p left) : Aside v p (.release left)
  | drop {left : List Subscription} (hunseen : ∀ sub ∈ left, ¬ v.seesSubscription sub) :
      Aside v p (.drop left)
  | forwarding : Aside v p .forwarding

/-- The machine has frames that the other one does not have, above those that it shows. -/
structure Apart (v : View) (above rest : List (Frame V)) (m p : Machine V) : Prop where
  stack : m.stack = above ++ rest
  aside : ∀ frame ∈ above, frame.isNested ∨ Aside v p frame
  shown : Shown v { m with stack := rest } p

namespace Apart

variable {v : View} {above rest pushed : List (Frame V)} {m m' p : Machine V}

theorem mute (h : Apart v above rest m p) (hmute : Mute v pushed m m')
    (hpushed : ∀ frame ∈ pushed, Aside v p frame) : Apart v (pushed ++ above) rest m' p where
  stack := by rw [hmute.stack, h.stack, List.append_assoc]
  aside := List.forall_mem_append.mpr ⟨fun frame hframe => .inr (hpushed frame hframe), h.aside⟩
  shown :=
    { system := h.shown.system.trans hmute.system.symm
      stack := h.shown.stack
      closed := hmute.closed h.shown.closed
      frames := h.shown.frames }

theorem isAlive (h : Apart v above rest m p) {i : Nat} (halive : p.isAlive i) : m.isAlive i :=
  isAlive_of_sublist (h.shown.isAlive_of_shown halive) rfl fun frame hframe => by
    rw [h.stack]
    exact List.mem_append_right above hframe

theorem isAlive_of_kept (h : Apart v above rest m p) {i : Nat} (hkept : v.Kept m i) :
    p.isAlive i := by
  cases hkept with
  | storage hp hi => exact h.shown.isAlive_of_kept (.storage hp hi)
  | relay hp hseen hi => exact h.shown.isAlive_of_kept (.relay hp hseen hi)
  | handler hhandler hseen hi => exact h.shown.isAlive_of_kept (.handler hhandler hseen hi)
  | @frame frame hframe hi =>
      rw [h.stack] at hframe
      rcases List.mem_append.mp hframe with hframe | hframe
      · rcases h.aside frame hframe with hnested | haside
        · cases frame <;> contradiction
        · cases haside with
          | keep halive => exact of_decide_eq_true hi ▸ halive
          | held halive =>
              simp only [Frame.keeps, decide_eq_true_eq, Cell.area.injEq] at hi
              exact hi ▸ halive
          | _ => contradiction
      · exact h.shown.isAlive_of_kept (.frame hframe hi)

theorem isReferred (h : Apart v above rest m p) {i : Nat} (hi : v.handlers i)
    (hreferred : p.isReferred (rank v.handlers i)) : m.isReferred i := by
  rw [h.shown.isReferred_eq hi] at hreferred
  simp only [Machine.isReferred, Bool.or_eq_true, h.stack, List.any_append] at hreferred ⊢
  exact hreferred.imp_right .inr

end Apart

/-! ## The topmost of these frames -/

section

variable {v : View} {m p : Machine V} {above rest : List (Frame V)}

theorem reap_of_isAlive {i : Nat} (h : m.isAlive i) : m.reap i = m := if_pos h

theorem mute_delivery (hfree : m.Unheld) (hclosed : v.Closed m.system) {event : Event} {i : Nat}
    {left : List Nat} (habout : ¬ v.about event.key) (hcalls : v.calls = false)
    (hrecords : ∀ handler ∈ m.system.handlers, handler.reaction.records)
    (hspared : Spared v p (i :: left)) :
    ∃ pushed, Mute v pushed m (m.visit event i left) ∧ ∀ frame ∈ pushed, Aside v p frame := by
  have hignores : v.Ignores m.system event i := .inr ⟨habout, hcalls,
    fun handler hhandler => hrecords handler (List.mem_of_getElem? hhandler)⟩
  obtain ⟨pushed, hpushed, hmute⟩ := mute_visit (v := v) hfree hclosed hignores
    (fun _ => hcalls) left
  have hturn : Aside v p (.turn i : Frame V) := .turn fun j hj hseen => by
    rw [List.mem_singleton.mp hj] at hseen ⊢
    exact hspared i List.mem_cons_self hseen
  have hdelivery : Aside v p (.delivery event left : Frame V) :=
    .delivery habout fun j hj => hspared j (List.mem_cons_of_mem _ hj)
  refine ⟨_, hmute, ?_⟩
  rcases hpushed with rfl | rfl | rfl | ⟨-, name, rfl⟩
  · simpa using hdelivery
  · simpa using ⟨hturn, hdelivery⟩
  · simpa using ⟨Aside.forwarding, hturn, hdelivery⟩
  · obtain ⟨key, hkey⟩ := View.exists_unseen habout
    simpa using ⟨Aside.script name hkey, hturn, hdelivery⟩

theorem mute_free {i : Nat} {left : List Nat} {a : Answer V} (hdone : m.control = .done a)
    (hapart : Apart v above rest m p) (hspared : Spared v p (i :: left))
    (hlives : ∀ handler relay, m.system.handlers[i]? = some handler →
      handler.reaction = .forward relay → p.isAlive relay.handle.area) :
    ∃ pushed, Mute v pushed m ((m.push (.release left)).free i) ∧
      ∀ frame ∈ pushed, Aside v p frame := by
  have hleft : Aside v p (.release left : Frame V) :=
    .release fun j hj => hspared j (List.mem_cons_of_mem _ hj)
  have hnothing : Mute v [.release left] m (m.push (.release left)) :=
    ⟨rfl, rfl, id, ⟨a, hdone⟩, rfl⟩
  have hreferred : (m.push (.release left)).isReferred i = m.isReferred i := by
    simp [Machine.isReferred, Machine.push, Frame.refersTo]
  unfold Machine.free
  rw [hreferred]
  split
  · exact ⟨_, hnothing, by simpa using hleft⟩
  · rename_i hunreferred
    have hunseen : ¬ v.handlers i := fun hi =>
      hunreferred (hapart.isReferred hi (hspared i List.mem_cons_self hi))
    have hsame : (m.push (.release left)).system.handlers[i]? = m.system.handlers[i]? := rfl
    rw [hsame]
    cases hhandler : m.system.handlers[i]? with
    | none => exact ⟨_, hnothing, by simpa using hleft⟩
    | some handler =>
        have hclosed := hapart.shown.closed
        have hhushes := hclosed.hushesReaction hunseen hhandler
        have halive := hlives handler
        obtain ⟨reaction, freed⟩ := handler
        cases reaction with
        | script script own => contradiction
        | forward relay =>
            refine ⟨[.keep relay.handle.area, .release left], ?_, ?_⟩
            · refine ⟨rfl, View.system_setHandler_unseen hunseen _ _, fun hclosed => ?_,
                ⟨a, hdone⟩, rfl⟩
              refine View.Closed.setHandler hclosed ?_
              rw [Bool.eq_false_iff.mpr hunseen]
              exact hhushes
            · simpa using ⟨Aside.keep (halive relay hhandler rfl), hleft⟩

theorem mute_detach {sub : Subscription} {a : Answer V} (hdone : m.control = .done a)
    (hclosed : v.Closed m.system) (hsub : ¬ v.seesSubscription sub)
    (halive : m.isAlive sub.area → p.isAlive sub.area) :
    ∃ pushed, Mute v pushed m (m.detach sub) ∧
      ∀ frame ∈ pushed, Aside v p frame ∧ frame.isFreeing := by
  have hnothing : Mute v [] m m := ⟨rfl, rfl, id, ⟨a, hdone⟩, rfl⟩
  unfold Machine.detach
  split
  · exact ⟨_, hnothing, by simp⟩
  · rename_i hgoes
    have hlives : p.isAlive sub.area := halive (by
      by_contra hdead
      simp [hdead] at hgoes)
    dsimp only
    cases hfound : (m.system.area sub.area).subscriber? sub.id with
    | none => exact ⟨_, hnothing, by simp⟩
    | some subscriber =>
        obtain ⟨hmem, hid⟩ := subscriber?_eq_some hfound
        have hsubscribers := hclosed.subscribers sub.area
        have hhandler : ¬ v.handlers subscriber.handler := by
          rw [← hsubscribers subscriber hmem, hid]
          exact hsub
        refine ⟨[.release [subscriber.handler], .held (.area sub.area)], ?_, ?_⟩
        · refine ⟨rfl, ?_, fun hclosed => ?_, ⟨a, hdone⟩, rfl⟩
          · have hview := View.area_unsubscribed_unseen hsubscribers hsub
            rw [← View.system_area] at hview
            refine (View.system_setArea _ _ _).trans ?_
            rw [hview]
            exact System.setArea_area _ _
          · exact hclosed.setArea fun t ht => hsubscribers t (List.mem_filter.mp ht).1
        · have hreleased : Aside v p (.release [subscriber.handler] : Frame V) := by
            refine .release fun j hj hseen => ?_
            rw [List.mem_singleton.mp hj] at hseen
            exact absurd hseen hhandler
          simpa [Frame.isFreeing] using ⟨hreleased, Aside.held (V := V) hlives⟩

theorem mute_drop {sub : Subscription} {left : List Subscription} {a : Answer V}
    (hdone : m.control = .done a) (hclosed : v.Closed m.system)
    (hunseen : ∀ other ∈ sub :: left, ¬ v.seesSubscription other)
    (halive : m.isAlive sub.area → p.isAlive sub.area) :
    ∃ pushed, Mute v pushed m ((m.push (.drop left)).detach sub) ∧
      ∀ frame ∈ pushed, Aside v p frame := by
  obtain ⟨hsub, hleft⟩ := List.forall_mem_cons.mp hunseen
  have hdrop : Aside v p (.drop left : Frame V) := .drop hleft
  have hpush : Mute v [.drop left] m (m.push (.drop left)) := ⟨rfl, rfl, id, ⟨a, hdone⟩, rfl⟩
  have hsame : (m.push (.drop left)).isAlive sub.area = m.isAlive sub.area := by
    simp [Machine.isAlive, Machine.push, Frame.keeps]
  obtain ⟨pushed, hmute, hpushed⟩ := mute_detach (m := m.push (.drop left)) hdone hclosed hsub
    fun h => halive (hsame ▸ h)
  exact ⟨_, hpush.trans hmute, List.forall_mem_append.mpr
    ⟨fun frame hframe => (hpushed frame hframe).1, by simpa using hdrop⟩⟩

end

namespace Apart

variable {v : View} {m p : Machine V} {top : Frame V} {above rest : List (Frame V)}
  [Storable V]

theorem resumes (h : Apart v (top :: above) rest m p) (hsound : m.Sound) (hunaided : v.Unaided m)
    (hquiet : v.Quiet m) {a : Answer V} (hdone : m.control = .done a) :
    ∃ pushed, (∀ frame ∈ pushed, Aside v p frame) ∧ Apart v (pushed ++ above) rest m.advance p ∧
      (∃ b, m.advance.control = .done b) ∧
        v.said m.advance.trace = top.outcome a ++ v.said m.trace := by
  have hstack : m.stack = top :: (above ++ rest) := h.stack
  obtain ⟨htop, habove⟩ := List.forall_mem_cons.mp h.aside
  let x : Machine V := { m with stack := above ++ rest }
  have hunder : Apart v above rest x p := ⟨rfl, habove, h.shown⟩
  have hclosed : v.Closed x.system := h.shown.closed
  have hadvance : m.advance = m.resume a := by rw [Machine.advance, hdone]
  have hfree (hwork : ¬ top.isFreeing) : x.Unheld :=
    unheld_of_no_disposing (hsound.orderly.no_disposing hstack hwork)
  have hlives {i : Nat} (halive : m.isAlive i) : p.isAlive i :=
    h.isAlive_of_kept (hunaided i halive)
  have hwhole {i : Nat} (halive : x.isAlive i) : m.isAlive i :=
    isAlive_of_sublist halive rfl fun frame hframe => hstack ▸ List.mem_cons_of_mem _ hframe
  have hmutes {m' : Machine V} (heq : m.advance = m') {pushed : List (Frame V)}
      (hmute : Mute v pushed x m') (hpushed : ∀ frame ∈ pushed, Aside v p frame) :
      ∃ pushed, (∀ frame ∈ pushed, Aside v p frame) ∧
        Apart v (pushed ++ above) rest m.advance p ∧ (∃ b, m.advance.control = .done b) ∧
          v.said m.advance.trace = v.said m.trace :=
    ⟨pushed, hpushed, heq ▸ hunder.mute hmute hpushed, heq ▸ hmute.done, heq ▸ hmute.said⟩
  have hresume (m' : Machine V) (heq : m.resume a = m') : m.advance = m' := hadvance.trans heq
  have hnothing {m' : Machine V} (heq : m.advance = m') (hsame : m' = x) :
      ∃ pushed, (∀ frame ∈ pushed, Aside v p frame) ∧
        Apart v (pushed ++ above) rest m.advance p ∧ (∃ b, m.advance.control = .done b) ∧
          v.said m.advance.trace = v.said m.trace := by
    have hmute : Mute v [] x x := ⟨rfl, rfl, id, ⟨a, hdone⟩, rfl⟩
    exact hmutes (heq.trans hsame) hmute (by simp)
  have hanswered (b : Answer V) : Mute v [] x (x.answer b) := ⟨rfl, rfl, id, ⟨b, rfl⟩, rfl⟩
  simp only [Machine.resume, hstack] at hresume
  rcases htop with hnested | htop
  · cases top with
    | nested runner step =>
        have heq : m.advance = (x.record (.nested runner step a)).answer .ok := hresume _ rfl
        refine ⟨[], by simp, ?_, ?_, ?_⟩
        · rw [heq]
          exact ⟨rfl, habove, ⟨h.shown.system, h.shown.stack, h.shown.closed, h.shown.frames⟩⟩
        · rw [heq]
          exact ⟨_, rfl⟩
        · rw [heq]
          rfl
    | _ => contradiction
  cases htop with
  | script name hkey => exact hmutes (hresume _ rfl) (hanswered .ok) (by simp)
  | @delivery event left habout hspared =>
      cases left with
      | nil => exact hmutes (hresume _ rfl) (hanswered .ok) (by simp)
      | cons i left =>
          obtain ⟨hcalls, hrecords⟩ := hquiet.resolve_left fun hall =>
            habout (View.about_of_all hall event.key)
          obtain ⟨pushed, hmute, hpushed⟩ := mute_delivery (m := x)
            (hfree (by simp [Frame.isFreeing])) hclosed habout hcalls hrecords hspared
          exact hmutes (hresume _ rfl) hmute hpushed
  | @turn i hspared =>
      have hmute : Mute v [.release [i]] x (x.push (.release [i])) :=
        ⟨rfl, rfl, id, ⟨a, hdone⟩, rfl⟩
      exact hmutes (hresume _ rfl) hmute (by simpa using Aside.release hspared)
  | keep halive => exact hnothing (hresume _ rfl) (reap_of_isAlive (hunder.isAlive halive))
  | held halive => exact hnothing (hresume _ rfl) (reap_of_isAlive (hunder.isAlive halive))
  | @release left hspared =>
      cases left with
      | nil => exact hnothing (hresume _ rfl) rfl
      | cons i left =>
          obtain ⟨pushed, hmute, hpushed⟩ := mute_free (m := x) hdone hunder hspared
            fun handler relay hhandler hforward => by
              obtain ⟨found, hfound, hfreed⟩ := hsound.custody.mentioned (.release (i :: left))
                (by simp [hstack]) i List.mem_cons_self
              cases hhandler.symm.trans hfound
              refine hlives (isAlive_iff.mpr (.inr (.inl ⟨handler,
                List.mem_of_getElem? hhandler, ?_⟩)))
              simp [Handler.keeps, Reaction.keeps, hfreed, hforward]
          exact hmutes (hresume _ rfl) hmute hpushed
  | @drop left hunseen =>
      cases left with
      | nil => exact hnothing (hresume _ rfl) rfl
      | cons sub left =>
          obtain ⟨pushed, hmute, hpushed⟩ := mute_drop (m := x) hdone hclosed hunseen
            fun halive => hlives (hwhole halive)
          exact hmutes (hresume _ rfl) hmute hpushed
  | forwarding =>
      have hmute : Mute v [] x (((x.mark .forwarded).mark .exitReceive).answer (.bool true)) :=
        ⟨rfl, rfl, id, ⟨_, rfl⟩, (View.said_mark (by rfl) _).trans (View.said_mark (by rfl) _)⟩
      exact hmutes (hresume _ rfl) hmute (by simp)

end Apart

end Machine

end TabRelay.Session
