import TabRelay.Proofs.Session.InStep

/-!
# How what is seen goes on

What is seen of a machine finds the same handlers running, referred to and
subscribed, and an area that lives for it lives for the whole.  As long as the
opposite holds as well, the topmost frame goes on alike in both machines.
-/

namespace TabRelay.Session

open TabRelay.Decoding TabRelay.Storage

variable {V : Type}

namespace View

variable {v : View}

theorem mem_numbers {i : Nat} (hi : v.handlers i) {handlers : List Nat} :
    rank v.handlers i ∈ v.numbers handlers ↔ i ∈ handlers := by
  simp only [numbers, List.mem_map, List.mem_filter]
  constructor
  · rintro ⟨j, ⟨hj, hseen⟩, hrank⟩
    rwa [← (rank_inj _ hseen hi).mp hrank]
  · exact fun hmem => ⟨i, ⟨hmem, hi⟩, rfl⟩

theorem keeps_frame (frame : Frame V) (i : Nat) (hseen : v.seesFrame frame) :
    (v.frame frame).keeps i = frame.keeps i := by
  cases frame with
  | held c => cases c <;> simp_all [View.frame, View.seesFrame, View.cell, Frame.keeps]
  | _ => rfl

theorem refersTo_frame {i : Nat} (hi : v.handlers i) {frame : Frame V}
    (hseen : v.seesFrame frame) :
    (v.frame frame).refersTo (rank v.handlers i) = frame.refersTo i := by
  cases frame with
  | delivery event left => simp [View.frame, Frame.refersTo, mem_numbers hi]
  | turn j => simp [View.frame, Frame.refersTo, rank_inj _ hseen hi]
  | _ => rfl

theorem keeps_handler (handler : Handler V) (i : Nat) :
    (v.handler handler).keeps i = handler.keeps i := by
  cases hreaction : handler.reaction <;>
    simp [View.handler, Handler.keeps, hreaction, View.reaction, Reaction.keeps, View.relay]

@[simp] theorem name_script (script : Script V) : (v.script script).name = script.name := by
  unfold View.script
  split <;> rfl

theorem next_script (script : Script V) :
    (v.script script).next = (script.next.1, v.script script.next.2) := by
  obtain ⟨name, steps, left⟩ := script
  by_cases hblurred : (!v.calls && steps.isEmpty) = true
  · have hsteps : steps = [] := by simp_all
    subst hsteps
    rcases left with _ | _ | n <;> simp_all [View.script, Script.next]
  · rcases left with _ | _ | n <;> simp [View.script, Script.next, hblurred]

/-- The area is kept by something that is seen, or until some frame is done. -/
inductive Kept (v : View) (m : Machine V) (i : Nat) : Prop where
  | storage {p : String × Handle} (hp : p ∈ m.system.storageNames) (hi : p.2.area = i)
  | relay {p : String × Relay} (hp : p ∈ m.system.relayNames) (hseen : v.names .relay p.1)
      (hi : p.2.handle.area = i)
  | handler {n : Nat} {handler : Handler V} (hhandler : m.system.handlers[n]? = some handler)
      (hseen : v.handlers n) (hi : handler.keeps i)
  | frame {frame : Frame V} (hframe : frame ∈ m.stack) (hi : frame.keeps i)

def Unaided (v : View) (m : Machine V) : Prop := ∀ i, m.isAlive i → v.Kept m i

theorem Kept.of_stack {m m' : Machine V} {i : Nat} (h : v.Kept m i)
    (hsystem : m'.system = m.system)
    (hframes : ∀ frame ∈ m.stack, frame.keeps i → frame ∈ m'.stack) : v.Kept m' i := by
  cases h with
  | storage hp hi => exact .storage (hsystem ▸ hp) hi
  | relay hp hseen hi => exact .relay (hsystem ▸ hp) hseen hi
  | handler hhandler hseen hi => exact .handler (hsystem ▸ hhandler) hseen hi
  | frame hframe hi => exact .frame (hframes _ hframe hi) hi

end View

namespace Machine

theorem sees_of_dead {v : View} {m : Machine V} (hclosed : v.Closed m.system)
    (hattached : m.system.Attached) (hlives : ∀ i ∈ m.system.subscribed, m.system.Lives i)
    {i : Nat} (hdead : ¬ m.isAlive i) {t : Subscriber} (ht : t ∈ (m.system.area i).subscribers) :
    v.handlers t.handler := by
  by_contra hunseen
  obtain ⟨handler, hhandler, hfreed⟩ := hlives t.handler (System.mem_subscribed ht)
  have hhushes := hclosed.hushesReaction hunseen hhandler
  cases hreaction : handler.reaction with
  | script script own => simp [hreaction, View.hushesReaction] at hhushes
  | forward relay =>
      have harea := hattached i t ht handler relay hhandler hreaction
      refine hdead (isAlive_iff.mpr (.inr (.inl ⟨handler, List.mem_of_getElem? hhandler, ?_⟩)))
      simp [Handler.keeps, Reaction.keeps, hfreed, hreaction, harea]

namespace Shown

variable {v : View} {m p : Machine V}

theorem isAlive_of_kept (h : Shown v m p) {i : Nat} (hkept : v.Kept m i) : p.isAlive i := by
  rw [isAlive_iff, h.system, h.stack]
  cases hkept with
  | storage hp hi => exact .inl (.inl ⟨_, hp, hi⟩)
  | @relay q hq hseen hi =>
      refine .inl (.inr ⟨(q.1, v.relay q.2), ?_, hi⟩)
      exact List.mem_map.mpr ⟨q, List.mem_filter.mpr ⟨hq, hseen⟩, rfl⟩
  | @handler n handler hhandler hseen hi =>
      refine .inr (.inl ⟨v.handler handler, ?_, by rwa [View.keeps_handler]⟩)
      exact List.mem_map_of_mem (mem_rest.mpr ⟨n, hseen, hhandler⟩)
  | @frame f hf hi =>
      refine .inr (.inr ⟨v.frame f, List.mem_map_of_mem hf, ?_⟩)
      rwa [View.keeps_frame f i (h.frames f hf)]

theorem isAlive_of_shown (h : Shown v m p) {i : Nat} (halive : p.isAlive i) : m.isAlive i := by
  rw [isAlive_iff, h.system, h.stack] at halive
  rw [isAlive_iff]
  rcases halive with (⟨q, hq, hi⟩ | ⟨q, hq, hi⟩) | ⟨handler, hhandler, hi⟩ | ⟨frame, hframe, hi⟩
  · exact .inl (.inl ⟨q, hq, hi⟩)
  · obtain ⟨r, hr, rfl⟩ := List.mem_map.mp hq
    exact .inl (.inr ⟨r, (List.mem_filter.mp hr).1, hi⟩)
  · obtain ⟨old, hold, rfl⟩ := List.mem_map.mp hhandler
    obtain ⟨n, -, hn⟩ := mem_rest.mp hold
    rw [View.keeps_handler] at hi
    exact .inr (.inl ⟨old, List.mem_of_getElem? hn, hi⟩)
  · obtain ⟨f, hf, rfl⟩ := List.mem_map.mp hframe
    rw [View.keeps_frame f i (h.frames f hf)] at hi
    exact .inr (.inr ⟨f, hf, hi⟩)

theorem isAlive_eq (h : Shown v m p) {i : Nat} (hkept : m.isAlive i → v.Kept m i) :
    p.isAlive i = m.isAlive i :=
  Bool.eq_iff_iff.mpr ⟨h.isAlive_of_shown, fun halive => h.isAlive_of_kept (hkept halive)⟩

theorem any_stack (h : Shown v m p) {f g : Frame V → Bool}
    (hsame : ∀ frame, v.seesFrame frame → f (v.frame frame) = g frame) :
    p.stack.any f = m.stack.any g := by
  rw [h.stack, List.any_map, Bool.eq_iff_iff, List.any_eq_true, List.any_eq_true]
  refine exists_congr fun frame => and_congr_right fun hframe => ?_
  rw [Function.comp_apply, hsame frame (h.frames frame hframe)]

theorem isReferred_eq (h : Shown v m p) {i : Nat} (hi : v.handlers i) :
    p.isReferred (rank v.handlers i) = m.isReferred i := by
  have hareas : p.system.areas.any (fun area => area.subscribers.any fun sub =>
      sub.handler = rank v.handlers i) =
      m.system.areas.any fun area => area.subscribers.any fun sub => sub.handler = i := by
    rw [h.system, Bool.eq_iff_iff]
    simp only [View.system, List.any_eq_true, decide_eq_true_eq, List.mem_mapIdx]
    constructor
    · rintro ⟨-, ⟨j, hj, rfl⟩, sub, hsub, hhandler⟩
      obtain ⟨t, ht, rfl⟩ := List.mem_map.mp hsub
      obtain ⟨ht, hseen⟩ := List.mem_filter.mp ht
      exact ⟨_, List.getElem_mem hj, t, ht, (rank_inj _ hseen hi).mp hhandler⟩
    · rintro ⟨area, harea, t, ht, rfl⟩
      obtain ⟨j, hj, rfl⟩ := List.getElem_of_mem harea
      refine ⟨_, ⟨j, hj, rfl⟩, v.subscriber j t, ?_, rfl⟩
      exact List.mem_map_of_mem (List.mem_filter.mpr ⟨ht, hi⟩)
  have hstack : p.stack.any (·.refersTo (rank v.handlers i)) = m.stack.any (·.refersTo i) :=
    h.any_stack fun frame hseen => View.refersTo_frame hi hseen
  rw [isReferred, hareas, hstack, isReferred]

theorem isRunning_eq (h : Shown v m p) {i : Nat} (hi : v.handlers i) :
    p.isRunning (rank v.handlers i) = m.isRunning i := by
  refine h.any_stack fun frame hseen => ?_
  cases frame with
  | turn j => simp [View.frame, rank_inj _ hseen hi]
  | _ => rfl

theorem isHeld_eq (h : Shown v m p) (i : Nat) : p.isHeld (.area i) = m.isHeld (.area i) := by
  refine h.any_stack fun frame hseen => ?_
  cases frame with
  | held c => cases c <;> simp_all [View.frame, View.seesFrame, View.cell]
  | _ => rfl

theorem handler (h : Shown v m p) {i : Nat} (hi : v.handlers i) :
    p.system.handlers[rank v.handlers i]? = m.system.handlers[i]?.map v.handler := by
  rw [h.system, View.getElem?_handlers hi]

end Shown

/-! ## Freeing -/

namespace InStep

variable {v : View} {before : List (Entry V) × List (Entry V)} {m p : Machine V}

theorem push (h : InStep v before m p) {f : Frame V} (hframe : v.seesFrame f) :
    InStep v before (m.push f) (p.push (v.frame f)) :=
  ⟨h.toShows.push hframe, h.control⟩

theorem setArea (h : InStep v before m p) {i : Nat} {a a' : Area} (ha : a' = v.area i a)
    (hsubscribers : ∀ t ∈ a.subscribers, v.subscriptions i t.id = v.handlers t.handler) :
    InStep v before (m.setArea i a) (p.setArea i a') :=
  ⟨h.toShows.setArea ha hsubscribers, h.control⟩

theorem reap (h : InStep v before m p) (hattached : m.system.Attached)
    (hlives : ∀ i ∈ m.system.subscribed, m.system.Lives i) {i : Nat}
    (hkept : m.isAlive i → v.Kept m i) : InStep v before (m.reap i) (p.reap i) := by
  have halive := h.isAlive_eq hkept
  unfold Machine.reap
  rw [halive]
  split
  · exact h
  · rename_i hdead
    have hreleased : v.seesFrame (.release ((m.system.area i).subscribers.map (·.handler)) : Frame V) := by
      simp only [View.seesFrame, List.all_map, List.all_eq_true]
      exact fun t ht => sees_of_dead h.closed hattached hlives hdead ht
    have hset : InStep v before (m.setArea i { m.system.area i with subscribers := [] })
        (p.setArea i { v.area i (m.system.area i) with subscribers := [] }) :=
      h.setArea rfl (by simp)
    have hpush := hset.push hreleased
    rw [h.area]
    have hframe : v.frame (.release ((m.system.area i).subscribers.map (·.handler))) =
        (.release ((v.area i (m.system.area i)).subscribers.map (·.handler)) : Frame V) := by
      simp [View.frame, View.numbers, View.area, View.subscribers, List.filter_map,
        Function.comp_def, View.subscriber]
    rw [hframe] at hpush
    exact hpush

theorem free (h : InStep v before m p) {i : Nat} (hi : v.handlers i) :
    InStep v before (m.free i) (p.free (rank v.handlers i)) := by
  unfold Machine.free
  rw [h.isReferred_eq hi, h.handler hi]
  split
  · exact h
  · cases hhandler : m.system.handlers[i]? with
    | none => exact h
    | some handler =>
        have hreaction := h.closed.seesReaction hi hhandler
        have hfreed : InStep v before
            (m.update (m.system.setHandler i { handler with freed := true }))
            (p.update (p.system.setHandler (rank v.handlers i)
              { v.handler handler with freed := true })) := by
          refine ⟨h.toShows.update ?_ (h.closed.setHandler ?_), h.control⟩
          · rw [h.system, View.system_setHandler hi]
            rfl
          · rw [hi]
            exact hreaction
        obtain ⟨reaction, freed⟩ := handler
        cases reaction with
        | script script own => exact hfreed.push (f := .drop own) hreaction
        | forward relay => exact hfreed.push (f := .keep relay.handle.area) rfl

theorem detach (h : InStep v before m p) {sub : Subscription} (hsub : v.seesSubscription sub)
    (hkept : m.isAlive sub.area → v.Kept m sub.area) :
    InStep v before (m.detach sub) (p.detach (v.subscription sub)) := by
  have hclosed := h.closed.subscribers sub.area
  have hfound : (p.system.area sub.area).subscriber? (v.subscription sub).id =
      ((m.system.area sub.area).subscriber? sub.id).map (v.subscriber sub.area) := by
    rw [h.area]
    exact View.area_subscriber? hclosed hsub
  have halive : p.isAlive (v.subscription sub).area = m.isAlive sub.area := h.isAlive_eq hkept
  have hheld : p.isHeld (.area (v.subscription sub).area) = m.isHeld (.area sub.area) :=
    h.isHeld_eq sub.area
  unfold Machine.detach
  rw [halive, hheld]
  split
  · exact h
  · have harea : (v.subscription sub).area = sub.area := rfl
    simp only [harea, hfound]
    cases hsubscriber : (m.system.area sub.area).subscriber? sub.id with
    | none => exact h
    | some subscriber =>
        obtain ⟨hmem, hid⟩ := subscriber?_eq_some hsubscriber
        have hhandler : v.handlers subscriber.handler := by
          rw [← hclosed subscriber hmem, hid]
          exact hsub
        have hset : InStep v before
            (m.setArea sub.area ((m.system.area sub.area).unsubscribe sub.id))
            (p.setArea sub.area
              ((p.system.area sub.area).unsubscribe (v.subscription sub).id)) := by
          refine h.setArea ?_ fun t ht => hclosed t (List.mem_filter.mp ht).1
          rw [h.area]
          exact (View.area_unsubscribed hclosed hsub).symm
        have hheld := hset.push (f := .held (.area sub.area)) rfl
        have hreleased := hheld.push (f := .release [subscriber.handler])
          (by simpa [View.seesFrame] using hhandler)
        have hframe : v.frame (.release [subscriber.handler]) =
            (.release [(v.subscriber sub.area subscriber).handler] : Frame V) := by
          simp [View.frame, View.numbers, hhandler, View.subscriber]
        rw [hframe] at hreleased
        exact hreleased

end InStep

/-! ## Calling handlers -/

namespace Shows

variable {v : View} {before : List (Entry V) × List (Entry V)} {m p : Machine V}

theorem react (h : Shows v before m p) (hfree : m.Unheld) {i : Nat} (hi : v.handlers i)
    {event : Event} (habout : v.about event.key) :
    InStep v before (m.react i event) (p.react (rank v.handlers i) event) := by
  unfold Machine.react
  rw [h.handler hi]
  cases hhandler : m.system.handlers[i]? with
  | none => exact h.answer .ok
  | some handler =>
      have hreaction := h.closed.seesReaction hi hhandler
      obtain ⟨reaction, freed⟩ := handler
      cases reaction with
      | forward relay => exact h.receive hfree hreaction habout
      | script script own =>
          have hset : Shows v before
              ((m.record (.heard script.next.2.name event)).update (m.system.setHandler i
                ⟨.script script.next.2 own, freed⟩))
              ((p.record (.heard script.next.2.name event)).update
                (p.system.setHandler (rank v.handlers i)
                  ⟨.script (v.script script.next.2) (v.owned own), freed⟩)) := by
            refine (h.record _).update ?_ (h.closed.setHandler ?_)
            · rw [h.system, View.system_setHandler hi]
              rfl
            · rw [hi]
              exact hreaction
          simp only [Option.map_some, View.handler, View.reaction, View.next_script,
            View.name_script]
          exact hset.runScript _ _

theorem visit (h : Shows v before m p) (hfree : m.Unheld) {i : Nat} (hi : v.handlers i)
    {event : Event} (habout : v.about event.key) (left : List Nat) :
    InStep v before (m.visit event i left)
      (p.visit event (rank v.handlers i) (v.numbers left)) := by
  have hwaiting := h.push (f := .delivery event left) habout
  unfold Machine.visit
  rw [h.isRunning_eq hi]
  split
  · exact (hwaiting.record _).answer .ok
  · have hturn := hwaiting.push (f := .turn i) hi
    have hunheld : ((m.push (.delivery event left)).push (.turn i)).Unheld := by
      have hdelivery : (m.push (.delivery event left)).Unheld :=
        hfree.push (by simp [Frame.isDisposing])
      exact hdelivery.push (by simp [Frame.isDisposing])
    exact hturn.react hunheld hi habout

end Shows

namespace Shows

variable {v : View} {before : List (Entry V) × List (Entry V)} {m p : Machine V} [Storable V]

theorem delivers (h : Shows v before m p) (hsound : m.Sound) {a b : Answer V}
    (hdone : m.control = .done a) (hdone' : p.control = .done b) {event : Event}
    {left : List Nat} {rest : List (Frame V)} (hstack : m.stack = .delivery event left :: rest)
    (hvisits : ∀ i more, left = i :: more → v.handlers i) :
    InStep v before m.advance p.advance := by
  obtain ⟨habout, hstack', hpopped⟩ := h.pop hstack
  have hfree : ({ m with stack := rest } : Machine V).Unheld :=
    unheld_of_no_disposing (hsound.orderly.no_disposing hstack (by simp [Frame.isFreeing]))
  rw [Machine.advance, hdone, Machine.advance, hdone']
  simp only [Machine.resume, hstack, hstack']
  cases left with
  | nil => exact hpopped.answer .ok
  | cons i left =>
      have hi := hvisits i left rfl
      have hnumbers : v.numbers (i :: left) = rank v.handlers i :: v.numbers left := by
        simp [View.numbers, hi]
      simp only [View.frame, hnumbers]
      exact hpopped.visit hfree hi habout left

end Shows

/-! ## The topmost frame -/

theorem isAlive_of_sublist {m m' : Machine V} {i : Nat} (halive : m.isAlive i)
    (hsystem : m'.system = m.system) (hframes : ∀ frame ∈ m.stack, frame ∈ m'.stack) :
    m'.isAlive i := by
  rw [isAlive_iff] at halive ⊢
  rw [hsystem]
  rcases halive with hnames | hhandlers | ⟨frame, hframe, hkeeps⟩
  · exact .inl hnames
  · exact .inr (.inl hhandlers)
  · exact .inr (.inr ⟨frame, hframes frame hframe, hkeeps⟩)

namespace InStep

variable {v : View} {before : List (Entry V) × List (Entry V)} {m p : Machine V} [Storable V]

theorem resumes (h : InStep v before m p) (hsound : m.Sound) (hnow : v.Unaided m)
    (hnext : v.Unaided m.advance) {a : Answer V} (hdone : m.control = .done a)
    {top : Frame V} {rest : List (Frame V)} (hstack : m.stack = top :: rest)
    (hsteps : ∀ runner step left, top ≠ .script runner (step :: left))
    (hvisits : ∀ event i left, top = .delivery event (i :: left) → v.handlers i)
    (hdrops : ∀ sub left, top = .drop (sub :: left) → v.seesSubscription sub) :
    InStep v before m.advance p.advance := by
  obtain ⟨htop, hstack', hpopped⟩ := h.toShows.pop hstack
  have hdone' : p.control = .done a := by rw [h.control, hdone]; rfl
  have hunder : InStep v before { m with stack := rest } { p with stack := rest.map v.frame } :=
    ⟨hpopped, h.control⟩
  have hfree (hwork : ¬ top.isFreeing) : ({ m with stack := rest } : Machine V).Unheld :=
    unheld_of_no_disposing (hsound.orderly.no_disposing hstack hwork)
  have hlives : ∀ i ∈ m.system.subscribed, m.system.Lives i := hsound.custody.subscribed
  have hreap (i : Nat) (hadvance : m.advance = { m with stack := rest }.reap i) :
      InStep v before (({ m with stack := rest } : Machine V).reap i)
        (({ p with stack := rest.map v.frame } : Machine V).reap i) := by
    refine hunder.reap hsound.attached hlives fun halive => ?_
    have hsame : m.advance = { m with stack := rest } := by
      rw [hadvance, Machine.reap, if_pos halive]
    exact hsame ▸ hnext i (hsame ▸ halive)
  have hadvance : m.advance = m.resume a := by rw [Machine.advance, hdone]
  have hadvance' : p.advance = p.resume a := by rw [Machine.advance, hdone']
  rw [hadvance] at hreap
  rw [hadvance, hadvance']
  simp only [Machine.resume, hstack, hstack'] at hreap ⊢
  cases top with
  | script runner left =>
      cases left with
      | nil => exact hpopped.answer .ok
      | cons step left => exact absurd rfl (hsteps runner step left)
  | nested runner step => exact (hpopped.record _).answer .ok
  | delivery event left =>
      have hdelivers := h.toShows.delivers hsound hdone hdone' hstack fun i left hleft =>
        hvisits event i left (hleft ▸ rfl)
      rw [Machine.advance, hdone, Machine.advance, hdone'] at hdelivers
      simpa only [Machine.resume, hstack, hstack'] using hdelivers
  | turn i =>
      have hreleased := hunder.push (f := .release [i]) (by simpa [View.seesFrame] using htop)
      have hframe : v.frame (.release [i]) = (.release [rank v.handlers i] : Frame V) := by
        have hi : v.handlers i := htop
        simp [View.frame, View.numbers, hi]
      rw [hframe] at hreleased
      exact hreleased
  | keep i => exact hreap i rfl
  | held c =>
      cases c with
      | area i => exact hreap i rfl
      | queue queue => contradiction
      | log log => contradiction
  | release left =>
      cases left with
      | nil => exact hunder
      | cons i left =>
          simp only [View.seesFrame, List.all_cons, Bool.and_eq_true] at htop
          have hnumbers : v.numbers (i :: left) = rank v.handlers i :: v.numbers left := by
            simp [View.numbers, htop.1]
          simp only [View.frame, hnumbers]
          exact (hunder.push (f := .release left) htop.2).free htop.1
  | drop left =>
      cases left with
      | nil => exact hunder
      | cons sub left =>
          have hsub := hdrops sub left rfl
          have howned : v.owned (sub :: left) = v.subscription sub :: v.owned left := by
            simp [View.owned, hsub]
          simp only [View.frame, howned]
          refine (hunder.push (f := .drop left) rfl).detach hsub fun halive => ?_
          have hbelow : ({ m with stack := rest } : Machine V).isAlive sub.area := by
            simpa [isAlive, Machine.push, Frame.keeps] using halive
          have hwhole : m.isAlive sub.area :=
            isAlive_of_sublist hbelow rfl fun frame hframe =>
              hstack ▸ List.mem_cons_of_mem _ hframe
          refine (hnow sub.area hwhole).of_stack rfl fun frame hframe hkeeps => ?_
          rw [hstack] at hframe
          rcases List.mem_cons.mp hframe with rfl | hframe
          · contradiction
          · exact List.mem_cons_of_mem _ hframe
  | writing relay w stored =>
      simp only [View.seesFrame, Bool.and_eq_true] at htop
      exact hpopped.finishWrite (hfree (by simp [Frame.isFreeing])) htop.1 htop.2 stored a
  | forwarding => exact ((hpopped.mark (by rfl) (by rfl)).mark (by rfl) (by rfl)).answer _
  | drain queue started =>
      exact hpopped.drain (hfree (by simp [Frame.isFreeing])) htop started

theorem begins (h : InStep v before m p) (hsound : m.Sound) {step : Step V}
    (hrun : m.control = .run step) (hsuits : Suits v m.system step) :
    InStep v before m.advance p.advance := by
  have hrun' : p.control = .run (v.step step) := by rw [h.control, hrun]; rfl
  have hfree := unheld_of_no_disposing (hsound.orderly.running step hrun)
  rw [Machine.advance, hrun, Machine.advance, hrun']
  exact h.toShows.begin hfree hsound.neat hsuits

end InStep

end Machine

end TabRelay.Session
