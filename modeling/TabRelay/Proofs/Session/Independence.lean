import TabRelay.Proofs.Session.Following

/-!
# Keys do not interfere

In a plain session tabs set and remove keys, and handlers only record what they
hear.  What is seen of it when all keys but one are left out is a session again,
that of the operations on this key.  So operations on different keys can change
places.
-/

namespace TabRelay.Session

open TabRelay.Storage

variable {V : Type}

/-! ## Plain sessions -/

/-- Relays and handlers only record, and no area has a quota. -/
structure System.Plain (s : System V) : Prop where
  handlers : ∀ handler ∈ s.handlers, handler.reaction.records
  relays : ∀ p ∈ s.relayNames, p.2.records
  quota : ∀ i, (s.area i).quota = none

def Frame.isPlain : Frame V → Bool
  | .script _ left => left.isEmpty
  | .drain _ _ => false
  | _ => true

namespace System.Plain

variable {s : System V}

theorem setHandler (h : s.Plain) (i : Nat) {changed : Handler V}
    (hchanged : changed.reaction.records) : (s.setHandler i changed).Plain :=
  { h with
    handlers := by
      intro handler hhandler
      rcases List.mem_or_eq_of_mem_set hhandler with hold | rfl
      · exact h.handlers handler hold
      · exact hchanged }

theorem setArea (h : s.Plain) (j : Nat) {changed : Area} (hchanged : changed.quota = none) :
    (s.setArea j changed).Plain :=
  { h with
    quota := by
      intro i
      rcases s.area_setArea_or j changed i with hsame | ⟨-, hset⟩
      · rw [hsame, h.quota]
      · rw [hset, hchanged] }

theorem addArea (h : s.Plain) {a : Area} (ha : a.quota = none) : (s.addArea a).1.Plain :=
  { h with
    quota := by
      intro i
      rcases s.area_addArea_or a i with hsame | hadded
      · rw [hsame, h.quota]
      · rw [hadded, ha] }

theorem nameRelay (h : s.Plain) (id : String) {relay : Relay} (hrelay : relay.records) :
    (s.nameRelay id relay).Plain :=
  { h with
    relays := by
      intro p hp
      rcases Keyed.mem_insert hp with rfl | hp
      · exact hrelay
      · exact h.relays p hp }

theorem registered (h : s.Plain) (handle : Handle) (id : String) {reaction : Reaction V}
    (hrecords : reaction.records) : (Machine.registered s handle id reaction).Plain := by
  have hadded : (s.addHandler reaction).1.Plain :=
    { h with
      handlers := by
        intro handler hhandler
        rcases List.mem_append.mp hhandler with hold | hnew
        · exact h.handlers handler hold
        · rw [List.mem_singleton.mp hnew]
          exact hrecords }
  have hset : ((s.addHandler reaction).1.setArea handle.area
      ((s.area handle.area).subscribe handle.tab s.handlers.length).1).Plain :=
    hadded.setArea handle.area (h.quota handle.area)
  exact { hset with }

end System.Plain

namespace Machine

structure Plain (m : Machine V) : Prop where
  system : m.system.Plain
  stack : ∀ frame ∈ m.stack, frame.isPlain
  control : ∀ step, m.control = .run step → step.isByKey

theorem isPlain_of_isFreeing {frame : Frame V} (h : frame.isFreeing) : frame.isPlain := by
  cases frame <;> first | rfl | contradiction

theorem Awaits.isPlain {m : Machine V} {step : Step V} {h : Handle} {waiting : List (Frame V)}
    (hwaiting : m.Awaits step h waiting) : ∀ frame ∈ waiting, frame.isPlain := by
  cases hwaiting <;> simp [Frame.isPlain]

variable [Storable V] {m : Machine V}

theorem plain_makes {step : Step V} (h : m.system.Plain) (hstep : step.isByKey)
    (hmakes : step.makesRelay) : (m.begin step).system.Plain := by
  have hmade (id storage queue : String) {listener : Listener}
      (hlistener : ∀ handle queue, (⟨handle, queue, listener⟩ : Relay).records) :
      (m.makeRelay id storage queue listener).system.Plain := by
    simp only [makeRelay, withStorage, withQueue, withNamed]
    split
    · exact h
    · split
      · exact h
      · rw [nameRelay_eq]
        exact h.nameRelay id (hlistener _ _)
  cases step with
  | relayToLog id storage queue log =>
      simp only [begin, withLog, withNamed]
      split
      · exact h
      · exact hmade id storage queue fun _ _ => rfl
  | relayToNone id storage queue => exact hmade id storage queue fun _ _ => rfl
  | _ => contradiction

theorem Begins.plain {step : Step V} {s : System V} {pushed : List (Frame V)} {a : Answer V}
    (h : Begins m step s pushed a) (hplain : m.system.Plain) (hstep : step.isByKey)
    (hbegin : (m.begin step).system = s) : s.Plain ∧ ∀ frame ∈ pushed, frame.isPlain := by
  cases h with
  | answers step a => exact ⟨hplain, by simp⟩
  | @creates step id area hnew =>
      have harea : area.quota = none := by
        cases step <;> cases hnew <;> first | rfl | contradiction
      have hadded := hplain.addArea harea
      exact ⟨{ hadded with }, by simp [dropsOldStorage, Frame.isPlain]⟩
  | @opensTab id storage h hname =>
      have hset : (m.system.setArea h.area (m.system.area h.area).openTab.1).Plain :=
        hplain.setArea h.area (hplain.quota h.area)
      exact ⟨{ hset with }, by simp [dropsOldStorage, Frame.isPlain]⟩
  | namesTab hname => exact ⟨{ hplain with }, by simp [dropsOldStorage, Frame.isPlain]⟩
  | dropsTab hname => exact ⟨{ hplain with }, by simp [Frame.isPlain]⟩
  | @operates step call waiting outcome hcall hwaiting houtcome =>
      subst houtcome
      obtain ⟨entries, harea⟩ := area_perform (m.system.area call.handle.area) call.operation
      refine ⟨hplain.setArea _ (by rw [harea]; exact hplain.quota _),
        List.forall_mem_append.mpr ⟨fun frame hframe => ?_, hwaiting.isPlain⟩⟩
      obtain ⟨event, rfl⟩ := mem_deliveries hframe
      rfl
  | barred e hasked hwaiting => exact ⟨hplain, hwaiting.isPlain⟩
  | @subscribes storage id steps times own s subs h hsubscribing htake =>
      obtain ⟨names, rfl⟩ := System.takeSubscriptions_eq htake
      have htaken : ({ m.system with subscriptionNames := names } : System V).Plain :=
        { hplain with }
      have hrecords : (Reaction.script ⟨id, steps, times⟩ subs : Reaction V).records := hstep
      exact ⟨htaken.registered h id hrecords, by simp [dropsOldSubscription, Frame.isPlain]⟩
  | failsToSubscribe htake =>
      obtain ⟨names, rfl⟩ := System.takeSubscriptions_eq htake
      exact ⟨{ hplain with }, by simp [Frame.isPlain]⟩
  | @listens name id relay hsubscribing hname =>
      have hrecords : (Reaction.forward relay : Reaction V).records :=
        hplain.relays _ (Keyed.mem_of_lookup? hname)
      exact ⟨hplain.registered relay.handle id hrecords,
        by simp [dropsOldSubscription, Frame.isPlain]⟩
  | dropsSubscription hname => exact ⟨{ hplain with }, by simp [Frame.isPlain]⟩
  | createsLog id => exact ⟨{ hplain with }, by simp⟩
  | createsQueue id => exact ⟨{ hplain with }, by simp⟩
  | namesRelay hhandle hqueue hlog hscripts hmakes =>
      exact ⟨hbegin ▸ plain_makes hplain hstep hmakes, by simp [dropsOldRelay, Frame.isPlain]⟩
  | @renamesRelay name id relay hname =>
      exact ⟨hplain.nameRelay id (hplain.relays _ (Keyed.mem_of_lookup? hname)),
        by simp [dropsOldRelay, Frame.isPlain]⟩
  | dropsRelay hname =>
      refine ⟨{ hplain with
        relays := fun p hp => hplain.relays p ((Keyed.erase_sublist _ _).mem hp) }, ?_⟩
      simp [Frame.isPlain]
  | shortensLog a hedits hshorter => cases step <;> contradiction
  | extendsLog hdirect => cases step <;> contradiction
  | failsToEncode source hwrite hname => cases step <;> contradiction
  | _ => contradiction

omit [Storable V] in
theorem Receives.isPlain {s s' : System V} {relay : Relay} {event : Event}
    {frames : List (Frame V)} {a : Answer V} (h : Receives s relay event s' frames a)
    (hrecords : relay.records) : ∀ frame ∈ frames, frame.isPlain := by
  cases h with
  | ignores harea => simp
  | forwards harea htells =>
      have hlistener : ∀ n, relay.listener ≠ .script n := by
        intro n hn
        simp [Relay.records, hn] at hrecords
      generalize relay.listener = listener at htells hlistener
      cases htells with
      | toScript hscript => exact absurd rfl (hlistener _)
      | _ => simp [Frame.isPlain]

omit [Storable V] in
theorem Reacts.plain {s s' : System V} {i : Nat} {event : Event} {frames : List (Frame V)}
    {a : Answer V} (h : Reacts s i event s' frames a) (hplain : s.Plain) :
    s'.Plain ∧ ∀ frame ∈ frames, frame.isPlain := by
  cases h with
  | missing hhandler => exact ⟨hplain, by simp⟩
  | @script handler script own hhandler hreaction =>
      have hrecords := hplain.handlers handler (List.mem_of_getElem? hhandler)
      rw [hreaction] at hrecords
      have hsteps : script.steps = [] := List.isEmpty_iff.mp hrecords
      refine ⟨hplain.setHandler i ?_, ?_⟩
      · simp [Reaction.records, Script.next_steps, hsteps]
      · have hnone : script.next.1 = [] :=
          List.sublist_nil.mp (hsteps ▸ script.next_sublist)
        simp [Frame.isPlain, hnone]
  | @forward handler relay _ _ _ hhandler hreaction hreceives =>
      have hrecords := hplain.handlers handler (List.mem_of_getElem? hhandler)
      rw [hreaction] at hrecords
      have hframes := Receives.isPlain hreceives hrecords
      obtain ⟨logs, scripts, rfl⟩ := hreceives.eq
      exact ⟨{ hplain with }, hframes⟩

omit [Storable V] in
theorem Continues.plain {top : Frame V} {b : Answer V} {s : System V} {pushed : List (Frame V)}
    {control : Control V} {warned : List (Entry V)} (h : Continues m top b s pushed control warned)
    (hplain : m.system.Plain) (htop : top.isPlain) :
    s.Plain ∧ (∀ frame ∈ pushed, frame.isPlain) ∧ ∃ a, control = .done a := by
  cases h with
  | calls b hrunning hreacts =>
      obtain ⟨hsystem, hframes⟩ := Reacts.plain hreacts hplain
      refine ⟨hsystem, List.forall_mem_append.mpr ⟨hframes, by simp [Frame.isPlain]⟩, _, rfl⟩
  | writeEnds relay w stored hb => exact ⟨{ hplain with }, by simp, _, rfl⟩
  | runsStep b runner step left => contradiction
  | drains b hdrains => contradiction
  | _ => exact ⟨hplain, by simp [Frame.isPlain], _, rfl⟩

omit [Storable V] in
theorem Frees.plain {top : Frame V} {s : System V} {pushed : List (Frame V)}
    (h : Frees m top s pushed) (hplain : m.system.Plain) : s.Plain := by
  cases h with
  | @reaps top i hkeeps hdead => exact hplain.setArea i (hplain.quota i)
  | @frees i left handler hreferred hhandler =>
      have hrecords := hplain.handlers handler (List.mem_of_getElem? hhandler)
      exact hplain.setHandler i hrecords
  | @detaches sub left subscriber halive hheld hfound =>
      exact hplain.setArea sub.area (hplain.quota sub.area)
  | _ => exact hplain

theorem Plain.advance (h : m.Plain) (horderly : m.Orderly) : m.advance.Plain := by
  obtain ⟨pushed, warned, heffect, hstack, -⟩ := advance_becomes horderly
  have hstays (hsystem : m.advance.system.Plain) (hpushed : ∀ frame ∈ pushed, frame.isPlain)
      (hcontrol : ∀ step, m.advance.control = .run step → step.isByKey) : m.advance.Plain := by
    refine ⟨hsystem, ?_, hcontrol⟩
    rw [hstack]
    exact List.forall_mem_append.mpr ⟨hpushed, fun frame hframe => h.stack frame (mem_below hframe)⟩
  cases hcontrol : m.control with
  | run step =>
      obtain ⟨a, hdone, hbegins⟩ := heffect.of_run hcontrol
      obtain ⟨hsystem, hpushed⟩ := hbegins.plain h.system (h.control step hcontrol)
        (by rw [← advance_of_run hcontrol])
      exact hstays hsystem hpushed (by simp [hdone])
  | conflict cell =>
      have hsame : m.advance = m := by rw [Machine.advance, hcontrol]
      exact hsame.symm ▸ h
  | done b =>
      cases htop : m.stack with
      | nil =>
          have hsame : m.advance = m := by
            simp only [Machine.advance, hcontrol, resume, htop]
          exact hsame.symm ▸ h
      | cons top rest =>
          rcases heffect.of_done hcontrol htop with hcontinues | ⟨-, hfrees, hdone⟩
          · obtain ⟨hsystem, hpushed, a, hdone⟩ := hcontinues.plain h.system
              (h.stack top (htop ▸ List.mem_cons_self))
            exact hstays hsystem hpushed (by simp [hdone])
          · exact hstays (hfrees.plain h.system)
              (fun frame hframe => isPlain_of_isFreeing (hfrees.isFreeing frame hframe))
              (by simp [hdone])

def IsPlain (m : Machine V) : Prop := (∃ moves, m = idle.playAll moves) ∧ m.Plain

theorem steady_plain : Steady false (fun step : Step V => step.isByKey) IsPlain where
  reached := fun _ hm => hm.1
  goes := by
    rintro m ⟨-, hplain⟩ runner step left rest hstack
    have htop := hplain.stack (.script runner (step :: left)) (by simp [hstack])
    contradiction
  play := by
    rintro m move ⟨⟨moves, rfl⟩, hplain⟩ hallowed
    refine ⟨⟨moves ++ [move], by simp⟩, ?_⟩
    cases move with
    | advance => exact hplain.advance (orderly_playAll moves)
    | begin step =>
        simp only [play]
        split
        · refine ⟨hplain.system, by simp [start], ?_⟩
          rintro other ⟨⟩
          exact hallowed
        · exact hplain
    | decide left =>
        have hnone : left = [] := by
          cases left with
          | nil => rfl
          | cons step left => exact absurd (hallowed step List.mem_cons_self).1 Bool.false_ne_true
        subst hnone
        simp only [play]
        split
        · rename_i runner old stack hstack
          refine ⟨hplain.system, List.forall_mem_cons.mpr ⟨rfl, fun frame hframe => ?_⟩,
            hplain.control⟩
          exact hplain.stack frame (hstack ▸ List.mem_cons_of_mem _ hframe)
        · exact hplain

theorem isPlain_idle : (idle : Machine V).IsPlain := by
  refine ⟨⟨[], rfl⟩, ⟨by simp [idle], by simp [idle], fun i => ?_⟩, by simp [idle], by simp [idle]⟩
  simp [idle, System.area, default, instInhabitedArea.default]

end Machine

/-! ## One key -/

/-- All keys but one are left out, and so is how often handlers are called. -/
def View.ofKey (key : String) : View where
  keys := (· = key)
  names := fun _ _ => true
  handlers := fun _ => true
  subscriptions := fun _ _ => true
  logs := fun _ => true
  queues := fun _ => true
  calls := false

def keeping (key : String) (steps : List (Step V)) : List (Step V) :=
  steps.filter fun step => step.changedKey?.all (· = key)

namespace View

variable {key : String}

theorem hides_ofKey (step : Step V) :
    (ofKey key).hides step = !step.changedKey?.all (· = key) := by
  cases step <;> simp [hides, ofKey, Step.changedKey?]

theorem choices_ofKey (steps : List (Step V)) :
    (ofKey key).choices (steps.map some) =
      ((keeping key steps).map (ofKey key).step).map some := by
  simp only [choices, keeping, List.filter_map, List.map_map]
  refine congrArg₂ List.map (funext fun step => rfl) (List.filter_congr fun step _ => ?_)
  simp [hidesChoice, hides_ofKey]

theorem isByKey_step (v : View) {step : Step V} (h : step.isByKey) : (v.step step).isByKey := by
  cases step <;> exact h

theorem lookup?_logNames (key : String) (s : System V) (id : String) :
    Keyed.lookup? id ((ofKey key).system s).logNames = Keyed.lookup? id s.logNames := by
  have hid : (ofKey key).names .log id := rfl
  rw [system, lookup?_named hid, funext (rank_of_all (ofKey key).logs fun _ => rfl)]
  exact Option.map_id'

end View

namespace Machine

variable [Storable V] {key : String}

theorem IsPlain.calm {m : Machine V} (h : m.IsPlain) : Calm (.ofKey key) m := by
  refine ⟨fun i halive => ?_, .inr ⟨rfl, h.2.system.handlers⟩⟩
  rcases isAlive_iff.mp halive with (⟨p, hp, hi⟩ | ⟨p, hp, hi⟩) | ⟨handler, hhandler, hi⟩ |
    ⟨frame, hframe, hi⟩
  · exact .storage hp hi
  · exact .relay hp rfl hi
  · obtain ⟨n, hn⟩ := List.mem_iff_getElem?.mp hhandler
    exact .handler hn rfl hi
  · exact .frame hframe hi

omit [Storable V] in
theorem hides_ofKey (s : System V) {step : Step V} (h : (View.ofKey key).hides step) :
    (View.ofKey key).Hides s step := by
  refine ⟨h, ?_, ?_, ?_⟩ <;>
    cases step <;> simp [View.hides, View.ofKey, Step.subscribing?] at h ⊢

omit [Storable V] in
theorem countsSubscribers_of_isByKey {step : Step V} (h : step.isByKey) :
    step.countsSubscribers = false := by
  cases step <;> first | rfl | contradiction

theorem IsPlain.suits {m : Machine V} (h : m.IsPlain) {step : Step V} (hstep : step.isByKey)
    (hseen : ¬ (View.ofKey key).hides step) : Suits (.ofKey key) m.system step where
  names := fun _ _ => rfl
  counts := countsSubscribers_of_isByKey hstep
  reads := fun hreads => absurd hstep (Bool.eq_false_iff.mp hreads)
  changes := by
    intro other hother
    rw [View.hides_ofKey, hother] at hseen
    simpa [View.ofKey] using hseen
  quota := .inr h.2.system.quota
  registers := fun _ _ _ => ⟨rfl, rfl⟩
  log := fun _ _ => rfl
  queue := fun _ _ => rfl

theorem divides_ofKey {steps : List (Step V)} (hsteps : ∀ step ∈ steps, step.isByKey) :
    Divides (.ofKey key) false (idle : Machine V) (steps.map some) := by
  have hchooses : ∀ step, some step ∈ steps.map some → step.isByKey := by
    intro step hstep
    obtain ⟨other, hother, hsame⟩ := List.mem_map.mp hstep
    exact Option.some.inj hsame ▸ hsteps other hother
  have hoccasions := steady_plain.mem_occasions isPlain_idle (ready_idle false) hchooses
  refine ⟨by simp, fun past hpast => ?_, fun x hx hhides => hides_ofKey _ hhides,
    fun x hx hseen _ => ?_, fun x hx hcounts => ?_⟩
  · exact (steady_plain.kept_past isPlain_idle (ready_idle false) hchooses hpast).calm
  · obtain ⟨hplain, -, hmem⟩ := hoccasions x hx
    exact hplain.suits (hchooses x.2 hmem) hseen
  · have hnever := countsSubscribers_of_isByKey (hchooses x.2 (hoccasions x hx).2.2)
    rw [hnever] at hcounts
    contradiction

def after (steps : List (Step V)) : Machine V := idle.playAll (idle.led false (steps.map some))

def toldIn (sees : Entry V → Bool) (steps : List (Step V)) : List (Entry V) :=
  (idle.exchanges sees false (steps.map some)).flatMap fun x => x.said.reverse

omit [Storable V] in
theorem flatMap_filter_of_nil {α β : Type} {p : α → Bool} {f : α → List β} {l : List α}
    (h : ∀ a ∈ l, ¬ p a → f a = []) : (l.filter p).flatMap f = l.flatMap f := by
  induction l with
  | nil => rfl
  | cons a l ih =>
      obtain ⟨hfirst, hrest⟩ := List.forall_mem_cons.mp h
      by_cases hp : p a
      · rw [List.filter_cons_of_pos hp, List.flatMap_cons, List.flatMap_cons, ih hrest]
      · rw [List.filter_cons_of_neg hp, List.flatMap_cons, hfirst hp, ih hrest, List.nil_append]

theorem shows_ofKey (key : String) {steps : List (Step V)} (hsteps : ∀ step ∈ steps, step.isByKey) :
    (after steps).Ready false ∧
      (after ((keeping key steps).map (View.ofKey key).step)).system =
        (View.ofKey key).system (after steps).system ∧
      toldIn (View.ofKey key).seesEntry ((keeping key steps).map (View.ofKey key).step) =
        toldIn (View.ofKey key).seesEntry steps := by
  have hchooses : ∀ step, some step ∈ steps.map some → step.isByKey := by
    intro step hstep
    obtain ⟨other, hother, hsame⟩ := List.mem_map.mp hstep
    exact Option.some.inj hsame ▸ hsteps other hother
  have hpaired := paired_idle (.ofKey key) false (isPlain_idle (V := V))
  obtain ⟨hend, hsame, hothers⟩ := hpaired.follows_led steady_plain
    (fun step hstep => View.isByKey_step _ hstep) hchooses (divides_ofKey hsteps)
  rw [View.choices_ofKey] at hend hsame
  refine ⟨hend.ready.1, hend.system, ?_⟩
  have houtcomes (exchanges : List (Exchange V)) : exchanges.flatMap (fun x => x.said.reverse) =
      (exchanges.map (·.outcome)).flatMap fun outcome => outcome.1.reverse := by
    rw [List.flatMap_map]
    rfl
  rw [toldIn, houtcomes, hsame, ← houtcomes, toldIn]
  exact flatMap_filter_of_nil fun x hx hhides => by
    rw [(hothers x hx (by simpa using hhides)).2 rfl, List.reverse_nil]

/-! ## Sessions that are alike at a key -/

/-- Each area has the same text at the key, the same is heard about it in the same order, and logs
of the same names hold the same notices about it. -/
structure AlikeAt (key : String) (steps others : List (Step V)) : Prop where
  text : ∀ i, ((after steps).system.area i).get? key = ((after others).system.area i).get? key
  heard : toldIn (View.ofKey key).seesEntry steps = toldIn (View.ofKey key).seesEntry others
  logNames : ∀ id, Keyed.lookup? id (after steps).system.logNames =
    Keyed.lookup? id (after others).system.logNames
  logs : ∀ log, (View.ofKey key).log ((after steps).system.log log) =
    (View.ofKey key).log ((after others).system.log log)

theorem alikeAt_of_keeping {steps others : List (Step V)} (hsteps : ∀ step ∈ steps, step.isByKey)
    (hothers : ∀ step ∈ others, step.isByKey) (hsame : keeping key steps = keeping key others) :
    AlikeAt key steps others := by
  obtain ⟨-, hsystem, htold⟩ := shows_ofKey key hsteps
  obtain ⟨-, hsystem', htold'⟩ := shows_ofKey key hothers
  rw [hsame] at hsystem htold
  have hview : (View.ofKey key).system (after steps).system =
      (View.ofKey key).system (after others).system := hsystem.symm.trans hsystem'
  refine ⟨fun i => ?_, htold.symm.trans htold', fun id => ?_, fun log => ?_⟩
  · have hkey : (View.ofKey key).keys key := decide_eq_true rfl
    rw [← View.area_get? hkey i, ← View.system_area, hview, View.system_area, View.area_get? hkey]
  · rw [← View.lookup?_logNames key, hview, View.lookup?_logNames]
  · have hlog : (View.ofKey key).logs log := rfl
    rw [← View.system_log hlog, hview, View.system_log hlog]

omit [Storable V] in
theorem keeping_keeping (key : String) (steps : List (Step V)) :
    keeping key (keeping key steps) = keeping key steps := by
  simp [keeping, List.filter_filter]

omit [Storable V] in
theorem isByKey_of_keeping {steps others : List (Step V)} (hsteps : ∀ step ∈ steps, step.isByKey)
    (hsame : ∀ key, keeping key others = keeping key steps) : ∀ step ∈ others, step.isByKey := by
  intro step hstep
  have hkept : step ∈ keeping (step.changedKey?.getD "") others := by
    refine List.mem_filter.mpr ⟨hstep, ?_⟩
    cases step.changedKey? <;> simp
  rw [hsame] at hkept
  exact hsteps step (List.mem_filter.mp hkept).1

theorem entries_of_alikeAt {steps others : List (Step V)}
    (h : ∀ key, AlikeAt key steps others) (i : Nat) :
    ((after steps).system.area i).entries = ((after others).system.area i).entries := by
  have hsorted (steps : List (Step V)) : Keyed.Sorted ((after steps).system.area i).entries :=
    (sound_playAll _).neat.entries i
  have hmem {p : String × String} {steps others : List (Step V)}
      (htext : ((after steps).system.area i).get? p.1 = ((after others).system.area i).get? p.1)
      (hp : p ∈ ((after steps).system.area i).entries) :
      p ∈ ((after others).system.area i).entries := by
    have hfound : ((after steps).system.area i).get? p.1 = some p.2 :=
      Keyed.lookup?_of_mem (hsorted steps) hp
    exact Keyed.mem_of_lookup? (htext.symm.trans hfound)
  exact (hsorted steps).eq_of_mem_iff (hsorted others) fun p =>
    ⟨hmem ((h p.1).text i), hmem ((h p.1).text i).symm⟩

/-- In a plain session the operations on other keys make no difference to a key: its text, what is
heard about it and the notices about it are those of the session of its own operations.  So all
areas hold the same in the end if the operations on each single key keep their order. -/
theorem keys_stay_apart {steps : List (Step V)} (hsteps : ∀ step ∈ steps, step.isByKey) :
    (after steps).Ready false ∧ (∀ key, AlikeAt key steps (keeping key steps)) ∧
      ∀ others, (∀ key, keeping key others = keeping key steps) →
        (∀ i, ((after others).system.area i).entries = ((after steps).system.area i).entries) ∧
          ∀ key, AlikeAt key others steps := by
  refine ⟨(shows_ofKey "" hsteps).1, fun key => ?_, fun others hsame => ?_⟩
  · refine alikeAt_of_keeping hsteps (fun step hstep => ?_) (keeping_keeping key steps).symm
    exact hsteps step (List.mem_filter.mp hstep).1
  · have hothers := isByKey_of_keeping hsteps hsame
    have halike (key : String) : AlikeAt key others steps :=
      alikeAt_of_keeping hothers hsteps (hsame key)
    exact ⟨entries_of_alikeAt halike, halike⟩

theorem two_tabs_swap :
    let opening : List (Step Draft) :=
      [.new "a" .localArea, .openTab "b" "a", .newLog "l", .newQueue "q",
        .relayToLog "r" "b" "q" "l", .listen "r" "s", .subscribe "a" "t" [] none []]
    let writes : List (Step Draft) := [.set "a" "x" "1", .set "b" "y" "2", .remove "a" "x"]
    let swapped : List (Step Draft) := [.set "a" "x" "1", .remove "a" "x", .set "b" "y" "2"]
    (∀ i, ((after (opening ++ swapped)).system.area i).entries =
      ((after (opening ++ writes)).system.area i).entries) ∧
        ∀ key, AlikeAt key (opening ++ swapped) (opening ++ writes) := by
  intro opening writes swapped
  have hsteps : ∀ step ∈ opening ++ writes, step.isByKey := by decide
  refine (keys_stay_apart hsteps).2.2 (opening ++ swapped) fun key => ?_
  by_cases hx : "x" = key
  · subst hx
    rfl
  · by_cases hy : "y" = key
    · subst hy
      rfl
    · simp [keeping, opening, writes, swapped, Step.changedKey?, hx, hy]

end Machine

end TabRelay.Session
