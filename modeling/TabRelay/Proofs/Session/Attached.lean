import TabRelay.Proofs.Session.Identity

/-!
# What a machine of a session can be relied on for

A handler that forwards for a relay is subscribed to the area of the relay, so
that it keeps the area it listens to.  Together with what is known of the stack,
of names and of who keeps a handler this is what later proofs take for granted.
-/

namespace TabRelay.Session

open TabRelay.Decoding TabRelay.Storage

variable {V : Type}

namespace System

def Attached (s : System V) : Prop :=
  ∀ i, ∀ t ∈ (s.area i).subscribers, ∀ handler relay, s.handlers[t.handler]? = some handler →
    handler.reaction = .forward relay → relay.handle.area = i

structure Neat (s : System V) : Prop where
  listed : s.Listed
  subscriptions : Keyed.Sorted s.subscriptionNames
  entries : ∀ i, Keyed.Sorted (s.area i).entries

theorem Attached.of_fewer {s s' : System V} (h : s.Attached)
    (hsubscribers : ∀ i, ∀ t ∈ (s'.area i).subscribers, t ∈ (s.area i).subscribers)
    (hhandlers : ∀ (n : Nat) (handler : Handler V) relay, s'.handlers[n]? = some handler →
      handler.reaction = .forward relay →
      ∃ old : Handler V, s.handlers[n]? = some old ∧ old.reaction = .forward relay) :
    s'.Attached := by
  intro i t ht handler relay hhandler hforward
  obtain ⟨old, hold, hsame⟩ := hhandlers _ _ _ hhandler hforward
  exact h i t (hsubscribers i t ht) old relay hold hsame

theorem Attached.of_same {s s' : System V} (h : s.Attached)
    (hsubscribers : ∀ i, ∀ t ∈ (s'.area i).subscribers, t ∈ (s.area i).subscribers)
    (hhandlers : s'.handlers = s.handlers) : s'.Attached :=
  h.of_fewer hsubscribers fun _ handler _ hhandler hforward =>
    ⟨handler, hhandlers ▸ hhandler, hforward⟩

theorem area_setArea_or (s : System V) (j : Nat) (changed : Area) (i : Nat) :
    (s.setArea j changed).area i = s.area i ∨ i = j ∧ (s.setArea j changed).area i = changed := by
  by_cases hij : j = i
  · subst hij
    by_cases hj : j < s.areas.length
    · exact .inr ⟨rfl, area_setArea_self _ hj⟩
    · rw [setArea, List.set_eq_of_length_le (Nat.le_of_not_lt hj)]
      exact .inl rfl
  · exact .inl (area_setArea_ne _ hij)

theorem area_addArea_or (s : System V) (a : Area) (i : Nat) :
    (s.addArea a).1.area i = s.area i ∨ (s.addArea a).1.area i = a := by
  by_cases hi : i < s.areas.length
  · exact .inl (by simp [area, addArea, List.getElem?_append_left hi])
  · by_cases heq : i = s.areas.length
    · exact .inr (by simp [area, addArea, heq])
    · have hlt : s.areas.length < i := by omega
      refine .inl ?_
      rw [area_of_length_le (Nat.le_of_not_lt hi), area_of_length_le]
      simpa [addArea] using Nat.succ_le_of_lt hlt

theorem mem_setArea {s : System V} {j : Nat} {changed : Area} {i : Nat} {t : Subscriber}
    (h : t ∈ ((s.setArea j changed).area i).subscribers) :
    t ∈ (s.area i).subscribers ∨ i = j ∧ t ∈ changed.subscribers := by
  rcases area_setArea_or s j changed i with hsame | ⟨hij, hchanged⟩
  · exact .inl (hsame ▸ h)
  · exact .inr ⟨hij, hchanged ▸ h⟩

theorem Attached.setArea {s : System V} (h : s.Attached) {j : Nat} {changed : Area}
    (hsubscribers : ∀ t ∈ changed.subscribers, t ∈ (s.area j).subscribers) :
    (s.setArea j changed).Attached := by
  refine h.of_same (fun i t ht => ?_) rfl
  rcases mem_setArea ht with ht | ⟨hij, ht⟩
  · exact ht
  · exact hij ▸ hsubscribers t ht

theorem Attached.registered {s : System V} (h : s.Attached)
    (hlives : ∀ i ∈ s.subscribed, s.Lives i) {handle : Handle} {id : String}
    {reaction : Reaction V}
    (hown : ∀ relay, reaction = .forward relay → relay.handle.area = handle.area) :
    (Machine.registered s handle id reaction).Attached := by
  intro i t ht handler relay hhandler hforward
  have hnew : handler.reaction = reaction ∧ t.handler = s.handlers.length ∨
      s.handlers[t.handler]? = some handler := by
    have hhandler : (s.handlers ++ [⟨reaction, false⟩])[t.handler]? = some handler := hhandler
    rw [List.getElem?_append] at hhandler
    split at hhandler
    · exact .inr hhandler
    · obtain ⟨hlt, hget⟩ := List.getElem?_eq_some_iff.mp hhandler
      have hzero : t.handler - s.handlers.length = 0 := by simpa using hlt
      refine .inl ⟨?_, by omega⟩
      simp only [hzero, List.getElem_cons_zero] at hget
      rw [← hget]
  rcases mem_setArea (s := (s.addHandler reaction).1) ht with ht | ⟨hi, ht⟩
  · rcases hnew with ⟨-, hlength⟩ | hold
    · obtain ⟨old, hold, -⟩ := hlives _ (mem_subscribed ht)
      rw [hlength, List.getElem?_eq_none (Nat.le_refl _)] at hold
      contradiction
    · exact h i t ht handler relay hold hforward
  · rcases List.mem_append.mp ht with ht | ht
    · rcases hnew with ⟨-, hlength⟩ | hold
      · obtain ⟨old, hold, -⟩ := hlives _ (mem_subscribed ht)
        rw [hlength, List.getElem?_eq_none (Nat.le_refl _)] at hold
        contradiction
      · exact hi ▸ h _ t ht handler relay hold hforward
    · rcases hnew with ⟨hsame, -⟩ | hold
      · exact (hown relay (hsame ▸ hforward)).trans hi.symm
      · rw [List.mem_singleton.mp ht, List.getElem?_eq_none (Nat.le_refl _)] at hold
        contradiction

end System

namespace Machine

variable [Storable V]

theorem Begins.attached {m : Machine V} {step : Step V} {s : System V} {pushed : List (Frame V)}
    {a : Answer V} (h : Begins m step s pushed a) (hattached : m.system.Attached)
    (hlives : ∀ i ∈ m.system.subscribed, m.system.Lives i) : s.Attached := by
  cases h with
  | @creates step id area hnew =>
      refine hattached.of_same (fun i t ht => ?_) rfl
      have ht : t ∈ ((m.system.addArea area).1.area i).subscribers := ht
      rcases m.system.area_addArea_or area i with hsame | hadded
      · exact hsame ▸ ht
      · rw [hadded, subscribers_newArea hnew] at ht
        contradiction
  | opensTab hname => exact hattached.setArea fun t ht => ht
  | operates hcall hwaiting houtcome =>
      subst houtcome
      refine hattached.setArea fun t ht => ?_
      rwa [subscribers_perform] at ht
  | setsFaults hname => exact hattached.setArea fun t ht => ht
  | @subscribes storage id steps times own s subs h hsubscribing htake =>
      obtain ⟨names, rfl⟩ := System.takeSubscriptions_eq htake
      have hregistered : (registered m.system h id (.script ⟨id, steps, times⟩ subs)).Attached :=
        hattached.registered hlives (by simp)
      exact hregistered
  | failsToSubscribe htake =>
      obtain ⟨names, rfl⟩ := System.takeSubscriptions_eq htake
      exact hattached
  | listens hsubscribing hname =>
      refine hattached.registered hlives ?_
      rintro relay ⟨⟩
      rfl
  | startsDraining hdrains =>
      obtain ⟨queues, logs, scripts, rfl⟩ := hdrains.eq
      exact hattached
  | receives hname hreceives =>
      obtain ⟨logs, scripts, rfl⟩ := hreceives.eq
      exact hattached
  | _ => exact hattached

omit [Storable V] in
theorem Reacts.attached {s s' : System V} {i : Nat} {event : Event} {frames : List (Frame V)}
    {a : Answer V} (h : Reacts s i event s' frames a) (hattached : s.Attached) : s'.Attached := by
  cases h with
  | missing hhandler => exact hattached
  | script hhandler hreaction =>
      refine hattached.of_fewer (fun j t ht => ht) fun n handler relay hfound hforward => ?_
      simp only [System.setHandler, List.getElem?_set] at hfound
      split at hfound
      · split at hfound
        · cases hfound
          contradiction
        · contradiction
      · exact ⟨handler, hfound, hforward⟩
  | forward hhandler hreaction hreceives =>
      obtain ⟨logs, scripts, rfl⟩ := hreceives.eq
      exact hattached

theorem Effect.attached {m : Machine V} {s : System V} {pushed : List (Frame V)}
    {control : Control V} {warned : List (Entry V)} (h : Effect m s pushed control warned)
    (hattached : m.system.Attached) (hlives : ∀ i ∈ m.system.subscribed, m.system.Lives i) :
    s.Attached := by
  cases h with
  | rests hrest hbelow => exact hattached
  | begins hrun hbegins => exact hbegins.attached hattached hlives
  | continues hdone hstack hcontinues =>
      cases hcontinues with
      | calls b hrunning hreacts => exact Reacts.attached hreacts hattached
      | drains b hdrains =>
          obtain ⟨queues, logs, scripts, rfl⟩ := hdrains.eq
          exact hattached
      | _ => exact hattached
  | frees hdone hstack hfreeing hfrees =>
      cases hfrees with
      | reaps hkeeps hdead => exact hattached.setArea (by simp)
      | @frees i left handler hreferred hhandler =>
          refine hattached.of_fewer (fun j t ht => ht) fun n found relay hfound hforward => ?_
          simp only [System.setHandler, List.getElem?_set] at hfound
          split at hfound
          · rename_i hin
            subst hin
            split at hfound
            · cases hfound
              exact ⟨handler, hhandler, hforward⟩
            · contradiction
          · exact ⟨found, hfound, hforward⟩
      | detaches halive hheld hfound =>
          exact hattached.setArea fun t ht => (List.mem_filter.mp ht).1
      | _ => exact hattached

/-! ## Every course -/

omit [Storable V] in
/-- What holds of every machine of a session. -/
structure Sound (m : Machine V) : Prop where
  orderly : m.Orderly
  custody : Custody m.system m.stack
  neat : m.system.Neat
  attached : m.system.Attached

theorem attached_playAll (moves : List (Move V)) : (idle.playAll moves).system.Attached := by
  have hcourse : Custody (idle.playAll moves).system (idle.playAll moves).stack ∧
      (idle.playAll moves).system.Attached := by
    apply orderly_induction (P := fun _ m => Custody m.system m.stack ∧ m.system.Attached)
    · refine ⟨custody_playAll [], ?_⟩
      intro i t ht
      simp [idle, System.area, default, instInhabitedArea.default] at ht
    · rintro past m step ⟨hcustody, hattached⟩ hstack
      rw [hstack] at hcustody
      exact ⟨hcustody, hattached⟩
    · rintro past m runner old left stack ⟨hcustody, hattached⟩ hstack
      rw [hstack] at hcustody
      exact ⟨hcustody.decide, hattached⟩
    · rintro past m horderly ⟨hcustody, hattached⟩
      obtain ⟨pushed, warned, heffect, -⟩ := advance_becomes horderly
      exact ⟨horderly.custody hcustody, heffect.attached hattached hcustody.subscribed⟩
  exact hcourse.2

theorem sound_playAll (moves : List (Move V)) : (idle.playAll moves).Sound where
  orderly := orderly_playAll moves
  custody := custody_playAll moves
  neat :=
    { listed := (identity_playAll moves).listed
      subscriptions := (tenure_playAll moves).sorted
      entries := (grounded_playAll moves).sorted_area }
  attached := attached_playAll moves

end Machine

end TabRelay.Session
