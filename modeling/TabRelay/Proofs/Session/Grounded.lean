import TabRelay.Proofs.Session.Areas
import TabRelay.Proofs.Storage.Refinement

/-!
# Named areas exist

Areas are never removed from a system, so that a handle which has a name, of its
own or through a relay, is of an area that exists.  The entries of every area are
sorted by key.
-/

namespace TabRelay.Session

open TabRelay.Storage

variable {V : Type}

namespace System

theorem area_congr {s s' : System V} (h : s'.areas = s.areas) (i : Nat) : s'.area i = s.area i := by
  rw [area, area, h]

theorem area_setArea_self {s : System V} {i : Nat} (changed : Area) (hi : i < s.areas.length) :
    (s.setArea i changed).area i = changed := by
  simp [setArea, area, hi]

theorem area_setArea_ne {s : System V} {i j : Nat} (changed : Area) (hij : i ≠ j) :
    (s.setArea i changed).area j = s.area j := by
  simp [setArea, area, hij]

theorem area_of_length_le {s : System V} {i : Nat} (hi : s.areas.length ≤ i) :
    s.area i = default := by
  simp [area, hi]

end System

namespace Machine

theorem Alters.same [Storable V] {m : Machine V} {s : System V} (h : m.Alters s.areas) {α : Type}
    (f : Area → α) (htabs : ∀ (a : Area) tabs, f { a with tabs } = f a)
    (hsubscribers : ∀ (a : Area) subscribers nextSubscriber,
      f { a with subscribers, nextSubscriber } = f a)
    (hoperation : ∀ call, m.invocation? = some call →
      f ((m.system.area call.handle.area).perform call.operation).area =
        f (m.system.area call.handle.area))
    {i : Nat} (hi : i < m.system.areas.length) : f (s.area i) = f (m.system.area i) := by
  have hset {j : Nat} {changed : Area} (hareas : s.areas = (m.system.setArea j changed).areas)
      (hsame : f changed = f (m.system.area j)) : f (s.area i) = f (m.system.area i) := by
    rw [System.area_congr hareas]
    by_cases hij : j = i
    · subst hij
      rw [System.area_setArea_self _ hi, hsame]
    · rw [System.area_setArea_ne _ hij]
  generalize hareas : s.areas = areas at h
  cases h with
  | keeps => rw [System.area_congr hareas]
  | creates hrun hnew => simp [System.area, hareas, List.getElem?_append_left hi]
  | operates hcall => exact hset hareas (hoperation _ hcall)
  | retabs j tabs => exact hset hareas (htabs _ tabs)
  | subscribes hsubscribing => exact hset hareas (hsubscribers _ _ _)
  | reaps hdone hdead => exact hset hareas (hsubscribers _ _ _)
  | detaches hdone hstack hheld halive => exact hset hareas (hsubscribers _ _ _)

theorem Alters.kind [Storable V] {m : Machine V} {s : System V} (h : m.Alters s.areas) {i : Nat}
    (hi : i < m.system.areas.length) : (s.area i).kind = (m.system.area i).kind := by
  refine h.same (·.kind) (fun _ _ => rfl) (fun _ _ _ => rfl) ?_ hi
  intro call _
  obtain ⟨entries, harea⟩ := area_perform (m.system.area call.handle.area) call.operation
  rw [harea]

theorem Alters.entries [Storable V] {m : Machine V} {s : System V} (h : m.Alters s.areas)
    (hcall : m.invocation? = none) {i : Nat} (hi : i < m.system.areas.length) :
    (s.area i).entries = (m.system.area i).entries :=
  h.same (·.entries) (fun _ _ => rfl) (fun _ _ _ => rfl) (by simp [hcall]) hi

structure Grounded (s : System V) : Prop where
  storages : ∀ p ∈ s.storageNames, p.2.area < s.areas.length
  relays : ∀ p ∈ s.relayNames, p.2.handle.area < s.areas.length
  sorted : ∀ area ∈ s.areas, Keyed.Sorted area.entries

theorem Grounded.sorted_area {s : System V} (h : Grounded s) (i : Nat) :
    Keyed.Sorted (s.area i).entries := by
  simp only [System.area, List.getD_eq_getElem?_getD]
  cases harea : s.areas[i]? with
  | none => exact Keyed.sorted_nil
  | some area => exact h.sorted area (List.mem_of_getElem? harea)

theorem Grounded.subscribed {m : Machine V} (h : Grounded m.system) {handle : Handle}
    (hsubscribing : m.subscribing? = some handle) : handle.area < m.system.areas.length := by
  obtain ⟨step, hrun, hstep, -⟩ := subscribing?_eq_some hsubscribing
  cases step with
  | subscribe storage id steps times own => exact h.storages _ (Keyed.mem_of_lookup? hstep)
  | listen name id =>
      obtain ⟨relay, hname, rfl⟩ := Option.map_eq_some_iff.mp hstep
      exact h.relays _ (Keyed.mem_of_lookup? hname)
  | _ => contradiction

variable [Storable V]

theorem Alters.length_le {m : Machine V} {areas : List Area} (h : m.Alters areas) :
    m.system.areas.length ≤ areas.length := by
  cases h with
  | creates hrun hnew => simp
  | _ => simp [System.setArea]

theorem Alters.sorted {m : Machine V} {areas : List Area} (h : m.Alters areas)
    (hgrounded : Grounded m.system) : ∀ area ∈ areas, Keyed.Sorted area.entries := by
  have hset (i : Nat) (changed : Area) (hchanged : Keyed.Sorted changed.entries) :
      ∀ area ∈ (m.system.setArea i changed).areas, Keyed.Sorted area.entries := by
    intro area harea
    rcases List.mem_or_eq_of_mem_set harea with harea | rfl
    · exact hgrounded.sorted area harea
    · exact hchanged
  cases h with
  | keeps => exact hgrounded.sorted
  | @creates step id new hrun hnew =>
      intro area harea
      rcases List.mem_append.mp harea with harea | harea
      · exact hgrounded.sorted area harea
      · rw [List.mem_singleton.mp harea]
        cases step <;> cases hnew
        · exact Keyed.sorted_nil
        · exact Keyed.sorted_nil
        · exact Keyed.sorted_ofPairs _
  | operates hcall => exact hset _ _ (Area.sorted_perform (hgrounded.sorted_area _) _)
  | _ => exact hset _ _ (hgrounded.sorted_area _)

theorem Effect.grounded {m : Machine V} {s : System V} {pushed : List (Frame V)}
    {control : Control V} {warned : List (Entry V)} (h : Effect m s pushed control warned)
    (hgrounded : Grounded m.system) : Grounded s := by
  have hlength := h.alters.length_le
  have hsorted := h.alters.sorted hgrounded
  have hnames (hsame : SameNames m.system s) : Grounded s :=
    ⟨fun p hp => lt_of_lt_of_le (hgrounded.storages p (hsame.storages ▸ hp)) hlength,
      fun p hp => lt_of_lt_of_le (hgrounded.relays p (hsame.relays ▸ hp)) hlength, hsorted⟩
  cases h with
  | rests hrest hbelow => exact hgrounded
  | continues hdone hstack hcontinues => exact hnames hcontinues.names
  | frees hdone hstack hfreeing hfrees => exact hnames hfrees.names
  | begins hrun hbegins =>
      refine ⟨?_, ?_, hsorted⟩
      · intro p hp
        rcases hbegins.storageNames p hp with ⟨q, hq, harea⟩ | hnew
        · rw [← harea]
          exact lt_of_lt_of_le (hgrounded.storages q hq) hlength
        · omega
      · intro p hp
        rcases hbegins.relayNames p hp with ⟨q, hq, hrelay⟩ | ⟨⟨q, hq, hhandle⟩, -⟩
        · rw [← hrelay]
          exact lt_of_lt_of_le (hgrounded.relays q hq) hlength
        · rw [← hhandle]
          exact lt_of_lt_of_le (hgrounded.storages q hq) hlength

theorem grounded_playAll (moves : List (Move V)) : Grounded (idle.playAll moves).system := by
  apply system_induction
  · exact ⟨by simp, by simp, by simp⟩
  · intro m s pushed control warned h hgrounded
    exact h.grounded hgrounded

theorem Grounded.called {m : Machine V} (h : Grounded m.system) {call : Invocation}
    (hcall : m.invocation? = some call) : call.handle.area < m.system.areas.length := by
  obtain ⟨step, hrun, hasked, hbarred⟩ := invocation?_eq_some hcall
  rcases asked?_named hasked with ⟨p, hp, hhandle⟩ | ⟨p, hp, hhandle⟩
  · exact hhandle ▸ h.storages p hp
  · exact hhandle ▸ h.relays p hp

end Machine

end TabRelay.Session
