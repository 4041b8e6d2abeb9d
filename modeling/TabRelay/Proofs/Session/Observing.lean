import TabRelay.Proofs.Session.Awaiting
import TabRelay.Proofs.Storage.Replay
import TabRelay.Session.Draft

/-!
# What an observer hears of an area

An observer is a handler that does nothing, on a tab that changes nothing.  It
hears of every change to its area once.  A handler that writes back makes its
change while the event that it was called for is still on its way, so that an
observer behind it hears of the second change first.  If no change is made while
an event is on its way to the observer, it hears of them in order.
-/

namespace TabRelay.Session

open TabRelay.Storage
open scoped List

variable {V : Type}

namespace Machine

variable [Storable V]

def changing? (m : Machine V) (area : Nat) : Option Event :=
  match m.raising? with
  | some (event, i, some _) => if i = area then some event else none
  | _ => none

def changes (area : Nat) (past : List (Machine V)) : List Event :=
  past.filterMap (·.changing? area)

omit [Storable V] in
def calling? (m : Machine V) (i : Nat) : Option Event :=
  match m.visiting? with
  | some (event, j) => if j = i ∧ m.isRunning i = false then some event else none
  | none => none

omit [Storable V] in
def heard (i : Nat) (past : List (Machine V)) : List Event := past.filterMap (·.calling? i)

/-- What `calling?` gives are the calls of the handler, and no others are made. -/
structure CallLaw (m : Machine V) (i : Nat) : Prop where
  called : ∀ event, m.calling? i = some event → i ∉ turns m.stack ∧
    ∃ left rest, m.stack = .delivery event (i :: left) :: rest ∧
      m.advance = { m with stack := .turn i :: .delivery event left :: rest }.react i event
  uncalled : m.calling? i = none → i ∈ turns m.advance.stack → i ∈ turns m.stack

theorem VisitLaw.callLaw {m : Machine V} (h : m.VisitLaw) (i : Nat) : m.CallLaw i where
  called := by
    intro event hcalling
    unfold calling? at hcalling
    split at hcalling
    · rename_i event' j hvisiting
      obtain ⟨⟨rfl, hrunning⟩, hevent⟩ := Option.ite_none_right_eq_some.mp hcalling
      cases hevent
      have hidle : j ∉ turns m.stack := by
        intro hturn
        rw [isRunning_iff.mpr hturn] at hrunning
        contradiction
      exact ⟨hidle, (h.called _ j hvisiting hidle).2.2.2⟩
    · contradiction
  uncalled := by
    intro hcalling hturn
    cases hvisiting : m.visiting? with
    | none => exact (h.quiet hvisiting).1.subset hturn
    | some visit =>
        obtain ⟨event, j⟩ := visit
        by_cases hj : j ∈ turns m.stack
        · rwa [(h.skipped event j hvisiting hj).2.1] at hturn
        · rw [(h.called event j hvisiting hj).2.1] at hturn
          rcases List.mem_cons.mp hturn with rfl | hturn
          · have hidle : m.isRunning i = false := by
              rwa [← Bool.not_eq_true, isRunning_iff]
            simp [calling?, hvisiting, hidle] at hcalling
          · exact hturn

/-! ## The changes make the entries -/

theorem changing?_of_call {m : Machine V} {call : Invocation} {i : Nat}
    (hcall : m.invocation? = some call) :
    m.changing? i =
      if call.handle.area = i then
        ((m.system.area call.handle.area).perform call.operation).raised
      else none := by
  unfold changing?
  rw [raising?_of_call hcall]
  cases ((m.system.area call.handle.area).perform call.operation).raised <;> simp

theorem changing?_of_no_call {m : Machine V} (hcall : m.invocation? = none) (i : Nat) :
    m.changing? i = none := by
  unfold changing? raising?
  split
  · rename_i heq
    split at heq
    · obtain ⟨handle, -, hsame⟩ := Option.map_eq_some_iff.mp heq
      cases hsame
    · simp [hcall] at heq
    · contradiction
  · rfl

theorem Orderly.replays {m : Machine V} (h : m.Orderly) (hgrounded : Grounded m.system) {i : Nat}
    (hi : i < m.system.areas.length) :
    Replays (m.system.area i).entries (m.changing? i).toList
      (m.advance.system.area i).entries := by
  cases hcall : m.invocation? with
  | none =>
      rw [changing?_of_no_call hcall]
      exact (h.alters.entries hcall hi).symm
  | some call =>
      obtain ⟨step, waiting, trace, hrun, hasked, hwaiting, hadvance⟩ := h.operates hcall
      have hsystem : m.advance.system = m.system.setArea call.handle.area
          ((m.system.area call.handle.area).perform call.operation).area := by
        rw [hadvance]
        rfl
      rw [changing?_of_call hcall, hsystem]
      by_cases harea : call.handle.area = i
      · subst harea
        rw [if_pos rfl, System.area_setArea_self _ hi]
        cases hraised : ((m.system.area call.handle.area).perform call.operation).raised with
        | none => exact (Area.entries_of_quiet (hgrounded.sorted_area _) hraised).symm
        | some event =>
            obtain ⟨hentries, hold, -⟩ := Area.entries_of_raised hraised
            exact ⟨hold, hentries.symm⟩
      · rw [if_neg harea, System.area_setArea_ne _ harea]
        rfl

theorem Orderly.replays_all {m : Machine V} (h : m.Orderly) (hgrounded : Grounded m.system)
    {i : Nat} (hi : i < m.system.areas.length) (moves : List (Move V)) :
    Replays (m.system.area i).entries (changes i (m.history moves))
      ((m.playAll moves).system.area i).entries := by
  induction moves generalizing m with
  | nil => exact rfl
  | cons move moves ih =>
      cases move with
      | begin step =>
          have hsystem := m.system_begin step
          have hrest := ih (h.play (.begin step)) (hsystem ▸ hgrounded) (hsystem ▸ hi)
          rwa [hsystem] at hrest
      | decide left =>
          have hsystem := m.system_decide left
          have hrest := ih (h.play (.decide left)) (hsystem ▸ hgrounded) (hsystem ▸ hi)
          rwa [hsystem] at hrest
      | advance =>
          obtain ⟨pushed, warned, heffect, -⟩ := advance_becomes h
          have hlength := heffect.alters.length_le
          have hrest := ih h.advance (heffect.grounded hgrounded) (Nat.lt_of_lt_of_le hi hlength)
          have happend := (h.replays hgrounded hi).append hrest
          have hchanges : changes i (m.history (.advance :: moves)) =
              (m.changing? i).toList ++ changes i (m.advance.history moves) := by
            cases hchanging : m.changing? i <;> simp [history, changes, hchanging]
          rw [hchanges]
          exact happend

/-! ## The observer is in the audience once -/

omit [Storable V] in
theorem filter_of_nodup_map {α β : Type} [DecidableEq β] {f : α → β} {l : List α} {a : α}
    (hnodup : (l.map f).Nodup) (ha : a ∈ l) : l.filter (fun b => f b = f a) = [a] := by
  induction l with
  | nil => contradiction
  | cons head rest ih =>
      rw [List.map_cons, List.nodup_cons] at hnodup
      rcases List.mem_cons.mp ha with rfl | ha
      · have hnone : rest.filter (fun b => f b = f a) = [] := by
          refine List.filter_eq_nil_iff.mpr fun b hb hsame => hnodup.1 ?_
          rw [← of_decide_eq_true hsame]
          exact List.mem_map_of_mem hb
        simp [hnone]
      · have hne : f head ≠ f a := by
          intro hsame
          exact hnodup.1 (hsame ▸ List.mem_map_of_mem ha)
        simp [hne, ih hnodup.2 ha]

theorem filter_audience (moves : List (Move V)) {r : Registration}
    (hmade : r ∈ registrations (idle.history moves))
    (hkept : r.subscription ∉ dropped (idle.history moves)) {event : Event} {area : Nat}
    {writer : Option Nat}
    (hraising : (idle.playAll moves).raising? = some (event, area, writer)) :
    ((idle.playAll moves).audience area writer).filter
        (fun s => s.handler = r.subscriber.handler) =
      if area = r.area ∧ writer ≠ some r.subscriber.tab then [r.subscriber] else [] := by
  have htenure := tenure_playAll moves
  have haudience := audience_eq moves hraising
  have hnodup := audience_nodup moves area writer
  have hmember (s : Subscriber) : s ∈ (idle.playAll moves).audience area writer ↔
      (∃ r' ∈ registrations (idle.history moves), r'.area = area ∧
        r'.subscription ∉ detached (idle.history moves) ∧ r'.subscriber = s) ∧
        writer ≠ some s.tab := by
    rw [haudience, List.mem_filter]
    simp only [remaining, List.mem_map, List.mem_filter, decide_eq_true_eq, and_assoc]
  have hattached : r.subscription ∉ detached (idle.history moves) := fun hdetached =>
    hkept ((dropped_perm _).mem_iff.mpr (List.mem_append_left _ hdetached))
  split
  · rename_i h
    have hmem : r.subscriber ∈ (idle.playAll moves).audience area writer :=
      (hmember _).mpr ⟨⟨r, hmade, h.1.symm, hattached, rfl⟩, h.2⟩
    exact filter_of_nodup_map hnodup hmem
  · rename_i h
    refine List.filter_eq_nil_iff.mpr fun s hs hsame => h ?_
    obtain ⟨⟨r', hr', harea, -, rfl⟩, hwriter⟩ := (hmember s).mp hs
    cases htenure.same hr' hmade (of_decide_eq_true hsame)
    exact ⟨harea.symm, hwriter⟩

theorem filter_sending (moves : List (Move V)) {r : Registration}
    (hmade : r ∈ registrations (idle.history moves))
    (hkept : r.subscription ∉ dropped (idle.history moves))
    (hothers : ∀ writer ∈ [none, some r.subscriber.tab],
      (idle.playAll moves).raising?.map (·.2) ≠ some (r.area, writer)) :
    (idle.playAll moves).sending.filter (fun visit => visit.2 = r.subscriber.handler) =
      ((idle.playAll moves).changing? r.area).toList.map (·, r.subscriber.handler) := by
  cases hraising : (idle.playAll moves).raising? with
  | none => simp [sending, changing?, hraising]
  | some raised =>
      obtain ⟨event, area, writer⟩ := raised
      have hfilter : (idle.playAll moves).sending.filter
          (fun visit => visit.2 = r.subscriber.handler) =
          (if area = r.area ∧ writer ≠ some r.subscriber.tab then [r.subscriber] else []).map
            fun s => (event, s.handler) := by
        rw [← filter_audience moves hmade hkept hraising, sending, hraising, List.filter_map]
        rfl
      simp only [hraising, Option.map_some, List.mem_cons, List.not_mem_nil, or_false,
        forall_eq_or_imp, forall_eq] at hothers
      rw [hfilter, changing?, hraising]
      cases writer with
      | none =>
          have hne : area ≠ r.area := fun hsame => hothers.1 (by rw [hsame])
          simp [hne]
      | some tab =>
          by_cases harea : area = r.area
          · have hne : tab ≠ r.subscriber.tab := fun hsame => hothers.2 (by rw [harea, hsame])
            simp [harea, hne]
          · simp [harea]

/-! ## What is heard -/

theorem heard_eq (moves : List (Move V)) {i : Nat} {later : List (Move V)}
    (hrests : Rests i (idle.history (moves ++ later))) :
    heard i ((idle.playAll moves).history later) =
      ((visited ((idle.playAll moves).history later)).filter (·.2 = i)).map (·.1) := by
  have hcalling : ∀ x ∈ (idle.playAll moves).history later,
      x.calling? i = (x.visiting?.filter (·.2 = i)).map (·.1) := by
    intro x hx
    obtain ⟨earlier, rest, rfl, rfl⟩ := mem_history hx
    rw [← playAll_append]
    have hpast : Rests i (idle.history (moves ++ earlier)) := by
      intro y hy
      refine hrests y ?_
      rw [← List.append_assoc, history_append]
      exact List.mem_append_left _ hy
    have hfree {event : Event}
        (hvisiting : (idle.playAll (moves ++ earlier)).visiting? = some (event, i)) :=
      not_running_of_rests (moves ++ earlier) hpast hvisiting
    generalize idle.playAll (moves ++ earlier) = m at hfree ⊢
    unfold calling?
    cases hvisiting : m.visiting? with
    | none => rfl
    | some visit =>
        obtain ⟨event, j⟩ := visit
        by_cases hj : j = i
        · subst hj
          simp [Option.filter, hfree hvisiting]
        · simp [Option.filter, hj]
  generalize (idle.playAll moves).history later = past at hcalling ⊢
  induction past with
  | nil => rfl
  | cons x past ih =>
      have hrest := ih fun y hy => hcalling y (List.mem_cons_of_mem _ hy)
      have hx := hcalling x List.mem_cons_self
      simp only [heard, visited, List.filterMap_cons, List.flatMap_cons, List.filter_append,
        List.map_append, hx] at hrest ⊢
      rw [← hrest]
      cases hvisiting : x.visiting? with
      | none => rfl
      | some visit => by_cases hi : visit.2 = i <;> simp [Option.filter, hi]

theorem filter_sent {past : List (Machine V)} {area i : Nat}
    (h : ∀ x ∈ past,
      x.sending.filter (fun visit => visit.2 = i) = (x.changing? area).toList.map (·, i)) :
    (sent past).filter (fun visit => visit.2 = i) = (changes area past).map (·, i) := by
  induction past with
  | nil => rfl
  | cons x past ih =>
      have hrest := ih fun y hy => h y (List.mem_cons_of_mem _ hy)
      have hx := h x List.mem_cons_self
      simp only [sent, changes, List.flatMap_cons, List.filter_append, hx] at hrest ⊢
      rw [hrest]
      cases hchanging : x.changing? area <;> simp [hchanging]

/--
An observer whose handler does nothing, and whose tab does not change the area,
hears of every change once, and the changes lead from the entries to the entries.
It hears of them in order if none is made while another is on its way to it.  What it
hears are the calls of its handler.
-/
theorem observer_hears_changes (before later : List (Move V)) (r : Registration)
    (hmade : r ∈ registrations (idle.history before))
    (hkept : r.subscription ∉ dropped (idle.history (before ++ later)))
    (hrests : Rests r.subscriber.handler (idle.history (before ++ later)))
    (hothers : ∀ x ∈ (idle.playAll before).history later,
      ∀ writer ∈ [none, some r.subscriber.tab], x.raising?.map (·.2) ≠ some (r.area, writer))
    (hstart : (idle.playAll before).stack = [])
    (hend : (idle.playAll (before ++ later)).stack = []) :
    let during := (idle.playAll before).history later
    (heard r.subscriber.handler during).Perm (changes r.area during) ∧
      Replays ((idle.playAll before).system.area r.area).entries (changes r.area during)
        ((idle.playAll (before ++ later)).system.area r.area).entries ∧
      ((∀ x ∈ during, (x.changing? r.area).isSome →
          ∀ visit ∈ awaited x.stack, visit.2 ≠ r.subscriber.handler) →
        heard r.subscriber.handler during = changes r.area during) ∧
      ∀ x ∈ during, x.CallLaw r.subscriber.handler := by
  intro during
  have horderly := orderly_playAll before
  have htenure := tenure_playAll before
  have hsending : ∀ x ∈ (idle.playAll before).history later,
      x.sending.filter (fun visit => visit.2 = r.subscriber.handler) =
        (x.changing? r.area).toList.map (·, r.subscriber.handler) := by
    intro x hx
    have hwriter := hothers x hx
    obtain ⟨earlier, rest, rfl, rfl⟩ := mem_history hx
    rw [← playAll_append] at hwriter ⊢
    refine filter_sending (before ++ earlier) ?_ ?_ hwriter
    · rw [history_append, registrations, List.filterMap_append]
      exact List.mem_append_left _ hmade
    · intro hdropped
      rw [← List.append_assoc, history_append, dropped, List.filterMap_append] at hkept
      exact hkept (List.mem_append_left _ hdropped)
  have hsent := filter_sent hsending
  have hheard := heard_eq before hrests
  rw [playAll_append] at hend
  refine ⟨?_, ?_, ?_, ?_⟩
  · have hall := horderly.visits_all later
    rw [hstart, hend] at hall
    have hmine := (hall.filter (·.2 = r.subscriber.handler)).map (·.1)
    simpa [awaited, hsent, ← hheard, Function.comp_def, during] using hmine
  · have hlength : r.area < (idle.playAll before).system.areas.length := by
      by_contra hlength
      have hid := (htenure.numbered r hmade).1
      rw [System.area_of_length_le (Nat.le_of_not_lt hlength)] at hid
      exact absurd hid (Nat.not_lt_zero _)
    rw [playAll_append]
    exact horderly.replays_all htenure.grounded hlength later
  · intro halone
    have horder := horderly.visits_in_order (p := (·.2 = r.subscriber.handler)) later <| by
      intro x hx hsends
      refine List.filter_eq_nil_iff.mpr fun visit hvisit hsame => ?_
      refine halone x hx ?_ visit hvisit (of_decide_eq_true hsame)
      rw [hsending x hx] at hsends
      cases hchanging : x.changing? r.area with
      | none => simp [hchanging] at hsends
      | some event => rfl
    rw [hstart, hend] at horder
    have hmine := congrArg (List.map (·.1)) horder
    simpa [awaited, hsent, ← hheard, Function.comp_def, during] using hmine
  · intro x hx
    obtain ⟨earlier, rest, -, rfl⟩ := mem_history hx
    rw [← playAll_append]
    exact (visitLaw_playAll (before ++ earlier)).callLaw r.subscriber.handler

def threeTabs (first second : Step Draft) : List (Move Draft) :=
  inTurn [(.new "a" .localArea, 1), (.openTab "b" "a", 1), (.openTab "c" "a", 1), (first, 3),
    (second, 3)]

def backWriter : Step Draft := .subscribe "b" "s" [.set "b" "k" "2"] (some 1) []

def onlooker : Step Draft := .subscribe "c" "t" [] none []

def firstWrite : List (Move Draft) := inTurn [(.set "a" "k" "1", 40)]

theorem first_observer_hears_in_order :
    heard 0 ((idle.playAll (threeTabs onlooker backWriter)).history firstWrite) =
      changes 0 ((idle.playAll (threeTabs onlooker backWriter)).history firstWrite) :=
  (observer_hears_changes (threeTabs onlooker backWriter) firstWrite ⟨0, 0, 2, 0⟩ (by decide)
    (by decide) (by decide) (by decide) (by decide) (by decide)).2.2.1 (by decide)

/-- The handler that writes back stands before the observer. -/
theorem overtaken_observer :
    (⟨0, 1, 2, 1⟩ : Registration) ∈
        registrations (idle.history (threeTabs backWriter onlooker)) ∧
      (⟨0, 1⟩ : Subscription) ∉
        dropped (idle.history (threeTabs backWriter onlooker ++ firstWrite)) ∧
      Rests 1 (idle.history (threeTabs backWriter onlooker ++ firstWrite)) ∧
      (∀ x ∈ (idle.playAll (threeTabs backWriter onlooker)).history firstWrite,
        ∀ writer ∈ [none, some 2], x.raising?.map (·.2) ≠ some (0, writer)) ∧
      (idle.playAll (threeTabs backWriter onlooker)).answer? = some .ok ∧
      (idle.playAll (threeTabs backWriter onlooker ++ firstWrite)).answer? = some .ok ∧
      changes 0 ((idle.playAll (threeTabs backWriter onlooker)).history firstWrite) =
        [⟨some "k", none, some "1", some .localArea⟩,
          ⟨some "k", some "1", some "2", some .localArea⟩] ∧
      heard 1 ((idle.playAll (threeTabs backWriter onlooker)).history firstWrite) =
        [⟨some "k", some "1", some "2", some .localArea⟩,
          ⟨some "k", none, some "1", some .localArea⟩] := by
  decide

end Machine

end TabRelay.Session
