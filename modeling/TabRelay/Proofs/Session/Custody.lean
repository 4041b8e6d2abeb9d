import Mathlib.Data.List.Nodup
import Mathlib.Data.List.Perm.Basic
import TabRelay.Proofs.Session.Areas

/-!
# Who keeps a handler

A handler is kept by the subscriber that it belongs to, by the deliveries that
still have to visit it and by its turn.  `Custody` says that whatever names a
handler names one that is not freed.  It is carried by two facts: no two
subscribers share a handler, and a handler that is let go with others is neither
subscribed nor let go twice.
-/

namespace TabRelay.Session

open TabRelay.Decoding TabRelay.Storage

variable {V : Type}

/-! ## Setting one part of a list -/

section

variable {α β : Type} {f : α → List β}

theorem flatMap_set_perm {l : List α} {i : Nat} {a b : α} (h : l[i]? = some a) :
    (f b ++ l.flatMap f).Perm (f a ++ (l.set i b).flatMap f) := by
  induction l generalizing i with
  | nil => simp at h
  | cons head rest ih =>
      cases i with
      | zero =>
          cases h
          simp only [List.set_cons_zero, List.flatMap_cons, ← List.append_assoc]
          exact List.perm_append_comm.append_right _
      | succ i =>
          have hrest := (ih h).append_left (f head)
          simp only [List.set_cons_succ, List.flatMap_cons]
          exact ((List.perm_append_comm_assoc ..).trans hrest).trans
            (List.perm_append_comm_assoc ..)

theorem flatMap_set_of_eq {l : List α} {i : Nat} {b : α} (h : ∀ a, l[i]? = some a → f b = f a) :
    (l.set i b).flatMap f = l.flatMap f := by
  induction l generalizing i with
  | nil => rfl
  | cons head rest ih =>
      cases i with
      | zero => simp only [List.set_cons_zero, List.flatMap_cons, h head rfl]
      | succ i => simp only [List.set_cons_succ, List.flatMap_cons, ih h]

end

/-! ## What names a handler -/

namespace System

def subscribed (s : System V) : List Nat :=
  s.areas.flatMap fun area => area.subscribers.map (·.handler)

def Lives (s : System V) (i : Nat) : Prop :=
  ∃ handler, s.handlers[i]? = some handler ∧ handler.freed = false

theorem mem_subscribed {s : System V} {i : Nat} {sub : Subscriber}
    (h : sub ∈ (s.area i).subscribers) : sub.handler ∈ s.subscribed := by
  simp only [area, List.getD_eq_getElem?_getD] at h
  cases harea : s.areas[i]? with
  | none => simp [harea, default, instInhabitedArea.default] at h
  | some area =>
      simp only [harea, Option.getD_some] at h
      refine List.mem_flatMap.mpr ⟨area, List.mem_of_getElem? harea, ?_⟩
      exact List.mem_map_of_mem h

theorem subscribed_setArea {s : System V} {i : Nat} {changed : Area}
    (h : changed.subscribers = (s.area i).subscribers) :
    (s.setArea i changed).subscribed = s.subscribed := by
  refine flatMap_set_of_eq ?_
  intro a ha
  have hsame : s.area i = a := by simp [area, ha]
  rw [h, hsame]

theorem subscribed_setArea_perm {s : System V} {i : Nat} (changed : Area)
    (hi : i < s.areas.length) :
    (changed.subscribers.map (·.handler) ++ s.subscribed).Perm
      ((s.area i).subscribers.map (·.handler) ++ (s.setArea i changed).subscribed) := by
  have harea : s.areas[i]? = some (s.area i) := by simp [area, hi]
  exact flatMap_set_perm (f := fun area : Area => area.subscribers.map (·.handler)) harea

end System

namespace Frame

def mentions : Frame V → List Nat
  | .delivery _ left => left
  | .turn i => [i]
  | .release left => left
  | _ => []

def released : Frame V → List Nat
  | .release left => left
  | _ => []

theorem mentions_of_refersTo {frame : Frame V} {i : Nat} (h : i ∈ frame.mentions) :
    frame.refersTo i ∨ i ∈ frame.released := by
  cases frame <;> simp_all [mentions, refersTo, released]

end Frame

def released (frames : List (Frame V)) : List Nat := frames.flatMap (·.released)

def pending : List (Frame V) → List Nat
  | .release (_ :: left) :: rest => left ++ released rest
  | frames => released frames

theorem pending_sublist (frames : List (Frame V)) : (pending frames).Sublist (released frames) := by
  unfold pending
  split
  · exact (List.sublist_cons_self _ _).append (List.Sublist.refl _)
  · exact List.Sublist.refl _

theorem released_of_no_disposing {frames : List (Frame V)}
    (h : ∀ frame ∈ frames, ¬ frame.isDisposing) : released frames = [] := by
  refine List.flatMap_eq_nil_iff.mpr ?_
  intro frame hframe
  have hnot := h frame hframe
  cases frame <;> first | rfl | simp [Frame.isDisposing] at hnot

structure Custody (s : System V) (stack : List (Frame V)) : Prop where
  subscribed : ∀ i ∈ s.subscribed, s.Lives i
  mentioned : ∀ frame ∈ stack, ∀ i ∈ frame.mentions, s.Lives i
  apart : (pending stack ++ s.subscribed).Nodup
  once : (released stack).Nodup

/-! ## Work -/

theorem Reacts.lives {s s' : System V} {i : Nat} {event : Event} {frames : List (Frame V)}
    {a : Answer V} (h : Reacts s i event s' frames a) {j : Nat} (hlives : s.Lives j) :
    s'.Lives j := by
  cases h with
  | missing hhandler => exact hlives
  | @script handler script own hhandler hreaction =>
      obtain ⟨found, hfound, hfreed⟩ := hlives
      by_cases hij : i = j
      · subst hij
        rw [hhandler] at hfound
        cases hfound
        refine ⟨_, List.getElem?_set_self ?_, hfreed⟩
        exact (List.getElem?_eq_some_iff.mp hhandler).1
      · exact ⟨found, (List.getElem?_set_ne hij).trans hfound, hfreed⟩
  | forward hhandler hreaction hreceives =>
      obtain ⟨logs, scripts, rfl⟩ := hreceives.eq
      exact hlives

namespace Machine

theorem mem_recipients {s : System V} {h : Nat} {writer : Option Nat} {i : Nat}
    (hi : i ∈ (s.area h).recipients writer) : i ∈ s.subscribed := by
  obtain ⟨sub, hsub, rfl⟩ := List.mem_map.mp hi
  exact System.mem_subscribed (List.mem_filter.mp hsub).1

theorem mentions_of_isWork {frames : List (Frame V)} (h : ∀ frame ∈ frames, frame.isWork) :
    ∀ frame ∈ frames, frame.mentions = [] := by
  intro frame hframe
  have hwork := h frame hframe
  cases frame <;> first | rfl | simp [Frame.isWork] at hwork

theorem Awaits.mentions {m : Machine V} {h : Handle} {waiting : List (Frame V)} {step : Step V}
    (hwaiting : m.Awaits step h waiting) : ∀ frame ∈ waiting, frame.mentions = [] := by
  cases hwaiting <;> simp [Frame.mentions]

theorem Begins.mentions [Storable V] {m : Machine V} {step : Step V} {s : System V}
    {pushed : List (Frame V)} {a : Answer V} (h : Begins m step s pushed a) :
    ∀ frame ∈ pushed, frame.mentions = [] ∨
      ∃ event left, frame = .delivery event left ∧ ∀ i ∈ left, i ∈ m.system.subscribed := by
  intro frame hframe
  cases h with
  | operates hcall hwaiting houtcome =>
      rcases List.mem_append.mp hframe with hframe | hframe
      · obtain ⟨event, rfl⟩ := mem_deliveries hframe
        refine .inr ⟨event, _, rfl, fun i hi => ?_⟩
        simp only [Area.recipients, ← houtcome, subscribers_perform] at hi
        exact mem_recipients hi
      · exact .inl (hwaiting.mentions frame hframe)
  | barred e hasked hwaiting => exact .inl (hwaiting.mentions frame hframe)
  | dispatches hname =>
      simp only [List.mem_cons, List.not_mem_nil, or_false] at hframe
      rcases hframe with rfl | rfl
      · exact .inr ⟨_, _, rfl, fun i hi => mem_recipients hi⟩
      · exact .inl rfl
  | startsDraining hdrains => exact .inl (mentions_of_isWork hdrains.isWork frame hframe)
  | receives hname hreceives =>
      rcases List.mem_append.mp hframe with hframe | hframe
      · exact .inl (mentions_of_isWork hreceives.isWork frame hframe)
      · rw [List.mem_singleton.mp hframe]
        exact .inl rfl
  | _ =>
      refine .inl ?_
      simp only [dropsOldStorage, dropsOldRelay, dropsOldSubscription, List.mem_map,
        List.mem_singleton, List.not_mem_nil] at hframe <;>
        first
          | (rw [hframe]; rfl)
          | (obtain ⟨_, _, rfl⟩ := hframe; rfl)

theorem subscribers_newArea {step : Step V} {id : String} {area : Area}
    (h : step.newArea? = some (id, area)) : area.subscribers = [] := by
  cases step <;> cases h <;> rfl

theorem Begins.handlers [Storable V] {m : Machine V} {step : Step V} {s : System V}
    {pushed : List (Frame V)} {a : Answer V} (h : Begins m step s pushed a) :
    s.handlers = m.system.handlers ∧ s.subscribed = m.system.subscribed ∨
      ∃ h reaction, m.subscribing? = some h ∧
        s.handlers = m.system.handlers ++ [Handler.mk reaction false] ∧
        s.areas = (m.system.setArea h.area
          ((m.system.area h.area).subscribe h.tab m.system.handlers.length).1).areas := by
  cases h with
  | creates hnew =>
      refine .inl ⟨rfl, ?_⟩
      simp only [System.subscribed, System.nameStorage, System.addArea, List.flatMap_append,
        List.flatMap_singleton, subscribers_newArea hnew, List.map_nil, List.append_nil]
  | opensTab hname => exact .inl ⟨rfl, System.subscribed_setArea rfl⟩
  | operates hcall hwaiting houtcome =>
      refine .inl ⟨rfl, System.subscribed_setArea ?_⟩
      rw [← houtcome, subscribers_perform]
  | setsFaults hname => exact .inl ⟨rfl, System.subscribed_setArea rfl⟩
  | subscribes hsubscribing htake =>
      obtain ⟨names, rfl⟩ := System.takeSubscriptions_eq htake
      exact .inr ⟨_, _, hsubscribing, rfl, rfl⟩
  | failsToSubscribe htake =>
      obtain ⟨names, rfl⟩ := System.takeSubscriptions_eq htake
      exact .inl ⟨rfl, rfl⟩
  | listens hsubscribing hname => exact .inr ⟨_, _, hsubscribing, rfl, rfl⟩
  | startsDraining hdrains =>
      obtain ⟨queues, logs, scripts, rfl⟩ := hdrains.eq
      exact .inl ⟨rfl, rfl⟩
  | receives hname hreceives =>
      obtain ⟨logs, scripts, rfl⟩ := hreceives.eq
      exact .inl ⟨rfl, rfl⟩
  | _ => exact .inl ⟨rfl, rfl⟩

theorem Continues.lives {m : Machine V} {top : Frame V} {b : Answer V} {s : System V}
    {pushed : List (Frame V)} {control : Control V} {warned : List (Entry V)}
    (h : Continues m top b s pushed control warned) {i : Nat} (hlives : m.system.Lives i) :
    s.Lives i := by
  cases h with
  | calls b hrunning hreacts => exact hreacts.lives hlives
  | drains b hdrains =>
      obtain ⟨queues, logs, scripts, rfl⟩ := hdrains.eq
      exact hlives
  | _ => exact hlives

theorem Continues.pushes {m : Machine V} {top : Frame V} {b : Answer V} {s : System V}
    {pushed : List (Frame V)} {control : Control V} {warned : List (Entry V)}
    (h : Continues m top b s pushed control warned) :
    (∀ frame ∈ pushed, ∀ i ∈ frame.mentions, i ∈ top.mentions) ∧
      ((∀ frame ∈ pushed, ¬ frame.isDisposing) ∨ ∃ i, pushed = [.release [i]]) := by
  cases h with
  | @calls b a event i left s frames hrunning hreacts =>
      have hwork := hreacts.isWork
      refine ⟨?_, .inl ?_⟩
      · intro frame hframe j hj
        rcases List.mem_append.mp hframe with hframe | hframe
        · rw [mentions_of_isWork hwork frame hframe] at hj
          contradiction
        · simp only [List.mem_cons, List.not_mem_nil, or_false] at hframe
          rcases hframe with rfl | rfl
          · rw [List.mem_singleton.mp hj]
            exact List.mem_cons_self
          · exact List.mem_cons_of_mem _ hj
      · intro frame hframe
        rcases List.mem_append.mp hframe with hframe | hframe
        · exact Frame.not_isDisposing_of_isWork (hwork frame hframe)
        · simp only [List.mem_cons, List.not_mem_nil, or_false] at hframe
          rcases hframe with rfl | rfl <;> simp [Frame.isDisposing]
  | drains b hdrains =>
      have hwork := hdrains.isWork
      refine ⟨?_, .inl fun frame hframe => Frame.not_isDisposing_of_isWork (hwork frame hframe)⟩
      intro frame hframe j hj
      rw [mentions_of_isWork hwork frame hframe] at hj
      contradiction
  | endsTurn b i => exact ⟨by simp [Frame.mentions], .inr ⟨i, rfl⟩⟩
  | skips b hrunning =>
      refine ⟨?_, .inl (by simp [Frame.isDisposing])⟩
      intro frame hframe j hj
      rw [List.mem_singleton.mp hframe] at hj
      exact List.mem_cons_of_mem _ hj
  | _ => exact ⟨by simp [Frame.mentions], .inl (by simp [Frame.isDisposing])⟩

theorem Continues.custody {m : Machine V} {top : Frame V} {b : Answer V} {s : System V}
    {pushed rest : List (Frame V)} {control : Control V} {warned : List (Entry V)}
    (h : Continues m top b s pushed control warned)
    (hrest : ∀ frame ∈ rest, ¬ frame.isDisposing)
    (hcustody : Custody m.system (top :: rest)) : Custody s (pushed ++ rest) := by
  obtain ⟨hmentions, hpushed⟩ := h.pushes
  have hsubscribed : s.subscribed = m.system.subscribed := by
    rw [System.subscribed, System.subscribed, h.areas]
  have hnodup := hcustody.apart.sublist (List.sublist_append_right _ _)
  have hnone := released_of_no_disposing hrest
  have hpending : pending (pushed ++ rest) = [] ∧ (released (pushed ++ rest)).Nodup := by
    rcases hpushed with hpushed | ⟨i, rfl⟩
    · have hreleased : released (pushed ++ rest) = [] := by
        simp only [released, List.flatMap_append] at hnone ⊢
        rw [hnone, List.append_nil]
        exact released_of_no_disposing hpushed
      refine ⟨List.sublist_nil.mp (hreleased ▸ pending_sublist (pushed ++ rest)), ?_⟩
      rw [hreleased]
      exact List.nodup_nil
    · have hreleased : released ([Frame.release [i]] ++ rest) = i :: released rest := rfl
      refine ⟨hnone, ?_⟩
      rw [hreleased, hnone]
      exact List.nodup_singleton i
  refine ⟨?_, ?_, ?_, hpending.2⟩
  · intro i hi
    exact h.lives (hcustody.subscribed i (hsubscribed ▸ hi))
  · intro frame hframe i hi
    rcases List.mem_append.mp hframe with hframe | hframe
    · exact h.lives (hcustody.mentioned top List.mem_cons_self i (hmentions frame hframe i hi))
    · exact h.lives (hcustody.mentioned frame (List.mem_cons_of_mem _ hframe) i hi)
  · rw [hpending.1, hsubscribed]
    exact hnodup

theorem subscribed_subscribe {s : System V} {h : Handle} {n : Nat} :
    ((s.setArea h.area ((s.area h.area).subscribe h.tab n).1).subscribed.Perm
      (n :: s.subscribed)) ∨
      (s.setArea h.area ((s.area h.area).subscribe h.tab n).1).subscribed = s.subscribed := by
  by_cases hi : h.area < s.areas.length
  · refine .inl ?_
    have hperm := System.subscribed_setArea_perm ((s.area h.area).subscribe h.tab n).1 hi
    simp only [Area.subscribe, List.map_append, List.map_cons, List.map_nil,
      List.append_assoc] at hperm
    exact ((List.perm_append_left_iff _).mp hperm).symm
  · refine .inr ?_
    simp only [System.setArea, List.set_eq_of_length_le (Nat.le_of_not_lt hi)]

theorem Begins.custody [Storable V] {m : Machine V} {step : Step V} {s : System V}
    {pushed rest : List (Frame V)} {a : Answer V} (h : Begins m step s pushed a)
    (hrest : ∀ frame ∈ rest, ¬ frame.isDisposing) (hcustody : Custody m.system rest) :
    Custody s (pushed ++ rest) := by
  have hmentions := h.mentions
  have hnodup := hcustody.apart.sublist (List.sublist_append_right _ _)
  have hreleased : released (pushed ++ rest) = [] := by
    have hnone := released_of_no_disposing hrest
    simp only [released, List.flatMap_append] at hnone ⊢
    rw [hnone, List.append_nil]
    refine List.flatMap_eq_nil_iff.mpr fun frame hframe => ?_
    rcases hmentions frame hframe with hnone | ⟨event, left, rfl, -⟩
    · cases frame <;> first | rfl | exact hnone
    · rfl
  have hpending : pending (pushed ++ rest) = [] :=
    List.sublist_nil.mp (hreleased ▸ pending_sublist (pushed ++ rest))
  have hkept (hlives : ∀ i, m.system.Lives i → s.Lives i)
      (hsubscribed : ∀ i ∈ s.subscribed, s.Lives i) (hnodup : s.subscribed.Nodup) :
      Custody s (pushed ++ rest) := by
    refine ⟨hsubscribed, ?_, by rwa [hpending], by rw [hreleased]; exact List.nodup_nil⟩
    intro frame hframe i hi
    rcases List.mem_append.mp hframe with hframe | hframe
    · rcases hmentions frame hframe with hnone | ⟨event, left, rfl, hleft⟩
      · rw [hnone] at hi
        contradiction
      · exact hlives i (hcustody.subscribed i (hleft i hi))
    · exact hlives i (hcustody.mentioned frame hframe i hi)
  rcases h.handlers with ⟨hhandlers, hsubscribed⟩ | ⟨h, reaction, -, hhandlers, hareas⟩
  · have hlives (i : Nat) (hi : m.system.Lives i) : s.Lives i := by
      unfold System.Lives
      rwa [hhandlers]
    refine hkept hlives ?_ (hsubscribed ▸ hnodup)
    intro i hi
    exact hlives i (hcustody.subscribed i (hsubscribed ▸ hi))
  · have hlives (i : Nat) (hi : m.system.Lives i) : s.Lives i := by
      obtain ⟨handler, hhandler, hfreed⟩ := hi
      refine ⟨handler, ?_, hfreed⟩
      rw [hhandlers, List.getElem?_append_left (List.getElem?_eq_some_iff.mp hhandler).1]
      exact hhandler
    have hnew : s.Lives m.system.handlers.length := ⟨⟨reaction, false⟩, by simp [hhandlers], rfl⟩
    have hfresh : m.system.handlers.length ∉ m.system.subscribed := by
      intro hmem
      obtain ⟨handler, hhandler, -⟩ := hcustody.subscribed _ hmem
      simp at hhandler
    have hsame : s.subscribed = (m.system.setArea h.area
        ((m.system.area h.area).subscribe h.tab m.system.handlers.length).1).subscribed := by
      rw [System.subscribed, System.subscribed, hareas]
    rcases subscribed_subscribe (s := m.system) (h := h) (n := m.system.handlers.length) with
      hperm | heq
    · rw [← hsame] at hperm
      refine hkept hlives ?_ (hperm.nodup_iff.mpr (List.nodup_cons.mpr ⟨hfresh, hnodup⟩))
      intro i hi
      rcases List.mem_cons.mp (hperm.mem_iff.mp hi) with rfl | hi
      · exact hnew
      · exact hlives i (hcustody.subscribed i hi)
    · rw [← hsame] at heq
      refine hkept hlives ?_ (heq ▸ hnodup)
      intro i hi
      exact hlives i (hcustody.subscribed i (heq ▸ hi))

end Machine

/-! ## Letting go -/

theorem released_cons {frame : Frame V} {rest : List (Frame V)} (h : frame.mentions = []) :
    released (frame :: rest) = released rest ∧ pending (frame :: rest) = released rest := by
  cases frame with
  | release left =>
      cases h
      exact ⟨rfl, rfl⟩
  | _ => exact ⟨rfl, rfl⟩

theorem Custody.release {s s' : System V} {top : Frame V} {rest : List (Frame V)}
    {left other : List Nat} (more : List (Frame V)) (h : Custody s (top :: rest))
    (htop : top.mentions = []) (hmore : ∀ frame ∈ more, frame.mentions = [])
    (hhandlers : s'.handlers = s.handlers)
    (hperm : s.subscribed.Perm ((left ++ other) ++ s'.subscribed)) :
    Custody s' (.release left :: more ++ rest) := by
  have hlives (i : Nat) (hi : s.Lives i) : s'.Lives i := by
    unfold System.Lives
    rwa [hhandlers]
  have hnone : released (.release left :: more ++ rest) = left ++ released rest := by
    have hmore : released more = [] := by
      refine List.flatMap_eq_nil_iff.mpr fun frame hframe => ?_
      have hmentions := hmore frame hframe
      cases frame <;> first | rfl | exact hmentions
    simp only [released] at hmore ⊢
    simp only [List.cons_append, List.flatMap_cons, List.flatMap_append, hmore, List.nil_append]
    rfl
  have hsublist : (left ++ released rest ++ s'.subscribed).Nodup := by
    have hapart := h.apart
    rw [(released_cons htop).2] at hapart
    have hall := ((List.Perm.refl (released rest)).append hperm).nodup_iff.mp hapart
    have hsome : (released rest ++ (left ++ s'.subscribed)).Nodup := by
      refine hall.sublist ?_
      refine (List.Sublist.refl _).append ?_
      exact (List.sublist_append_left left other).append (List.Sublist.refl _)
    rw [List.append_assoc]
    exact (List.perm_append_comm_assoc ..).nodup_iff.mp hsome
  refine ⟨?_, ?_, ?_, ?_⟩
  · intro i hi
    exact hlives i (h.subscribed i (hperm.mem_iff.mpr (List.mem_append_right _ hi)))
  · intro frame hframe i hi
    simp only [List.cons_append, List.mem_cons, List.mem_append] at hframe
    rcases hframe with rfl | hframe | hframe
    · have hmem : i ∈ s.subscribed := hperm.mem_iff.mpr
        (List.mem_append_left _ (List.mem_append_left _ hi))
      exact hlives i (h.subscribed i hmem)
    · rw [hmore frame hframe] at hi
      contradiction
    · exact hlives i (h.mentioned frame (List.mem_cons_of_mem _ hframe) i hi)
  · refine hsublist.sublist ?_
    exact (hnone ▸ pending_sublist _).append (List.Sublist.refl _)
  · rw [hnone]
    exact hsublist.sublist (List.sublist_append_left _ _)

theorem Custody.shrink {s : System V} {stack stack' : List (Frame V)} (h : Custody s stack)
    (hmentioned : ∀ frame ∈ stack', ∀ i ∈ frame.mentions, ∃ old ∈ stack, i ∈ old.mentions)
    (hpending : (pending stack').Sublist (pending stack))
    (hreleased : (released stack').Sublist (released stack)) : Custody s stack' where
  subscribed := h.subscribed
  mentioned := by
    intro frame hframe i hi
    obtain ⟨old, hold, hmem⟩ := hmentioned frame hframe i hi
    exact h.mentioned old hold i hmem
  apart := h.apart.sublist (hpending.append (List.Sublist.refl _))
  once := h.once.sublist hreleased

theorem Custody.decide {s : System V} {runner : String} {old left : List (Step V)}
    {rest : List (Frame V)} (h : Custody s (.script runner old :: rest)) :
    Custody s (.script runner left :: rest) where
  subscribed := h.subscribed
  mentioned := by simpa [Frame.mentions] using h.mentioned
  apart := h.apart
  once := h.once

theorem Custody.pop {s : System V} {top : Frame V} {more rest : List (Frame V)}
    (h : Custody s (top :: rest)) (htop : top.mentions = [])
    (hmore : ∀ frame ∈ more, frame.mentions = []) : Custody s (more ++ rest) := by
  have hreleased : released (more ++ rest) = released rest := by
    induction more with
    | nil => rfl
    | cons frame more ih =>
        have hframe := hmore frame List.mem_cons_self
        rw [List.cons_append, (released_cons hframe).1]
        exact ih fun f hf => hmore f (List.mem_cons_of_mem _ hf)
  refine h.shrink ?_ ?_ ?_
  · intro frame hframe i hi
    rcases List.mem_append.mp hframe with hframe | hframe
    · rw [hmore frame hframe] at hi
      contradiction
    · exact ⟨frame, List.mem_cons_of_mem _ hframe, hi⟩
  · rw [(released_cons htop).2, ← hreleased]
    exact pending_sublist _
  · rw [(released_cons htop).1, hreleased]

namespace Machine

theorem not_referred {m : Machine V} {i : Nat} (h : m.isReferred i = false) :
    i ∉ m.system.subscribed ∧ ∀ frame ∈ m.stack, ¬ frame.refersTo i := by
  simp only [isReferred, Bool.or_eq_false_iff, List.any_eq_false] at h
  refine ⟨?_, h.2⟩
  intro hmem
  obtain ⟨area, harea, hi⟩ := List.mem_flatMap.mp hmem
  obtain ⟨sub, hsub, hhandler⟩ := List.mem_map.mp hi
  exact h.1 area harea (List.any_eq_true.mpr ⟨sub, hsub, by simpa using hhandler⟩)

theorem subscribed_reap (s : System V) (i : Nat) :
    s.subscribed.Perm (((s.area i).subscribers.map (·.handler) ++ []) ++
      (s.setArea i { s.area i with subscribers := [] }).subscribed) := by
  rw [List.append_nil]
  by_cases hi : i < s.areas.length
  · exact System.subscribed_setArea_perm { s.area i with subscribers := [] } hi
  · have hnone : (s.area i).subscribers = [] := by
      simp [System.area, List.getElem?_eq_none (Nat.le_of_not_lt hi), default,
        instInhabitedArea.default]
    rw [hnone, System.subscribed_setArea hnone.symm]
    exact List.Perm.refl _

theorem subscriber?_eq_some {area : Area} {id : Nat} {sub : Subscriber}
    (h : area.subscriber? id = some sub) : sub ∈ area.subscribers ∧ sub.id = id := by
  refine ⟨List.mem_of_find?_eq_some h, ?_⟩
  simpa using List.find?_some h

theorem subscribed_unsubscribe {s : System V} {i id : Nat} {sub : Subscriber}
    (h : (s.area i).subscriber? id = some sub) :
    ∃ other, s.subscribed.Perm (([sub.handler] ++ other) ++
      (s.setArea i ((s.area i).unsubscribe id)).subscribed) := by
  obtain ⟨hsub, hid⟩ := subscriber?_eq_some h
  have hi : i < s.areas.length := by
    by_contra hi
    simp [System.area, List.getElem?_eq_none (Nat.le_of_not_lt hi), default,
      instInhabitedArea.default] at hsub
  have hperm := System.subscribed_setArea_perm ((s.area i).unsubscribe id) hi
  have hsplit := (List.filter_append_perm (fun t : Subscriber => decide (t.id = id))
    (s.area i).subscribers).map (·.handler)
  have hmem : sub ∈ (s.area i).subscribers.filter fun t => decide (t.id = id) :=
    List.mem_filter.mpr ⟨hsub, by simpa using hid⟩
  obtain ⟨before, after, hgone⟩ := List.append_of_mem hmem
  refine ⟨before.map (·.handler) ++ after.map (·.handler), ?_⟩
  have hfirst : ((before ++ sub :: after).map (·.handler)).Perm
      ([sub.handler] ++ (before.map (·.handler) ++ after.map (·.handler))) := by
    rw [List.map_append, List.map_cons]
    exact List.perm_middle
  have hleft : ((s.area i).unsubscribe id).subscribers =
      (s.area i).subscribers.filter fun t => !decide (t.id = id) := by
    simp [Area.unsubscribe]
  rw [hgone, ← hleft, List.map_append] at hsplit
  have hmoved := hperm.trans (hsplit.symm.append_right _)
  rw [List.append_assoc] at hmoved
  refine List.Perm.trans ?_ (hfirst.append_right _)
  refine (List.perm_append_left_iff
    (((s.area i).unsubscribe id).subscribers.map (·.handler))).mp (hmoved.trans ?_)
  exact List.perm_append_comm_assoc ..

theorem Frees.custody {m : Machine V} {top : Frame V} {s : System V} {pushed rest : List (Frame V)}
    (h : Frees m top s pushed) (hfreeing : top.isFreeing) (hbelow : m.below = rest)
    (hcustody : Custody m.system (top :: rest)) : Custody s (pushed ++ rest) := by
  cases h with
  | pops hmore halive =>
      refine hcustody.pop ?_ (by simp)
      cases top with
      | release left => cases left <;> simp_all [Frame.mentions, Frame.hasMore]
      | _ => simp_all [Frame.mentions, Frame.isFreeing]
  | @reaps top i hkeeps hdead =>
      have htop : top.mentions = [] := by
        cases top <;> simp_all [Frame.keeps, Frame.mentions]
      exact hcustody.release [] htop (by simp) rfl (subscribed_reap m.system i)
  | @letsGo i left =>
      refine hcustody.shrink ?_ ?_ ?_
      · intro frame hframe j hj
        rcases List.mem_cons.mp hframe with rfl | hframe
        · exact ⟨_, List.mem_cons_self, List.mem_cons_of_mem _ hj⟩
        · exact ⟨frame, List.mem_cons_of_mem _ hframe, hj⟩
      · exact pending_sublist (.release left :: rest)
      · exact List.sublist_cons_self i (left ++ released rest)
  | @frees i left handler hreferred hhandler =>
      obtain ⟨hunsubscribed, hunnamed⟩ := not_referred hreferred
      have honce : (i :: (left ++ released rest)).Nodup := hcustody.once
      have hlast := (List.nodup_cons.mp honce).1
      have hlives (j : Nat) (hij : i ≠ j) (hj : m.system.Lives j) :
          (m.system.setHandler i { handler with freed := true }).Lives j := by
        obtain ⟨found, hfound, hfreed⟩ := hj
        exact ⟨found, (List.getElem?_set_ne hij).trans hfound, hfreed⟩
      have howned : handler.reaction.owned.mentions = [] := by
        cases handler.reaction <;> rfl
      refine ⟨?_, ?_, ?_, ?_⟩
      · intro j hj
        refine hlives j ?_ (hcustody.subscribed j hj)
        rintro rfl
        exact hunsubscribed hj
      · intro frame hframe j hj
        simp only [List.cons_append, List.nil_append, List.mem_cons] at hframe
        rcases hframe with rfl | rfl | hframe
        · rw [howned] at hj
          contradiction
        · refine hlives j ?_ (hcustody.mentioned _ List.mem_cons_self j (List.mem_cons_of_mem _ hj))
          rintro rfl
          exact hlast (List.mem_append_left _ hj)
        · refine hlives j ?_ (hcustody.mentioned frame (List.mem_cons_of_mem _ hframe) j hj)
          rintro rfl
          rcases Frame.mentions_of_refersTo hj with hrefers | hreleased
          · exact hunnamed frame (by simpa [beneath, hbelow] using hframe) hrefers
          · exact hlast (List.mem_append_right _ (List.mem_flatMap.mpr ⟨frame, hframe, hreleased⟩))
      · have hpending : pending ([handler.reaction.owned, .release left] ++ rest) =
            left ++ released rest := (released_cons howned).2
        rw [hpending]
        exact hcustody.apart
      · have hreleased : released ([handler.reaction.owned, .release left] ++ rest) =
            left ++ released rest := (released_cons howned).1
        rw [hreleased]
        exact (List.nodup_cons.mp honce).2
  | leaves hleaves => exact hcustody.pop rfl (by simp [Frame.mentions])
  | @detaches sub left subscriber halive hheld hfound =>
      obtain ⟨other, hperm⟩ := subscribed_unsubscribe hfound
      exact hcustody.release [.held (.area sub.area), .drop left] rfl
        (by simp [Frame.mentions]) rfl hperm

/-! ## Every course -/

variable [Storable V]

theorem Effect.custody {m : Machine V} {s : System V} {pushed : List (Frame V)}
    {control : Control V} {warned : List (Entry V)} (h : Effect m s pushed control warned)
    (horderly : m.Orderly) (hcustody : Custody m.system m.stack) :
    Custody s (pushed ++ m.below) := by
  cases h with
  | rests hrest hbelow => rwa [List.nil_append, hbelow]
  | begins hrun hbegins =>
      rw [below_of_run hrun]
      exact hbegins.custody (horderly.running _ hrun) hcustody
  | continues hdone hstack hcontinues =>
      have hnone := horderly.no_disposing hstack hcontinues.inOrder.1
      rw [hstack] at hcustody
      simpa only [below, hdone, hstack, List.tail_cons] using hcontinues.custody hnone hcustody
  | frees hdone hstack hfreeing hfrees =>
      have hbelow : m.below = m.stack.tail := by simp [below, hdone]
      rw [hstack] at hcustody hbelow
      rw [hbelow]
      exact hfrees.custody hfreeing hbelow hcustody

theorem Orderly.custody {m : Machine V} (h : m.Orderly) (hcustody : Custody m.system m.stack) :
    Custody m.advance.system m.advance.stack := by
  obtain ⟨pushed, warned, heffect, hpushed, -⟩ := advance_becomes h
  rw [hpushed]
  exact heffect.custody h hcustody

theorem custody_playAll (moves : List (Move V)) :
    Custody (idle.playAll moves).system (idle.playAll moves).stack := by
  apply orderly_induction (P := fun _ m => Custody m.system m.stack)
  · exact ⟨by simp [idle, System.subscribed], by simp [idle], List.nodup_nil, List.nodup_nil⟩
  · intro past m step hm hstack
    rwa [hstack] at hm
  · intro past m runner old left stack hm hstack
    rw [hstack] at hm
    exact Custody.decide hm
  · exact fun past m horderly hm => horderly.custody hm

end Machine

end TabRelay.Session
