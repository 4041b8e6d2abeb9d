import Mathlib.Data.List.Induction
import TabRelay.Session.Machine

/-!
# The course of a session

A session is a list of moves, played from the machine that holds nothing.  A
step begins when the one before it is answered, and the machine advances one
step at a time.  A script may go on with other steps than it was made of, so
that what is shown of every course covers handlers, tasks and listeners that
choose what to do next by anything they have seen.

`history` is the list of machines that were advanced, oldest first.  What
happened in a session is read off from it.
-/

namespace TabRelay.Session

variable {V : Type}

inductive Move (V : Type) where
  | begin (step : Step V)
  /-- The script in progress goes on with these steps. -/
  | decide (left : List (Step V))
  | advance

/-- Each step begins and advances as often as the number says. -/
def inTurn (steps : List (Step V × Nat)) : List (Move V) :=
  steps.flatMap fun (step, advances) => .begin step :: List.replicate advances .advance

namespace Machine

theorem answer?_eq_some {m : Machine V} {a : Answer V} (h : m.answer? = some a) :
    m.stack = [] ∧ m.control = .done a := by
  unfold answer? at h
  split at h
  · rename_i answer hstack hcontrol
    cases h
    exact ⟨hstack, hcontrol⟩
  · contradiction

/-- The machine of a session in which nothing has happened. -/
def idle : Machine V := ⟨{}, [], .done .ok, []⟩

variable [Storable V]

def play (m : Machine V) : Move V → Machine V
  | .begin step =>
      match m.answer? with
      | some _ => .start m.system step
      | none => m
  | .decide left =>
      match m.stack with
      | .script runner _ :: stack => { m with stack := .script runner left :: stack }
      | _ => m
  | .advance => m.advance

def playAll (m : Machine V) (moves : List (Move V)) : Machine V := moves.foldl play m

def history (m : Machine V) : List (Move V) → List (Machine V)
  | [] => []
  | .advance :: moves => m :: history m.advance moves
  | move :: moves => history (m.play move) moves

@[simp] theorem playAll_nil (m : Machine V) : m.playAll [] = m := rfl

@[simp] theorem playAll_cons (m : Machine V) (move : Move V) (moves : List (Move V)) :
    m.playAll (move :: moves) = (m.play move).playAll moves := rfl

@[simp] theorem playAll_append (m : Machine V) (first second : List (Move V)) :
    m.playAll (first ++ second) = (m.playAll first).playAll second :=
  List.foldl_append

@[simp] theorem history_nil (m : Machine V) : m.history [] = [] := rfl

@[simp] theorem system_begin (m : Machine V) (step : Step V) :
    (m.play (.begin step)).system = m.system := by
  simp only [play]
  split <;> rfl

@[simp] theorem system_decide (m : Machine V) (left : List (Step V)) :
    (m.play (.decide left)).system = m.system := by
  simp only [play]
  split <;> rfl

theorem history_append (m : Machine V) (first second : List (Move V)) :
    m.history (first ++ second) = m.history first ++ (m.playAll first).history second := by
  induction first generalizing m with
  | nil => rfl
  | cons move first ih =>
      cases move with
      | advance => simpa [history, play] using ih m.advance
      | begin step => simpa [history] using ih (m.play (.begin step))
      | decide left => simpa [history] using ih (m.play (.decide left))

theorem mem_history {m x : Machine V} {moves : List (Move V)} (h : x ∈ m.history moves) :
    ∃ earlier rest, moves = earlier ++ .advance :: rest ∧ x = m.playAll earlier := by
  induction moves generalizing m with
  | nil => contradiction
  | cons move moves ih =>
      have hrest (h : x ∈ (m.play move).history moves) :
          ∃ earlier rest, move :: moves = earlier ++ .advance :: rest ∧ x = m.playAll earlier := by
        obtain ⟨earlier, rest, rfl, rfl⟩ := ih h
        exact ⟨move :: earlier, rest, rfl, rfl⟩
      cases move with
      | advance =>
          rcases List.mem_cons.mp h with rfl | h
          · exact ⟨[], moves, rfl, rfl⟩
          · exact hrest h
      | begin step => exact hrest h
      | decide left => exact hrest h

/-! ## What holds in every course -/

/--
A property of machines and their history holds in every course if it holds at
the beginning and each move keeps it.
-/
theorem course_induction {P : List (Machine V) → Machine V → Prop}
    (hidle : P [] idle)
    (hbegin : ∀ past m step, P past m → m.stack = [] → P past (.start m.system step))
    (hdecide : ∀ past m runner old left stack, P past m →
      m.stack = .script runner old :: stack →
      P past { m with stack := .script runner left :: stack })
    (hadvance : ∀ past m, P past m → P (past ++ [m]) m.advance)
    (moves : List (Move V)) : P (idle.history moves) (idle.playAll moves) := by
  induction moves using List.reverseRecOn with
  | nil => exact hidle
  | append_singleton moves move ih =>
      rw [history_append, playAll_append, playAll_cons, playAll_nil]
      cases move with
      | advance => exact hadvance _ _ ih
      | begin step =>
          simp only [history, List.append_nil, play]
          split
          · rename_i a ha
            exact hbegin _ _ step ih (answer?_eq_some ha).1
          · exact ih
      | decide left =>
          simp only [history, List.append_nil, play]
          split
          · rename_i runner old stack hstack
            exact hdecide _ _ runner old left stack ih hstack
          · exact ih

theorem later_induction (before : List (Move V)) {Q R : Machine V → Prop}
    {P : List (Machine V) → Machine V → Prop} (hstart : P [] (idle.playAll before))
    (hbegin : ∀ during m step, P during m → P during (m.play (.begin step)))
    (hdecide : ∀ during m left, P during m → P during (m.play (.decide left)))
    (hadvance : ∀ later during, (∀ m ∈ idle.history (before ++ later), Q m) →
      Q (idle.playAll (before ++ later)) → R (idle.playAll (before ++ later)) →
      P during (idle.playAll (before ++ later)) →
      P (during ++ [idle.playAll (before ++ later)]) (idle.playAll (before ++ later)).advance)
    (later : List (Move V)) (hQ : ∀ m ∈ idle.history (before ++ later), Q m)
    (hR : ∀ m ∈ (idle.playAll before).history later, R m) :
    P ((idle.playAll before).history later) (idle.playAll (before ++ later)) := by
  induction later using List.reverseRecOn with
  | nil => simpa using hstart
  | append_singleton later move ih =>
      have hlast : idle.playAll (before ++ (later ++ [move])) =
          (idle.playAll (before ++ later)).play move := by
        rw [← List.append_assoc, playAll_append _ (before ++ later)]
        rfl
      rw [← List.append_assoc, history_append] at hQ
      rw [history_append, ← playAll_append] at hR ⊢
      have hbefore := ih (fun m hm => hQ m (List.mem_append_left _ hm))
        fun m hm => hR m (List.mem_append_left _ hm)
      rw [hlast]
      cases move with
      | begin step => simpa only [history, List.append_nil] using hbegin _ _ step hbefore
      | decide left => simpa only [history, List.append_nil] using hdecide _ _ left hbefore
      | advance =>
          exact hadvance later _ (fun m hm => hQ m (List.mem_append_left _ hm))
            (hQ _ (List.mem_append_right _ List.mem_cons_self))
            (hR _ (List.mem_append_right _ List.mem_cons_self)) hbefore

end Machine

end TabRelay.Session
