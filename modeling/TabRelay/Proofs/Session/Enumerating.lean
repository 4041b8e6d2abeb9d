import TabRelay.Proofs.Session.Replica
import TabRelay.Proofs.Session.Sequential
import TabRelay.Proofs.Text.Utf8

/-!
# Going through an area

The keys of an area are told one by one under their indices.  Whatever calls made
the area what it is, each tab is told all keys in the order of their bytes and none
after them, a snapshot has the text of every key, and the area is as before.
-/

namespace TabRelay.Session

open TabRelay.Storage TabRelay.Text

variable {V : Type}

def Step.isReading : Step V → Bool
  | .askArea .. | .askRelay .. | .snapshot .. => true
  | _ => false

/-- The service tells of exactly these entries. -/
structure Enumerates (service : Service (Except AreaError)) (entries : Snapshot) : Prop where
  length : service.length = .ok entries.length
  key : ∀ index, service.key index = .ok entries.keys[index]?
  get : ∀ key, service.get key = .ok (Keyed.lookup? key entries)
  read : Snapshot.read service = .ok entries

theorem get?_ofPairs (pairs : List (String × String)) (key : String) :
    (PlainMap.ofPairs pairs).get? key = pairs.reverse.lookup key := by
  rw [← PlainMap.ofEntries_ofPairs]
  exact Keyed.lookup?_ofPairs pairs key

namespace Machine

def Answers (m m' : Machine V) : Prop :=
  ∃ answer trace, m' = { m with control := .done answer, trace }

theorem answers_answerExcept {α : Type} (m : Machine V) (result : Except AreaError α)
    (f : α → Answer V) : m.Answers (m.answerExcept result f) := by
  cases result <;> exact ⟨_, _, rfl⟩

theorem answers_askArea {m : Machine V} (hfree : m.Unheld) (h : Handle)
    (question : AreaQuestion) : m.Answers (m.askArea h question) := by
  simp only [askArea, whenFree_of_unheld hfree]
  cases question <;> first | exact ⟨_, _, rfl⟩ | exact answers_answerExcept ..

theorem answers_askRelay {m : Machine V} (hfree : m.Unheld) (relay : Relay)
    (question : RelayQuestion) : m.Answers (m.askRelay relay question) := by
  cases question with
  | kind => exact answers_askArea hfree relay.handle .kind
  | get key => exact answers_askArea hfree relay.handle (.get key)
  | logLength =>
      simp only [askRelay, whenFree_of_unheld hfree]
      cases relay.listener <;> exact ⟨_, _, rfl⟩

theorem answers_snapshot {m : Machine V} (hfree : m.Unheld) (relay : Relay) :
    m.Answers (m.snapshot relay) := by
  simp only [snapshot, whenFree_of_unheld hfree]
  split <;> exact ⟨_, _, rfl⟩

theorem answers_withNamed {α : Type} {m : Machine V} {names : Keyed α} {id : String}
    {next : α → Machine V} (h : ∀ a, m.Answers (next a)) :
    m.Answers (m.withNamed names id next) := by
  unfold withNamed
  split
  · exact ⟨_, _, rfl⟩
  · exact h _

theorem enumerates_area {m : Machine V} {h : Handle} (hfaults : m.system.faultsOf h = {})
    (hsorted : Keyed.Sorted (m.system.area h.area).entries)
    (hsize : (m.system.area h.area).entries.length < 2 ^ 32) :
    Enumerates (m.service h) (m.system.area h.area).entries where
  length := by
    have hword : (m.system.area h.area).length = (m.system.area h.area).entries.length :=
      Nat.mod_eq_of_lt hsize
    rw [service_reads hfaults, hword]
  key index := by
    have hkey : (m.system.area h.area).keyAt? index = (m.system.area h.area).entries.keys[index]? :=
      List.getElem?_map.symm
    rw [service_reads hfaults, ← hkey]
  get key := by
    rw [service_reads hfaults]
    rfl
  read := snapshot_eq hfaults hsorted hsize

variable [Storable V]

theorem answers_of_isReading {m : Machine V} (hfree : m.Unheld) {step : Step V}
    (hrun : m.control = .run step) (hreading : step.isReading) : m.Answers m.advance := by
  rw [advance, hrun]
  cases step with
  | askArea storage question => exact answers_withNamed fun h => answers_askArea hfree h question
  | askRelay relay question =>
      exact answers_withNamed fun relay => answers_askRelay hfree relay question
  | snapshot relay => exact answers_withNamed fun relay => answers_snapshot hfree relay
  | _ => contradiction

theorem advance_snapshot {m : Machine V} (hfree : m.Unheld) {name : String} {relay : Relay}
    (hrun : m.control = .run (.snapshot name))
    (hname : Keyed.lookup? name m.system.relayNames = some relay) {entries : Snapshot}
    (hread : Snapshot.read (m.service relay.handle) = .ok entries) :
    m.advance.control = .done (.snapshot entries) := by
  have hservice (kind : String) : (m.mark (.enterRead kind)).service relay.handle =
      m.service relay.handle := rfl
  simp only [advance, hrun, begin, withRelay, withNamed, hname, snapshot, whenFree_of_unheld hfree,
    hservice, hread]
  rfl

theorem entries_of_plainArea {moves : List (Move V)} {i : Nat} {plain : PlainArea}
    (hplain : plainArea (idle.history moves) i = some plain) :
    plain.map = .ofEntries ((idle.playAll moves).system.area i).entries := by
  rw [← plain_playAll] at hplain
  obtain ⟨area, harea, rfl⟩ := Option.map_eq_some_iff.mp hplain
  have hsame : (idle.playAll moves).system.area i = area := by
    rw [System.area, List.getD_eq_getElem?_getD, harea]
    rfl
  rw [hsame]
  rfl

/--
Every tab is told all entries of an area, in the order of their keys' bytes, by the indices and
by a snapshot.  The entries are those that the calls so far make, and reading them changes
nothing.
-/
theorem enumeration_is_complete (moves : List (Move V)) (i : Nat) (plain : PlainArea)
    (hplain : plainArea (idle.history moves) i = some plain) (hsize : plain.map.size < 2 ^ 32) :
    (∃ entries : Snapshot,
      entries.length = plain.map.size ∧
      (entries.keys.Pairwise fun a b => utf8 a < utf8 b) ∧
      (∀ key, key ∈ entries.keys ↔ plain.map.get? key ≠ none) ∧
      (∀ key, Keyed.lookup? key entries = plain.map.get? key) ∧
      (∀ h : Handle, h.area = i → (idle.playAll moves).system.faultsOf h = {} →
        Enumerates ((idle.playAll moves).service h) entries) ∧
      ∀ name relay, (idle.playAll moves).control = .run (.snapshot name) →
        Keyed.lookup? name (idle.playAll moves).system.relayNames = some relay →
        relay.handle.area = i → (idle.playAll moves).system.faultsOf relay.handle = {} →
        (idle.playAll moves).advance.control = .done (.snapshot entries)) ∧
    (∀ step, (idle.playAll moves).control = .run step → step.isReading →
      (idle.playAll moves).Answers (idle.playAll moves).advance) ∧
    ∀ id kind pairs, (idle.playAll moves).control = .run (.newWithEntries id kind pairs) →
      ∃ map, (idle.playAll moves).happening? (idle.playAll moves).system.areas.length =
          some (.opened ⟨kind, none, map⟩) ∧
        ∀ key, map.get? key = pairs.reverse.lookup key := by
  have hmap := entries_of_plainArea hplain
  have hsorted := (grounded_playAll moves).sorted_area i
  have horderly := orderly_playAll moves
  generalize idle.playAll moves = m at hmap hsorted horderly ⊢
  have hlength : plain.map.size = (m.system.area i).entries.length := by
    rw [hmap, PlainMap.size_ofEntries hsorted]
  have hunheld {step : Step V} (hrun : m.control = .run step) : m.Unheld :=
    unheld_of_no_disposing (horderly.running step hrun)
  have hentries (h : Handle) (hi : h.area = i) (hfaults : m.system.faultsOf h = {}) :
      Enumerates (m.service h) (m.system.area i).entries := by
    subst hi
    exact enumerates_area hfaults hsorted (hlength ▸ hsize)
  refine ⟨⟨(m.system.area i).entries, hlength.symm, ?_, ?_, ?_, ?_, ?_⟩, ?_, ?_⟩
  · exact List.Pairwise.map _ (fun _ _ hlt => utf8_lt_iff.mpr hlt) hsorted
  · intro key
    rw [hmap, ← PlainMap.mem_keys]
    exact List.mem_toFinset.symm
  · intro key
    rw [hmap]
    rfl
  · exact hentries
  · intro name relay hrun hname hi hfaults
    exact advance_snapshot (hunheld hrun) hrun hname (hentries relay.handle hi hfaults).read
  · exact fun step hrun hreading => answers_of_isReading (hunheld hrun) hrun hreading
  · intro id kind pairs hrun
    refine ⟨.ofPairs pairs, ?_, get?_ofPairs pairs⟩
    simp only [happening?, hrun, Step.opens?, if_true]

def filled : List (Move Draft) :=
  [.begin (.newWithEntries "a" .localArea [("k", "1"), ("j", "2"), ("k", "3")]), .advance,
    .begin (.openTab "b" "a"), .advance, .begin (.set "b" "λ" "4"), .advance, .advance, .advance,
    .begin (.remove "a" "j"), .advance]

theorem filled_is_complete :
    ∃ entries : Snapshot, Keyed.lookup? "k" entries = some "3" ∧ "j" ∉ entries.keys ∧
      Enumerates ((idle.playAll filled).service ⟨0, 0⟩) entries ∧
      Enumerates ((idle.playAll filled).service ⟨0, 1⟩) entries := by
  have hentries : ((idle.playAll filled).system.area 0).entries = [("k", "3"), ("λ", "4")] := by
    decide
  obtain ⟨plain, hplain⟩ : ∃ plain, plainArea (idle.history filled) 0 = some plain := by
    rw [← plain_playAll]
    exact ⟨_, rfl⟩
  have hmap : plain.map = .ofEntries [("k", "3"), ("λ", "4")] := by
    rw [entries_of_plainArea hplain, hentries]
  have hsize : plain.map.size < 2 ^ 32 := by
    rw [hmap]
    decide
  obtain ⟨⟨entries, -, -, hkeys, hlookup, htabs, -⟩, -, -⟩ :=
    enumeration_is_complete filled 0 plain hplain hsize
  refine ⟨entries, ?_, ?_, htabs ⟨0, 0⟩ rfl (by decide), htabs ⟨0, 1⟩ rfl (by decide)⟩
  · rw [hlookup, hmap]
    rfl
  · rw [hkeys, hmap]
    simp [PlainMap.ofEntries, Keyed.lookup?]

end Machine

end TabRelay.Session
