import TabRelay.Text.Keyed

/-!
# Snapshots of a storage area

A snapshot holds every stored text of an area.  It is read from any service that
tells the number of its keys, the key at an index and the text of a key.  Room is
made for the entries as soon as their number is told.  Keys and texts that turn out
to be absent are left out, and the first call that fails ends the reading.
-/

namespace TabRelay

abbrev Snapshot := Keyed String

structure Service (m : Type → Type) where
  length : m Nat
  key : Nat → m (Option String)
  get : String → m (Option String)

namespace Snapshot

variable {m : Type → Type} [Monad m]

def collect (service : Service m) (index : Nat) : Nat → Snapshot → m Snapshot
  | 0, entries => pure entries
  | count + 1, entries => do
      match ← service.key index with
      | none => collect service (index + 1) count entries
      | some key =>
          match ← service.get key with
          | none => collect service (index + 1) count entries
          | some text => collect service (index + 1) count (Keyed.insert key text entries)

def readReserving (reserve : Nat → m Unit) (service : Service m) : m Snapshot := do
  let count ← service.length
  reserve count
  collect service 0 count []

/-- Read where there is room for any number of entries. -/
def read (service : Service m) : m Snapshot := readReserving (fun _ => pure ()) service

end Snapshot

/-! ## Room for entries -/

/-- The bytes of a word, and those of the largest block that is to be had. -/
structure Memory where
  word : Nat
  largest : Nat

namespace Memory

/-- A page has words of 32 bits, and no block of more than 2^31 - 1 bytes. -/
def page : Memory := ⟨4, Nat.pow 2 31 - 1⟩

/-- The slots of a table are a power of two, of which an eighth stays free. -/
def slots (count : Nat) : Nat :=
  if count < 4 then 4
  else if count < 8 then 8
  else Nat.pow 2 (Nat.log2 (count * 8 / 7 - 1) + 1)

/-- A slot has the three words of a key and of a text each, and a byte that tells whether it
is taken. -/
def tableBytes (memory : Memory) (count : Nat) : Nat :=
  if count = 0 then 0 else slots count * (6 * memory.word + 1) + 2 * memory.word

def holds (memory : Memory) (count : Nat) : Bool := memory.tableBytes count ≤ memory.largest

example : page.holds 58720256 = true ∧ page.holds 58720257 = false := by decide

end Memory

end TabRelay
