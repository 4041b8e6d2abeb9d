import TabRelay.Storage.Area

/-!
# The operations of a storage area

What one call to an area does: the area afterwards, the event it raises if any,
and the reply.  Reading leaves the area as it is and raises nothing.
-/

namespace TabRelay.Storage

inductive Operation where
  | set (key text : String)
  | remove (key : String)
  | clear
  | length
  | keyAt (index : Nat)
  | get (key : String)
  deriving DecidableEq, Repr

inductive Reply where
  | done
  | refused (error : AreaError)
  | count (n : Nat)
  | text (text : Option String)
  deriving DecidableEq, Repr

def Reply.inWord : Reply → Reply
  | .count n => .count (n % 0x100000000)
  | reply => reply

structure Outcome (α : Type) where
  area : α
  raised : Option Event
  reply : Reply

namespace Operation

/-- The faults of a handle keep the operation from reaching the area as it is. -/
def isBarred (faults : Faults) : Operation → Bool
  | set _ _ => Call.set ∈ faults.failing
  | remove _ => Call.remove ∈ faults.failing
  | clear => false
  | _ => faults ≠ {}

end Operation

def Area.perform (area : Area) : Operation → Outcome Area
  | .set key text =>
      match area.set key text with
      | .ok (changed, raised) => ⟨changed, raised, .done⟩
      | .error e => ⟨area, none, .refused e⟩
  | .remove key => ⟨(area.remove key).1, (area.remove key).2, .done⟩
  | .clear => ⟨area.clear.1, area.clear.2, .done⟩
  | .length => ⟨area, none, .count area.length⟩
  | .keyAt index => ⟨area, none, .text (area.keyAt? index)⟩
  | .get key => ⟨area, none, .text (area.get? key)⟩

end TabRelay.Storage
