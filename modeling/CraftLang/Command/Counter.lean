/-!
Counters of repeating commands. A loop counter is used up by restarts and a gate counter by passes;
both start over once they are exhausted, so that a later visit finds them as they were.
-/

namespace CraftLang

/-- The counter of a loop. Without a start the loop has no bound. -/
structure LoopCounter where
  start : Option Nat
  remaining : Option Nat
  deriving DecidableEq, Repr, Inhabited

namespace LoopCounter

/-- What a loop does: it restarts, with so many restarts left, or it is exhausted. -/
inductive Turn where
  | restart (remaining : Option Nat)
  | exhausted
  deriving DecidableEq, Repr

def ofCount (count : Option Nat) : LoopCounter := ⟨count, count⟩

def next (counter : LoopCounter) : Turn × LoopCounter :=
  match counter.remaining with
  | none => (.restart none, counter)
  -- It starts afresh when the frame comes to it once more.
  | some 0 => (.exhausted, { counter with remaining := counter.start })
  | some (n + 1) => (.restart (some n), { counter with remaining := some n })

end LoopCounter

/-- The counter of a gate. What remains is negative once the gate is exhausted. -/
structure GateCounter where
  start : Nat
  remaining : Int
  deriving DecidableEq, Repr, Inhabited

namespace GateCounter

/-- What a gate does: it opens, with so many passes left after this one, or it ends the macro. -/
inductive Pass where
  | opened (remaining : Nat)
  | complete
  deriving DecidableEq, Repr

/-- A fresh counter. It opens once more than its count. -/
def ofCount (count : Nat) : GateCounter := ⟨count, count⟩

def next (counter : GateCounter) : Pass × GateCounter :=
  if counter.remaining < 0 then (.complete, { counter with remaining := counter.start })
  else
    (.opened counter.remaining.toNat, { counter with remaining := counter.remaining - 1 })

end GateCounter

end CraftLang
