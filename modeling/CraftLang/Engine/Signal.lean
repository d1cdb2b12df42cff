import CraftLang.Command.Wait

/-!
Signals between the engine and its callers: gates that are open or closed, and a token that is
cancelled once and for all. Both are looked at without waiting, or waited for.
-/

namespace CraftLang

/-- A gate. Waiting for it sees only the state it is in, not states it went through. -/
structure Gate where
  isOpen : Bool
  deriving DecidableEq, Repr, Inhabited

namespace Gate

def opened : Gate := ⟨true⟩

def closed : Gate := ⟨false⟩

/-- Wait until the gate is in a state, but no longer than `limit`: whether it came to that, and how
long it took. A gate that nobody else moves is in the state at once or never. -/
def await (gate : Gate) (state : Bool) (limit : Nat) : Bool × Nat :=
  if gate.isOpen == state then (true, 0) else (false, limit)

end Gate

/-- A token that ends every wait once it is cancelled. -/
structure CancelToken where
  isCancelled : Bool := false
  deriving DecidableEq, Repr, Inhabited

namespace CancelToken

def cancelled : CancelToken := ⟨true⟩

/-- Sleep with a token that nobody else cancels: the time that passes, or nothing if the token is
cancelled already. -/
def sleep? (token : CancelToken) (ms : Nat) : Option Nat :=
  if token.isCancelled then none else some (sleepMs ms)

/-- Wait until the token is cancelled, but no longer than `limit`. -/
def await (token : CancelToken) (limit : Nat) : Bool × Nat :=
  Gate.await ⟨token.isCancelled⟩ true limit

end CancelToken

end CraftLang
