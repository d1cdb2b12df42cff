import CraftLang.Engine.Basic

/-!
Letting an engine run. Without the passing of time it works until it has to wait; as time passes,
it wakes at its deadlines in order, and so do the callers that wait beside it. How much work is done
is bounded by fuel, since macros can loop for ever.
-/

namespace CraftLang

namespace Engine

variable {σ : Type}

/-- Work until there is nothing to do at this moment. -/
def work : Nat → Engine σ → Engine σ
  | 0, e => e
  | fuel + 1, e =>
    match e.next? with
    | some e => work fuel e
    | none => e

/-- The time at which the engine wakes by itself. -/
def deadline? (e : Engine σ) : Option Nat :=
  match e.phase with
  | .suspended wakeAt .. => some wakeAt
  | .resting wakeAt => some wakeAt
  | _ => none

/-- Let time pass until a status satisfies `wanted`, or up to `limit`. What is due at that moment
is still to come. -/
def workWhile (wanted : EngineStatus → Bool) : Nat → Nat → Engine σ → Bool × Engine σ
  | 0, _, e => (false, e)
  | fuel + 1, limit, e =>
    if wanted e.published then (true, e)
    else
      match e.deadline? with
      | some wakeAt =>
        -- At the limit itself the caller comes first.
        if wakeAt < limit then
          workWhile wanted fuel limit (work fuel { e with now := max e.now wakeAt })
        else (false, { e with now := limit })
      | none => (false, { e with now := limit })

/-- Wait, as a caller, until a status satisfies `wanted`, but no longer than `ms`. When that time is
over the caller goes on before the engine does, and one who does not wait at all leaves the engine
where it is. -/
def awaitStatus (wanted : EngineStatus → Bool) (fuel ms : Nat) (e : Engine σ) :
    Bool × Engine σ :=
  if wanted e.published then (true, e)
  else if ms = 0 then (false, e)
  else workWhile wanted fuel (e.now + sleepMs ms) (work fuel e)

def letPass (fuel ms : Nat) (e : Engine σ) : Engine σ :=
  (awaitStatus (fun _ => false) fuel ms e).2

end Engine

end CraftLang
