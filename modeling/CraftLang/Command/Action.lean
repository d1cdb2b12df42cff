import CraftLang.Command.Error
import CraftLang.Host.Catalog
import CraftLang.Program

/-!
Actions: programs whose calls go to the host, look a name up in the catalog, or sleep. An action
can be run by itself, on a clock that nobody else moves and that cancels it at a given time.
-/

namespace CraftLang

/-- A call of an action. -/
inductive Effect where
  | host (call : HostCall)
  | knowsAction (name : String)
  | sleep (ms : Nat)
  deriving DecidableEq, Repr

/-- What an action gets for a call. -/
def Effect.Reply : Effect → Type
  | .host call => call.Reply
  | .knowsAction _ => Bool
  | .sleep _ => Unit

/-- A program that calls the host, looks into the catalog and sleeps. -/
abbrev Action := Program Effect Effect.Reply

namespace Action

def host (call : HostCall) : Action call.Reply :=
  Program.ask (Effect.host call)

/-- Whether a name is that of a crafting action. -/
def knowsAction (name : String) : Action Bool :=
  Program.ask (Effect.knowsAction name)

def sleep (ms : Nat) : Action Unit :=
  Program.ask (Effect.sleep ms)

/-- Try `probe` every `intervalMs`, but no more than a number of times, until it holds or `maxMs`
have been waited for. The time waited for is the sum of the intervals in 64 bits, so it comes round
to zero. -/
def pollFrom (probe : Action Bool) (maxMs intervalMs : Nat) : Nat → Nat → Action Bool
  | 0, _ => pure false
  | tries + 1, waitedMs => do
    -- The probe comes before the deadline, so there is one at the deadline too.
    if ← probe then return true
    else if maxMs ≤ waitedMs then return false
    else
      sleep intervalMs
      pollFrom probe maxMs intervalMs tries ((waitedMs + intervalMs) % UInt64.size)

/-- Try `probe` every `intervalMs` until it holds or `maxMs` have been waited for. It is tried once
at least, and an interval of zero counts as one. After `UInt64.size` tries the time waited for has
taken every value that it can take. -/
def pollUntil (maxMs intervalMs : Nat) (probe : Action Bool) : Action Bool :=
  pollFrom probe maxMs (max intervalMs 1) UInt64.size 0

end Action

/-- A run of actions by themselves: the state of the host, the catalog, the time, and the time from
which on the run is cancelled. -/
structure Timeline (σ : Type) where
  world : σ
  catalog : Catalog := {}
  now : Nat := 0
  cancelAt : Option Nat := none

namespace Timeline

variable {σ : Type}

def ask (host : Host σ) (timeline : Timeline σ) (call : HostCall) :
    Except HostFailure call.Reply × Timeline σ :=
  let (reply, world) := host.answer timeline.now call timeline.world
  (reply, { timeline with world })

/-- Whether the run is cancelled before a time. -/
def isCancelledBefore (timeline : Timeline σ) (time : Nat) : Bool :=
  timeline.cancelAt.any (· < time)

/-- Sleep, unless the run is cancelled first. -/
def sleep (timeline : Timeline σ) (ms : Nat) : Except RunError Unit × Timeline σ :=
  let wakeAt := timeline.now + sleepMs ms
  if timeline.isCancelledBefore (timeline.now + 1) then (.error .cancelled, timeline)
  else if timeline.isCancelledBefore wakeAt then
    (.error .cancelled, { timeline with now := timeline.cancelAt.getD timeline.now })
  else (.ok (), { timeline with now := wakeAt })

/-- Do what a call asks for. -/
def perform (host : Host σ) (timeline : Timeline σ) :
    (effect : Effect) → Except RunError effect.Reply × Timeline σ
  | .host call =>
    let (reply, timeline) := timeline.ask host call
    (reply.mapError .unexpected, timeline)
  | .knowsAction name =>
    if timeline.catalog.isLoaded then (.ok (timeline.catalog.contains name), timeline)
    else
      match timeline.ask host .craftActions with
      | (.ok names, timeline) =>
        let catalog := Catalog.ofNames names
        (.ok (catalog.contains name), { timeline with catalog })
      | (.error failure, timeline) => (.error (.unexpected failure), timeline)
  | .sleep ms => timeline.sleep ms

/-- Run an action to its end. -/
def run {α : Type} (host : Host σ) : Action α → Timeline σ → Except RunError α × Timeline σ
  | .done value, timeline => (.ok value, timeline)
  | .call effect next, timeline =>
    match timeline.perform host effect with
    | (.ok reply, timeline) => run host (next reply) timeline
    | (.error error, timeline) => (.error error, timeline)

end Timeline

end CraftLang
