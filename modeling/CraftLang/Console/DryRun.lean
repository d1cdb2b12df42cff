import CraftLang.Console.Failure
import CraftLang.Engine.Calls
import CraftLang.Engine.Run
import CraftLang.Engine.StatusJson
import CraftLang.Host.DryRun
import CraftLang.Json.Printer
import CraftLang.Store.Host

/-!
Dry runs at the console. The transcript is printed as it grows. The macros are read from their
folder again whenever the engine goes on after a wait, so that changes to them count.
-/

namespace CraftLang

open ConsoleProgram

/-- An engine with a dry run and the macros of a folder. -/
abbrev DryEngine := Engine (DryRun × Shelf)

namespace DryEngine

/-- More work than any run takes. -/
def enoughFuel : Nat := 1 <<< 60

def flush (e : DryEngine) : ConsoleProgram DryEngine := do
  let (run, shelf) := e.world
  run.transcript.reverse.forM print
  pure { e with world := ({ run with transcript := [] }, shelf) }

/-- Work until there is nothing to do at this moment. -/
def settle : Nat → DryEngine → ConsoleProgram DryEngine
  | 0, e => pure e
  | fuel + 1, e => do
    let e ← flush e
    match e.next? with
    | some e => settle fuel e
    | none => pure e

def readShelf (store : Store) : ConsoleProgram Shelf :=
  ofFile store.load.run

/-- Look at the clock, and read the macros again. -/
def refresh (store : Store) (e : DryEngine) : ConsoleProgram DryEngine := do
  let now ← clock
  let shelf ← readShelf store
  pure { e with now := max e.now now, world := (e.world.1, shelf) }

/-- Whether nothing more happens without a control line: all macros are done, or they wait. -/
def isOver (status : EngineStatus) : Bool :=
  (status.frames.isEmpty && 0 < status.retired) ||
    match status.state with
    | .paused | .stopped | .notReady => true
    | .idle | .running => false

/-- Run until nothing more happens. -/
def follow (store : Store) : Nat → DryEngine → ConsoleProgram DryEngine
  | 0, e => pure e
  | fuel + 1, e => do
    let e ← settle enoughFuel e
    if isOver e.published then pure e
    else
      match e.deadline? with
      | none => pure e
      | some wakeAt =>
        sleep (wakeAt - e.now)
        follow store fuel (← refresh store e)

def statusText (status : EngineStatus) : String :=
  (status.toJson FrameStatus.toFullJson).pretty

/-- Do what a line asks for. -/
def obey (e : DryEngine) (line : String) : ConsoleProgram DryEngine := do
  if (Text.trim line.toList).isEmpty then pure e
  else
    match ControlCommand.read line with
    | .error error =>
      complain ("error: " ++ error.message)
      pure e
    | .ok command =>
      match e.dispatch command with
      | (.ok none, e) => pure e
      | (.ok (some status), e) =>
        print (statusText status)
        pure e
      | (.error error, e) =>
        complain ("error: " ++ error.message)
        pure e

/-- Run and obey the lines that come in, until there are no more. -/
def converse (store : Store) : Nat → DryEngine → Commanding DryEngine
  | 0, e => pure e
  | fuel + 1, e => do
    let e ← settle enoughFuel e
    match ← await (e.deadline?.map (· - e.now)) with
    | .ended => pure e
    | .unreadable => throw { message := "stream did not contain valid UTF-8" }
    | .silence => converse store fuel (← refresh store e)
    | .line text =>
      let e ← refresh store e
      converse store fuel (← obey e text)

def perform (store : Store) (settings : Settings) (name : String) (loops : Option Int)
    (interactive : Bool) : Commanding Unit := do
  let shelf ← readShelf store
  let e : DryEngine := Engine.spawn DryRun.host.withShelf settings ({}, shelf)
  match e.runByName name loops with
  | (.error error, _) => throw (.ofRunError error)
  | (.ok _, e) =>
    let e ←
      if interactive then converse store enoughFuel e
      else do
        let e ← follow store enoughFuel e
        if e.published.state = .paused then
          print "Macro paused:"
          print (statusText e.status)
        pure e
    discard (settle enoughFuel e.shutdown)

end DryEngine

end CraftLang
