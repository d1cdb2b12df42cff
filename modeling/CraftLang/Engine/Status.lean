import CraftLang.Frame.Basic

/-!
The engine as its callers see it. The engine publishes its status at certain points of its work;
between them, callers see the last one.
-/

namespace CraftLang

/-- What the engine is doing. -/
inductive EngineState where
  /-- The host cannot run commands; there are no frames. -/
  | notReady
  /-- There is nothing to run. -/
  | idle
  /-- The top frame is being run. -/
  | running
  /-- There are frames, which wait for a resume. -/
  | paused
  /-- The engine has ended. -/
  | stopped
  deriving DecidableEq, Repr, Inhabited

def EngineState.word : EngineState → String
  | .notReady => "NotReady"
  | .idle => "Idle"
  | .running => "Running"
  | .paused => "Paused"
  | .stopped => "Stopped"

structure EngineStatus where
  state : EngineState
  /-- The frames, with the top of the stack first. -/
  frames : List FrameStatus := []
  /-- Whether the engine will pause at the next loop command. -/
  pausingSoon : Bool := false
  /-- Whether the engine will stop at the next loop command. -/
  stoppingSoon : Bool := false
  /-- How many frames have left the stack, for whatever reason. -/
  retired : Nat := 0
  deriving DecidableEq, Repr, Inhabited

end CraftLang
