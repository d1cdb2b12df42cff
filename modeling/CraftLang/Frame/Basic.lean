import CraftLang.Command.Action

/-!
Frames: macros in progress. A frame has its commands and a program counter. The commands are read
from the macro's source at the start, or from lines that are pulled one at a time; pulled commands
are kept.
-/

namespace CraftLang

/-- The commands of a frame. -/
inductive FrameBody where
  /-- All commands of a source. -/
  | parsed (commands : List Command)
  /-- A source of lines, the commands it has yielded, how many lines were pulled from it, and
  whether it has ended. -/
  | produced (source : LineSource) (yielded : List Command) (pulled : Nat) (exhausted : Bool)
  deriving DecidableEq, Repr, Inhabited

/-- A macro in progress. -/
structure Frame where
  stored : StoredMacro
  body : FrameBody
  /-- The position of the command to run next. -/
  index : Nat := 0
  /-- How often the frame was restarted. The number is for display and wraps around. -/
  iterations : UInt32 := 0
  deriving DecidableEq, Repr, Inhabited

/-- A frame as callers see it. -/
structure FrameStatus where
  name : String
  index : Nat
  /-- How many commands there are, once that is known. -/
  total : Option Nat
  /-- The text of the command to run next, if it is known already. -/
  current : Option String
  iterations : UInt32
  deriving DecidableEq, Repr, Inhabited

/-- What looking for the next command comes to. -/
inductive Fetched where
  | command (command : Command)
  | finished
  | failed (error : CommandError)
  /-- The source has nothing to offer yet. -/
  | waiting
  /-- One line was dealt with; look again. -/
  | again
  deriving DecidableEq, Repr

namespace Frame

def ofCommands (stored : StoredMacro) (commands : List Command) : Frame :=
  { stored, body := .parsed commands }

def ofSource (stored : StoredMacro) (source : LineSource) : Frame :=
  { stored, body := .produced source [] 0 false }

/-- The source to run for a macro under a loop override. For craft loops it replaces the count; for
other macros a loop command is added unless it is zero. -/
def sourceOf (config : CraftLoopConfig) (stored : StoredMacro) (loops : Option Int) :
    Except CraftLoop.Error String :=
  if stored.craftLoop then
    CraftLoop.expand config stored.contents (loops.getD stored.craftCount)
  else
    match loops with
    | none => .ok stored.contents
    | some n =>
      if n = 0 then .ok stored.contents
      -- A loop without a count has no end.
      else if n < 0 then .ok (stored.contents ++ "\n/loop")
      else .ok (stored.contents ++ "\n/loop " ++ Decimal.intText n)

def ofNative (config : CraftLoopConfig) (stored : StoredMacro) (loops : Option Int) :
    Except CommandError Frame :=
  match sourceOf config stored loops with
  | .error e => .error (.craftLoop e)
  | .ok source =>
    match readSource source with
    | .error e => .error (.source e)
    | .ok commands => .ok (ofCommands stored commands)

/-- A frame for a stored macro. Scripts are started by the host. -/
def ofStored (config : CraftLoopConfig) (stored : StoredMacro) (loops : Option Int) :
    Action (Except CommandError Frame) :=
  match stored.language with
  | .native => pure (ofNative config stored loops)
  | .script => do
    match ← Action.host (.startScript stored) with
    | some source => pure (.ok (ofSource stored source))
    | none => pure (.error (.noScriptRuntime stored.name))

def name (frame : Frame) : String := frame.stored.name

def isProduced (frame : Frame) : Bool :=
  match frame.body with
  | .parsed _ => false
  | .produced .. => true

/-- The commands known so far. -/
def commands (frame : Frame) : List Command :=
  match frame.body with
  | .parsed commands => commands
  | .produced _ yielded _ _ => yielded

/-- How many commands there are, once that is known. -/
def total (frame : Frame) : Option Nat :=
  match frame.body with
  | .parsed commands => some commands.length
  | .produced _ yielded _ exhausted => if exhausted then some yielded.length else none

/-- Look for the command at the program counter, dealing with one line of the source at most. -/
def fetchStep (frame : Frame) : Fetched × Frame :=
  match frame.commands[frame.index]? with
  | some command => (.command command, frame)
  | none =>
    match frame.body with
    | .parsed _ => (.finished, frame)
    | .produced source yielded pulled exhausted =>
      if exhausted then (.finished, frame)
      else
        match source.pull with
        | (.line text, source) =>
          match Source.readLine text.toList pulled with
          | .ok command =>
            (.again,
              { frame with
                body := .produced source (yielded ++ command.toList) (pulled + 1) false })
          | .error e =>
            (.failed (.source e),
              { frame with body := .produced source yielded (pulled + 1) false })
        -- A failure of the source does not count as a line.
        | (.failed message, source) =>
          (.failed (.producer message), { frame with body := .produced source yielded pulled false })
        | (.ended, source) => (.again, { frame with body := .produced source yielded pulled true })
        | (.waiting, _) => (.waiting, frame)

/-- Look for the command at the program counter in so many steps. -/
def fetchWithin : Nat → Frame → Fetched × Frame
  | 0, frame => (.waiting, frame)
  | steps + 1, frame =>
    match frame.fetchStep with
    | (.again, frame) => fetchWithin steps frame
    | result => result

/-- How many lines are pending in the source. -/
def pendingLines (frame : Frame) : Nat :=
  match frame.body with
  | .parsed _ => 0
  | .produced source _ _ _ => source.pending.length

/-- Look for the command at the program counter, pulling lines as needed. -/
def fetch (frame : Frame) : Fetched × Frame :=
  -- Each step deals with a line, and then there is the end of the source and the end of the frame.
  frame.fetchWithin (frame.pendingLines + 2)

def advance (frame : Frame) : Frame :=
  { frame with index := frame.index + 1 }

/-- Go back to the first command. Lines that were pulled cannot be had again, so a frame over a
source of lines refuses. -/
def restart (frame : Frame) : Except CommandError Frame :=
  if frame.isProduced then .error (.loopUnsupported frame.name)
  else .ok { frame with index := 0, iterations := frame.iterations + 1 }

/-- Replace the instruction at the program counter, whose counters have moved. -/
def setKind (frame : Frame) (kind : CommandKind) : Frame :=
  let update := fun commands : List Command =>
    commands.modify frame.index ({ · with kind })
  match frame.body with
  | .parsed commands => { frame with body := .parsed (update commands) }
  | .produced source yielded pulled exhausted =>
    { frame with body := .produced source (update yielded) pulled exhausted }

def mapSource (frame : Frame) (f : LineSource → LineSource) : Frame :=
  match frame.body with
  | .parsed _ => frame
  | .produced source yielded pulled exhausted =>
    { frame with body := .produced (f source) yielded pulled exhausted }

/-- The source of lines, if there is one. -/
def source? (frame : Frame) : Option LineSource :=
  match frame.body with
  | .parsed _ => none
  | .produced source _ _ _ => some source

def status (frame : Frame) : FrameStatus :=
  { name := frame.name
    index := frame.index
    total := frame.total
    current := (frame.commands[frame.index]?).map (·.text)
    iterations := frame.iterations }

end Frame

end CraftLang
