import CraftLang.Command.Execute
import CraftLang.Engine.Signal
import CraftLang.Engine.Status

/-!
The engine. It works on a stack of frames, of which only the top one runs. Callers never touch the
stack: they put requests into a queue, which the engine empties between commands, and they set
signals, which it looks at between commands. The work is cut into steps, so that callers can come in
between any two of them: a step takes a request, or it looks at one signal or sets it, or it makes
one call to the host. A status is published together with the look at the signal that it tells of.
-/

namespace CraftLang

/-- What callers put into the queue. -/
inductive Request where
  /-- Put a frame on the stack and open the pause gate. -/
  | push (frame : Frame)
  /-- Take all frames off the stack. -/
  | clear
  /-- Move the program counter of the top frame, if the pause gate is closed. -/
  | step
  deriving DecidableEq, Repr

/-- What the engine does after it has printed something on its own account. -/
inductive Aftermath where
  /-- Close the pause gate, and wait out the delay of the command if it is past it. -/
  | pause (delay : Option Nat)
  /-- Take the top frame off the stack. -/
  | pop
  /-- Take all frames off the stack. -/
  | clear

/-- Where the engine is in its work. -/
inductive Phase where
  /-- At the top of its round. -/
  | top
  /-- Emptying the queue. -/
  | draining
  /-- About to carry out the first request of the queue, which is taken: callers put theirs behind
  it. The engine goes on emptying the queue, or to the top of its round. -/
  | taken (drains : Bool)
  /-- About to look at the ready gate. -/
  | checkingReady
  /-- About to look at the pause gate. -/
  | checkingPause
  /-- Found nothing to run, and about to close the pause gate. -/
  | emptied
  /-- Waiting for a signal or a request; the ready gate is the one that matters, or the pause
  gate. -/
  | blocked (forReady : Bool)
  /-- Looking for the next command of the top frame. -/
  | fetching
  /-- About to draw the delay of a command that was found. -/
  | drawing (command : Command)
  /-- Carrying out a command with the given text; its delay is drawn already. -/
  | running (program : Action Executed) (text : String) (delay : Nat)
  /-- Asleep within a command. -/
  | suspended (wakeAt : Nat) (program : Action Executed) (text : String) (delay : Nat)
  /-- A loop command was carried out, and a deferred stop comes first. -/
  | looped (restart : Bool) (text : String) (delay : Nat)
  /-- The loop has had its effect, and a deferred pause comes next. -/
  | loopApplied (delay : Nat)
  /-- About to print something. -/
  | printing (call : HostCall) (after : Aftermath)
  /-- About to close the pause gate, and to wait out the delay of a command if there is one. -/
  | pausing (delay : Option Nat)
  /-- Waiting out the delay of a command. -/
  | resting (wakeAt : Nat)
  /-- About to end. -/
  | closing
  | stopped
  /-- The host broke down where nothing contains that, and took the engine with it. -/
  | broken

/-- Whether an engine does nothing any more. -/
def Phase.hasEnded : Phase → Bool
  | .stopped | .broken => true
  | _ => false

/-- An engine, its host, and the signals and requests of its callers. -/
structure Engine (σ : Type) where
  host : Host σ
  settings : Settings
  /-- The state of the host. -/
  world : σ
  catalog : Catalog
  /-- The time in milliseconds. -/
  now : Nat
  /-- Open while frames may run. -/
  pause : Gate
  /-- Open while the host can run commands. -/
  ready : Gate
  cancel : CancelToken
  /-- Pause at the next loop command. -/
  pauseAtLoop : Bool
  /-- Stop at the next loop command. -/
  stopAtLoop : Bool
  queue : List Request
  published : EngineStatus
  /-- The frames, with the top first. -/
  stack : List Frame
  retired : Nat
  phase : Phase

namespace Engine

variable {σ : Type}

def ask (e : Engine σ) (call : HostCall) : Except HostFailure call.Reply × Engine σ :=
  let (reply, world) := e.host.answer e.now call e.world
  (reply, { e with world })

def publish (e : Engine σ) (state : EngineState) : Engine σ :=
  { e with
    published :=
      { state
        frames := e.stack.map Frame.status
        pausingSoon := e.pauseAtLoop
        stoppingSoon := e.stopAtLoop
        retired := e.retired } }

def goto (e : Engine σ) (phase : Phase) : Engine σ :=
  { e with phase }

/-- The top frame changed by `f`. -/
def updateTop (e : Engine σ) (f : Frame → Frame) : Engine σ :=
  match e.stack with
  | [] => e
  | frame :: frames => { e with stack := f frame :: frames }

def pop (e : Engine σ) : Engine σ :=
  match e.stack with
  | [] => e
  | _ :: frames => { e with stack := frames, retired := e.retired + 1 }

def clear (e : Engine σ) : Engine σ :=
  { e with stack := [], retired := e.retired + e.stack.length }

/-- Go on after something was printed. -/
def conclude (e : Engine σ) : Aftermath → Engine σ
  | .pause delay => e.goto (.pausing delay)
  | .pop => e.pop.goto .top
  | .clear => e.clear.goto .top

/-- Print something. The engine itself does not survive a host that breaks down at this: nothing is
published any more, and everything is left as it is. -/
def print (e : Engine σ) (call : HostCall) (after : Aftermath) : Engine σ :=
  match e.ask call with
  | (.ok _, e) => e.conclude after
  | (.error _, e) => e.goto .broken

/-- The call that reports that a command with the given text failed. The command is numbered from
one. -/
def reportCall (e : Engine σ) (error : CommandError) (text : String) : HostCall :=
  .printError (error.message ++ " (" ++ text ++ ", step " ++
    Decimal.natText ((e.stack.head?.map Frame.index).getD 0 + 1) ++ ")")

/-- Report that a command failed, and then pause. -/
def report (e : Engine σ) (error : CommandError) (text : String) : Engine σ :=
  e.goto (.printing (e.reportCall error text) (.pause none))

/-- The call that reports an unexpected failure. -/
def giveUpCall : HostCall := .printError "Macro failed unexpectedly, stopping all macros"

/-- Report an unexpected failure, and then take all frames off the stack. -/
def giveUp (e : Engine σ) : Engine σ :=
  e.goto (.printing giveUpCall .clear)

def apply (e : Engine σ) : Request → Engine σ
  | .push frame => { e with stack := frame :: e.stack, pause := .opened }
  | .clear => e.clear
  | .step => if e.pause.isOpen then e else e.updateTop Frame.advance

def rest (e : Engine σ) (delay : Nat) : Engine σ :=
  if e.cancel.isCancelled then e.goto .closing
  else if delay = 0 then e.goto .top
  else e.goto (.resting (e.now + sleepMs delay))

/-- Make the call that a command comes to next. -/
def perform (e : Engine σ) (effect : Effect) (next : effect.Reply → Action Executed)
    (text : String) (delay : Nat) : Engine σ :=
  match effect with
  | .host call =>
    match e.ask call with
    | (.ok reply, e) => e.goto (.running (next reply) text delay)
    | (.error _, e) => e.giveUp
  -- The host is asked for the names once; then they are kept.
  | .knowsAction name =>
    if e.catalog.isLoaded then e.goto (.running (next (e.catalog.contains name)) text delay)
    else
      match e.ask .craftActions with
      | (.ok names, e) =>
        let catalog := Catalog.ofNames names
        { e with catalog }.goto (.running (next (catalog.contains name)) text delay)
      | (.error _, e) => e.giveUp
  | .sleep ms =>
    if e.cancel.isCancelled then e.goto .closing
    else if ms = 0 then e.goto (.running (next ()) text delay)
    else e.goto (.suspended (e.now + sleepMs ms) (next ()) text delay)

/-- Act on the result of a command. -/
def settle (e : Engine σ) (result : Except CommandError Outcome) (text : String) (delay : Nat) :
    Engine σ :=
  match result with
  | .ok .proceed => (e.updateTop Frame.advance).rest delay
  -- A command that its condition holds back has no delay.
  | .ok .skipped => (e.updateTop Frame.advance).goto .top
  | .ok (.loop restart) => e.goto (.looped restart text delay)
  -- The program counter stays, so the command is carried out again after a resume.
  | .ok (.pause reason) =>
    e.goto (.printing (.notice reason.message reason.severity) (.pause none))
  | .ok .gateComplete => e.goto (.printing (.printInfo "Craft loop complete") .pop)
  -- The caller is past its command before the other frame comes on top.
  | .ok (.push frame) =>
    let e := e.updateTop Frame.advance
    { e with stack := frame :: e.stack }.rest delay
  | .error error => e.report error text

/-- Act on a deferred stop, or let the loop have its effect. -/
def applyLoop (e : Engine σ) (restart : Bool) (text : String) (delay : Nat) : Engine σ :=
  if e.stopAtLoop then
    { e with stopAtLoop := false }.goto (.printing (.printInfo "Stopping at loop") .clear)
  else if restart then
    match e.stack with
    | [] => e.goto .top
    | frame :: frames =>
      match frame.restart with
      | .ok frame => { e with stack := frame :: frames }.goto (.loopApplied delay)
      | .error error => e.report error text
  else (e.updateTop Frame.advance).goto (.loopApplied delay)

/-- Act on a deferred pause, and wait out the delay of the loop. -/
def applyDeferredPause (e : Engine σ) (delay : Nat) : Engine σ :=
  if e.pauseAtLoop then
    { e with pauseAtLoop := false }.goto
      (.printing (.printInfo "Pausing at loop") (.pause (some delay)))
  else e.rest delay

/-- Close the pause gate, and wait out the delay of the command if it is past it. A cancellation in
between would end the wait at once, as one after it does. -/
def close (e : Engine σ) (delay : Option Nat) : Engine σ :=
  let e := { e with pause := .closed }
  match delay with
  | none => e.goto .top
  | some delay => e.rest delay

/-- Look for the next command of the top frame. Nothing happens while its source of lines has
nothing to offer. -/
def fetch? (e : Engine σ) : Option (Engine σ) :=
  match e.stack with
  | [] => some (e.goto .top)
  | frame :: frames =>
    match frame.fetchStep with
    | (.command command, frame) =>
      some ({ e with stack := frame :: frames }.goto (.drawing command))
    | (.finished, _) => some (e.pop.goto .top)
    | (.failed error, frame) =>
      some ({ e with stack := frame :: frames }.report error frame.name)
    | (.again, frame) => some { e with stack := frame :: frames }
    | (.waiting, _) => none

/-- Start a command. Its delay is drawn first, outside of what contains a breakdown. -/
def start (e : Engine σ) (command : Command) : Engine σ :=
  let program := command.execute e.settings
  if command.modifiers.wait.isRange then
    match e.ask (.draw command.modifiers.wait.width) with
    | (.ok drawn, e) =>
      e.goto (.running program command.text (command.modifiers.wait.delay drawn))
    | (.error _, e) => e.goto .broken
  else e.goto (.running program command.text (command.modifiers.wait.delay 0))

/-- What the engine does by itself, if it need not wait. -/
def proceed? (e : Engine σ) : Option (Engine σ) :=
  match e.phase with
  | .top => some (e.goto (if e.cancel.isCancelled then .closing else .draining))
  | .draining => some (e.goto (if e.queue.isEmpty then .checkingReady else .taken true))
  | .taken drains =>
    let next := if drains then .draining else .top
    match e.queue with
    | [] => some (e.goto next)
    | request :: queue => some (({ e with queue }.apply request).goto next)
  -- Frames do not outlive a host that is not ready.
  | .checkingReady =>
    if e.ready.isOpen then some (e.goto .checkingPause)
    else some ((e.clear.publish .notReady).goto (.blocked true))
  | .checkingPause =>
    if e.pause.isOpen then
      if e.stack.isEmpty then some (e.goto .emptied)
      else some ((e.publish .running).goto .fetching)
    else
      some ((e.publish (if e.stack.isEmpty then .idle else .paused)).goto (.blocked false))
  -- Without frames the engine pauses itself, and the next frame opens the gate.
  | .emptied => some ({ e with pause := .closed }.goto .top)
  | .blocked true => if e.ready.isOpen then some (e.goto .top) else none
  | .blocked false =>
    if e.pause.isOpen || !e.ready.isOpen then some (e.goto .top) else none
  | .fetching => e.fetch?
  | .drawing command => some (e.start command)
  | .running (.done executed) text delay =>
    some ((e.updateTop (·.setKind executed.kind)).settle executed.result text delay)
  | .running (.call effect next) text delay => some (e.perform effect next text delay)
  | .suspended wakeAt program text delay =>
    if wakeAt ≤ e.now then some (e.goto (.running program text delay)) else none
  | .looped restart text delay => some (e.applyLoop restart text delay)
  | .loopApplied delay => some (e.applyDeferredPause delay)
  | .printing call after => some (e.print call after)
  | .pausing delay => some (e.close delay)
  | .resting wakeAt => if wakeAt ≤ e.now then some (e.goto .top) else none
  -- Requests that are still in the queue are lost.
  | .closing => some ({ (e.clear.publish .stopped) with queue := [] }.goto .stopped)
  | .stopped | .broken => none

/-- Whether the engine is at a point where it waits, or could have to. -/
def isWaiting (e : Engine σ) : Bool :=
  match e.phase with
  | .blocked _ | .fetching | .suspended .. | .resting _ => true
  | _ => false

def interrupt? (e : Engine σ) : Option (Engine σ) :=
  if e.cancel.isCancelled && e.isWaiting then some (e.goto .closing) else none

def serve? (e : Engine σ) : Option (Engine σ) :=
  match e.phase with
  | .blocked _ => if e.queue.isEmpty then none else some (e.goto (.taken false))
  | _ => none

/-- The ways to go on. Several of them may be possible while the engine waits. -/
inductive Branch where
  | interrupt
  | proceed
  | serve
  deriving DecidableEq, Repr

def take? (e : Engine σ) : Branch → Option (Engine σ)
  | .interrupt => e.interrupt?
  | .proceed => e.proceed?
  | .serve => e.serve?

/-- The next step along the first way that is possible. -/
def next? (e : Engine σ) : Option (Engine σ) :=
  e.interrupt? <|> e.proceed? <|> e.serve?

end Engine

end CraftLang
