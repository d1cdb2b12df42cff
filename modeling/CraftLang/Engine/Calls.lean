import CraftLang.Engine.Basic
import CraftLang.Engine.Control

/-!
What callers do with an engine. Signals change at once; frames travel through the queue.
-/

namespace CraftLang

namespace Engine

variable {σ : Type}

/-- An engine without frames. The host is asked once whether it is ready. -/
def spawn (host : Host σ) (settings : Settings) (world : σ) (catalog : Catalog := {}) :
    Engine σ :=
  let (reply, world) := host.answer 0 .isReady world
  let isReady : Bool :=
    match reply with
    | .ok isReady => isReady
    | .error _ => false
  { host, settings, world, catalog
    now := 0
    -- The first frame opens it.
    pause := .closed
    ready := ⟨isReady⟩
    cancel := {}
    pauseAtLoop := false
    stopAtLoop := false
    queue := []
    published := { state := if isReady then .idle else .notReady }
    stack := []
    retired := 0
    phase := .top }

/-- Put a request into the queue. An engine that has ended takes none. -/
def send (e : Engine σ) (request : Request) : Engine σ :=
  if e.phase.hasEnded then e else { e with queue := e.queue ++ [request] }

/-- Run an action of the caller on the host, at this moment. -/
def callHost {α : Type} (e : Engine σ) (action : Action α) : Except RunError α × Engine σ :=
  let (result, timeline) :=
    Timeline.run e.host action { world := e.world, now := e.now }
  (result, { e with world := timeline.world })

/-- Run a macro on top of all others. -/
def enqueue (e : Engine σ) (stored : StoredMacro) (loops : Option Int) :
    Except RunError Unit × Engine σ :=
  match e.callHost (Frame.ofStored e.settings.craftLoop stored loops) with
  | (.ok (.ok frame), e) => (.ok (), e.send (.push frame))
  | (.ok (.error error), e) => (.error (.command error), e)
  | (.error error, e) => (.error error, e)

def enqueueSource (e : Engine σ) (name : String) (source : LineSource) : Engine σ :=
  e.send (.push (.ofSource { name, contents := "", language := .script } source))

def runByName (e : Engine σ) (name : String) (loops : Option Int) :
    Except RunError Unit × Engine σ :=
  match e.callHost (Execute.resolveMacro name) with
  | (.ok (.ok stored), e) => e.enqueue stored loops
  | (.ok (.error error), e) => (.error (.command error), e)
  | (.error error, e) => (.error error, e)

/-- Pause, now or at the next loop command. -/
def pauseNow (e : Engine σ) (atLoop : Bool) : Engine σ :=
  if atLoop then { e with pauseAtLoop := true } else { e with pause := .closed }

/-- Stop all macros, now or at the next loop command. -/
def stopNow (e : Engine σ) (atLoop : Bool) : Engine σ :=
  if atLoop then { e with stopAtLoop := true } else { e with pause := .closed }.send .clear

def resume (e : Engine σ) : Engine σ :=
  { e with pause := .opened }

/-- Move the top frame past its next command, if the engine is paused. -/
def stepOver (e : Engine σ) : Engine σ :=
  e.send .step

/-- Report whether the host can run commands. -/
def setReady (e : Engine σ) (isReady : Bool) : Engine σ :=
  { e with ready := ⟨isReady⟩ }

/-- Cancel every wait, now and later. -/
def shutdown (e : Engine σ) : Engine σ :=
  { e with cancel := .cancelled }

/-- The last published status, with the deferred requests as they are now. -/
def status (e : Engine σ) : EngineStatus :=
  { e.published with pausingSoon := e.pauseAtLoop, stoppingSoon := e.stopAtLoop }

/-- The frames that the engine holds or will hold. They are gone with an engine that broke down. -/
def frames (e : Engine σ) : List Frame :=
  match e.phase with
  | .broken => []
  | _ =>
    e.stack ++ e.queue.filterMap fun request =>
      match request with
      | .push frame => some frame
      | _ => none

/-- All frames changed by `f`, those in the queue included. -/
def mapFrames (e : Engine σ) (f : Frame → Frame) : Engine σ :=
  { e with
    stack := e.stack.map f
    queue := e.queue.map fun request =>
      match request with
      | .push frame => .push (f frame)
      | request => request }

/-- The source that a channel feeds, as long as its frame is there. -/
def sourceFedBy? (e : Engine σ) (id : Nat) : Option LineSource :=
  (e.frames.filterMap Frame.source?).find? (·.isFedBy id)

def mapSourceFedBy (e : Engine σ) (id : Nat) (f : LineSource → LineSource) : Engine σ :=
  e.mapFrames (·.mapSource fun source => if source.isFedBy id then f source else source)

def feed (e : Engine σ) (id : Nat) (item : Fed) : FeedResult × Engine σ :=
  match e.sourceFedBy? id with
  | none => (.closed, e)
  | some source => ((source.feed item).1, e.mapSourceFedBy id fun source => (source.feed item).2)

/-- Let the source of a channel end. -/
def closeChannel (e : Engine σ) (id : Nat) : Engine σ :=
  e.mapSourceFedBy id LineSource.finish

def dispatch (e : Engine σ) :
    ControlCommand → Except RunError (Option EngineStatus) × Engine σ
  | .run name loops =>
    let (result, e) := e.runByName name loops
    (result.map fun _ => none, e)
  | .pause atLoop => (.ok none, e.pauseNow atLoop)
  | .resume => (.ok none, e.resume)
  | .stop atLoop => (.ok none, e.stopNow atLoop)
  | .step => (.ok none, e.stepOver)
  | .status => (.ok (some e.status), e)

end Engine

end CraftLang
