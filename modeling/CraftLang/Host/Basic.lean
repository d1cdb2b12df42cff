import CraftLang.Library.Registry
import CraftLang.Modifier.Basic

/-!
The host: everything around the engine, as the calls that it answers. It prints and sends text,
tells about the craft and the character, carries out actions, finds macros, runs scripts and draws
random numbers.
-/

namespace CraftLang

/-- How serious a notice is. -/
inductive Severity where
  | info
  | warning
  | error
  deriving DecidableEq, Repr, Inhabited

/-- A craft in progress. -/
structure CraftState where
  /-- The number of the step, which grows with each action that takes effect. -/
  step : Nat := 0
  progress : Nat := 0
  maxProgress : Nat := 0
  quality : Nat := 0
  maxQuality : Nat := 0
  /-- The chance of high quality, in percent. -/
  percentHq : Nat := 0
  durability : Nat := 0
  /-- The name of the current condition. -/
  condition : String := ""
  deriving DecidableEq, Repr, Inhabited

/-- The stats of a character that matter to crafting. -/
structure CharacterStats where
  craftsmanship : Nat := 0
  control : Nat := 0
  cp : Nat := 0
  deriving DecidableEq, Repr, Inhabited

/-- Something that a host is asked for. -/
inductive HostCall where
  /-- Whether commands can run at all. -/
  | isReady
  /-- Send text as if it was typed. -/
  | send (text : String)
  | printInfo (text : String)
  | printEcho (text : String)
  | printError (text : String)
  /-- The craft in progress, if there is one. -/
  | craftState
  | characterStats
  | needsRepair
  | spiritbondReady
  | hasStatus (name : String)
  /-- Whether a window is there and takes input. -/
  | addonReady (name : String)
  /-- The names of all crafting actions. -/
  | craftActions
  | selectTarget (name : String) (index : Option Nat)
  | useItem (name : String) (quality : Option ItemQuality)
  | findRecipe (name : String)
  | openRecipe (id : Nat)
  | sendKey (name : String)
  | sendClick (name : String)
  /-- The macros of a name. -/
  | findMacro (name : String)
  /-- Start a script, if there is a runtime for scripts. -/
  | startScript (stored : StoredMacro)
  /-- A number below a positive bound, at random. -/
  | draw (bound : Nat)
  deriving DecidableEq, Repr

/-- What a host replies to a call. -/
def HostCall.Reply : HostCall → Type
  | .isReady => Bool
  | .send _ | .printInfo _ | .printEcho _ | .printError _ => Unit
  | .craftState => Option CraftState
  | .characterStats => CharacterStats
  | .needsRepair | .spiritbondReady | .hasStatus _ | .addonReady _ => Bool
  | .craftActions => List String
  | .selectTarget .. | .useItem .. => Bool
  | .findRecipe _ => Option Nat
  | .openRecipe _ | .sendKey _ | .sendClick _ => Bool
  | .findMacro _ => List StoredMacro
  | .startScript _ => Option LineSource
  | .draw _ => Nat

/-- A call that a host cannot answer: it reports an error, or it breaks down. -/
inductive HostFailure where
  | error (message : String)
  | breakdown (message : String)
  deriving DecidableEq, Repr, Inhabited

def HostFailure.message : HostFailure → String
  | .error message => message
  | .breakdown message => "panic while executing command: " ++ message

/-- A host with states `σ`. It answers each call at a time in milliseconds. -/
structure Host (σ : Type) where
  answer : Nat → (call : HostCall) → σ → Except HostFailure call.Reply × σ

/-- The call that prints a notice: errors as errors, everything else as information. -/
def HostCall.notice (text : String) : Severity → HostCall
  | .error => .printError text
  | .info | .warning => .printInfo text

/-- Macros and scripts to run. -/
structure Library where
  macros : Registry := []
  scripts : Option Scripts := none
  deriving Inhabited

namespace Library

/-- Start a script by the name of its macro. -/
def start (library : Library) (stored : StoredMacro) : Except HostFailure (Option LineSource) :=
  match library.scripts with
  | none => .ok none
  | some scripts =>
    match scripts.lookup stored.name with
    | some items => .ok (some (.ofItems items))
    | none => .error (.error ("no script " ++ stored.name))

end Library

/-- A host that finds macros and scripts in a library and leaves all other calls to another
host. -/
def Host.withLibrary {σ : Type} (host : Host σ) : Host (σ × Library) where
  answer now
    | .findMacro name, state => (.ok (state.2.macros.find name), state)
    | .startScript stored, state => (state.2.start stored, state)
    | call, state =>
      let (reply, world) := host.answer now call state.1
      (reply, (world, state.2))

end CraftLang
