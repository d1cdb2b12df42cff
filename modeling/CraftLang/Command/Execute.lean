import CraftLang.Engine.Settings
import CraftLang.Frame.Basic

/-!
Carrying out one command. The result says what the engine is to do next. A requirement that is not
met, a gate that has run out and a macro to be run first are results and not errors.
-/

namespace CraftLang

/-- Why a macro pauses by itself. -/
inductive PauseReason where
  | qualityNotReached (quality : Nat)
  | statsNotMet (craftsmanship control cp : Nat)
  | needsRepair
  | materiaReady
  deriving DecidableEq, Repr

def PauseReason.message : PauseReason → String
  | .qualityNotReached quality =>
    "Required quality " ++ Decimal.natText quality ++ " was not reached"
  | .statsNotMet craftsmanship control cp =>
    "Required stats were not met (craftsmanship " ++ Decimal.natText craftsmanship ++
      ", control " ++ Decimal.natText control ++ ", cp " ++ Decimal.natText cp ++ ")"
  | .needsRepair => "Equipment needs repair"
  | .materiaReady => "Materia can be extracted"

def PauseReason.severity : PauseReason → Severity
  | .qualityNotReached _ | .statsNotMet .. => .error
  | .needsRepair => .warning
  | .materiaReady => .info

/-- What is to be done after a command. -/
inductive Outcome where
  /-- Go on with the next command after the command's delay. -/
  | proceed
  /-- Go on with the next command at once. -/
  | skipped
  /-- A loop command ran; it restarts the macro, or is exhausted. -/
  | loop (restart : Bool)
  /-- Stay at the command and wait for a resume. -/
  | pause (reason : PauseReason)
  /-- The macro has made its crafts and ends. -/
  | gateComplete
  /-- Run another macro before the next command. -/
  | push (frame : Frame)
  deriving DecidableEq, Repr

/-- A command that was carried out: its instruction with moved counters, and the result. -/
structure Executed where
  kind : CommandKind
  result : Except CommandError Outcome

namespace Execute

def proceedIf (success : Bool) (error : CommandError) : Except CommandError Outcome :=
  if success then .ok .proceed else .error error

def pauseUnless (isMet : Bool) (reason : PauseReason) : Except CommandError Outcome :=
  if isMet then .ok .proceed else .ok (.pause reason)

/-- The one macro of a name. -/
def resolveMacro (name : String) : Action (Except CommandError StoredMacro) := do
  match ← Action.host (.findMacro name) with
  | [] => pure (.error (.macroNotFound name))
  | [stored] => pure (.ok stored)
  | found => pure (.error (.ambiguousMacro name found.length))

/-- The line that carries out an action in the game. -/
def actionLine (name : String) : String :=
  "/ac \"" ++ name ++ "\""

/-- Wait until an action shows its effect: the number of the step is no longer `before`. -/
def confirm (settings : Settings) (modifiers : Modifiers) (name : String) (before : Option Nat) :
    Action (Except CommandError Outcome) := do
  let maxMs := modifiers.maxWaitMs.getD settings.actionMaxWaitMs
  let registered ← Action.pollUntil maxMs settings.actionPollMs do
    let state ← Action.host .craftState
    pure ((Option.map CraftState.step state) != before)
  if registered then pure (.ok .proceed)
  else
    let error : CommandError := .timeout (.action name) maxMs
    -- The effect may have been missed, so it need not be an error.
    if settings.stopOnActionTimeout then pure (.error error)
    else
      Action.host (.notice error.message .warning)
      pure (.ok .proceed)

/-- Whether the current condition lets a command through. -/
def conditionMet (condition : Option ConditionGate) : Action Bool := do
  match condition with
  | none => pure true
  | some gate =>
    let state ← Action.host .craftState
    pure (gate.isMet ((Option.map CraftState.condition state).getD ""))

/-- Use an ability. Its effect is waited for during a craft, if it is a crafting action. -/
def action (settings : Settings) (modifiers : Modifiers) (name : String) :
    Action (Except CommandError Outcome) := do
  if ← conditionMet modifiers.condition then
    let state ← Action.host .craftState
    let before := Option.map CraftState.step state
    Action.host (.send (actionLine name))
    -- Without a craft there is no step to look at.
    if modifiers.unconfirmed || before.isNone then pure (.ok .proceed)
    else if ← Action.knowsAction name then confirm settings modifiers name before
    else pure (.ok .proceed)
  else pure (.ok .skipped)

/-- Whether the character has at least these stats. -/
def statsReach (stats : CharacterStats) (craftsmanship control cp : Nat) : Bool :=
  craftsmanship ≤ stats.craftsmanship && control ≤ stats.control && cp ≤ stats.cp

/-- What a loop command prints when it restarts a macro. -/
def restartEcho (remaining : Nat) : String :=
  if remaining = 0 then "Last loop" else Decimal.natText remaining ++ " loops remaining"

def echoIf (wanted : Bool) (text : String) : Action Unit :=
  if wanted then Action.host (.printEcho text) else pure ()

def loop (modifiers : Modifiers) (counter : LoopCounter) : Action Executed := do
  let (turn, next) := counter.next
  match turn with
  | .restart remaining =>
    match remaining with
    | some n => echoIf (modifiers.echo && counter.start.isSome) (restartEcho n)
    | none => pure ()
    pure ⟨.loop next, .ok (.loop true)⟩
  | .exhausted =>
    echoIf modifiers.echo "Loops complete"
    pure ⟨.loop next, .ok (.loop false)⟩

def gate (modifiers : Modifiers) (counter : GateCounter) : Action Executed := do
  let (pass, next) := counter.next
  match pass with
  | .opened remaining =>
    echoIf modifiers.echo (Decimal.natText remaining ++ " craft(s) remaining")
    pure ⟨.gate next, .ok .proceed⟩
  | .complete => pure ⟨.gate next, .ok .gateComplete⟩

def runMacro (settings : Settings) (name : String) : Action (Except CommandError Outcome) := do
  match ← resolveMacro name with
  | .error e => pure (.error e)
  | .ok stored =>
    match ← Frame.ofStored settings.craftLoop stored none with
    | .error e => pure (.error e)
    | .ok frame => pure (.ok (.push frame))

def recipe (name : String) : Action (Except CommandError Outcome) := do
  match ← Action.host (.findRecipe name) with
  | none => pure (.error (.recipeNotFound name))
  | some (id : Nat) =>
    let success ← Action.host (.openRecipe id)
    pure (proceedIf success (.recipeNotOpened name id))

/-- Call the host for something that it does or refuses. -/
def attempt (call : HostCall) (success : call.Reply → Bool) (error : CommandError) :
    Action (Except CommandError Outcome) := do
  let reply ← Action.host call
  pure (proceedIf (success reply) error)

def await (maxMs pollMs : Nat) (target : WaitTarget) (probe : Action Bool) :
    Action (Except CommandError Outcome) := do
  let success ← Action.pollUntil maxMs pollMs probe
  pure (proceedIf success (.timeout target maxMs))

def require (maxMs pollMs : Nat) (reason : PauseReason) (probe : Action Bool) :
    Action (Except CommandError Outcome) := do
  let isMet ← Action.pollUntil maxMs pollMs probe
  pure (pauseUnless isMet reason)

/-- Whether a craft is in progress and has at least this quality. -/
def qualityReached (quality : Nat) : Action Bool := do
  let state ← Action.host .craftState
  pure (Option.any (fun craft : CraftState => quality ≤ craft.quality) state)

/-- Whether the character has at least these stats. -/
def statsReached (craftsmanship control cp : Nat) : Action Bool := do
  let stats ← Action.host .characterStats
  pure (statsReach stats craftsmanship control cp)

/-- An instruction that carries no counter and so stays as it is. -/
def keeping (kind : CommandKind) (program : Action (Except CommandError Outcome)) :
    Action Executed := do
  let result ← program
  pure ⟨kind, result⟩

end Execute

open Execute in
def Command.execute (settings : Settings) (command : Command) : Action Executed :=
  let modifiers := command.modifiers
  let atMost := modifiers.maxWaitMs.getD
  match command.kind with
  | .native line =>
    keeping (.native line) do
      Action.host (.send line)
      pure (.ok .proceed)
  | .action name => keeping (.action name) (action settings modifiers name)
  | .click name => keeping (.click name) (attempt (.sendClick name) id (.unknownClick name))
  | .wait => keeping .wait (pure (.ok .proceed))
  | .waitAddon addon =>
    keeping (.waitAddon addon) (await (atMost settings.addonMaxWaitMs) settings.addonPollMs
      (.addon addon) (Action.host (.addonReady addon)))
  | .require status =>
    keeping (.require status) (await (atMost settings.statusMaxWaitMs) settings.statusPollMs
      (.status status) (Action.host (.hasStatus status)))
  | .requireQuality quality =>
    keeping (.requireQuality quality) (require (atMost settings.statMaxWaitMs)
      settings.statPollMs (.qualityNotReached quality) (qualityReached quality))
  | .requireStats craftsmanship control cp =>
    keeping (.requireStats craftsmanship control cp) (require (atMost settings.statMaxWaitMs)
      settings.statPollMs (.statsNotMet craftsmanship control cp)
      (statsReached craftsmanship control cp))
  | .requireRepair =>
    keeping .requireRepair do
      let broken ← Action.host .needsRepair
      pure (pauseUnless (!broken) .needsRepair)
  | .requireSpiritbond =>
    keeping .requireSpiritbond do
      let bound ← Action.host .spiritbondReady
      pure (pauseUnless (!bound) .materiaReady)
  | .target name =>
    keeping (.target name) (attempt (.selectTarget name modifiers.index) id (.targetNotFound name))
  | .send key => keeping (.send key) (attempt (.sendKey key) id (.unknownKey key))
  | .loop counter => loop modifiers counter
  | .gate counter => gate modifiers counter
  | .runMacro name => keeping (.runMacro name) (runMacro settings name)
  | .item name =>
    keeping (.item name) (attempt (.useItem name modifiers.quality) id (.itemNotFound name))
  | .recipe name => keeping (.recipe name) (recipe name)

end CraftLang
