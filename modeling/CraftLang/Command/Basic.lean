import CraftLang.Command.Counter
import CraftLang.Modifier.Basic

/-!
Commands: what a line of a macro asks for, with its modifiers and its text.
-/

namespace CraftLang

/-- The instructions of the language. -/
inductive CommandKind where
  /-- Forward a line to the game as it is. -/
  | native (line : String)
  /-- Use an ability. -/
  | action (name : String)
  /-- Click something that is registered under a name. -/
  | click (name : String)
  /-- Do nothing; the delay after the command is the point. -/
  | wait
  /-- Wait until a window is ready. -/
  | waitAddon (addon : String)
  /-- Wait for a status effect; its absence is an error. -/
  | require (status : String)
  /-- Pause unless the craft has this quality. -/
  | requireQuality (quality : Nat)
  /-- Pause unless the character has these stats. -/
  | requireStats (craftsmanship control cp : Nat)
  /-- Pause if gear needs repair. -/
  | requireRepair
  /-- Pause if materia can be extracted. -/
  | requireSpiritbond
  /-- Select an entity. -/
  | target (name : String)
  /-- Press a key. -/
  | send (key : String)
  /-- Go back to the first command. -/
  | loop (counter : LoopCounter)
  /-- Count a craft, or end the macro. -/
  | gate (counter : GateCounter)
  /-- Run another macro before going on. -/
  | runMacro (name : String)
  /-- Use an item. -/
  | item (name : String)
  /-- Open a recipe. -/
  | recipe (name : String)
  deriving DecidableEq, Repr, Inhabited

/-- The name of an instruction in listings. -/
def CommandKind.label : CommandKind → String
  | .native _ => "native"
  | .action _ => "action"
  | .click _ => "click"
  | .wait => "wait"
  | .waitAddon _ => "waitaddon"
  | .require _ => "require"
  | .requireQuality _ => "requirequality"
  | .requireStats .. => "requirestats"
  | .requireRepair => "requirerepair"
  | .requireSpiritbond => "requirespiritbond"
  | .target _ => "target"
  | .send _ => "send"
  | .loop _ => "loop"
  | .gate _ => "craft"
  | .runMacro _ => "runmacro"
  | .item _ => "item"
  | .recipe _ => "recipe"

/-- One command of a macro. Its text is the line it was read from, without outer blanks. -/
structure Command where
  text : String
  modifiers : Modifiers
  kind : CommandKind
  deriving DecidableEq, Repr, Inhabited

end CraftLang
