import CraftLang.Command.Wait
import CraftLang.Text.AsciiCase
import CraftLang.Text.Blank

/-!
Modifiers of a command: what the annotations in angle brackets on its line ask for.
-/

namespace CraftLang

inductive ItemQuality where
  | normal
  | high
  deriving DecidableEq, Repr, Inhabited

/-- A list of crafting conditions, one of which must hold, or none of which may. -/
structure ConditionGate where
  conditions : List String
  negated : Bool
  deriving DecidableEq, Repr, Inhabited

/-- Whether the gate lets a command through under the current condition. -/
def ConditionGate.isMet (gate : ConditionGate) (current : String) : Bool :=
  gate.conditions.contains (Text.asciiLowered (Text.trimmed current)) != gate.negated

/-- The modifiers of one command; the defaults are those of a line without any. -/
structure Modifiers where
  /-- The delay after the command. -/
  wait : WaitPolicy := {}
  /-- Whether the delay was given as a modifier. -/
  hasWait : Bool := false
  /-- The longest time to wait for the environment, in place of the configured one. -/
  maxWaitMs : Option Nat := none
  /-- Do not wait until the environment confirms an action. -/
  unconfirmed : Bool := false
  /-- Print progress messages. -/
  echo : Bool := false
  /-- Which of several targets of one name is meant. -/
  index : Option Nat := none
  /-- The quality of the item to use. -/
  quality : Option ItemQuality := none
  /-- The condition under which an action is carried out. -/
  condition : Option ConditionGate := none
  deriving DecidableEq, Repr, Inhabited

end CraftLang
