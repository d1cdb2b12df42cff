import CraftLang.Command.Basic
import CraftLang.Json.Decode

/-!
Commands as JSON.
-/

namespace CraftLang

namespace WaitPolicy

def toJson (p : WaitPolicy) : Json :=
  .record [("wait_ms", .nat p.waitMs), ("until_ms", .nat p.untilMs)]

/-- A policy from its bounds, in whatever order they are. -/
def ofJson? (json : Json) : Option WaitPolicy := do
  match ← json.fields? ["wait_ms", "until_ms"] 2 with
  | [waitMs, untilMs] => pure ⟨← Json.needed Json.nat64? waitMs, ← Json.needed Json.nat64? untilMs⟩
  | _ => none

end WaitPolicy

namespace ItemQuality

def word : ItemQuality → String
  | .normal => "Normal"
  | .high => "High"

def ofJson? (json : Json) : Option ItemQuality := do
  match ← json.choice? with
  | "Normal" => some .normal
  | "High" => some .high
  | _ => none

end ItemQuality

namespace ConditionGate

def toJson (gate : ConditionGate) : Json :=
  .record [("conditions", .list .text gate.conditions), ("negated", .bool gate.negated)]

def ofJson? (json : Json) : Option ConditionGate := do
  match ← json.fields? ["conditions", "negated"] 2 with
  | [conditions, negated] =>
    pure ⟨← Json.needed (Json.list? Json.text?) conditions, ← Json.needed Json.bool? negated⟩
  | _ => none

end ConditionGate

namespace Modifiers

/-- All modifiers, neutral ones included. -/
def toJson (m : Modifiers) : Json :=
  .record
    [("wait", m.wait.toJson), ("has_wait", .bool m.hasWait),
      ("max_wait_ms", .optional .nat m.maxWaitMs), ("unsafe_action", .bool m.unconfirmed),
      ("echo", .bool m.echo), ("index", .optional .nat m.index),
      ("quality", .optional (fun quality => .text quality.word) m.quality),
      ("condition", .optional ConditionGate.toJson m.condition)]

/-- Whether all fields of an array are there; an object may leave out optional ones. -/
def ofJson? (json : Json) : Option Modifiers := do
  match ← json.fields?
    ["wait", "has_wait", "max_wait_ms", "unsafe_action", "echo", "index", "quality",
      "condition"] 8 with
  | [wait, hasWait, maxWaitMs, unconfirmed, echo, index, quality, condition] =>
    pure
      { wait := ← Json.needed WaitPolicy.ofJson? wait
        hasWait := ← Json.needed Json.bool? hasWait
        maxWaitMs := ← Json.maybe Json.nat64? maxWaitMs
        unconfirmed := ← Json.needed Json.bool? unconfirmed
        echo := ← Json.needed Json.bool? echo
        index := ← Json.maybe Json.nat32? index
        quality := ← Json.maybe ItemQuality.ofJson? quality
        condition := ← Json.maybe ConditionGate.ofJson? condition }
  | _ => none

end Modifiers

namespace LoopCounter

def toJson (counter : LoopCounter) : Json :=
  .record
    [("start", .optional .nat counter.start), ("remaining", .optional .nat counter.remaining)]

def ofJson? (json : Json) : Option LoopCounter := do
  match ← json.fields? ["start", "remaining"] 2 with
  | [start, remaining] => pure ⟨← Json.maybe Json.nat32? start, ← Json.maybe Json.nat32? remaining⟩
  | _ => none

end LoopCounter

namespace GateCounter

def toJson (counter : GateCounter) : Json :=
  .record [("start", .nat counter.start), ("remaining", .int counter.remaining)]

def ofJson? (json : Json) : Option GateCounter := do
  match ← json.fields? ["start", "remaining"] 2 with
  | [start, remaining] =>
    pure ⟨← Json.needed Json.nat32? start, ← Json.needed (Json.intOfBits? 64) remaining⟩
  | _ => none

end GateCounter

namespace CommandKind

/-- An instruction with one named field. -/
def wrapped (kind field : String) (value : Json) : Json :=
  .record [(kind, .record [(field, value)])]

def toJson : CommandKind → Json
  | .native line => wrapped "Native" "line" (.text line)
  | .action name => wrapped "Action" "name" (.text name)
  | .click name => wrapped "Click" "name" (.text name)
  | .wait => .text "Wait"
  | .waitAddon addon => wrapped "WaitAddon" "addon" (.text addon)
  | .require status => wrapped "Require" "status" (.text status)
  | .requireQuality quality => wrapped "RequireQuality" "quality" (.nat quality)
  | .requireStats craftsmanship control cp =>
    .record
      [("RequireStats",
        .record [("craftsmanship", .nat craftsmanship), ("control", .nat control),
          ("cp", .nat cp)])]
  | .requireRepair => .text "RequireRepair"
  | .requireSpiritbond => .text "RequireSpiritbond"
  | .target name => wrapped "Target" "name" (.text name)
  | .send key => wrapped "Send" "key" (.text key)
  | .loop counter => .record [("Loop", counter.toJson)]
  | .gate counter => .record [("Gate", counter.toJson)]
  | .runMacro name => wrapped "RunMacro" "name" (.text name)
  | .item name => wrapped "Item" "name" (.text name)
  | .recipe name => wrapped "Recipe" "name" (.text name)

/-- The content of an instruction that has one text. -/
def textField? (field : String) (content : Json) : Option String := do
  match ← content.fields? [field] 1 with
  | [value] => Json.needed Json.text? value
  | _ => none

/-- An instruction that has content. -/
def ofContent? : String → Json → Option CommandKind
  | "Native", content => (textField? "line" content).map .native
  | "Action", content => (textField? "name" content).map .action
  | "Click", content => (textField? "name" content).map .click
  | "WaitAddon", content => (textField? "addon" content).map .waitAddon
  | "Require", content => (textField? "status" content).map .require
  | "RequireQuality", content => do
    match ← content.fields? ["quality"] 1 with
    | [quality] => (Json.needed Json.nat32? quality).map .requireQuality
    | _ => none
  | "RequireStats", content => do
    match ← content.fields? ["craftsmanship", "control", "cp"] 3 with
    | [craftsmanship, control, cp] =>
      pure (.requireStats (← Json.needed Json.nat32? craftsmanship)
        (← Json.needed Json.nat32? control) (← Json.needed Json.nat32? cp))
    | _ => none
  | "Target", content => (textField? "name" content).map .target
  | "Send", content => (textField? "key" content).map .send
  | "Loop", content => (LoopCounter.ofJson? content).map .loop
  | "Gate", content => (GateCounter.ofJson? content).map .gate
  | "RunMacro", content => (textField? "name" content).map .runMacro
  | "Item", content => (textField? "name" content).map .item
  | "Recipe", content => (textField? "name" content).map .recipe
  | _, _ => none

def ofJson? (json : Json) : Option CommandKind :=
  match json.choice? with
  | some "Wait" => some .wait
  | some "RequireRepair" => some .requireRepair
  | some "RequireSpiritbond" => some .requireSpiritbond
  | _ => do
    let (kind, content) ← json.choiceWith?
    ofContent? kind content

end CommandKind

namespace Command

/-- A command with everything that was read from its line. -/
def toJson (command : Command) : Json :=
  .record
    [("text", .text command.text), ("modifiers", command.modifiers.toJson),
      ("kind", command.kind.toJson)]

/-- A command as it was written. -/
def ofJson? (json : Json) : Option Command := do
  match ← json.fields? ["text", "modifiers", "kind"] 3 with
  | [text, modifiers, kind] =>
    pure ⟨← Json.needed Json.text? text, ← Json.needed Modifiers.ofJson? modifiers,
      ← Json.needed CommandKind.ofJson? kind⟩
  | _ => none

end Command

end CraftLang
