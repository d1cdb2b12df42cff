import CraftLang.Source.Grammar
import CraftLang.Text.AsciiCase
import CraftLang.Text.Position

/-!
Statements: the verb of a command line with its arguments, once the modifiers are taken out. A line
whose verb is unknown is a native statement and is not looked into. A known verb whose arguments do
not fit is an error at the first byte that could not be read.
-/

namespace CraftLang

open Text

inductive Verb where
  | action
  | click
  | wait
  | waitAddon
  | require
  | requireQuality
  | requireStats
  | requireRepair
  | requireSpiritbond
  | target
  | send
  | loop
  | gate
  | runMacro
  | item
  | recipe
  deriving DecidableEq, Repr

/-- The spellings of the verbs, in lower case and without the slash. -/
def Verb.spellings : List (String × Verb) :=
  [("ac", .action), ("action", .action), ("click", .click), ("wait", .wait),
    ("waitaddon", .waitAddon), ("require", .require), ("requirequality", .requireQuality),
    ("requirestats", .requireStats), ("requirerepair", .requireRepair),
    ("requirespiritbond", .requireSpiritbond), ("target", .target), ("send", .send),
    ("loop", .loop), ("craft", .gate), ("gate", .gate), ("runmacro", .runMacro),
    ("item", .item), ("recipe", .recipe)]

/-- The verb with this name, in any case of its letters. -/
def Verb.ofName? (name : List Char) : Option Verb :=
  spellings.lookup (String.ofList (asciiLower name))

/-- A verb with its arguments. Durations are in seconds. -/
inductive Statement where
  | native
  | action (name : String)
  | click (name : String)
  | wait (seconds : Binary64) (limit : Option Binary64)
  | waitAddon (addon : String)
  | require (status : String)
  | requireQuality (quality : Nat)
  | requireStats (craftsmanship control cp : Nat)
  | requireRepair
  | requireSpiritbond
  | target (name : String)
  | send (key : String)
  | loop (count : Option Nat)
  | gate (count : Nat)
  | runMacro (name : String)
  | item (name : String)
  | recipe (name : String)
  deriving DecidableEq, Repr

namespace Statement

open Grammar

/-- What can be wrong with a line that is not a statement. The verb is as it was typed. -/
inductive Fault where
  | noSlash
  | invalidArguments (verb : String) (expected : Expected)
  | missingArguments (verb : String)
  | unexpectedInput (verb : String)
  deriving DecidableEq, Repr

def Fault.message : Fault → String
  | .noSlash => "expected '/' followed by a command name"
  | .invalidArguments verb expected =>
    "invalid arguments for /" ++ verb ++ ": expected " ++ expected.label
  | .missingArguments verb => "missing arguments for /" ++ verb
  | .unexpectedInput verb => "unexpected input for /" ++ verb

/-- A fault and the byte offset in the line where it was noticed. -/
structure Error where
  fault : Fault
  offset : Nat
  deriving DecidableEq, Repr

/-- The three counts of a stats requirement. -/
def stats : Reader Statement := fun cs => do
  let (craftsmanship, cs) ← required uint cs
  let (control, cs) ← required uint cs
  let (cp, cs) ← required uint cs
  .ok (.requireStats craftsmanship control cp, cs)

def arguments : Verb → Reader Statement
  | .action => mapped .action (required nameArgument)
  | .click => mapped .click (required argument)
  | .wait => mapped (fun (seconds, limit) => .wait seconds limit) (required range)
  | .waitAddon => mapped .waitAddon (required nameArgument)
  | .require => mapped .require (required nameArgument)
  | .requireQuality => mapped .requireQuality (required uint)
  | .requireStats => stats
  | .requireRepair => fun cs => .ok (.requireRepair, cs)
  | .requireSpiritbond => fun cs => .ok (.requireSpiritbond, cs)
  | .target => mapped .target (required nameArgument)
  | .send => mapped .send (required argument)
  | .loop => mapped .loop (optional (required uint))
  | .gate => mapped .gate (required uint)
  | .runMacro => mapped .runMacro (required nameArgument)
  | .item => mapped .item (required nameArgument)
  | .recipe => mapped .recipe (required nameArgument)

/-- The error that a mismatch in the arguments amounts to. Nothing was given when the reader stopped
at the end of the visible text without looking for a particular argument. -/
def describe (line : List Char) (verb : String) (mismatch : Mismatch) : Error :=
  let offset := byteLength line - byteLength mismatch.remaining
  match mismatch.expected with
  | some expected => ⟨.invalidArguments verb expected, offset⟩
  | none =>
    if byteLength (trimEnd line) ≤ offset then ⟨.missingArguments verb, offset⟩
    else ⟨.unexpectedInput verb, offset⟩

/-- The statement that a line spells. -/
def read (line : List Char) : Except Error Statement :=
  match line with
  | '/' :: _ =>
    match verb line with
    | .error _ => .ok .native
    | .ok (name, rest) =>
      match Verb.ofName? name with
      | none => .ok .native
      | some known =>
        match complete (arguments known) rest with
        | .ok statement => .ok statement
        | .error mismatch => .error (describe line (String.ofList name) mismatch)
  | _ => .error ⟨.noSlash, 0⟩

end Statement

end CraftLang
