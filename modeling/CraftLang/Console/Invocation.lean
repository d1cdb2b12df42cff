import CraftLang.Console.Arguments
import CraftLang.Disk.Path

/-!
What a command line asks for.
-/

namespace CraftLang

open Arguments

/-- What is to be done with a macro folder or a macro. -/
inductive Subcommand where
  /-- Make the macro folder. -/
  | init
  /-- List the stored macros. -/
  | list
  /-- Print the commands of a source. -/
  | check (file : Path)
  /-- Print a source as a craft loop. -/
  | wrap (file : Path) (count : Int)
  /-- Store a source under a name, perhaps as a craft loop. -/
  | store (name : String) (file : Path) (craftCount : Option Int)
  /-- Run a stored macro as a dry run, perhaps with control lines from the input. -/
  | run (name : String) (loops : Option Int) (interactive : Bool)
  deriving DecidableEq, Repr

/-- A subcommand and the macro folder that it is for. -/
structure Invocation where
  root : Path
  subcommand : Subcommand
  deriving DecidableEq, Repr

namespace Invocation

/-- The option for the macro folder. -/
def rootSwitch : Switch := ⟨"root".toList, some 'r', some .path⟩

def defaultRoot : Path := .ofText ".macrocraft"

/-- The option for the count of a craft loop that is printed. -/
def countSwitch : Switch := ⟨"count".toList, some 'c', some .integer⟩

/-- The option for the count of a craft loop that is stored. -/
def craftLoopSwitch : Switch := ⟨"craft-loop".toList, none, some .integer⟩

/-- The option for the loops of a run. -/
def loopsSwitch : Switch := ⟨"loops".toList, some 'l', some .integer⟩

/-- The option for control lines from the input. -/
def interactiveSwitch : Switch := ⟨"interactive".toList, some 'i', none⟩

/-- The integer in an option, if it was given. -/
def integerOption (found : Found) (switch : Switch) : Option Int :=
  found.value? switch >>= integer?

/-- The subcommands with the arguments that follow them. -/
def forms : List (String × Form) :=
  [("init", {}), ("list", {}), ("check", { operands := [.path] }),
    ("rewrite", { switches := [countSwitch], operands := [.path] }),
    ("import", { switches := [craftLoopSwitch], operands := [.text, .path] }),
    ("run", { switches := [loopsSwitch, interactiveSwitch], operands := [.text] })]

def subcommand? (name : String) (found : Found) : Option Subcommand :=
  match name, found.operands with
  | "init", [] => some .init
  | "list", [] => some .list
  | "check", [file] => some (.check ⟨file⟩)
  | "rewrite", [file] => some (.wrap ⟨file⟩ ((integerOption found countSwitch).getD 1))
  | "import", [name, file] =>
    some (.store (String.ofList name) ⟨file⟩ (integerOption found craftLoopSwitch))
  | "run", [name] =>
    some (.run (String.ofList name) (integerOption found loopsSwitch)
      (found.has interactiveSwitch))
  | _, _ => none

/-- Help is given on everything, on one subcommand, or on help. -/
def helpOn (subjects : List (List Char)) : Stop :=
  match subjects with
  | [] => .help
  | [subject] =>
    let name := String.ofList subject
    if name = "help" || (forms.lookup name).isSome then .help else .misuse
  | _ => .misuse

def readSubcommand (name : String) (arguments : List (List Char)) : Except Stop Subcommand := do
  if name = "help" then throw (helpOn arguments)
  match forms.lookup name with
  | none => .error .misuse
  | some form =>
    match subcommand? name (← readAll form arguments) with
    | some subcommand => .ok subcommand
    | none => .error .misuse

/-- Read a command line. Options before a subcommand are judged before it, but for one whose value
stands right before the subcommand: that one is judged last. -/
def read (arguments : List String) : Except Stop Invocation := do
  let form : Form := { switches := [rootSwitch], operands := [.text] }
  let found ← Arguments.read form true .anything {} (arguments.map String.toList)
  match found.operands with
  | [name] =>
    unless found.settled.isSound form do throw .misuse
    let subcommand ← readSubcommand (String.ofList name) found.rest
    if found.isComplete form then
      .ok ⟨((found.value? rootSwitch).map (Path.mk ·)).getD defaultRoot, subcommand⟩
    else .error .misuse
  | _ => .error .misuse

end Invocation

end CraftLang
