import CraftLang.Console.DryRun
import CraftLang.Console.Invocation

/-!
The command line: what each subcommand does and prints.
-/

namespace CraftLang

open ConsoleProgram

namespace Invocation

def sourceText (file : Path) : Commanding String := do
  let message := "Failed to read macro: " ++ file.quoted
  match ← Commanding.ofFile (FileProgram.read file) with
  | .error fault => throw { message, causes := [fault.message] }
  | .ok bytes =>
    match Text.utf8Text? bytes with
    | none => throw { message, causes := ["stream did not contain valid UTF-8"] }
    | some text => pure text

def commands (source : String) : Commanding (List Command) :=
  match readSource source with
  | .ok commands => pure commands
  | .error e => throw { message := e.message }

/-- The settings of a macro folder; without them, the default ones. -/
def settings (store : Store) : Commanding Settings := do
  if ← Commanding.ofFile (FileProgram.fileExists store.configPath) then
    Commanding.ofStoring store.loadConfig
  else pure {}

/-- A text with spaces before it, so that it is as wide as given at least. -/
def padStart (width : Nat) (s : String) : String :=
  String.ofList (List.replicate (width - s.length) ' ' ++ s.toList)

/-- A text with spaces after it, so that it is as wide as given at least. -/
def padEnd (width : Nat) (s : String) : String :=
  String.ofList (s.toList ++ List.replicate (width - s.length) ' ')

def commandLine (number : Nat) (command : Command) : String :=
  padStart 4 (Decimal.natText number) ++ "  " ++ padEnd 18 command.kind.label ++ " " ++
    command.text

def macroLine (stored : StoredMacro) : String :=
  let looping :=
    if stored.craftLoop then " (craft loop x" ++ Decimal.intText stored.craftCount ++ ")" else ""
  "  " ++ stored.name ++ looping

def carryOut (invocation : Invocation) : Commanding Unit := do
  let store : Store := ⟨invocation.root⟩
  match invocation.subcommand with
  | .init =>
    Commanding.ofStoring store.init
    print ("Initialized macro directory at " ++ invocation.root.quoted)
  | .list =>
    let stored ← Commanding.ofStoring store.load
    print "Macros:"
    stored.forM fun stored => print (macroLine stored)
  | .check file =>
    let commands ← commands (← sourceText file)
    print (Decimal.natText commands.length ++ " command(s)")
    (commands.mapIdx fun k command => commandLine (k + 1) command).forM fun line => print line
  | .wrap file count =>
    let source ← sourceText file
    let settings ← settings store
    match CraftLoop.expand settings.craftLoop source count with
    | .error error => throw { message := error.message }
    | .ok text =>
      match readSource text with
      | .error e => throw { message := "Rewritten macro does not parse", causes := [e.message] }
      | .ok _ => print text
  | .store name file craftCount =>
    let contents ← sourceText file
    let _ ← commands contents
    Commanding.ofStoring (store.save
      { name, contents, craftLoop := craftCount.isSome, craftCount := craftCount.getD 0 })
    print ("Stored macro: " ++ name)
  | .run name loops interactive =>
    DryEngine.perform store (← settings store) name loops interactive

end Invocation

namespace Console

/-- A summary of the command line. -/
def usage : List String :=
  ["Crafting macro language and interpreter", "",
    "Usage: macrocraft [-r ROOT] init",
    "       macrocraft [-r ROOT] list",
    "       macrocraft [-r ROOT] check FILE",
    "       macrocraft [-r ROOT] rewrite FILE [-c COUNT]",
    "       macrocraft [-r ROOT] import NAME FILE [--craft-loop COUNT]",
    "       macrocraft [-r ROOT] run NAME [-l LOOPS] [-i]"]

def run (arguments : List String) : ConsoleProgram Nat := do
  match Invocation.read arguments with
  | .error .help =>
    usage.forM print
    pure 0
  | .error .misuse =>
    usage.forM complain
    pure 2
  | .ok invocation =>
    match ← invocation.carryOut.run with
    | .ok _ => pure 0
    | .error failure =>
      complain failure.report
      pure 1

end Console

end CraftLang
