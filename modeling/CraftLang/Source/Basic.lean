import CraftLang.Command.Basic
import CraftLang.Modifier.Extract
import CraftLang.Source.Statement
import CraftLang.Text.Lines

/-!
Macro source. Each line is read on its own: blank lines and comments give nothing, any other line
gives one command, and the first line that does not fit ends the reading with its position.
-/

namespace CraftLang

open Text

/-- Why a line is no command. -/
inductive SyntaxFault where
  | modifier (fault : Modifier.Fault)
  | statement (fault : Statement.Fault)
  | waitOnWait
  | waitRange (error : WaitPolicy.RangeError)
  deriving DecidableEq, Repr

def SyntaxFault.message : SyntaxFault → String
  | .modifier fault => fault.message
  | .statement fault => fault.message
  | .waitOnWait => "/wait does not accept a <wait> modifier"
  | .waitRange error => error.message

/-- A fault with its place: the number of the line and the number of characters before the fault in
that line, both counted from zero. -/
structure SyntaxError where
  fault : SyntaxFault
  line : Nat
  column : Nat
  deriving DecidableEq, Repr

def SyntaxError.message (e : SyntaxError) : String :=
  "syntax error at line " ++ Decimal.natText e.line ++ ", column " ++ Decimal.natText e.column ++
    ": " ++ e.fault.message

namespace Source

def isComment (cs : List Char) : Bool :=
  ['#'].isPrefixOf cs || ['/', '/'].isPrefixOf cs

/-- The command that a statement amounts to under the modifiers of its line. The delay of a wait
command becomes its wait modifier. -/
def command (text : String) (modifiers : Modifiers) (line : Modifier.Line) :
    Statement → Except SyntaxFault Command
  | .native => .ok ⟨text, modifiers, .native (String.ofList line.stripped)⟩
  | .action name => .ok ⟨text, modifiers, .action name⟩
  | .click name => .ok ⟨text, modifiers, .click name⟩
  | .wait seconds limit =>
    if modifiers.hasWait then .error .waitOnWait
    else
      match WaitPolicy.ofSeconds seconds limit with
      | .ok wait => .ok ⟨text, { modifiers with wait }, .wait⟩
      | .error error => .error (.waitRange error)
  | .waitAddon addon => .ok ⟨text, modifiers, .waitAddon addon⟩
  | .require status => .ok ⟨text, modifiers, .require status⟩
  | .requireQuality quality => .ok ⟨text, modifiers, .requireQuality quality⟩
  | .requireStats craftsmanship control cp =>
    .ok ⟨text, modifiers, .requireStats craftsmanship control cp⟩
  | .requireRepair => .ok ⟨text, modifiers, .requireRepair⟩
  | .requireSpiritbond => .ok ⟨text, modifiers, .requireSpiritbond⟩
  | .target name => .ok ⟨text, modifiers, .target name⟩
  | .send key => .ok ⟨text, modifiers, .send key⟩
  | .loop count => .ok ⟨text, modifiers, .loop (.ofCount count)⟩
  | .gate count => .ok ⟨text, modifiers, .gate (.ofCount count)⟩
  | .runMacro name => .ok ⟨text, modifiers, .runMacro name⟩
  | .item name => .ok ⟨text, modifiers, .item name⟩
  | .recipe name => .ok ⟨text, modifiers, .recipe name⟩

/-- What is wrong in a trimmed line that is no comment, and at which byte of it. -/
structure Misfit where
  fault : SyntaxFault
  offset : Nat
  deriving DecidableEq, Repr

/-- The command in a trimmed line that is neither empty nor a comment. -/
def readCommand (cs : List Char) : Except Misfit Command :=
  match Modifier.extract cs with
  | .error e => .error ⟨.modifier e.fault, e.offset⟩
  | .ok (modifiers, line) =>
    let body := trimStart line.masked
    match Statement.read (trimEnd body) with
    | .error e =>
      .error ⟨.statement e.fault, byteLength line.masked - byteLength body + e.offset⟩
    | .ok statement =>
      match command (String.ofList cs) modifiers line statement with
      | .ok command => .ok command
      | .error fault => .error ⟨fault, 0⟩

/-- The command on a line, if it has one. A fault is placed by the number of characters in front of
it; its byte offset always lies on the start of a character, so the column always exists. -/
def readLine (raw : List Char) (number : Nat) : Except SyntaxError (Option Command) :=
  let cs := trim raw
  if cs.isEmpty || isComment cs then .ok none
  else
    match readCommand cs with
    | .ok command => .ok (some command)
    | .error misfit =>
      let leading := byteLength raw - byteLength (trimStart raw)
      .error
        { fault := misfit.fault
          line := number
          column := (columnAt? raw (leading + misfit.offset)).getD raw.length }

/-- The lines of a text. A carriage return before a line feed is not part of the line. -/
def lines (cs : List Char) : List (List Char) :=
  (splitOn '\n' cs).map dropCarriageReturn

/-- The commands on consecutive lines, the first of which has the given number. -/
def readLines : Nat → List (List Char) → Except SyntaxError (List Command)
  | _, [] => .ok []
  | number, raw :: rest => do
    let command ← readLine raw number
    let commands ← readLines (number + 1) rest
    .ok (command.toList ++ commands)

end Source

def readSource (source : String) : Except SyntaxError (List Command) :=
  Source.readLines 0 (Source.lines source.toList)

end CraftLang
