import CraftLang.Number.Decimal
import CraftLang.Text.Lines

/-!
Reading the arguments of a command line into options and operands. An option has a long name after
two dashes and perhaps a letter after one; its value follows as the next argument, after an equals
sign, or right behind the letter. Two dashes alone end the options. Arguments are judged from left
to right: a question for help is answered only if nothing before it is wrong.
-/

namespace CraftLang.Arguments

/-- What a value can be. -/
inductive ValueKind where
  | text
  /-- A path, which is not empty. -/
  | path
  /-- An integer of 32 bits. -/
  | integer
  deriving DecidableEq, Repr

/-- The integer of 32 bits that a text spells. -/
def integer? (cs : List Char) : Option Int := do
  let n ← Decimal.intOf? cs
  if -0x80000000 ≤ n ∧ n < 0x80000000 then pure n else none

def ValueKind.admits : ValueKind → List Char → Bool
  | .text, _ => true
  | .path, cs => !cs.isEmpty
  | .integer, cs => (integer? cs).isSome

/-- An option, with the kind of its value if it takes one. -/
structure Switch where
  name : List Char
  letter : Option Char
  value : Option ValueKind
  deriving DecidableEq, Repr

/-- The arguments that are understood: options, and operands in order. -/
structure Form where
  switches : List Switch := []
  operands : List ValueKind := []
  deriving DecidableEq, Repr

/-- Why arguments are not read to their end. -/
inductive Stop where
  /-- They ask for help. -/
  | help
  /-- They do not fit. -/
  | misuse
  deriving DecidableEq, Repr

/-- What was read from arguments: the options with their values, the operands, and the arguments
that are left. -/
structure Found where
  options : List (Switch × List Char) := []
  /-- Whether the value of the last option was an argument of its own. -/
  lastIsApart : Bool := false
  operands : List (List Char) := []
  rest : List (List Char) := []
  deriving DecidableEq, Repr, Inhabited

namespace Found

/-- Add an option, with its value in the same argument if it takes one. -/
def addOption (found : Found) (switch : Switch) (value : List Char) : Found :=
  { found with options := found.options ++ [(switch, value)], lastIsApart := false }

/-- Add an option whose value was an argument of its own. -/
def addApart (found : Found) (switch : Switch) (value : List Char) : Found :=
  { found.addOption switch value with lastIsApart := true }

/-- What was read, without a last option that is not judged yet. An option is judged
when the next one begins, or at once if its value is in the same argument. -/
def settled (found : Found) : Found :=
  if found.lastIsApart then { found with options := found.options.dropLast } else found

def addOperand (found : Found) (operand : List Char) : Found :=
  { found with operands := found.operands ++ [operand] }

def has (found : Found) (switch : Switch) : Bool :=
  found.options.any (·.1 == switch)

def value? (found : Found) (switch : Switch) : Option (List Char) :=
  found.options.lookup switch

def hasNoRepetition (found : Found) : Bool :=
  found.options.all fun given => (found.options.filter (·.1 == given.1)).length == 1

/-- Whether a value is of its kind. -/
def isFitting (given : Switch × List Char) : Bool :=
  given.1.value.all (·.admits given.2)

/-- Whether nothing in what was read is wrong. Operands may still be missing. -/
def isSound (form : Form) (found : Found) : Bool :=
  found.hasNoRepetition && found.options.all isFitting &&
    found.operands.length ≤ form.operands.length &&
    (form.operands.zip found.operands).all fun (kind, operand) => kind.admits operand

/-- Whether what was read is all that is needed, and nothing in it is wrong. -/
def isComplete (form : Form) (found : Found) : Bool :=
  found.isSound form && found.operands.length == form.operands.length

end Found

/-- Where reading is. -/
inductive Expecting where
  | anything
  /-- The value of an option. -/
  | value (switch : Switch)
  /-- Nothing but operands. -/
  | operands
  deriving DecidableEq, Repr

/-- Whether an argument looks like an option. A dash alone does not. -/
def isOption (argument : List Char) : Bool :=
  argument.head? == some '-' && argument.length != 1

/-- Stop for help, if nothing was wrong before. -/
def askedForHelp (form : Form) (found : Found) : Stop :=
  if found.isSound form then .help else .misuse

def readLetters (form : Form) : List Char → Found → Except Stop (Expecting × Found)
  | [], found => .ok (.anything, found)
  | letter :: letters, found =>
    match form.switches.find? (·.letter == some letter) with
    | none => .error (if letter = 'h' then askedForHelp form found else .misuse)
    | some switch =>
      match switch.value, letters with
      | none, _ => readLetters form letters (found.addOption switch [])
      | some _, [] => .ok (.value switch, found)
      | some _, '=' :: value => .ok (.anything, found.addOption switch value)
      | some _, value => .ok (.anything, found.addOption switch value)

def readName (form : Form) (argument : List Char) (found : Found) :
    Except Stop (Expecting × Found) :=
  match form.switches.find? (·.name == argument.takeWhile (· != '=')) with
  | none => .error (if argument = "help".toList then askedForHelp form found else .misuse)
  | some switch =>
    match switch.value, argument.dropWhile (· != '=') with
    | none, [] => .ok (.anything, found.addOption switch [])
    | none, _ => .error .misuse
    | some _, [] => .ok (.value switch, found)
    | some _, _ :: value => .ok (.anything, found.addOption switch value)

/-- Whether an argument can be the value of an option. Only an integer may begin with a dash. -/
def canBeValue (switch : Switch) (argument : List Char) : Bool :=
  switch.value == some .integer || !isOption argument

/-- Read arguments; with `once`, up to the first operand and no further. -/
def read (form : Form) (once : Bool) :
    Expecting → Found → List (List Char) → Except Stop Found
  | .value _, _, [] => .error .misuse
  | _, found, [] => .ok found
  | .value switch, found, argument :: arguments =>
    if canBeValue switch argument then
      read form once .anything (found.addApart switch argument) arguments
    else .error .misuse
  | .operands, found, argument :: arguments =>
    if once then .error .misuse
    else read form once .operands (found.addOperand argument) arguments
  | .anything, found, argument :: arguments =>
    if !isOption argument then
      if once then .ok { found.addOperand argument with rest := arguments }
      else read form once .anything (found.addOperand argument) arguments
    else
      match argument with
      | ['-', '-'] => read form once .operands found arguments
      | '-' :: '-' :: name => do
        let (expecting, found) ← readName form name found
        read form once expecting found arguments
      | _ => do
        let (expecting, found) ← readLetters form (argument.drop 1) found
        read form once expecting found arguments

def readAll (form : Form) (arguments : List (List Char)) : Except Stop Found := do
  let found ← read form false .anything {} arguments
  if found.isComplete form then .ok found else .error .misuse

end CraftLang.Arguments
