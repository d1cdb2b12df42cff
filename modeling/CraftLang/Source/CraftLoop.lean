import CraftLang.Number.Decimal
import CraftLang.Text.Lines

/-!
Craft loops. The body of a macro carries out one craft. To repeat it, the body is set into a
scaffold of commands that open the next craft and count the crafts made: a text is made from a
text, before anything is read as commands.
-/

namespace CraftLang

/-- Settings for all craft loops. -/
structure CraftLoopConfig where
  /-- Use the template in place of the built-in scaffold. -/
  useTemplate : Bool := false
  /-- The template, with a placeholder for the body and one for the count. -/
  template : String :=
    "/craft \x7b\x7bcount\x7d\x7d\n/waitaddon \"RecipeNote\" <maxwait.5>\n/click \"synthesize\"\n" ++
      "/waitaddon \"Synthesis\" <maxwait.5>\n\x7b\x7bmacro\x7d\x7d\n/loop"
  /-- The loop begins at the recipe window, not inside a synthesis. -/
  fromRecipeNote : Bool := true
  /-- The longest wait for a window, in seconds. -/
  maxWait : Option Nat := none
  /-- Let the counting commands print their progress. -/
  echo : Bool := false
  deriving DecidableEq, Repr, Inhabited

namespace CraftLoop

open Text

inductive Error where
  | missingPlaceholder
  | invalidCount (count : Int)
  deriving DecidableEq, Repr

def Error.message : Error → String
  | .missingPlaceholder =>
    "craft loop template does not contain the \x7b\x7bmacro\x7d\x7d placeholder"
  | .invalidCount count => "invalid craft loop count " ++ Decimal.intText count

/-- How often a craft is made. -/
inductive Repeat where
  | skip
  | times (n : Nat)
  | forever
  deriving DecidableEq, Repr

/-- The meaning of a count: minus one is forever, and zero leaves the macro as it is. -/
def Repeat.ofCount (count : Int) : Except Error Repeat :=
  if count = -1 then .ok .forever
  else if count = 0 then .ok .skip
  else if 0 < count then .ok (.times count.toNat)
  else .error (.invalidCount count)

/-- The count that stands for forever in a template. -/
def unboundedCount : Nat := 999999

def bodyPlaceholder : List Char := "\x7b\x7bmacro\x7d\x7d".toList

def countPlaceholder : List Char := "\x7b\x7bcount\x7d\x7d".toList

/-- The template with the body and the count filled in. The count is that of a gate, which opens
once more than its count. -/
def fillTemplate (template body : List Char) (times : Repeat) : Except Error (List Char) :=
  if occursIn bodyPlaceholder template then
    let count :=
      match times with
      | .times n => n - 1
      | _ => unboundedCount
    .ok (replaceAll bodyPlaceholder body
      (replaceAll countPlaceholder (Decimal.ofNat count) template))
  else .error .missingPlaceholder

/-- A modifier in a scaffold line, or nothing. -/
def waitModifier (maxWait : Option Nat) : List Char :=
  match maxWait with
  | some (n + 1) => " <maxwait.".toList ++ Decimal.ofNat (n + 1) ++ ['>']
  | _ => []

/-- The modifier that makes a counting command print, or nothing. -/
def echoModifier (echo : Bool) : List Char :=
  if echo then " <echo>".toList else []

/-- The commands that open the next craft. -/
def openCraft (maxWait : Option Nat) : List (List Char) :=
  ["/waitaddon \"RecipeNote\"".toList ++ waitModifier maxWait, "/click \"synthesize\"".toList,
    "/waitaddon \"Synthesis\"".toList ++ waitModifier maxWait]

def gateLine (count : Nat) (echo : Bool) : List Char :=
  "/craft ".toList ++ Decimal.ofNat count ++ echoModifier echo

def loopLine (echo : Bool) : List Char :=
  "/loop".toList ++ echoModifier echo

/-- The body without the line breaks at its end. -/
def dropLineBreaks : List Char → List Char
  | [] => []
  | c :: cs =>
    match dropLineBreaks cs with
    | [] => if c = '\n' || c = '\x0d' then [] else [c]
    | d :: ds => c :: d :: ds

/-- The lines of the built-in scaffold around a body. From the recipe window each craft is opened
before its body; inside a synthesis the first one is open already, and one gate pass less is
needed. -/
def scaffold (config : CraftLoopConfig) (body : List Char) : Repeat → List (List Char)
  | .skip => [body]
  | .times n =>
    if config.fromRecipeNote then
      if n = 1 then openCraft config.maxWait ++ [body]
      else
        gateLine (n - 1) config.echo :: openCraft config.maxWait ++
          [body, loopLine config.echo]
    else if n = 1 then [body]
    else
      body :: gateLine (n - 2) config.echo :: openCraft config.maxWait ++
        [loopLine config.echo]
  | .forever =>
    if config.fromRecipeNote then
      openCraft config.maxWait ++ [body, loopLine config.echo]
    else body :: openCraft config.maxWait ++ [loopLine config.echo]

/-- The source that repeats the craft in `body` as often as `count` says. -/
def expand (config : CraftLoopConfig) (body : String) (count : Int) : Except Error String := do
  match ← Repeat.ofCount count with
  | .skip => .ok body
  | times =>
    if config.useTemplate then
      let text ← fillTemplate config.template.toList body.toList times
      .ok (String.ofList text)
    else
      .ok (String.ofList
        (joinWith ['\n'] (scaffold config (dropLineBreaks body.toList) times)))

end CraftLoop

end CraftLang
