import CraftLang.Source.Grammar
import CraftLang.Text.AsciiCase

/-!
Control lines: one request to the engine per line, for prompts and chat. Keywords are in any case.
-/

namespace CraftLang

open Text

/-- A request to the engine. -/
inductive ControlCommand where
  /-- Run a stored macro, with so many loops if a number is given. -/
  | run (name : String) (loops : Option Int)
  /-- Pause, at the next loop command if `atLoop`. -/
  | pause (atLoop : Bool)
  | resume
  /-- Stop, at the next loop command if `atLoop`. -/
  | stop (atLoop : Bool)
  | step
  | status
  deriving DecidableEq, Repr, Inhabited

namespace ControlCommand

open Grammar

/-- A line that is no request. -/
structure ParseError where
  line : String
  deriving DecidableEq, Repr

def ParseError.message (e : ParseError) : String :=
  "unrecognised control command \"" ++ e.line ++ "\""

/-- The text after a keyword, if the text starts with it. The keyword is in lower case. -/
def keyword? : List Char → List Char → Option (List Char)
  | [], cs => some cs
  | _ :: _, [] => none
  | k :: ks, c :: cs => if c.toLower = k then keyword? ks cs else none

/-- The text after at least one space or tab. -/
def spaces? : List Char → Option (List Char)
  | [] => none
  | c :: cs => if isSpace c then some (skipSpaces cs) else none

/-- Loops may not be more than this. -/
def mostLoops : Nat := 0x7FFFFFFF

/-- The word `loop` and a number, with blanks after each, and the text after that. -/
def loopCount? (cs : List Char) : Option (Int × List Char) := do
  let rest ← spaces? (← keyword? ['l', 'o', 'o', 'p'] cs)
  match uint rest with
  | .ok (n, rest) =>
    let rest ← spaces? rest
    if n ≤ mostLoops then pure ((n : Int), rest) else none
  | .error _ => none

/-- What follows the word `run`. -/
def runArguments? (cs : List Char) : Option (ControlCommand × List Char) := do
  let rest ← spaces? cs
  let (loops, rest) :=
    match loopCount? rest with
    | some (loops, rest) => (some loops, rest)
    | none => (none, rest)
  match nameArgument rest with
  | .ok (name, rest) => pure (.run name loops, rest)
  | .error _ => none

/-- Whether the word `loop` follows, and the text after it. -/
def atLoop (cs : List Char) : Bool × List Char :=
  match spaces? cs with
  | some rest =>
    match keyword? ['l', 'o', 'o', 'p'] rest with
    | some rest => (true, rest)
    | none => (false, cs)
  | none => (false, cs)

/-- The request at the start of a text, and the text after it. -/
def request? (cs : List Char) : Option (ControlCommand × List Char) :=
  ((keyword? ['r', 'u', 'n'] cs).bind runArguments?) <|>
    ((keyword? ['p', 'a', 'u', 's', 'e'] cs).map fun rest =>
      (.pause (atLoop rest).1, (atLoop rest).2)) <|>
    ((keyword? ['r', 'e', 's', 'u', 'm', 'e'] cs).map (.resume, ·)) <|>
    ((keyword? ['s', 't', 'o', 'p'] cs).map fun rest =>
      (.stop (atLoop rest).1, (atLoop rest).2)) <|>
    ((keyword? ['s', 't', 'e', 'p'] cs).map (.step, ·)) <|>
    ((keyword? ['s', 't', 'a', 't', 'u', 's'] cs).map (.status, ·))

def read (line : String) : Except ParseError ControlCommand :=
  let cs := trim line.toList
  match request? cs with
  | some (request, rest) =>
    if (skipSpaces rest).isEmpty then .ok request else .error ⟨String.ofList cs⟩
  | none => .error ⟨String.ofList cs⟩

end ControlCommand

end CraftLang
