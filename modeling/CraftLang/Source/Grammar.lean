import CraftLang.Number.Decimal
import CraftLang.Text.Blank

/-!
Readers for the parts of a command line. A reader takes what it recognises from the start of a text
and hands back the rest. One that fails says where it stopped and, when it was reading an argument,
which kind of argument it was looking for.
-/

namespace CraftLang.Grammar

open Text

/-- The kinds of argument that a reader can miss. -/
inductive Expected where
  | argument
  | name
  | number
  | integer
  deriving DecidableEq, Repr

/-- The name of a kind of argument in messages. -/
def Expected.label : Expected → String
  | .argument => "quoted or bare argument"
  | .name => "name"
  | .number => "number"
  | .integer => "integer"

/-- Where a reader stopped, as the text that was still unread, and what it was looking for. -/
structure Mismatch where
  remaining : List Char
  expected : Option Expected := none
  deriving DecidableEq, Repr

/-- A reader of a value at the start of a text. -/
abbrev Reader (α : Type) := List Char → Except Mismatch (α × List Char)

/-- The quotation mark around arguments. -/
def quote : Char := '\x22'

/-- The blanks that separate arguments. Other white space is part of the text. -/
def isSpace (c : Char) : Bool :=
  c == ' ' || c == '\t'

def skipSpaces (cs : List Char) : List Char :=
  cs.dropWhile isSpace

/-- A slash and the name after it, which ends at the first blank. -/
def verb : Reader (List Char)
  | '/' :: cs =>
    let name := cs.takeWhile (!isBlank ·)
    if name.isEmpty then .error { remaining := cs }
    else .ok (name, cs.dropWhile (!isBlank ·))
  | cs => .error { remaining := cs }

/-- Text between quotation marks, without them. -/
def quoted : Reader (List Char)
  | [] => .error { remaining := [] }
  | c :: cs =>
    if c = quote then
      match cs.dropWhile (· != quote) with
      | [] => .error { remaining := [] }
      | _ :: rest => .ok (cs.takeWhile (· != quote), rest)
    else .error { remaining := c :: cs }

def isBare (c : Char) : Bool :=
  !isBlank c && c != quote

/-- An unquoted argument, which ends at a blank or a quotation mark. -/
def bare : Reader (List Char) := fun cs =>
  let word := cs.takeWhile isBare
  if word.isEmpty then .error { remaining := cs }
  else .ok (word, cs.dropWhile isBare)

/-- Quoted text or an unquoted word. -/
def argument : Reader String := fun cs =>
  match quoted cs with
  | .ok (text, rest) => .ok (String.ofList text, rest)
  | .error _ =>
    match bare cs with
    | .ok (text, rest) => .ok (String.ofList text, rest)
    | .error _ => .error { remaining := cs, expected := some .argument }

/-- Quoted text, or all text up to a quotation mark without the blanks at its end. -/
def nameArgument : Reader String := fun cs =>
  match quoted cs with
  | .ok (text, rest) => .ok (String.ofList text, rest)
  | .error _ =>
    let text := cs.takeWhile (· != quote)
    if text.all isBlank then .error { remaining := cs, expected := some .name }
    else .ok (String.ofList (trimEnd text), cs.dropWhile (· != quote))

/-- Digits, and more digits after a point if there are any. -/
def number : Reader Binary64 := fun cs =>
  let whole := cs.takeWhile Char.isDigit
  let rest := cs.dropWhile Char.isDigit
  if whole.isEmpty then .error { remaining := cs, expected := some .number }
  else
    match rest with
    | '.' :: more =>
      let fraction := more.takeWhile Char.isDigit
      if fraction.isEmpty then .ok (Decimal.valueOf whole [], rest)
      else .ok (Decimal.valueOf whole fraction, more.dropWhile Char.isDigit)
    | _ => .ok (Decimal.valueOf whole [], rest)

/-- Counts stay below this bound. -/
def countLimit : Nat := UInt32.size

/-- Digits that spell a number below `countLimit`. -/
def uint : Reader Nat := fun cs =>
  let digits := cs.takeWhile Char.isDigit
  let value := Decimal.natOfDigits digits
  if digits.isEmpty || countLimit ≤ value then
    .error { remaining := cs, expected := some .integer }
  else .ok (value, cs.dropWhile Char.isDigit)

/-- A number, and a second one after a hyphen if there is one. -/
def range : Reader (Binary64 × Option Binary64) := fun cs => do
  let (first, rest) ← number cs
  match rest with
  | '-' :: more =>
    match number more with
    | .ok (second, after) => .ok ((first, some second), after)
    | .error _ => .ok ((first, none), rest)
  | _ => .ok ((first, none), rest)

/-- At least one space or tab, and then what `reader` reads. -/
def required {α : Type} (reader : Reader α) : Reader α := fun cs =>
  match cs with
  | [] => .error { remaining := [] }
  | c :: _ => if isSpace c then reader (skipSpaces cs) else .error { remaining := cs }

/-- What `reader` reads, or nothing at all. -/
def optional {α : Type} (reader : Reader α) : Reader (Option α) := fun cs =>
  match reader cs with
  | .ok (value, rest) => .ok (some value, rest)
  | .error _ => .ok (none, cs)

/-- The value read, changed by `f`. -/
def mapped {α β : Type} (f : α → β) (reader : Reader α) : Reader β := fun cs =>
  (reader cs).map fun (value, rest) => (f value, rest)

/-- What `reader` reads, if only spaces and tabs follow it. -/
def complete {α : Type} (reader : Reader α) (cs : List Char) : Except Mismatch α := do
  let (value, rest) ← reader cs
  match skipSpaces rest with
  | [] => .ok value
  | remaining => .error { remaining }

end CraftLang.Grammar
