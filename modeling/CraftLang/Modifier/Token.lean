import CraftLang.Modifier.Basic
import CraftLang.Text.DecimalDigit
import CraftLang.Text.Lines

/-!
Modifier tokens. A token starts with `<`, names its kind in letters of any case, and ends with `>`.
It has no blank and no quotation mark inside. Letters match up to simple case folding, under which
the long s is an s and the kelvin sign a k. Digits of every script belong to a token, but only
ASCII digits give it a value.
-/

namespace CraftLang.Modifier

open Text

/-- The kinds of modifier, in the order in which they are taken from a line. -/
inductive Kind where
  | wait
  | maxWait
  | unconfirmed
  | echo
  | index
  | quality
  | condition
  deriving DecidableEq, Repr, Inhabited

def Kind.all : List Kind :=
  [.wait, .maxWait, .unconfirmed, .echo, .index, .quality, .condition]

/-- The name of a kind in messages. -/
def Kind.label : Kind → String
  | .wait => "wait"
  | .maxWait => "maxwait"
  | .unconfirmed => "unsafe"
  | .echo => "echo"
  | .index => "index"
  | .quality => "hq"
  | .condition => "condition"

/-- A number as written: digits, and digits after a point if there are any. -/
structure Numeral where
  whole : List Char
  fraction : List Char
  deriving DecidableEq, Repr, Inhabited

def Numeral.text (n : Numeral) : List Char :=
  if n.fraction.isEmpty then n.whole else n.whole ++ '.' :: n.fraction

/-- The value of a numeral whose digits are all ASCII. -/
def Numeral.value? (n : Numeral) : Option Binary64 :=
  if (n.whole ++ n.fraction).all Char.isDigit then some (Decimal.valueOf n.whole n.fraction)
  else none

inductive Token where
  | wait (seconds : Numeral) (limit : Option Numeral)
  | maxWait (seconds : Numeral)
  | unconfirmed
  | echo
  | index (digits : List Char)
  | quality (quality : ItemQuality)
  | condition (gate : ConditionGate)
  deriving DecidableEq, Repr, Inhabited

def Token.kind : Token → Kind
  | .wait .. => .wait
  | .maxWait _ => .maxWait
  | .unconfirmed => .unconfirmed
  | .echo => .echo
  | .index _ => .index
  | .quality _ => .quality
  | .condition _ => .condition

/-- Whether a character stands for the lower-case ASCII character `letter`. -/
def folds (letter c : Char) : Bool :=
  c.toLower == letter || (letter == 's' && c == 'ſ') ||
    (letter == 'k' && c == Char.ofNat 0x212A)

/-- The text after the given characters, if it starts with them. -/
def literal? : List Char → List Char → Option (List Char)
  | [], cs => some cs
  | _ :: _, [] => none
  | l :: ls, c :: cs => if folds l c then literal? ls cs else none

/-- A numeral and the text after it. -/
def numeral? (cs : List Char) : Option (Numeral × List Char) :=
  let whole := cs.takeWhile isDecimalDigit
  let rest := cs.dropWhile isDecimalDigit
  if whole.isEmpty then none
  else
    match rest with
    | '.' :: more =>
      let fraction := more.takeWhile isDecimalDigit
      if fraction.isEmpty then some (⟨whole, []⟩, rest)
      else some (⟨whole, fraction⟩, more.dropWhile isDecimalDigit)
    | _ => some (⟨whole, []⟩, rest)

/-- A character of a condition's name. -/
def isConditionLetter (c : Char) : Bool :=
  c.isAlpha || c == '_' || c == 'ſ' || c == Char.ofNat 0x212A

/-- The names of a condition list, with commas between them, and the text after the list. -/
def conditions? (cs : List Char) : Option (List String × List Char) :=
  let inList := fun c => isConditionLetter c || c == ','
  let names := splitOn ',' (cs.takeWhile inList)
  if names.all (!·.isEmpty) then
    some (names.map fun name => String.ofList (asciiLower name), cs.dropWhile inList)
  else none

/-- What stands between `<` and `>` in a token of the given kind, and the text after that. -/
def body? (kind : Kind) (cs : List Char) : Option (Token × List Char) :=
  match kind with
  | .wait => do
    let rest ← literal? ['w', 'a', 'i', 't', '.'] cs
    let (seconds, rest) ← numeral? rest
    match rest with
    | '-' :: more =>
      let (limit, rest) ← numeral? more
      pure (.wait seconds (some limit), rest)
    | _ => pure (.wait seconds none, rest)
  | .maxWait => do
    let rest ← literal? ['m', 'a', 'x', 'w', 'a', 'i', 't', '.'] cs
    let (seconds, rest) ← numeral? rest
    pure (.maxWait seconds, rest)
  | .unconfirmed => (literal? ['u', 'n', 's', 'a', 'f', 'e'] cs).map (.unconfirmed, ·)
  | .echo => (literal? ['e', 'c', 'h', 'o'] cs).map (.echo, ·)
  | .index => do
    let rest ← literal? ['i', 'n', 'd', 'e', 'x', '.'] cs
    let digits := rest.takeWhile isDecimalDigit
    if digits.isEmpty then none
    else pure (.index digits, rest.dropWhile isDecimalDigit)
  | .quality =>
    match literal? ['h', 'q'] cs with
    | some rest => some (.quality .high, rest)
    | none => (literal? ['n', 'q'] cs).map (.quality .normal, ·)
  | .condition => do
    let rest ← literal? ['c', 'o', 'n', 'd', 'i', 't', 'i', 'o', 'n', '.'] cs
    let (negated, rest) :=
      match rest with
      | '!' :: more => (true, more)
      | _ => (false, rest)
    let (conditions, rest) ← conditions? rest
    pure (.condition ⟨conditions, negated⟩, rest)

/-- The token of the given kind at the start of a text, and the text after it. -/
def token? (kind : Kind) : List Char → Option (Token × List Char)
  | '<' :: cs =>
    match body? kind cs with
    | some (token, '>' :: rest) => some (token, rest)
    | _ => none
  | _ => none

end CraftLang.Modifier
