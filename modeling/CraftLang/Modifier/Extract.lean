import CraftLang.Modifier.Token
import CraftLang.Source.Grammar
import CraftLang.Text.Position

/-!
Taking the modifiers from a line. Each kind is looked for on its own, outside quoted arguments, and
may occur once. What is taken is blanked out, so that offsets into the rest of the line stay valid;
the line can also be read back with the taken tokens left out.
-/

namespace CraftLang.Modifier

open Text

/-- A character of a line, and whether it belongs to a modifier that was taken. -/
structure Cell where
  char : Char
  taken : Bool := false
  deriving DecidableEq, Repr, Inhabited

/-- A line from which modifiers are taken. -/
abbrev Line := List Cell

namespace Line

/-- A line from which nothing is taken yet. -/
def ofText (cs : List Char) : Line :=
  cs.map ({ char := · })

def text (line : Line) : List Char :=
  line.map (·.char)

/-- The line with one space for each character that is taken. -/
def shown (line : Line) : List Char :=
  line.map fun cell => if cell.taken then ' ' else cell.char

/-- The line with as many spaces in place of a taken character as it has bytes. -/
def masked (line : Line) : List Char :=
  line.flatMap fun cell =>
    if cell.taken then List.replicate cell.char.utf8Size ' ' else [cell.char]

/-- Whether the line goes on with a token that is taken, once blanks are passed over. -/
def cutsNext (line : Line) : Bool :=
  match line.dropWhile fun cell => !cell.taken && isBlank cell.char with
  | cell :: _ => cell.taken
  | [] => false

/-- The characters that are not taken, without the blanks in front of each taken token. -/
def kept : Line → List Char
  | [] => []
  | cell :: line =>
    if cell.taken || (isBlank cell.char && cutsNext line) then kept line
    else cell.char :: kept line

def stripped (line : Line) : List Char :=
  trim line.kept

/-- The line with `length` more characters taken from the given position on. -/
def mark (line : Line) (position length : Nat) : Line :=
  line.take position ++
    ((line.drop position).take length).map ({ · with taken := true }) ++
    line.drop (position + length)

@[simp] theorem text_ofText (cs : List Char) : (ofText cs).text = cs := by
  simp [ofText, text, Function.comp_def]

end Line

/-- A token in a line: where it starts and how many characters it has. -/
structure Occurrence where
  position : Nat
  length : Nat
  token : Token
  deriving DecidableEq, Repr, Inhabited

/-- The occurrence as seen from one character further to the left. -/
def Occurrence.shift (o : Occurrence) : Occurrence :=
  { o with position := o.position + 1 }

/-- The tokens of one kind in a text, in order. `odd` says whether an odd number of quotation marks
stands before the text; a token is passed over if another mark follows it then. -/
def occurrencesFrom (kind : Kind) : Bool → List Char → List Occurrence
  | _, [] => []
  | odd, c :: cs =>
    let later := (occurrencesFrom kind (odd != (c == Grammar.quote)) cs).map (·.shift)
    if odd && cs.contains Grammar.quote then later
    else
      match token? kind (c :: cs) with
      | some (token, rest) => ⟨0, (c :: cs).length - rest.length, token⟩ :: later
      | none => later

/-- The tokens of one kind outside the quoted arguments of a line. -/
def occurrences (kind : Kind) (line : Line) : List Occurrence :=
  occurrencesFrom kind false line.shown

inductive Fault where
  | duplicate (kind : Kind)
  | invalidNumber (text : String)
  | invalidIndex (text : String)
  | invalidRange (error : WaitPolicy.RangeError)
  deriving DecidableEq, Repr

def Fault.message : Fault → String
  | .duplicate kind => "duplicate <" ++ kind.label ++ "> modifier"
  | .invalidNumber text => "invalid number '" ++ text ++ "'"
  | .invalidIndex text => "invalid index '" ++ text ++ "'"
  | .invalidRange error => error.message

/-- A fault and the byte offset in the line at which its token starts. -/
structure Error where
  fault : Fault
  offset : Nat
  deriving DecidableEq, Repr

/-- The duration that a numeral gives, in milliseconds. -/
def millisOf (n : Numeral) : Except Fault Nat :=
  match n.value? with
  | some seconds => .ok (millisOfSeconds seconds)
  | none => .error (.invalidNumber (String.ofList n.text))

/-- The modifiers with what one more token asks for. -/
def apply (modifiers : Modifiers) : Token → Except Fault Modifiers
  | .wait seconds limit => do
    let waitMs ← millisOf seconds
    let untilMs ← match limit with
      | some limit => millisOf limit
      | none => pure 0
    match WaitPolicy.ofMillis waitMs untilMs with
    | .ok wait => .ok { modifiers with wait, hasWait := true }
    | .error error => .error (.invalidRange error)
  | .maxWait seconds => do
    let ms ← millisOf seconds
    .ok { modifiers with maxWaitMs := some ms }
  | .unconfirmed => .ok { modifiers with unconfirmed := true }
  | .echo => .ok { modifiers with echo := true }
  | .index digits =>
    match Decimal.natOf? digits with
    | some n =>
      if n < Grammar.countLimit then .ok { modifiers with index := some n }
      else .error (.invalidIndex (String.ofList digits))
    | none => .error (.invalidIndex (String.ofList digits))
  | .quality quality => .ok { modifiers with quality := some quality }
  | .condition gate => .ok { modifiers with condition := some gate }

/-- Take the token of one kind from a line, if there is one, and apply it. -/
def takeKind (state : Modifiers × Line) (kind : Kind) : Except Error (Modifiers × Line) :=
  let (modifiers, line) := state
  let offsetOf := fun (o : Occurrence) => byteLength (line.text.take o.position)
  match occurrences kind line with
  | [] => .ok state
  | [found] =>
    match apply modifiers found.token with
    | .ok modifiers => .ok (modifiers, line.mark found.position found.length)
    | .error fault => .error ⟨fault, offsetOf found⟩
  | _ :: second :: _ => .error ⟨.duplicate kind, offsetOf second⟩

/-- Take the modifiers of the given kinds from a line, one kind after the other. -/
def extractKinds (kinds : List Kind) (line : Line) : Except Error (Modifiers × Line) :=
  kinds.foldlM takeKind ({}, line)

def extract (cs : List Char) : Except Error (Modifiers × Line) :=
  extractKinds Kind.all (Line.ofText cs)

end CraftLang.Modifier
