import CraftLang.Number.Decimal

/-!
JSON values. A number is kept as it was written, since a count may only be written in digits. A
string is missing where its bytes or escapes are no text; such a string may stand where nobody looks
at it. The members of an object are kept in order, repeated names included.
-/

namespace CraftLang

inductive Json where
  | null
  | bool (value : Bool)
  | number (written : String)
  | string (text : Option String)
  | array (items : List Json)
  | object (members : List (Option String × Json))
  deriving Inhabited

namespace Json

def text (s : String) : Json := .string (some s)

def nat (n : Nat) : Json := .number (Decimal.natText n)

def int (n : Int) : Json := .number (Decimal.intText n)

def optional {α : Type} (encode : α → Json) : Option α → Json
  | some a => encode a
  | none => .null

def list {α : Type} (encode : α → Json) (items : List α) : Json :=
  .array (items.map encode)

/-- An object with named members, in order. -/
def record (members : List (String × Json)) : Json :=
  .object (members.map fun (name, value) => (some name, value))

end Json

end CraftLang
