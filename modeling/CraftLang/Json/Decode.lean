import CraftLang.Json.Reader

/-!
Reading values of given types from JSON. A record may be written as an object, in which unknown
members are passed over and no known one is repeated, or as an array of its fields in order. A
choice without content is a string with its name, or an object with that name and null.
-/

namespace CraftLang.Json

def bool? : Json → Option Bool
  | .bool b => some b
  | _ => none

def text? : Json → Option String
  | .string text => text
  | _ => none

/-- A natural number below a bound, written in digits only. -/
def natBelow? (bound : Nat) : Json → Option Nat
  | .number written => do
    let n ← Decimal.natOf? written.toList
    if n < bound then pure n else none
  | _ => none

/-- An integer of so many bits, written in digits with a minus sign if it is negative. Minus zero
is no integer. -/
def intOfBits? (bits : Nat) : Json → Option Int
  | .number written => do
    let n ← Decimal.intOf? written.toList
    if written == "-0" then none
    else
      let bound : Int := .ofNat (1 <<< (bits - 1))
      if -bound ≤ n ∧ n < bound then pure n else none
  | _ => none

/-- A count. -/
def nat32? : Json → Option Nat := natBelow? UInt32.size

/-- A long count. -/
def nat64? : Json → Option Nat := natBelow? UInt64.size

def list? {α : Type} (item? : Json → Option α) : Json → Option (List α)
  | .array items => items.mapM item?
  | _ => none

def optional? {α : Type} (value? : Json → Option α) : Json → Option (Option α)
  | .null => some none
  | json => (value? json).map some

/-- The members with one name. -/
def named (name : String) (members : List (Option String × Json)) : List Json :=
  members.filterMap fun (found, value) => if found == some name then some value else none

/-- The single member with one name, if any; it is an error if there are several. -/
def member? (members : List (Option String × Json)) (name : String) : Option (Option Json) :=
  match named name members with
  | [] => some none
  | [value] => some (some value)
  | _ => none

/-- The fields of a record in order, each missing or given. An array has at least `least` of
them. -/
def fields? (names : List String) (least : Nat) : Json → Option (List (Option Json))
  | .object members =>
    if members.all (·.1.isSome) then names.mapM (member? members) else none
  | .array items =>
    if least ≤ items.length && items.length ≤ names.length then
      some (items.map some ++ List.replicate (names.length - items.length) none)
    else none
  | _ => none

def needed {α : Type} (value? : Json → Option α) : Option Json → Option α
  | some json => value? json
  | none => none

def withDefault {α : Type} (default : α) (value? : Json → Option α) : Option Json → Option α
  | some json => value? json
  | none => some default

/-- A field that may be missing or null. -/
def maybe {α : Type} (value? : Json → Option α) : Option Json → Option (Option α) :=
  withDefault none (optional? value?)

/-- The name of a choice without content. -/
def choice? : Json → Option String
  | .string text => text
  | .object [(name, .null)] => name
  | _ => none

/-- The name of a choice and its content. -/
def choiceWith? : Json → Option (String × Json)
  | .object [(some name, content)] => some (name, content)
  | _ => none

end CraftLang.Json
