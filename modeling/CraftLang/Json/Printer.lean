import CraftLang.Json.Basic

/-!
Writing JSON, on one line or with one member a line. Control characters are escaped, the common
ones by a letter; every other character stands for itself.
-/

namespace CraftLang.Json

def hexPair (n : Nat) : List Char :=
  Nat.toDigits 16 (n / 16) ++ Nat.toDigits 16 (n % 16)

/-- A character as it stands in a string. -/
def escapedChar (c : Char) : List Char :=
  if c = '\x22' then ['\\', '\x22']
  else if c = '\\' then ['\\', '\\']
  else if c = '\x08' then ['\\', 'b']
  else if c = '\x0c' then ['\\', 'f']
  else if c = '\n' then ['\\', 'n']
  else if c = '\x0d' then ['\\', 'r']
  else if c = '\t' then ['\\', 't']
  else if c.toNat < 0x20 then ['\\', 'u', '0', '0'] ++ hexPair c.toNat
  else [c]

def quotedText (s : String) : List Char :=
  '\x22' :: s.toList.flatMap escapedChar ++ ['\x22']

/-- A line break and the indentation of a nesting depth. -/
def lineBreak (depth : Nat) : List Char :=
  '\n' :: List.replicate (2 * depth) ' '

/-- The spellings that differ between the two layouts. -/
structure Layout where
  /-- What stands before the first item, between items after the comma, and before the end. -/
  gap : Nat → List Char
  /-- What stands between a name and its value. -/
  colon : List Char

/-- Everything on one line, without spaces. -/
def Layout.compact : Layout := ⟨fun _ => [], [':']⟩

/-- One item a line, two spaces a level. -/
def Layout.pretty : Layout := ⟨lineBreak, [':', ' ']⟩

mutual

/-- A value at a nesting depth. -/
def print (layout : Layout) (depth : Nat) : Json → List Char
  | .null => ['n', 'u', 'l', 'l']
  | .bool true => ['t', 'r', 'u', 'e']
  | .bool false => ['f', 'a', 'l', 's', 'e']
  | .number written => written.toList
  | .string text => quotedText (text.getD "")
  | .array [] => ['[', ']']
  | .array (item :: items) =>
    '[' :: layout.gap (depth + 1) ++ print layout (depth + 1) item ++
      printItems layout (depth + 1) items ++ layout.gap depth ++ [']']
  | .object [] => ['\x7b', '\x7d']
  | .object ((name, value) :: members) =>
    '\x7b' :: layout.gap (depth + 1) ++ quotedText (name.getD "") ++ layout.colon ++
      print layout (depth + 1) value ++ printMembers layout (depth + 1) members ++
      layout.gap depth ++ ['\x7d']

def printItems (layout : Layout) (depth : Nat) : List Json → List Char
  | [] => []
  | item :: items =>
    ',' :: layout.gap depth ++ print layout depth item ++ printItems layout depth items

def printMembers (layout : Layout) (depth : Nat) : List (Option String × Json) → List Char
  | [] => []
  | (name, value) :: members =>
    ',' :: layout.gap depth ++ quotedText (name.getD "") ++ layout.colon ++
      print layout depth value ++ printMembers layout depth members

end

def compact (value : Json) : String :=
  String.ofList (print .compact 0 value)

def pretty (value : Json) : String :=
  String.ofList (print .pretty 0 value)

end CraftLang.Json
