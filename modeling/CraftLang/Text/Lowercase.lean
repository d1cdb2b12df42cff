import CraftLang.Text.LowercaseTable

/-!
Lower case for every script. One letter has two lower-case forms: a capital sigma that ends a word
becomes the final one. One letter becomes two characters: the capital I with a dot.
-/

namespace CraftLang.Text

/-- The offset a row of the table assigns to a code point. -/
def LowercaseRow.offsetAt? (row : LowercaseRow) (n : Nat) : Option Int :=
  if row.first ≤ n && n ≤ row.last && (n - row.first) % row.step == 0 then some row.offset
  else none

/-- The lower-case form of a character that does not depend on the characters around it. -/
def lowercaseOf (c : Char) : List Char :=
  if c.toNat < 0x80 then [c.toLower]
  else if c == 'İ' then ['i', Char.ofNat 0x307]
  else
    match lowercaseRows.findSome? (·.offsetAt? c.toNat) with
    | some offset => [Char.ofNat (c.toNat + offset).toNat]
    | none => [c]

/-- Whether the first character that case does not ignore is a letter with case. -/
def startsCased (cs : List Char) : Bool :=
  match cs.dropWhile (inRanges caseIgnorableRanges) with
  | [] => false
  | c :: _ => inRanges casedRanges c

/-- Lower case of `cs`, where `before` holds the characters before it, nearest first. -/
def lowercaseAfter (before : List Char) : List Char → List Char
  | [] => []
  | c :: cs =>
    (if c == 'Σ' then [if startsCased before && !startsCased cs then 'ς' else 'σ']
      else lowercaseOf c) ++ lowercaseAfter (c :: before) cs

def lowercase (s : String) : String :=
  String.ofList (lowercaseAfter [] s.toList)

end CraftLang.Text
