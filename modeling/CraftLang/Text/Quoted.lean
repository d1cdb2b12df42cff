import CraftLang.Text.EscapedTable

/-!
Text in double quotes, as messages show paths: double quotes, backslashes and invisible characters
are escaped, so that two different texts never look the same.
-/

namespace CraftLang.Text

/-- The code point in lower-case hexadecimal between braces, as in `\u` followed by `\x7b9\x7d`. -/
def codePointEscape (c : Char) : List Char :=
  ['\\', 'u', '\x7b'] ++ Nat.toDigits 16 c.toNat ++ ['\x7d']

/-- How one character is shown between double quotes. -/
def quotedChar (c : Char) : List Char :=
  if c = '\x00' then ['\\', '0']
  else if c = '\t' then ['\\', 't']
  else if c = '\n' then ['\\', 'n']
  else if c = '\x0d' then ['\\', 'r']
  else if c = '\x22' || c = '\\' then ['\\', c]
  else if inRanges escapedRanges c then codePointEscape c
  else [c]

/-- A string between double quotes, with escapes. -/
def quoted (s : String) : String :=
  String.ofList ('\x22' :: s.toList.flatMap quotedChar ++ ['\x22'])

end CraftLang.Text
