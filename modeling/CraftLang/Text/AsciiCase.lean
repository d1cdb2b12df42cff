/-!
Letter case of ASCII letters only. Macro names, verbs and conditions are compared in this way.
-/

namespace CraftLang.Text

/-- The text with `A` to `Z` in lower case and everything else as it is. -/
def asciiLower (cs : List Char) : List Char :=
  cs.map Char.toLower

/-- A string with `A` to `Z` in lower case and everything else as it is. -/
def asciiLowered (s : String) : String :=
  String.ofList (asciiLower s.toList)

/-- Equality up to the case of ASCII letters. -/
def equalIgnoringCase (s t : String) : Bool :=
  asciiLower s.toList == asciiLower t.toList

theorem equalIgnoringCase_iff {s t : String} :
    equalIgnoringCase s t = true ↔ asciiLower s.toList = asciiLower t.toList :=
  beq_iff_eq

@[simp] theorem equalIgnoringCase_refl (s : String) : equalIgnoringCase s s = true := by
  simp [equalIgnoringCase]

end CraftLang.Text
