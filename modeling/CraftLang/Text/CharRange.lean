/-!
Sets of characters given as a list of ranges of code points. The tables of this folder are such
lists, in ascending order and without overlap, so that each property can be read off its table.
-/

namespace CraftLang.Text

/-- The code points from the first to the second, both included. -/
abbrev CharRange := Nat × Nat

def CharRange.contains (r : CharRange) (c : Char) : Bool :=
  r.1 ≤ c.toNat && c.toNat ≤ r.2

def inRanges (table : List CharRange) (c : Char) : Bool :=
  table.any (·.contains c)

theorem inRanges_iff {table : List CharRange} {c : Char} :
    inRanges table c = true ↔ ∃ r ∈ table, r.1 ≤ c.toNat ∧ c.toNat ≤ r.2 := by
  simp [inRanges, CharRange.contains]

end CraftLang.Text
