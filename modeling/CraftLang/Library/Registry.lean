import CraftLang.Frame.LineSource
import CraftLang.Library.StoredMacro

/-!
Macros in memory. Several macros may have one name; looking for it then finds all of them.
-/

namespace CraftLang

/-- Macros in the order in which they were added. -/
abbrev Registry := List StoredMacro

namespace Registry

def insert (registry : Registry) (stored : StoredMacro) : Registry :=
  registry ++ [stored]

/-- Remove all macros of a name, blanks around it included. -/
def remove (registry : Registry) (name : String) : Registry :=
  registry.filter fun stored => !stored.isNamed name

/-- The macros of a name, whatever blanks are around it. -/
def find (registry : Registry) (name : String) : List StoredMacro :=
  registry.filter (·.isNamed (Text.trimmed name))

theorem mem_find_iff {registry : Registry} {name : String} {stored : StoredMacro} :
    stored ∈ registry.find name ↔ stored ∈ registry ∧ stored.isNamed (Text.trimmed name) := by
  simp [find]

theorem find_insert (registry : Registry) (stored : StoredMacro) (name : String) :
    (registry.insert stored).find name =
      registry.find name ++ if stored.isNamed (Text.trimmed name) then [stored] else [] := by
  simp [find, insert, List.filter_append, List.filter_cons]

end Registry

/-- A script runtime, as the lines that each script yields. -/
abbrev Scripts := List (String × List Fed)

end CraftLang
