import CraftLang.Text.Blank
import CraftLang.Text.Lowercase

/-!
The catalog of crafting actions. Its names are asked for once, when they are first needed, and are
compared without outer blanks and in lower case.
-/

namespace CraftLang

/-- The names of the crafting actions, once they are loaded. -/
structure Catalog where
  names : Option (List String) := none
  deriving DecidableEq, Repr, Inhabited

namespace Catalog

/-- The form in which names are compared. -/
def normalize (name : String) : String :=
  Text.lowercase (Text.trimmed name)

def ofNames (names : List String) : Catalog := ⟨some (names.map normalize)⟩

def isLoaded (catalog : Catalog) : Bool := catalog.names.isSome

def contains (catalog : Catalog) (name : String) : Bool :=
  catalog.names.any (·.contains (normalize name))

/-- The catalog with its names, which `load` supplies if they are not loaded yet. -/
def loadedFrom (catalog : Catalog) (load : List String) : Catalog :=
  if catalog.isLoaded then catalog else ofNames load

end Catalog

end CraftLang
