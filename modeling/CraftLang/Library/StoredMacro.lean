import CraftLang.Text.AsciiCase
import CraftLang.Text.Blank

/-!
Stored macros: a name, a source and how the source is to be run.
-/

namespace CraftLang

/-- What a macro is written in. -/
inductive MacroLanguage where
  /-- The line-oriented language of this library. -/
  | native
  /-- A scripting language; a script runtime turns it into lines. -/
  | script
  deriving DecidableEq, Repr, Inhabited

structure StoredMacro where
  /-- The name by which the macro is found. -/
  name : String
  contents : String
  language : MacroLanguage := .native
  /-- Whether running the macro repeats a craft. -/
  craftLoop : Bool := false
  /-- How many crafts; minus one for no end, zero for the macro as it is. -/
  craftCount : Int := 0
  deriving DecidableEq, Repr, Inhabited

/-- Whether a macro has a name, up to the case of ASCII letters. -/
def StoredMacro.isNamed (stored : StoredMacro) (name : String) : Bool :=
  Text.equalIgnoringCase stored.name name

end CraftLang
