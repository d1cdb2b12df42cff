import CraftLang.Json.Settings

/-!
Settings of a macro that are stored beside its source.
-/

namespace CraftLang

/-- What is known about a macro besides its source. -/
structure MacroSettings where
  /-- The name of the macro, where it is not that of the file. -/
  name : Option String := none
  language : MacroLanguage := .native
  craftLoop : Bool := false
  craftCount : Int := 0
  deriving DecidableEq, Repr, Inhabited

namespace MacroSettings

def ofStored (stored : StoredMacro) : MacroSettings :=
  { name := some stored.name
    language := stored.language
    craftLoop := stored.craftLoop
    craftCount := stored.craftCount }

/-- The macro with a source, under the name in its settings or the one of its file. -/
def stored (settings : MacroSettings) (fileName contents : String) : StoredMacro :=
  { name := settings.name.getD fileName
    contents
    language := settings.language
    craftLoop := settings.craftLoop
    craftCount := settings.craftCount }

def toJson (settings : MacroSettings) : Json :=
  .record
    [("name", .optional .text settings.name), ("language", .text settings.language.word),
      ("craft_loop", .bool settings.craftLoop), ("craft_count", .int settings.craftCount)]

/-- Settings of a macro, with defaults. -/
def ofJson? (json : Json) : Option MacroSettings := do
  match ← json.fields? ["name", "language", "craft_loop", "craft_count"] 0 with
  | [name, language, craftLoop, craftCount] =>
    pure
      { name := ← Json.maybe Json.text? name
        language := ← Json.withDefault .native MacroLanguage.ofJson? language
        craftLoop := ← Json.withDefault false Json.bool? craftLoop
        craftCount := ← Json.withDefault 0 (Json.intOfBits? 32) craftCount }
  | _ => none

@[simp] theorem stored_ofStored (stored : StoredMacro) (fileName : String) :
    (ofStored stored).stored fileName stored.contents = stored := rfl

end MacroSettings

end CraftLang
