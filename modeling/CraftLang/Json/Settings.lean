import CraftLang.Engine.Settings
import CraftLang.Json.Decode
import CraftLang.Library.StoredMacro

/-!
Settings and stored macros as JSON. Settings that are missing have their defaults.
-/

namespace CraftLang

namespace CraftLoopConfig

def toJson (config : CraftLoopConfig) : Json :=
  .record
    [("use_template", .bool config.useTemplate), ("template", .text config.template),
      ("from_recipe_note", .bool config.fromRecipeNote),
      ("max_wait", .optional .nat config.maxWait), ("echo", .bool config.echo)]

def ofJson? (json : Json) : Option CraftLoopConfig := do
  let default : CraftLoopConfig := {}
  match ← json.fields? ["use_template", "template", "from_recipe_note", "max_wait", "echo"] 0 with
  | [useTemplate, template, fromRecipeNote, maxWait, echo] =>
    pure
      { useTemplate := ← Json.withDefault default.useTemplate Json.bool? useTemplate
        template := ← Json.withDefault default.template Json.text? template
        fromRecipeNote := ← Json.withDefault default.fromRecipeNote Json.bool? fromRecipeNote
        maxWait := ← Json.maybe Json.nat32? maxWait
        echo := ← Json.withDefault default.echo Json.bool? echo }
  | _ => none

end CraftLoopConfig

namespace Settings

def toJson (settings : Settings) : Json :=
  .record
    [("addon_max_wait_ms", .nat settings.addonMaxWaitMs),
      ("addon_poll_ms", .nat settings.addonPollMs),
      ("status_max_wait_ms", .nat settings.statusMaxWaitMs),
      ("status_poll_ms", .nat settings.statusPollMs),
      ("action_max_wait_ms", .nat settings.actionMaxWaitMs),
      ("action_poll_ms", .nat settings.actionPollMs),
      ("stat_max_wait_ms", .nat settings.statMaxWaitMs),
      ("stat_poll_ms", .nat settings.statPollMs),
      ("stop_on_action_timeout", .bool settings.stopOnActionTimeout),
      ("craft_loop", settings.craftLoop.toJson)]

def ofJson? (json : Json) : Option Settings := do
  let default : Settings := {}
  match ← json.fields?
    ["addon_max_wait_ms", "addon_poll_ms", "status_max_wait_ms", "status_poll_ms",
      "action_max_wait_ms", "action_poll_ms", "stat_max_wait_ms", "stat_poll_ms",
      "stop_on_action_timeout", "craft_loop"] 0 with
  | [addonMax, addonPoll, statusMax, statusPoll, actionMax, actionPoll, statMax, statPoll, stop,
      craftLoop] =>
    pure
      { addonMaxWaitMs := ← Json.withDefault default.addonMaxWaitMs Json.nat64? addonMax
        addonPollMs := ← Json.withDefault default.addonPollMs Json.nat64? addonPoll
        statusMaxWaitMs := ← Json.withDefault default.statusMaxWaitMs Json.nat64? statusMax
        statusPollMs := ← Json.withDefault default.statusPollMs Json.nat64? statusPoll
        actionMaxWaitMs := ← Json.withDefault default.actionMaxWaitMs Json.nat64? actionMax
        actionPollMs := ← Json.withDefault default.actionPollMs Json.nat64? actionPoll
        statMaxWaitMs := ← Json.withDefault default.statMaxWaitMs Json.nat64? statMax
        statPollMs := ← Json.withDefault default.statPollMs Json.nat64? statPoll
        stopOnActionTimeout := ← Json.withDefault default.stopOnActionTimeout Json.bool? stop
        craftLoop := ← Json.withDefault default.craftLoop CraftLoopConfig.ofJson? craftLoop }
  | _ => none

end Settings

namespace MacroLanguage

def word : MacroLanguage → String
  | .native => "Native"
  | .script => "Script"

def ofJson? (json : Json) : Option MacroLanguage := do
  match ← json.choice? with
  | "Native" => some .native
  | "Script" => some .script
  | _ => none

end MacroLanguage

namespace StoredMacro

def toJson (stored : StoredMacro) : Json :=
  .record
    [("name", .text stored.name), ("contents", .text stored.contents),
      ("language", .text stored.language.word), ("craft_loop", .bool stored.craftLoop),
      ("craft_count", .int stored.craftCount)]

/-- A macro; all but its name and source have defaults. -/
def ofJson? (json : Json) : Option StoredMacro := do
  match ← json.fields? ["name", "contents", "language", "craft_loop", "craft_count"] 2 with
  | [name, contents, language, craftLoop, craftCount] =>
    pure
      { name := ← Json.needed Json.text? name
        contents := ← Json.needed Json.text? contents
        language := ← Json.withDefault .native MacroLanguage.ofJson? language
        craftLoop := ← Json.withDefault false Json.bool? craftLoop
        craftCount := ← Json.withDefault 0 (Json.intOfBits? 32) craftCount }
  | _ => none

end StoredMacro

end CraftLang
