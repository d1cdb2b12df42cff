import CraftLang.Json.Printer
import CraftLang.Library.Registry
import CraftLang.Store.Basic
import CraftLang.Store.MacroSettings

/-!
Macro folders. A macro folder holds the settings of the engine in one file, and a folder with a
source file for each macro. Beside a source there may be a file with the macro's own settings.
-/

namespace CraftLang

open Text

structure Store where
  root : Path
  deriving DecidableEq, Repr

namespace Store

def configPath (store : Store) : Path :=
  store.root.join (.ofText "config.json")

def macrosFolder (store : Store) : Path :=
  store.root.join (.ofText "macros")

/-- Whether a character stays as it is in the name of a file. -/
def isFileChar (c : Char) : Bool :=
  !(['/', '\\', ':', '*', '?', '\x22', '<', '>', '|'].contains c)

/-- The name of the files of a macro, without extension. -/
def fileStem (name : String) : List Char :=
  (trim name.toList).map fun c => if isFileChar c then c else '_'

def sourceExtension : List Char := "macro".toList

def settingsExtension : List Char := "json".toList

def macroPath (store : Store) (name : String) : Path :=
  store.macrosFolder.join ⟨fileStem name ++ '.' :: sourceExtension⟩

def settingsPath (store : Store) (name : String) : Path :=
  store.macrosFolder.join ⟨fileStem name ++ '.' :: settingsExtension⟩

def writeConfig (store : Store) (settings : Settings) : Storing Unit :=
  Storing.writeAtomic store.configPath (utf8Bytes settings.toJson.pretty)

def loadConfig (store : Store) : Storing Settings := do
  let bytes ← Storing.bytesOf store.configPath
  Storing.decoded .decodeConfig "not the settings of an engine"
    (Json.read? bytes >>= Settings.ofJson?)

/-- Make a macro folder. Settings that are there are kept. -/
def init (store : Store) : Storing Unit := do
  Storing.makeFolders store.root
  Storing.makeFolders store.macrosFolder
  if !(← FileProgram.fileExists store.configPath) then
    store.writeConfig {}

/-- Store a macro: its source, and then its settings. -/
def save (store : Store) (stored : StoredMacro) : Storing Unit := do
  Storing.makeFolders store.macrosFolder
  Storing.writeAtomic (store.macroPath stored.name) (utf8Bytes stored.contents)
  Storing.writeAtomic (store.settingsPath stored.name)
    (utf8Bytes (MacroSettings.ofStored stored).toJson.pretty)

/-- The sources in order of their names. -/
def list (store : Store) : Storing (List Path) := do
  let folder := store.macrosFolder
  let names ← Storing.carryOut (.listFolder folder) (FileProgram.names folder)
  let paths := (names.mergeSort (· ≤ ·)).map fun name => folder.join (.ofText name)
  pure (paths.filter fun path => path.extension? == some sourceExtension)

/-- Read the macro with a source. Without settings of its own it has the default ones, and the name
of its file. -/
def loadMacro (path : Path) : Storing StoredMacro := do
  let bytes ← Storing.bytesOf path
  let contents ← Storing.decoded (.decodeText path) "invalid utf-8 sequence" (utf8Text? bytes)
  let settingsPath := path.withExtension settingsExtension
  let settings ←
    if ← FileProgram.fileExists settingsPath then do
      let bytes ← Storing.bytesOf settingsPath
      Storing.decoded (.decodeSettings settingsPath) "not the settings of a macro"
        (Json.read? bytes >>= MacroSettings.ofJson?)
    else pure {}
  pure (settings.stored (String.ofList (path.stem?.getD [])) contents)

/-- Read all macros, in order of the names of their sources. -/
def load (store : Store) : Storing (List StoredMacro) := do
  (← store.list).mapM loadMacro

def find (store : Store) (name : String) : Storing (List StoredMacro) := do
  pure (Registry.find (← store.load) name)

end Store

end CraftLang
