import CraftLang.Disk.Call

/-!
Working with the files of a macro folder. What goes wrong is told as the task that failed, with the
reason behind it.
-/

namespace CraftLang

/-- What a store does with files. -/
inductive StoreTask where
  | createTemporary (path : Path)
  | writeData
  | syncFile
  | rename (source target : Path)
  | openFolder (path : Path)
  | syncFolder
  | readFile (path : Path)
  | makeFolder (path : Path)
  | listFolder (path : Path)
  | decodeConfig
  | decodeText (path : Path)
  | decodeSettings (path : Path)
  deriving DecidableEq, Repr

def StoreTask.message : StoreTask → String
  | .createTemporary path => "Failed to create temp file: " ++ path.quoted
  | .writeData => "Failed to write data"
  | .syncFile => "Failed to sync file"
  | .rename source target => "Failed to rename " ++ source.quoted ++ " to " ++ target.quoted
  | .openFolder path => "Failed to open directory: " ++ path.quoted
  | .syncFolder => "Failed to sync directory"
  | .readFile path => "Failed to read file: " ++ path.quoted
  | .makeFolder path => "Failed to create directory: " ++ path.quoted
  | .listFolder path => "Failed to read directory: " ++ path.quoted
  | .decodeConfig => "Failed to deserialize config"
  | .decodeText path => "Macro is not valid UTF-8: " ++ path.quoted
  | .decodeSettings path => "Failed to deserialize macro settings: " ++ path.quoted

/-- A task that failed, and why. -/
structure StoreError where
  task : StoreTask
  reason : String
  deriving DecidableEq, Repr

def StoreError.message (e : StoreError) : String := e.task.message

/-- A program that works with the files of a store, and ends at the first task that fails. -/
abbrev Storing := ExceptT StoreError FileProgram

namespace Storing

def carryOut {α : Type} (task : StoreTask) (program : FileProgram (Except FileFault α)) :
    Storing α :=
  ExceptT.mk do
    match ← program with
    | .ok value => pure (.ok value)
    | .error fault => pure (.error ⟨task, fault.message⟩)

def decoded {α : Type} (task : StoreTask) (reason : String) : Option α → Storing α
  | some value => pure value
  | none => throw ⟨task, reason⟩

def bytesOf (path : Path) : Storing (List UInt8) :=
  carryOut (.readFile path) (FileProgram.read path)

/-- Make a folder and all folders that it is in. -/
def makeFolders (path : Path) : Storing Unit :=
  carryOut (.makeFolder path) (FileProgram.makeFolders path.lineage)

/-- The file that takes the place of another once it is complete. -/
def temporary (path : Path) : Path :=
  path.withExtension ['t', 'm', 'p']

/-- Write a file in such a way that at every moment it is there as it was or as it will be: another
file is written first, which then takes its place. -/
def writeAtomic (path : Path) (bytes : List UInt8) : Storing Unit := do
  let temp := temporary path
  carryOut (.createTemporary temp) (Program.ask (FileCall.create temp))
  carryOut .writeData (Program.ask (FileCall.append temp bytes))
  carryOut .syncFile (Program.ask (FileCall.sync temp))
  carryOut (.rename temp path) (Program.ask (FileCall.rename temp path))
  match path.parent? with
  | none => pure ()
  | some folder =>
    carryOut (.openFolder folder) (Program.ask (FileCall.openFolder folder))
    carryOut .syncFolder (Program.ask (FileCall.syncFolder folder))

end Storing

end CraftLang
