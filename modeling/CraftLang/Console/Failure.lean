import CraftLang.Command.Error
import CraftLang.Console.Call
import CraftLang.Store.Basic

/-!
How a console program fails, and how that is told.
-/

namespace CraftLang

/-- A failure: what went wrong, and what was behind it, the nearest cause first. -/
structure Failure where
  message : String
  causes : List String := []
  deriving DecidableEq, Repr, Inhabited

namespace Failure

/-- A store that failed. -/
def ofStoreError (e : StoreError) : Failure :=
  { message := e.message, causes := [e.reason] }

/-- A macro that did not run. Behind a failure of the host is the failure itself. -/
def ofRunError (e : RunError) : Failure :=
  match e with
  | .unexpected failure => { message := e.message, causes := [failure.message] }
  | .command _ | .cancelled => { message := e.message }

def causeLines (causes : List String) : List String :=
  match causes with
  | [cause] => ["    " ++ cause]
  | causes => causes.mapIdx fun k cause => "    " ++ Decimal.natText k ++ ": " ++ cause

/-- What is printed about a failure. -/
def report (failure : Failure) : String :=
  let head := "Error: " ++ failure.message
  if failure.causes.isEmpty then head
  else Text.joinLines ([head, "", "Caused by:"] ++ causeLines failure.causes)

end Failure

abbrev Commanding := ExceptT Failure ConsoleProgram

def Commanding.ofFile {α : Type} (program : FileProgram α) : Commanding α :=
  ExceptT.lift (ConsoleProgram.ofFile program)

def Commanding.ofStoring {α : Type} (work : Storing α) : Commanding α :=
  ExceptT.mk do
    match ← ConsoleProgram.ofFile work.run with
    | .ok value => pure (.ok value)
    | .error e => pure (.error (.ofStoreError e))

end CraftLang
