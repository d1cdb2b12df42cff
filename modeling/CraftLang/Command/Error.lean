import CraftLang.Host.Basic
import CraftLang.Source.Basic
import CraftLang.Source.CraftLoop

/-!
Why running a macro fails. A command error is expected: it is reported and the macro waits at its
command. Anything that goes wrong in the host is not, and ends all macros.
-/

namespace CraftLang

/-- What a command waits for. -/
inductive WaitTarget where
  | action (name : String)
  | addon (name : String)
  | status (name : String)
  deriving DecidableEq, Repr, Inhabited

/-- A target in messages. -/
def WaitTarget.description : WaitTarget → String
  | .action name => "action \"" ++ name ++ "\""
  | .addon name => "addon \"" ++ name ++ "\""
  | .status name => "status \"" ++ name ++ "\""

/-- An expected failure of a command. -/
inductive CommandError where
  | timeout (target : WaitTarget) (waitedMs : Nat)
  | macroNotFound (name : String)
  | ambiguousMacro (name : String) (count : Nat)
  | targetNotFound (name : String)
  | itemNotFound (name : String)
  | recipeNotFound (name : String)
  | recipeNotOpened (name : String) (id : Nat)
  | unknownClick (name : String)
  | unknownKey (name : String)
  | loopUnsupported (name : String)
  | noScriptRuntime (name : String)
  | source (error : SyntaxError)
  | craftLoop (error : CraftLoop.Error)
  | producer (message : String)
  deriving DecidableEq, Repr

def CommandError.message : CommandError → String
  | .timeout target waitedMs =>
    "timed out after " ++ Decimal.natText waitedMs ++ "ms waiting for " ++ target.description
  | .macroNotFound name => "no macro named \"" ++ name ++ "\""
  | .ambiguousMacro name count =>
    "macro name \"" ++ name ++ "\" is ambiguous (" ++ Decimal.natText count ++ " matches)"
  | .targetNotFound name => "could not find target \"" ++ name ++ "\""
  | .itemNotFound name => "could not use item \"" ++ name ++ "\""
  | .recipeNotFound name => "unknown recipe \"" ++ name ++ "\""
  | .recipeNotOpened name id =>
    "could not open recipe \"" ++ name ++ "\" (" ++ Decimal.natText id ++ ")"
  | .unknownClick name => "unknown click \"" ++ name ++ "\""
  | .unknownKey name => "unknown key \"" ++ name ++ "\""
  | .loopUnsupported name => "looping is not supported by " ++ name
  | .noScriptRuntime name => "no script runtime available to run \"" ++ name ++ "\""
  | .source error => error.message
  | .craftLoop error => error.message
  | .producer message => "command producer failed: " ++ message

/-- Why something did not run to its end. -/
inductive RunError where
  | command (error : CommandError)
  | cancelled
  | unexpected (failure : HostFailure)
  deriving DecidableEq, Repr

def RunError.message : RunError → String
  | .command error => error.message
  | .cancelled => "execution cancelled"
  | .unexpected failure => "unexpected failure: " ++ failure.message

end CraftLang
