import CraftLang.Console.Basic

/-!
The program `macrocraft`: the console programs of this library, with their calls made to the
operating system.
-/

namespace CraftLang.Console

def fileFault : IO.Error → FileFault
  | .noFileOrDirectory .. => .missing
  | .alreadyExists .. => .alreadyThere
  | e => .refused (toString e)

/-- The result of an action on files. -/
def attempt {α : Type} (action : IO α) : IO (Except FileFault α) := do
  try pure (.ok (← action))
  catch e => pure (.error (fileFault e))

def callFile : (call : FileCall) → IO call.Reply
  | .exists path => (System.mkFilePath [path.text]).pathExists
  | .isFolder path => (System.mkFilePath [path.text]).isDir
  | .makeFolder path => attempt (IO.FS.createDir path.text)
  | .names path => attempt do
    let entries ← (System.mkFilePath [path.text]).readDir
    pure (entries.toList.map (·.fileName))
  | .read path => attempt do
    pure (← IO.FS.readBinFile path.text).data.toList
  | .create path => attempt (IO.FS.writeBinFile path.text .empty)
  | .append path bytes => attempt do
    let file ← IO.FS.Handle.mk path.text .append
    file.write ⟨bytes.toArray⟩
    file.flush
  | .sync path => attempt do
    (← IO.FS.Handle.mk path.text .append).flush
  | .rename source target => attempt (IO.FS.rename source.text target.text)
  | .openFolder path => attempt (discard (IO.FS.realPath path.text))
  | .syncFolder path => attempt (discard (IO.FS.realPath path.text))

/-- A line that is being read, if any. -/
abbrev PendingLine := IO.Ref (Option (Task (Except IO.Error String)))

/-- Wait for a line. A line that does not come in time is waited for again by the next call. -/
def awaitLine (pending : PendingLine) (patience : Option Nat) : IO Arrival := do
  let task ←
    match ← pending.get with
    | some task => pure task
    | none =>
      let task ← IO.asTask (do (← IO.getStdin).getLine) .dedicated
      pending.set (some task)
      pure task
  if let some ms := patience then
    let start ← IO.monoMsNow
    for _ in [0:ms] do
      if ← IO.hasFinished task then break
      if ms ≤ (← IO.monoMsNow) - start then break
      IO.sleep 1
    if !(← IO.hasFinished task) then return .silence
  pending.set none
  match ← IO.wait task with
  | .error _ => return .unreadable
  | .ok "" => return .ended
  | .ok line => return .line (if line.endsWith "\n" then line.dropEnd 1 |>.toString else line)

def callSystem (start : Nat) (pending : PendingLine) : (call : ConsoleCall) → IO call.Reply
  | .file call => callFile call
  | .print line => IO.println line
  | .complain line => IO.eprintln line
  | .await patience => awaitLine pending patience
  | .sleep ms => IO.sleep (min ms (UInt32.size - 1)).toUInt32
  | .clock => do pure ((← IO.monoMsNow) - start)

def perform {α : Type} (answer : (call : ConsoleCall) → IO call.Reply) :
    ConsoleProgram α → IO α
  | .done value => pure value
  | .call request next => do perform answer (next (← answer request))

end CraftLang.Console

def main (arguments : List String) : IO UInt32 := do
  let start ← IO.monoMsNow
  let pending ← IO.mkRef none
  let code ← CraftLang.Console.perform (CraftLang.Console.callSystem start pending)
    (CraftLang.Console.run arguments)
  (← IO.getStdout).flush
  pure code.toUInt32
