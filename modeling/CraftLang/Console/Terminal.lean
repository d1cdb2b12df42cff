import CraftLang.Console.Call
import CraftLang.Disk.Basic

/-!
A terminal in memory: a disk, the lines that are still to be read, what was printed, and a clock
that only sleeping moves.
-/

namespace CraftLang

structure Terminal where
  disk : Disk := {}
  input : List String := []
  /-- The lines that were printed, with the latest first. -/
  output : List String := []
  /-- The lines of complaints, with the latest first. -/
  complaints : List String := []
  now : Nat := 0
  deriving DecidableEq, Repr, Inhabited

namespace Terminal

def answer : (call : ConsoleCall) → Terminal → call.Reply × Terminal
  | .file call, t =>
    let (reply, disk) := Disk.answer call t.disk
    (reply, { t with disk })
  | .print line, t => ((), { t with output := line :: t.output })
  | .complain line, t => ((), { t with complaints := line :: t.complaints })
  | .await _, t =>
    match t.input with
    | [] => (Arrival.ended, t)
    | line :: input => (Arrival.line line, { t with input })
  | .sleep ms, t => ((), { t with now := t.now + ms })
  | .clock, t => (t.now, t)

def run {α : Type} (program : ConsoleProgram α) (t : Terminal) : α × Terminal :=
  program.run answer t

end Terminal

end CraftLang
