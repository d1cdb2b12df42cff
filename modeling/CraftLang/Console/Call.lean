import CraftLang.Disk.Call

/-!
Programs of the console: they work with files, print lines, read lines, and know the time.
-/

namespace CraftLang

/-- What comes in while a program waits for a line. -/
inductive Arrival where
  | line (text : String)
  /-- Bytes that are no text. -/
  | unreadable
  /-- There are no more lines. -/
  | ended
  /-- Nothing came in for as long as the program was ready to wait. -/
  | silence
  deriving DecidableEq, Repr, Inhabited

inductive ConsoleCall where
  | file (call : FileCall)
  /-- Print a line. -/
  | print (line : String)
  /-- Print a line for complaints. -/
  | complain (line : String)
  /-- Wait for a line, for so many milliseconds or without end. -/
  | await (patience : Option Nat)
  | sleep (ms : Nat)
  /-- The time in milliseconds since the start. -/
  | clock
  deriving DecidableEq, Repr

def ConsoleCall.Reply : ConsoleCall → Type
  | .file call => call.Reply
  | .print _ | .complain _ | .sleep _ => Unit
  | .await _ => Arrival
  | .clock => Nat

abbrev ConsoleProgram := Program ConsoleCall ConsoleCall.Reply

namespace ConsoleProgram

def ofFile {α : Type} : FileProgram α → ConsoleProgram α
  | .done value => .done value
  | .call request next => .call (.file request) fun reply => ofFile (next reply)

def print (line : String) : ConsoleProgram Unit :=
  Program.ask (ConsoleCall.print line)

/-- Print a line for complaints. -/
def complain (line : String) : ConsoleProgram Unit :=
  Program.ask (ConsoleCall.complain line)

def await (patience : Option Nat) : ConsoleProgram Arrival :=
  Program.ask (ConsoleCall.await patience)

def sleep (ms : Nat) : ConsoleProgram Unit :=
  Program.ask (ConsoleCall.sleep ms)

def clock : ConsoleProgram Nat :=
  Program.ask ConsoleCall.clock

end ConsoleProgram

end CraftLang
