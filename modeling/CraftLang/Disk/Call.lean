import CraftLang.Disk.Path
import CraftLang.Program

/-!
Programs that work with files, as the calls that they make. Every call can fail. The calls are as
small as those of an operating system, so that a program can be stopped, or fail, between any two
of them.
-/

namespace CraftLang

/-- Why a file call fails. -/
inductive FileFault where
  | missing
  | notFolder
  | isFolder
  | nameTooLong
  | alreadyThere
  /-- Anything else. -/
  | refused (reason : String)
  deriving DecidableEq, Repr, Inhabited

def FileFault.message : FileFault → String
  | .missing => "No such file or directory (os error 2)"
  | .notFolder => "Not a directory (os error 20)"
  | .isFolder => "Is a directory (os error 21)"
  | .nameTooLong => "File name too long (os error 36)"
  | .alreadyThere => "File exists (os error 17)"
  | .refused reason => reason

inductive FileCall where
  /-- Whether there is something at a path. -/
  | exists (path : Path)
  /-- Whether there is a folder at a path. -/
  | isFolder (path : Path)
  /-- Make a folder in a folder that is there. -/
  | makeFolder (path : Path)
  /-- The names in a folder. -/
  | names (path : Path)
  /-- The bytes of a file. -/
  | read (path : Path)
  /-- Make an empty file, in place of the file that is there. -/
  | create (path : Path)
  /-- Add bytes to the end of a file. -/
  | append (path : Path) (bytes : List UInt8)
  /-- Wait until a file is safe. -/
  | sync (path : Path)
  /-- Move a file, in place of the file that is there. -/
  | rename (source target : Path)
  /-- Open a folder, to wait for it. -/
  | openFolder (path : Path)
  /-- Wait until the names in a folder are safe. -/
  | syncFolder (path : Path)
  deriving DecidableEq, Repr

def FileCall.Reply : FileCall → Type
  | .exists _ | .isFolder _ => Bool
  | .names _ => Except FileFault (List String)
  | .read _ => Except FileFault (List UInt8)
  | _ => Except FileFault Unit

abbrev FileProgram := Program FileCall FileCall.Reply

namespace FileProgram

def fileExists (path : Path) : FileProgram Bool :=
  Program.ask (FileCall.exists path)

def read (path : Path) : FileProgram (Except FileFault (List UInt8)) :=
  Program.ask (FileCall.read path)

def names (path : Path) : FileProgram (Except FileFault (List String)) :=
  Program.ask (FileCall.names path)

/-- Make a folder. It does no harm if the folder is there. -/
def makeFolder (path : Path) : FileProgram (Except FileFault Unit) :=
  .call (.makeFolder path) fun
    | .ok () => .done (.ok ())
    | .error fault =>
      .call (.isFolder path) fun (isFolder : Bool) => .done (if isFolder then .ok () else .error fault)

/-- Make the first of some folders, each of which is in the next one; where the next one is missing,
make that first. -/
def makeFolders : List Path → FileProgram (Except FileFault Unit)
  | [] => .done (.error (.refused "failed to create whole tree"))
  | path :: parents =>
    if path.chars.isEmpty then .done (.ok ())
    else do
      match ← makeFolder path with
      | .error .missing =>
        match ← makeFolders parents with
        | .ok () => makeFolder path
        | .error fault => pure (.error fault)
      | result => pure result

end FileProgram

end CraftLang
