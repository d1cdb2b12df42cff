import CraftLang.Disk.Call
import CraftLang.Text.Position

/-!
A disk in memory. Every file and folder has a place: the names that lead to it from the top. The
disk answers the calls of file programs.
-/

namespace CraftLang

/-- What is at a place. -/
inductive Entry where
  | file (bytes : List UInt8)
  | folder
  deriving DecidableEq, Repr, Inhabited

/-- The names that lead from the top of a disk to a file or folder. -/
abbrev Place := List (List Char)

/-- The files and folders of a disk. Its top is always there, and no place comes twice. -/
structure Disk where
  entries : List (Place × Entry) := []
  /-- The folder in which paths begin that do not begin at the top. -/
  home : Place := []
  deriving DecidableEq, Repr, Inhabited

namespace Disk

def lookup (d : Disk) (place : Place) : Option Entry :=
  if place = [] then some .folder else d.entries.lookup place

def set (d : Disk) (place : Place) (entry : Entry) : Disk :=
  { d with entries := (place, entry) :: d.entries.filter (·.1 != place) }

def erase (d : Disk) (place : Place) : Disk :=
  { d with entries := d.entries.filter (·.1 != place) }

theorem lookup_filter_of_ne {place other : Place} (h : other ≠ place)
    (entries : List (Place × Entry)) :
    (entries.filter (·.1 != place)).lookup other = entries.lookup other := by
  have hne : (other == place) = false := by simpa using h
  induction entries with
  | nil => rfl
  | cons head tail ih =>
    obtain ⟨found, entry⟩ := head
    by_cases hf : found = place
    · subst hf
      simp [List.lookup_cons, hne, ih]
    · simp [List.lookup_cons, hf, ih]

@[simp] theorem lookup_set_self (d : Disk) {place : Place} (h : place ≠ []) (entry : Entry) :
    (d.set place entry).lookup place = some entry := by
  simp [lookup, set, h]

theorem lookup_set_of_ne (d : Disk) {place other : Place} (h : other ≠ place) (entry : Entry) :
    (d.set place entry).lookup other = d.lookup other := by
  have hne : (other == place) = false := by simpa using h
  simp [lookup, set, List.lookup_cons, hne, lookup_filter_of_ne h]

theorem lookup_erase_of_ne (d : Disk) {place other : Place} (h : other ≠ place) :
    (d.erase place).lookup other = d.lookup other := by
  simp [lookup, erase, lookup_filter_of_ne h]

def hasFolder (d : Disk) (place : Place) : Bool :=
  d.lookup place == some .folder

/-- The longest name, in bytes. -/
def maxNameBytes : Nat := 255

/-- The longest path, in bytes. -/
def maxPathBytes : Nat := 4095

/-- The place to which a piece of a path leads. Even an idle piece leads on from a folder only. -/
def follow (d : Disk) (place : Place) (piece : List Char) : Except FileFault Place :=
  match d.lookup place with
  | none => .error .missing
  | some (.file _) => .error .notFolder
  | some .folder =>
    if Path.isIdle piece then .ok place
    else if piece = Path.upward then .ok place.dropLast
    else if maxNameBytes < Text.byteLength piece then .error .nameTooLong
    else .ok (place ++ [piece])

/-- The place to which a path leads. There need not be anything at it, but it is in a folder. -/
def locate (d : Disk) (p : Path) : Except FileFault Place :=
  if p.chars.isEmpty then .error .missing
  else if p.chars.contains '\x00' then .error (.refused "file name contained an unexpected NUL byte")
  else if maxPathBytes < Text.byteLength p.chars then .error .nameTooLong
  else p.pieces.foldlM d.follow (if p.isAbsolute then [] else d.home)

/-- What is at a path. -/
def entryAt (d : Disk) (p : Path) : Except FileFault Entry := do
  match d.lookup (← d.locate p) with
  | some entry => .ok entry
  | none => .error .missing

def dropSlashes (p : Path) : Path :=
  ⟨(p.chars.reverse.dropWhile (· == '/')).reverse⟩

def makeFolder (d : Disk) (p : Path) : Except FileFault Disk := do
  let place ← d.locate (if p.chars.all (· == '/') then p else dropSlashes p)
  match d.lookup place with
  | some _ => .error .alreadyThere
  | none => .ok (d.set place .folder)

def names (d : Disk) (p : Path) : Except FileFault (List String) := do
  let place ← d.locate p
  match d.lookup place with
  | none => .error .missing
  | some (.file _) => .error .notFolder
  | some .folder =>
    .ok (d.entries.filterMap fun (found, _) =>
      match found.getLast? with
      | some name => if found.dropLast = place then some (String.ofList name) else none
      | none => none)

def read (d : Disk) (p : Path) : Except FileFault (List UInt8) := do
  match ← d.entryAt p with
  | .file bytes => .ok bytes
  | .folder => .error .isFolder

def create (d : Disk) (p : Path) : Except FileFault Disk := do
  let place ← d.locate p
  if d.hasFolder place then .error .isFolder else .ok (d.set place (.file []))

def append (d : Disk) (p : Path) (bytes : List UInt8) : Except FileFault Disk := do
  let before ← d.read p
  let place ← d.locate p
  .ok (d.set place (.file (before ++ bytes)))

def rename (d : Disk) (source target : Path) : Except FileFault Disk := do
  let bytes ← d.read source
  let start ← d.locate source
  let place ← d.locate target
  if d.hasFolder place then .error .isFolder
  else .ok ((d.erase start).set place (.file bytes))

def changed (d : Disk) : Except FileFault Disk → Except FileFault Unit × Disk
  | .ok d => (.ok (), d)
  | .error fault => (.error fault, d)

def answer : (call : FileCall) → Disk → call.Reply × Disk
  | .exists p, d => ((d.entryAt p).isOk, d)
  | .isFolder p, d => (d.entryAt p matches .ok .folder, d)
  | .makeFolder p, d => d.changed (d.makeFolder p)
  | .names p, d => (d.names p, d)
  | .read p, d => (d.read p, d)
  | .create p, d => d.changed (d.create p)
  | .append p bytes, d => d.changed (d.append p bytes)
  | .sync p, d => ((d.entryAt p).map fun _ => (), d)
  | .rename source target, d => d.changed (d.rename source target)
  | .openFolder p, d => ((d.entryAt p).map fun _ => (), d)
  | .syncFolder p, d => ((d.entryAt p).map fun _ => (), d)

def run {α : Type} (program : FileProgram α) (d : Disk) : α × Disk :=
  program.run answer d

end Disk

end CraftLang
