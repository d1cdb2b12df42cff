import CraftLang.Text.Lines
import CraftLang.Text.Quoted

/-!
Paths of files and folders. A path is a text in which slashes stand between pieces. A piece that is
empty or a single dot stands for the folder before it, and two dots stand for the folder above. The
text of a path is kept as it was given, since messages show it.
-/

namespace CraftLang

open Text

/-- A path, as its text. -/
structure Path where
  chars : List Char
  deriving DecidableEq, Repr, Inhabited

namespace Path

def ofText (s : String) : Path := ⟨s.toList⟩

def text (p : Path) : String := String.ofList p.chars

/-- A path as messages show it. -/
def quoted (p : Path) : String := Text.quoted p.text

/-- The pieces between the slashes. -/
def pieces (p : Path) : List (List Char) := splitOn '/' p.chars

def isAbsolute (p : Path) : Bool := ['/'].isPrefixOf p.chars

/-- Whether a piece stands for the folder before it. -/
def isIdle (piece : List Char) : Bool := piece.isEmpty || piece == ['.']

/-- The piece for the folder above. -/
def upward : List Char := ['.', '.']

/-- A path as seen from a folder. -/
def join (folder p : Path) : Path :=
  if p.isAbsolute || folder.chars.isEmpty then p
  else if folder.chars.getLast? = some '/' then ⟨folder.chars ++ p.chars⟩
  else ⟨folder.chars ++ '/' :: p.chars⟩

/-- A path cut at its last name: the pieces before the name, the name, and the idle pieces after
it. -/
def splitName? (p : Path) : Option (List (List Char) × List Char × List (List Char)) :=
  let back := p.pieces.reverse
  match back.dropWhile isIdle with
  | [] => none
  | name :: front =>
    if name = upward then none
    else some (front.reverse, name, (back.takeWhile isIdle).reverse)

/-- The name of what a path leads to. A path that ends in the folder above has none. -/
def name? (p : Path) : Option (List Char) :=
  p.splitName?.map (·.2.1)

/-- A name cut at its last dot into stem and extension. A dot in front does not count. -/
def splitExtension (name : List Char) : List Char × Option (List Char) :=
  let back := name.reverse
  match back.dropWhile (· != '.') with
  | [] | [_] => (name, none)
  | _ :: stem => (stem.reverse, some (back.takeWhile (· != '.')).reverse)

def stem? (p : Path) : Option (List Char) :=
  p.name?.map fun name => (splitExtension name).1

def extension? (p : Path) : Option (List Char) := do
  (splitExtension (← p.name?)).2

/-- A name with another extension. A name whose stem is a dot loses its extension and becomes the
folder above, unless idle pieces follow it. -/
def renamed (name extension : List Char) (followed : Bool) : List Char :=
  match splitExtension name with
  | (['.'], some _) => if followed then upward ++ extension else upward
  | (stem, _) => stem ++ '.' :: extension

/-- The path with another extension in place of its own, if it has a name. -/
def withExtension (p : Path) (extension : List Char) : Path :=
  match p.splitName? with
  | none => p
  | some (front, name, idle) =>
    ⟨joinWith ['/'] (front ++ [renamed name extension !idle.isEmpty])⟩

/-- The path without its last piece. The top of the disk and the empty path have no parent. -/
def parent? (p : Path) : Option Path :=
  match p.pieces.reverse.dropWhile isIdle with
  | [] => if p.chars.head? = some '.' then some ⟨[]⟩ else none
  | _ :: front =>
    match front.dropWhile isIdle with
    | [] => if p.isAbsolute then some ⟨['/']⟩ else some ⟨front.getLast?.getD []⟩
    | rest => some ⟨joinWith ['/'] rest.reverse⟩

def ancestors : Nat → Path → List Path
  | 0, _ => []
  | fuel + 1, p =>
    p :: match p.parent? with
      | some parent => ancestors fuel parent
      | none => []

/-- A path, its parent and so on, up to the last that has a parent and the one above it. A parent
has a shorter text, so the length of the text is fuel enough. -/
def lineage (p : Path) : List Path :=
  ancestors (p.chars.length + 1) p

end Path

end CraftLang
