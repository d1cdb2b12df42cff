import CraftLang.Host.Basic
import CraftLang.Number.Decimal
import CraftLang.Text.Lines
import CraftLang.Text.Lowercase

/-!
Dry runs. A host without a game: it keeps a transcript of everything that would be sent, printed or
pressed, and it plays a simple craft, in which every action takes effect at once.
-/

namespace CraftLang

open Text

structure DryRun where
  ready : Bool := true
  craft : Option CraftState := none
  stats : CharacterStats := { craftsmanship := 4000, control := 3900, cp := 600 }
  /-- The active status effects, in lower case. -/
  statuses : List String := []
  needsRepair : Bool := false
  spiritbondReady : Bool := false
  /-- What was recorded, with the latest line first. -/
  transcript : List String := []
  deriving DecidableEq, Repr, Inhabited

namespace DryRun

def craftActions : List String :=
  ["Basic Synthesis", "Basic Touch", "Master's Mend", "Observe", "Veneration", "Innovation",
    "Great Strides", "Waste Not", "Waste Not II", "Manipulation", "Byregot's Blessing",
    "Groundwork", "Careful Synthesis", "Prudent Touch", "Preparatory Touch", "Muscle Memory",
    "Reflect", "Trained Eye", "Delicate Synthesis", "Standard Touch", "Advanced Touch",
    "Final Appraisal", "Heart and Soul", "Intensive Synthesis", "Precise Touch",
    "Tricks of the Trade", "Rapid Synthesis", "Hasty Touch", "Trained Finesse", "Refined Touch",
    "Immaculate Mend", "Trained Perfection"]

def record (run : DryRun) (line : String) : DryRun :=
  { run with transcript := line :: run.transcript }

/-- A craft at its first step. -/
def freshCraft : CraftState :=
  { step := 1, maxProgress := 100, maxQuality := 1000, durability := 80, condition := "normal" }

/-- Whether a text occurs in an action's name, up to case. -/
def isKindOf (word : String) (name : String) : Bool :=
  occursIn word.toList (lowercase name).toList

/-- A craft after an action: a synthesis makes progress, a touch adds quality, and everything costs
durability. -/
def actOn (name : String) (craft : CraftState) : CraftState :=
  let craft := { craft with step := craft.step + 1 }
  let craft :=
    if isKindOf "synthesis" name then
      { craft with progress := min (craft.progress + 40) craft.maxProgress }
    else if isKindOf "touch" name then
      { craft with quality := min (craft.quality + 200) craft.maxQuality }
    else craft
  { craft with durability := craft.durability - 10 }

def isOver (craft : CraftState) : Bool :=
  craft.maxProgress ≤ craft.progress || craft.durability == 0

def act (run : DryRun) (name : String) : DryRun :=
  match run.craft with
  | none => run
  | some craft =>
    let craft := actOn name craft
    { run with craft := if isOver craft then none else some craft }

/-- The name of the action that a sent text carries out, if it is such a text. -/
def sentAction? (text : String) : Option String :=
  match text.toList with
  | '/' :: 'a' :: 'c' :: ' ' :: rest =>
    -- Any number of quotes goes from both ends, whether they match or not.
    let isQuote := fun c => c == '\x22'
    let inner := (trim rest).dropWhile isQuote
    some (String.ofList (inner.reverse.dropWhile isQuote).reverse)
  | _ => none

/-- Record a sent text and let it take effect. -/
def send (run : DryRun) (text : String) : DryRun :=
  let run := run.record ("> " ++ text)
  match sentAction? text with
  | some name => run.act name
  | none => run

def setStatus (run : DryRun) (name : String) (active : Bool) : DryRun :=
  let key := lowercase name
  let others := run.statuses.filter (· != key)
  { run with statuses := if active then key :: others else others }

/-- Whether a window is there: the recipe window outside a craft, the synthesis window during one,
and any other window always. -/
def addonReady (run : DryRun) (name : String) : Bool :=
  match lowercase name with
  | "synthesis" => run.craft.isSome
  | "recipenote" => run.craft.isNone
  | _ => true

/-- The number of a recipe, made from the bytes of its name in 32-bit arithmetic. -/
def recipeId (name : String) : Nat :=
  let hash := name.toByteArray.data.toList.foldl (fun (hash : UInt32) b => hash * 31 + b.toUInt32) 0
  hash.toNat % 100000

/-- A click; the one that is called `synthesize` starts a craft. -/
def click (run : DryRun) (name : String) : DryRun :=
  let run := run.record ("[click] " ++ name)
  if equalIgnoringCase name "synthesize" then { run with craft := some freshCraft } else run

/-- The host of dry runs. It has no macros, and draws the least number. -/
def host : Host DryRun where
  answer _
    | .isReady, run => (.ok run.ready, run)
    | .send text, run => (.ok (), run.send text)
    | .printInfo text, run => (.ok (), run.record ("[info] " ++ text))
    | .printEcho text, run => (.ok (), run.record ("[echo] " ++ text))
    | .printError text, run => (.ok (), run.record ("[error] " ++ text))
    | .craftState, run => (.ok run.craft, run)
    | .characterStats, run => (.ok run.stats, run)
    | .needsRepair, run => (.ok run.needsRepair, run)
    | .spiritbondReady, run => (.ok run.spiritbondReady, run)
    | .hasStatus name, run => (.ok (run.statuses.contains (lowercase name)), run)
    | .addonReady name, run => (.ok (run.addonReady name), run)
    | .craftActions, run => (.ok craftActions, run)
    | .selectTarget name index, run =>
      (.ok true, run.record ("[target] " ++ name ++ " #" ++ Decimal.natText (index.getD 1)))
    | .useItem name quality, run =>
      (.ok true, run.record ("[item] " ++ name ++ if quality = some .high then " (hq)" else ""))
    | .findRecipe name, run => (.ok (some (recipeId name)), run)
    | .openRecipe id, run => (.ok true, run.record ("[recipe] " ++ Decimal.natText id))
    | .sendKey name, run => (.ok true, run.record ("[key] " ++ name))
    | .sendClick name, run => (.ok true, run.click name)
    | .findMacro _, run => (.ok [], run)
    | .startScript _, run => (.ok none, run)
    | .draw _, run => (.ok (0 : Nat), run)

end DryRun

end CraftLang
