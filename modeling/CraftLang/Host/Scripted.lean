import CraftLang.Host.Basic
import CraftLang.Number.Decimal

/-!
Scripted hosts, for trying out macros under circumstances laid down in advance: windows and effects
appear after so many looks, actions take effect after so many looks, and calls can be refused or
made to fail. Every call that would be noticed outside is logged.
-/

namespace CraftLang

/-- What a scripted host does instead of carrying out a call. -/
inductive Mishap where
  | refuse
  | error
  | breakdown
  deriving DecidableEq, Repr, Inhabited

/-- A line of the log: the time, the kind of call, and its text. -/
structure LogEntry where
  time : Nat
  kind : String
  text : String
  deriving DecidableEq, Repr, Inhabited

/-- Names with the number of looks that are still to fail; a negative number fails for ever. -/
abbrev Countdowns := List (String × Int)

structure ScriptedHost where
  ready : Bool := true
  craft : Option CraftState := none
  /-- How many looks at the craft an action takes to have its effect, if it ever has one. -/
  register : Option Nat := none
  /-- The looks left for the action that was sent last. -/
  pendingAction : Option Nat := none
  stats : CharacterStats := {}
  needsRepair : Bool := false
  spiritbondReady : Bool := false
  statuses : Countdowns := []
  addons : Countdowns := []
  craftActions : List String := []
  recipes : List (String × Nat) := []
  /-- The known clicks, or all. -/
  clicks : Option (List String) := none
  /-- The calls that do not go well, by the name of what is acted on. -/
  mishaps : List (String × Mishap) := []
  library : Library := {}
  /-- What was logged, with the latest entry first. -/
  log : List LogEntry := []
  deriving Inhabited

namespace ScriptedHost

def note (host : ScriptedHost) (now : Nat) (kind text : String) : ScriptedHost :=
  { host with log := ⟨now, kind, text⟩ :: host.log }

/-- One look at something that is counted down: whether it is there, and what is left. -/
def look (whenUnknown : Bool) (name : String) : Countdowns → Bool × Countdowns
  | [] => (whenUnknown, [])
  | (known, left) :: rest =>
    if known = name then
      if left = 0 then (true, (known, left) :: rest)
      -- A negative number stays, and so this fails for ever.
      else (false, (known, if 0 < left then left - 1 else left) :: rest)
    else
      let (found, rest) := look whenUnknown name rest
      (found, (known, left) :: rest)

def isAction (text : String) : Bool :=
  ['/', 'a', 'c', ' '].isPrefixOf text.toList

/-- Send a text. An action replaces the one that was waiting to take effect. -/
def send (host : ScriptedHost) (now : Nat) (text : String) : ScriptedHost :=
  let host := host.note now "send" text
  if isAction text then { host with pendingAction := host.register } else host

/-- Look at the craft. A pending action comes one look closer to its effect, or has it. -/
def lookAtCraft (host : ScriptedHost) : Option CraftState × ScriptedHost :=
  match host.craft with
  | none => (none, host)
  | some craft =>
    match host.pendingAction with
    | none => (some craft, host)
    | some 0 =>
      let craft := { craft with step := craft.step + 1 }
      (some craft, { host with craft := some craft, pendingAction := none })
    | some (n + 1) => (some craft, { host with pendingAction := some n })

/-- Carry out a call, unless a mishap is laid down for it. -/
def attempt (host : ScriptedHost) (what : String) (success : Bool) : Except HostFailure Bool :=
  match host.mishaps.lookup what with
  | none => .ok success
  | some .refuse => .ok false
  | some .error => .error (.error (what ++ " unavailable"))
  | some .breakdown => .error (.breakdown (what ++ " unavailable"))

def qualityWord : Option ItemQuality → String
  | none => "null"
  | some .normal => "\"Normal\""
  | some .high => "\"High\""

def indexWord : Option Nat → String
  | none => "null"
  | some n => Decimal.natText n

/-- Scripted hosts as hosts. They draw the least number. -/
def host : Host ScriptedHost where
  answer now
    | .isReady, host => (.ok host.ready, host)
    | .send text, host => (.ok (), host.send now text)
    | .printInfo text, host => (.ok (), host.note now "info" text)
    | .printEcho text, host => (.ok (), host.note now "echo" text)
    | .printError text, host => (.ok (), host.note now "error" text)
    | .craftState, host =>
      let (craft, host) := host.lookAtCraft
      (.ok craft, host)
    | .characterStats, host => (.ok host.stats, host)
    | .needsRepair, host => (.ok host.needsRepair, host)
    | .spiritbondReady, host => (.ok host.spiritbondReady, host)
    | .hasStatus name, host =>
      let (found, statuses) := look false name host.statuses
      (.ok found, { host with statuses }.note now "status?" name)
    | .addonReady name, host =>
      let (found, addons) := look true name host.addons
      (.ok found, { host with addons }.note now "addon?" name)
    | .craftActions, host => (.ok host.craftActions, host.note now "catalog" "")
    | .selectTarget name index, host =>
      let host := host.note now "target" (name ++ "|" ++ indexWord index)
      (host.attempt "target" true, host)
    | .useItem name quality, host =>
      let host := host.note now "item" (name ++ "|" ++ qualityWord quality)
      (host.attempt "item" true, host)
    | .findRecipe name, host => (.ok (host.recipes.lookup name), host.note now "recipe?" name)
    | .openRecipe id, host =>
      let host := host.note now "recipe" (Decimal.natText id)
      (host.attempt "recipe" true, host)
    | .sendKey name, host =>
      let host := host.note now "key" name
      (host.attempt "key" true, host)
    | .sendClick name, host =>
      let host := host.note now "click" name
      (host.attempt "click" (host.clicks.all (·.contains name)), host)
    | .findMacro name, host =>
      ((host.attempt "registry" true).map fun _ => host.library.macros.find name, host)
    | .startScript stored, host => (host.library.start stored, host)
    | .draw _, host => (.ok (0 : Nat), host)

end ScriptedHost

end CraftLang
