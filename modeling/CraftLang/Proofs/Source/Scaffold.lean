import CraftLang.Proofs.Source.Lines
import CraftLang.Source.CraftLoop

/-!
The built-in scaffold of a craft loop, read as commands. Each of its lines is a statement with at
most one modifier after it, so that the scaffold gives the same commands around every body.
-/

namespace CraftLang

open Text Modifier

namespace CraftLoop

open Source

/-! ### The lines of the scaffold -/

def waitLimit (maxWait : Option Nat) : Option Nat :=
  (maxWait.filter (0 < ·)).map fun seconds =>
    millisOfSeconds (Decimal.valueOf (Decimal.ofNat seconds) [])

def windowText (window : String) : List Char :=
  "/waitaddon \"".toList ++ window.toList ++ ['\x22']

def windowCommand (maxWait : Option Nat) (window : String) : Command :=
  { text := String.ofList (windowText window ++ waitModifier maxWait)
    modifiers := { maxWaitMs := waitLimit maxWait }
    kind := .waitAddon window }

def clickCommand : Command :=
  { text := String.ofList "/click \"synthesize\"".toList
    modifiers := {}
    kind := .click "synthesize" }

def openCommands (maxWait : Option Nat) : List Command :=
  [windowCommand maxWait "RecipeNote", clickCommand, windowCommand maxWait "Synthesis"]

def gateCommand (count : Nat) (echo : Bool) : Command :=
  { text := String.ofList (gateLine count echo)
    modifiers := { echo }
    kind := .gate (.ofCount count) }

def loopCommand (echo : Bool) : Command :=
  { text := String.ofList (loopLine echo)
    modifiers := { echo }
    kind := .loop (.ofCount none) }

theorem commandsOf?_waitModifier {front : List Char} {window : String} (maxWait : Option Nat)
    (hbare : Bare front) (hread : Statement.read front = .ok (.waitAddon window)) :
    commandsOf? (front ++ waitModifier maxWait) =
      some [{ text := String.ofList (front ++ waitModifier maxWait)
              modifiers := { maxWaitMs := waitLimit maxWait }
              kind := .waitAddon window }] := by
  have hunlimited (maxWait : Option Nat) (hnone : waitModifier maxWait = [])
      (hlimit : waitLimit maxWait = none) :
      commandsOf? (front ++ waitModifier maxWait) =
        some [{ text := String.ofList (front ++ waitModifier maxWait)
                modifiers := { maxWaitMs := waitLimit maxWait }
                kind := .waitAddon window }] := by
    rw [hnone, hlimit, List.append_nil]
    exact hbare.commandsOf? hread rfl
  match maxWait with
  | none => exact hunlimited none rfl rfl
  | some 0 => exact hunlimited (some 0) rfl rfl
  | some (n + 1) =>
      exact hbare.commandsOf?_append hread (not_mem_maxWaitEnd (n + 1) (by decide) (by decide))
        (not_mem_maxWaitEnd (n + 1) (by decide) (by decide)) (token?_maxWaitEnd (n + 1))
        (fun _ hother => token?_maxWaitEnd_of_ne (n + 1) hother) (apply_maxWait (n + 1))
        (fun _ => rfl)

theorem commandsOf?_echoModifier {front : List Char} {statement : Statement}
    {kind : CommandKind} (echo : Bool) (hbare : Bare front)
    (hread : Statement.read front = .ok statement)
    (hcommand : ∀ text modifiers line,
      Source.command text modifiers line statement = .ok ⟨text, modifiers, kind⟩) :
    commandsOf? (front ++ echoModifier echo) =
      some [{ text := String.ofList (front ++ echoModifier echo)
              modifiers := { echo }
              kind }] := by
  cases echo with
  | false =>
      have hnone : echoModifier false = [] := rfl
      rw [hnone, List.append_nil]
      exact hbare.commandsOf? hread (hcommand _ _ _)
  | true =>
      have hmark : echoModifier true = ' ' :: '<' :: (['e', 'c', 'h', 'o'] ++ ['>']) := by rfl
      have htoken : token? .echo ('<' :: (['e', 'c', 'h', 'o'] ++ ['>'])) = some (.echo, []) :=
        by rfl
      rw [hmark]
      refine hbare.commandsOf?_append hread (by decide) (by decide) htoken
        (fun other hother => ?_) rfl fun line => hcommand _ _ line
      cases other <;> first | rfl | exact absurd rfl hother

theorem bare_loop : Bare "/loop".toList :=
  ⟨⟨'l', ['o', 'o', 'p'], rfl, by decide⟩, ⟨['/', 'l', 'o', 'o'], 'p', rfl, by decide⟩,
    by decide, by decide, by decide⟩

theorem bare_recipeNote : Bare "/waitaddon \"RecipeNote\"".toList :=
  ⟨⟨'w', _, rfl, by decide⟩, ⟨"/waitaddon \"RecipeNote".toList, '\x22', rfl, by decide⟩,
    by decide, by decide, by decide⟩

theorem bare_synthesis : Bare "/waitaddon \"Synthesis\"".toList :=
  ⟨⟨'w', _, rfl, by decide⟩, ⟨"/waitaddon \"Synthesis".toList, '\x22', rfl, by decide⟩,
    by decide, by decide, by decide⟩

theorem commandsOf?_loopLine (echo : Bool) :
    commandsOf? (loopLine echo) = some [loopCommand echo] :=
  commandsOf?_echoModifier echo bare_loop rfl fun _ _ _ => rfl

theorem collect?_openCraft (maxWait : Option Nat) :
    collect? commandsOf? (openCraft maxWait) = some (openCommands maxWait) := by
  have hrecipe : Statement.read "/waitaddon \"RecipeNote\"".toList =
      .ok (.waitAddon "RecipeNote") := by rfl
  have hsynthesis : Statement.read "/waitaddon \"Synthesis\"".toList =
      .ok (.waitAddon "Synthesis") := by rfl
  have hclick : commandsOf? "/click \"synthesize\"".toList = some [clickCommand] := by rfl
  show collect? commandsOf? ["/waitaddon \"RecipeNote\"".toList ++ waitModifier maxWait,
    "/click \"synthesize\"".toList, "/waitaddon \"Synthesis\"".toList ++ waitModifier maxWait] = _
  rw [collect?_cons, collect?_cons, collect?_singleton, hclick,
    commandsOf?_waitModifier maxWait bare_recipeNote hrecipe,
    commandsOf?_waitModifier maxWait bare_synthesis hsynthesis]
  rfl

theorem commandsOf?_gateLine {count : Nat} (h : count < Grammar.countLimit) (echo : Bool) :
    commandsOf? (gateLine count echo) = some [gateCommand count echo] :=
  commandsOf?_echoModifier echo (bare_gate count) (read_gate h) fun _ _ _ => rfl

/-! ### The body in the scaffold -/

/-- The commands of the built-in scaffold around those of a body. -/
def surround (config : CraftLoopConfig) (body : List Command) : Repeat → List Command
  | .skip => body
  | .times n =>
    if config.fromRecipeNote then
      if n = 1 then openCommands config.maxWait ++ body
      else
        gateCommand (n - 1) config.echo :: openCommands config.maxWait ++ body ++
          [loopCommand config.echo]
    else if n = 1 then body
    else
      body ++ gateCommand (n - 2) config.echo :: openCommands config.maxWait ++
        [loopCommand config.echo]
  | .forever =>
    if config.fromRecipeNote then
      openCommands config.maxWait ++ body ++ [loopCommand config.echo]
    else body ++ openCommands config.maxWait ++ [loopCommand config.echo]

theorem mem_scaffold (config : CraftLoopConfig) (body : List Char) (times : Repeat) :
    body ∈ scaffold config body times := by
  cases times with
  | skip => exact List.mem_singleton_self body
  | times n => simp only [scaffold]; (repeat' split) <;> simp
  | forever => simp only [scaffold]; split <;> simp

/-- The scaffold around a body that is no source is no source either; around one that is, it adds
its own commands. The counts of its gates stay below the bound on counts. -/
theorem commandsOf?_scaffold (config : CraftLoopConfig) (body : List Char) {times : Repeat}
    (h : ∀ n, times = .times n → n ≤ Grammar.countLimit) :
    commandsOf? (joinWith ['\n'] (scaffold config body times)) =
      (commandsOf? body).map (surround config · times) := by
  have hmem := mem_scaffold config body times
  rw [commandsOf?_joinWith (List.ne_nil_of_mem hmem)]
  cases hbody : commandsOf? body with
  | none => exact collect?_eq_none hmem hbody
  | some commands =>
      have hopen := collect?_openCraft config.maxWait
      have hloop := commandsOf?_loopLine config.echo
      cases times with
      | skip => simp [scaffold, surround, collect?_cons, hbody]
      | times n =>
          have hpos : 0 < Grammar.countLimit := by decide
          have hbound : n ≤ Grammar.countLimit := h n rfl
          have hgate (count : Nat) (hcount : count < Grammar.countLimit) :
              commandsOf? (gateLine count config.echo) = some [gateCommand count config.echo] :=
            commandsOf?_gateLine hcount config.echo
          have hfirst := hgate (n - 1) (by omega)
          have hsecond := hgate (n - 2) (by omega)
          simp only [scaffold, surround]
          split <;> split <;>
            simp [collect?_cons, collect?_append, hbody, hopen, hloop, hfirst, hsecond]
      | forever =>
          simp only [scaffold, surround]
          split <;> simp [collect?_cons, collect?_append, hbody, hopen, hloop]

end CraftLoop

end CraftLang
