import CraftLang.Source.CraftLoop

/-!
Settings of the engine: how long it waits for the game, how often it looks, and what a craft loop
is made of. Times are in milliseconds.
-/

namespace CraftLang

structure Settings where
  /-- The longest wait for a window. -/
  addonMaxWaitMs : Nat := 5000
  addonPollMs : Nat := 500
  /-- The longest wait for a status effect. -/
  statusMaxWaitMs : Nat := 1000
  statusPollMs : Nat := 250
  /-- The longest wait until an action shows its effect. -/
  actionMaxWaitMs : Nat := 5000
  actionPollMs : Nat := 100
  /-- The longest wait for quality and stats; zero looks once. -/
  statMaxWaitMs : Nat := 0
  statPollMs : Nat := 250
  /-- Whether an action without effect is an error. -/
  stopOnActionTimeout : Bool := true
  craftLoop : CraftLoopConfig := {}
  deriving DecidableEq, Repr, Inhabited

end CraftLang
