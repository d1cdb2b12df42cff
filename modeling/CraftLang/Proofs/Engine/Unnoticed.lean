import CraftLang.Proofs.Engine.FailedTick
import CraftLang.Proofs.Frame.Life

/-!
Changes that a tick does not notice. Such a change leaves alone what the tick looks at, and it comes
to the same before and after the changes that the tick makes. Then a step of the tick is the same
with the change and without it. A change of the pause gate is one up to the point where the tick
closes the gate itself; a change of what is deferred is one up to the look at it.
-/

namespace CraftLang

namespace Engine

variable {σ : Type} {f : Engine σ → Engine σ} {e : Engine σ}

/-- The change `f` leaves alone what a tick looks at, and it comes to the same before and after what
a tick does. -/
structure Unnoticed (f : Engine σ → Engine σ) : Prop where
  phase (e : Engine σ) : (f e).phase = e.phase
  stack (e : Engine σ) : (f e).stack = e.stack
  cancel (e : Engine σ) : (f e).cancel = e.cancel
  catalog (e : Engine σ) : (f e).catalog = e.catalog
  settings (e : Engine σ) : (f e).settings = e.settings
  now (e : Engine σ) : (f e).now = e.now
  goto (e : Engine σ) (phase : Phase) : (f e).goto phase = f (e.goto phase)
  ask (e : Engine σ) (call : HostCall) : (f e).ask call = ((e.ask call).1, f (e.ask call).2)
  learn (e : Engine σ) (catalog : Catalog) : { f e with catalog } = f { e with catalog }
  restack (e : Engine σ) (stack : List Frame) (gone : Nat) :
    { f e with stack, retired := (f e).retired + gone } =
      f { e with stack, retired := e.retired + gone }

/-- A change that leaves it to others to close the pause gate. -/
def ClosesAlike (f : Engine σ → Engine σ) : Prop :=
  ∀ e, { f e with pause := .closed } = f { e with pause := .closed }

namespace Unnoticed

theorem setStack (h : Unnoticed f) (e : Engine σ) (stack : List Frame) :
    { f e with stack } = f { e with stack } :=
  h.restack e stack 0

theorem updateTop (h : Unnoticed f) (e : Engine σ) (change : Frame → Frame) :
    (f e).updateTop change = f (e.updateTop change) := by
  simp only [Engine.updateTop, h.stack]
  split
  · rfl
  · exact h.setStack _ _

theorem pop (h : Unnoticed f) (e : Engine σ) : (f e).pop = f e.pop := by
  simp only [Engine.pop, h.stack]
  split
  · rfl
  · exact h.restack _ _ 1

theorem clear (h : Unnoticed f) (e : Engine σ) : (f e).clear = f e.clear := by
  simp only [Engine.clear, h.stack]
  exact h.restack _ _ _

theorem giveUp (h : Unnoticed f) (e : Engine σ) : (f e).giveUp = f e.giveUp := by
  simp only [Engine.giveUp, h.goto]

theorem report (h : Unnoticed f) (e : Engine σ) (error : CommandError) (text : String) :
    (f e).report error text = f (e.report error text) := by
  simp only [Engine.report, reportCall, h.stack, h.goto]

theorem print (h : Unnoticed f) (e : Engine σ) (call : HostCall) (after : Aftermath) :
    (f e).print call after = f (e.print call after) := by
  simp only [Engine.print, h.ask]
  rcases e.ask call with ⟨failure | reply, e₁⟩
  · exact h.goto _ _
  · cases after with
    | pause delay => exact h.goto _ _
    | pop => simp only [conclude, h.pop, h.goto]
    | clear => simp only [conclude, h.clear, h.goto]

theorem rest (h : Unnoticed f) (e : Engine σ) (delay : Nat) :
    (f e).rest delay = f (e.rest delay) := by
  simp only [Engine.rest, h.cancel, h.now, h.goto]
  repeat' split
  all_goals rfl

theorem start (h : Unnoticed f) (e : Engine σ) (command : Command) :
    (f e).start command = f (e.start command) := by
  simp only [Engine.start, h.settings, h.ask]
  split
  · rcases e.ask (.draw command.modifiers.wait.width) with ⟨failure | drawn, e₁⟩
    · exact h.goto _ _
    · exact h.goto _ _
  · exact h.goto _ _

theorem close (h : Unnoticed f) (hclose : ClosesAlike f) (e : Engine σ) (delay : Option Nat) :
    (f e).close delay = f (e.close delay) := by
  unfold Engine.close
  rw [hclose e]
  cases delay with
  | none => exact h.goto _ _
  | some delay => exact h.rest _ _

theorem perform (h : Unnoticed f) (e : Engine σ) (effect : Effect)
    (next : effect.Reply → Action Executed) (text : String) (delay : Nat) :
    (f e).perform effect next text delay = f (e.perform effect next text delay) := by
  cases effect with
  | host call =>
      simp only [Engine.perform, h.ask]
      rcases e.ask call with ⟨failure | reply, e₁⟩
      · exact h.giveUp _
      · exact h.goto _ _
  | knowsAction name =>
      simp only [Engine.perform, h.catalog, h.ask]
      split
      · exact h.goto _ _
      · rcases e.ask .craftActions with ⟨failure | names, e₁⟩
        · exact h.giveUp _
        · simp only [h.learn, h.goto]
  | sleep ms =>
      simp only [Engine.perform, h.cancel, h.now, h.goto]
      repeat' split
      all_goals rfl

theorem settle (h : Unnoticed f) (e : Engine σ) (result : Except CommandError Outcome)
    (text : String) (delay : Nat) :
    (f e).settle result text delay = f (e.settle result text delay) := by
  cases result with
  | error error => simp only [Engine.settle, h.report]
  | ok outcome =>
      cases outcome with
      | proceed => simp only [Engine.settle, h.updateTop, h.rest]
      | skipped => simp only [Engine.settle, h.updateTop, h.goto]
      | loop | pause | gateComplete => exact h.goto _ _
      | push frame => simp only [Engine.settle, h.updateTop, h.stack, h.setStack, h.rest]

theorem fetch? (h : Unnoticed f) (e : Engine σ) : (f e).fetch? = e.fetch?.map f := by
  simp only [Engine.fetch?, h.stack]
  split
  · exact congrArg some (h.goto _ _)
  · next frame frames hstack =>
      rcases hlook : frame.fetchStep with ⟨fetched, frame'⟩
      cases fetched with
      | command command => simp only [h.setStack, h.goto, Option.map_some]
      | finished => simp only [h.pop, h.goto, Option.map_some]
      | failed error => simp only [h.setStack, h.report, Option.map_some]
      | again => simp only [h.setStack, Option.map_some]
      | waiting => rfl

theorem applyLoop (h : Unnoticed f) (restart : Bool) (text : String) (delay : Nat)
    (hstop : (f e).stopAtLoop = e.stopAtLoop)
    (hclear : { f e with stopAtLoop := false } = f { e with stopAtLoop := false }) :
    (f e).applyLoop restart text delay = f (e.applyLoop restart text delay) := by
  by_cases hstops : e.stopAtLoop = true
  · rw [Engine.applyLoop, if_pos (hstop.trans hstops), Engine.applyLoop, if_pos hstops, hclear,
      h.goto]
  · rw [Engine.applyLoop, if_neg (hstop ▸ hstops), Engine.applyLoop, if_neg hstops]
    split
    · rw [h.stack e]
      split
      · exact h.goto _ _
      · next frame frames _ =>
          cases frame.restart with
          | ok frame =>
              show Engine.goto { f e with stack := frame :: frames } _ = _
              rw [h.setStack, h.goto]
          | error error => exact h.report _ _ _
    · rw [h.updateTop, h.goto]

theorem applyDeferredPause (h : Unnoticed f) (delay : Nat)
    (hpause : (f e).pauseAtLoop = e.pauseAtLoop)
    (hclear : { f e with pauseAtLoop := false } = f { e with pauseAtLoop := false }) :
    (f e).applyDeferredPause delay = f (e.applyDeferredPause delay) := by
  by_cases hpauses : e.pauseAtLoop = true
  · rw [Engine.applyDeferredPause, if_pos (hpause.trans hpauses), Engine.applyDeferredPause,
      if_pos hpauses, hclear, h.goto]
  · rw [Engine.applyDeferredPause, if_neg (hpause ▸ hpauses), Engine.applyDeferredPause,
      if_neg hpauses, h.rest]

/-- A step of a tick is the same with the change, if this is so for the effect of a loop, for the
look at a deferred pause and where the tick closes the gate. -/
theorem tick (h : Unnoticed f) (hphase : e.phase.inTick = true)
    (hloop : ∀ restart text delay, e.phase = .looped restart text delay →
      (f e).applyLoop restart text delay = f (e.applyLoop restart text delay))
    (hpause : ∀ delay, e.phase = .loopApplied delay →
      (f e).applyDeferredPause delay = f (e.applyDeferredPause delay))
    (hclose : ∀ delay, e.phase = .pausing delay → (f e).close delay = f (e.close delay)) :
    (f e).proceed? = e.proceed?.map f := by
  cases hp : e.phase with
  | top | draining | taken | checkingReady | checkingPause | emptied | blocked | closing | stopped
  | broken =>
      rw [hp] at hphase
      cases hphase
  | fetching =>
      simp only [proceed?, h.phase, hp]
      exact h.fetch? e
  | drawing command => simp only [proceed?, h.phase, hp, h.start, Option.map_some]
  | running program text delay =>
      cases program with
      | done executed => simp only [proceed?, h.phase, hp, h.updateTop, h.settle, Option.map_some]
      | call effect next => simp only [proceed?, h.phase, hp, h.perform, Option.map_some]
  | suspended wakeAt program text delay =>
      simp only [proceed?, h.phase, h.now, hp, h.goto]
      split <;> rfl
  | looped restart text delay =>
      simp only [proceed?, h.phase, hp, hloop restart text delay hp, Option.map_some]
  | loopApplied delay =>
      simp only [proceed?, h.phase, hp, hpause delay hp, Option.map_some]
  | printing call after => simp only [proceed?, h.phase, hp, h.print, Option.map_some]
  | pausing delay => simp only [proceed?, h.phase, hp, hclose delay hp, Option.map_some]
  | resting wakeAt =>
      simp only [proceed?, h.phase, h.now, hp, h.goto]
      split <;> rfl

/-- A request does the same to an engine with the change, if a frame that opens the gate does. -/
theorem apply (h : Unnoticed f) (hpause : (f e).pause = e.pause)
    (hopen : ∀ frame, { f e with stack := frame :: e.stack, pause := .opened } =
      f { e with stack := frame :: e.stack, pause := .opened }) (request : Request) :
    (f e).apply request = f (e.apply request) := by
  cases request with
  | push frame =>
      simp only [Engine.apply, h.stack]
      exact hopen frame
  | clear => exact h.clear e
  | step =>
      simp only [Engine.apply, hpause, h.updateTop]
      split <;> rfl

end Unnoticed

end Engine

end CraftLang
