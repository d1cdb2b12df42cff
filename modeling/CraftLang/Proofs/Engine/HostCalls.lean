import CraftLang.Proofs.Command.Outcomes
import CraftLang.Proofs.Engine.Work

/-!
What an engine asks of its host. With each step it makes a few calls, and the state of the host
after the step is what these calls make of it.
-/

namespace CraftLang

namespace Engine

variable {σ : Type}

def effectCalls (e : Engine σ) : Effect → List HostCall
  | .host call => [call]
  | .knowsAction _ => if e.catalog.isLoaded then [] else [.craftActions]
  | .sleep _ => []

/-- The call that draws the delay of a command, if it is drawn from a range. -/
def startCalls (command : Command) : List HostCall :=
  if command.modifiers.wait.isRange then [.draw command.modifiers.wait.width] else []

def hostCalls (e : Engine σ) : List HostCall :=
  match e.phase with
  | .drawing command => startCalls command
  | .running (.call effect _) _ _ => e.effectCalls effect
  | .printing call _ => [call]
  | _ => []

def worldAfter (e : Engine σ) (calls : List HostCall) : σ :=
  calls.foldl (fun world call => (e.host.answer e.now call world).2) e.world

/-! ### The calls are all that happens to the host -/

theorem updateTop_world (e : Engine σ) (f : Frame → Frame) : (e.updateTop f).world = e.world := by
  unfold updateTop
  split <;> rfl

theorem pop_world (e : Engine σ) : e.pop.world = e.world := by
  unfold pop
  split <;> rfl

theorem rest_world (e : Engine σ) (delay : Nat) : (e.rest delay).world = e.world := by
  unfold rest
  repeat' split
  all_goals rfl

theorem world_of_ask {e e₁ : Engine σ} {call : HostCall} {reply : Except HostFailure call.Reply}
    (h : e.ask call = (reply, e₁)) : e₁.world = e.worldAfter [call] := by
  have hnext : (e.ask call).2 = e₁ := by rw [h]
  rw [← hnext]
  rfl

theorem start_world (e : Engine σ) (command : Command) :
    (e.start command).world = e.worldAfter (startCalls command) := by
  by_cases hrange : command.modifiers.wait.isRange = true
  · simp only [start, startCalls, hrange, if_true]
    split
    all_goals next hask => exact (world_of_ask hask :)
  · simp only [start, startCalls, hrange, if_false, Bool.false_eq_true]
    rfl

theorem perform_world (e : Engine σ) (effect : Effect)
    (next : effect.Reply → Action Executed) (text : String) (delay : Nat) :
    (e.perform effect next text delay).world = e.worldAfter (e.effectCalls effect) := by
  cases effect with
  | host call =>
      simp only [perform, effectCalls]
      split
      all_goals next hask => exact (world_of_ask hask :)
  | knowsAction name =>
      simp only [perform, effectCalls]
      split
      · rfl
      · split
        all_goals next hask => exact (world_of_ask hask :)
  | sleep ms =>
      simp only [perform, effectCalls]
      repeat' split
      all_goals rfl

theorem conclude_world (e : Engine σ) (after : Aftermath) : (e.conclude after).world = e.world := by
  cases after with
  | pause delay => rfl
  | pop => exact pop_world e
  | clear => rfl

theorem print_world (e : Engine σ) (call : HostCall) (after : Aftermath) :
    (e.print call after).world = e.worldAfter [call] := by
  unfold print
  split
  · next hask => exact (conclude_world _ _).trans (world_of_ask hask)
  · next hask => exact (world_of_ask hask :)

/-- The host has got the message, and the engine goes on or is gone. -/
theorem print_worldAfter (e : Engine σ) (call : HostCall) (after : Aftermath) :
    e.print call after = { e with world := e.worldAfter [call] }.conclude after ∨
      (e.ask call).1.toOption = none ∧
        e.print call after = { e with world := e.worldAfter [call], phase := .broken } := by
  have hworld := e.print_world call after
  obtain ⟨world, hprinted | ⟨hfails, hbroken⟩⟩ := e.print_cases call after
  · rw [hprinted, conclude_world] at hworld
    rw [← hworld]
    exact .inl hprinted
  · rw [hbroken] at hworld
    rw [← hworld]
    exact .inr ⟨hfails, hbroken⟩

theorem close_world (e : Engine σ) (delay : Option Nat) : (e.close delay).world = e.world := by
  cases delay with
  | none => rfl
  | some delay => exact rest_world _ _

theorem settle_world (e : Engine σ) (result : Except CommandError Outcome) (text : String)
    (delay : Nat) : (e.settle result text delay).world = e.world := by
  cases result with
  | error error => rfl
  | ok outcome =>
      cases outcome with
      | proceed | push frame => exact (rest_world _ _).trans (updateTop_world _ _)
      | skipped => exact updateTop_world _ _
      | loop restart | pause reason | gateComplete => rfl

theorem applyLoop_world (e : Engine σ) (restart : Bool) (text : String) (delay : Nat) :
    (e.applyLoop restart text delay).world = e.world := by
  unfold applyLoop
  repeat' split
  all_goals first | rfl | exact updateTop_world _ _

theorem applyDeferredPause_world (e : Engine σ) (delay : Nat) :
    (e.applyDeferredPause delay).world = e.world := by
  unfold applyDeferredPause
  split
  · rfl
  · exact rest_world _ _

theorem fetch?_world {e e' : Engine σ} (h : e.fetch? = some e') : e'.world = e.world := by
  unfold fetch? at h
  repeat' split at h
  all_goals cases h
  all_goals first | rfl | exact pop_world e

theorem apply_world (e : Engine σ) (request : Request) : (e.apply request).world = e.world := by
  cases request with
  | push frame => rfl
  | clear => rfl
  | step =>
      cases hopen : e.pause.isOpen with
      | true => rw [apply_step_of_open hopen]
      | false => rw [apply_step_of_closed hopen, updateTop_world]

theorem Round.world {e e' : Engine σ} (h : Round e e') :
    e'.world = e.world ∧ e.hostCalls = [] := by
  cases h with
  | begin hphase | drained hphase | request hphase | nothing hphase | ready hphase | unready hphase
  | tick hphase | empty hphase | rest hphase | emptied hphase | wake hphase | close hphase =>
      exact ⟨rfl, by rw [hostCalls, hphase]⟩

theorem tick_world {e e' : Engine σ} (hphase : e.phase.inTick = true)
    (hstep : e.proceed? = some e') : e'.world = e.worldAfter e.hostCalls := by
  unfold hostCalls
  cases tickStep_of_inTick hphase hstep with
  | fetched hp hfetch =>
      rw [hp]
      exact fetch?_world hfetch
  | started hp =>
      rw [hp]
      exact start_world e _
  | settled hp =>
      rw [hp]
      exact (settle_world _ _ _ _).trans (updateTop_world _ _)
  | performed hp =>
      rw [hp]
      exact perform_world e _ _ _ _
  | looped hp =>
      rw [hp]
      exact applyLoop_world e _ _ _
  | applied hp =>
      rw [hp]
      exact applyDeferredPause_world e _
  | printed hp =>
      rw [hp]
      exact print_world e _ _
  | paused hp =>
      rw [hp]
      exact close_world e _
  | woken hp | rested hp =>
      rw [hp]
      rfl

/-- The calls that an engine makes with a step along one of its ways. -/
def callsOf (e : Engine σ) : Branch → List HostCall
  | .proceed => e.hostCalls
  | .interrupt | .serve => []

/-- What an engine does, the host sees in the form of its calls only. -/
theorem take?_world {e e' : Engine σ} {branch : Branch} (h : e.take? branch = some e') :
    e'.world = e.worldAfter (e.callsOf branch) := by
  cases step_of_take? h with
  | tick hphase hstep => exact tick_world hphase hstep
  | round hround =>
      rw [callsOf, hround.world.2]
      exact hround.world.1
  | interrupted | served => rfl
  | applied hphase =>
      have hcalls : e.callsOf .proceed = [] := by rw [callsOf, hostCalls, hphase]
      rw [hcalls]
      exact apply_world { e with queue := _ } _

end Engine

end CraftLang
