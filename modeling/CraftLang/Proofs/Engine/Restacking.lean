import CraftLang.Proofs.Engine.PauseGate
import CraftLang.Proofs.Engine.Places

/-!
How frames come to the stack and leave it. A frame comes from the queue, or a command puts it on
top of its own. Frames leave from the top, one by one or all at once, and each of them is counted.
-/

namespace CraftLang

def Executed.frame? (executed : Executed) : Option Frame :=
  match executed.result with
  | .ok (.push frame) => some frame
  | _ => none

namespace Engine

variable {σ : Type}

/-- The frame that the engine puts on top of the one it works on, with its next step. -/
def nesting? (e : Engine σ) : Option Frame :=
  match e.phase with
  | .running (.done executed) _ _ => executed.frame?
  | _ => none

def placedOn (e : Engine σ) : Event σ → List Frame
  | .work branch => e.admittedOn (.work branch) ++ e.nesting?.toList
  | _ => []

def placed (e : Engine σ) : List (Event σ) → List Frame
  | [] => []
  | event :: events =>
    match e.on? event with
    | none => []
    | some e' => e.placedOn event ++ e'.placed events

theorem placed_cons {e e₁ : Engine σ} {event : Event σ} (hon : e.on? event = some e₁)
    (events : List (Event σ)) : e.placed (event :: events) = e.placedOn event ++
    e₁.placed events := by
  simp only [placed, hon]

/-- What a step does to the stack: frames stay, and only the top one can change; or the top one
goes, or all of them go; or another one comes on top. -/
inductive Restacked (e e' : Engine σ) : List Frame → Prop
  | kept (f : Frame → Frame) (hstack : e'.stack = e.stack.modifyHead f)
      (hretired : e'.retired = e.retired) : Restacked e e' []
  | popped (top : Frame) (hstack : e.stack = top :: e'.stack)
      (hretired : e'.retired = e.retired + 1) : Restacked e e' []
  | cleared (hstack : e'.stack = []) (hretired : e'.retired = e.retired + e.stack.length) :
      Restacked e e' []
  | placed (frame : Frame) (f : Frame → Frame) (hstack : e'.stack = frame :: e.stack.modifyHead f)
      (hretired : e'.retired = e.retired) : Restacked e e' [frame]

/-- No frame is lost or made up. -/
theorem Restacked.length {e e' : Engine σ} {frames : List Frame} (h : Restacked e e' frames) :
    e'.stack.length + e'.retired = e.stack.length + e.retired + frames.length := by
  cases h with
  | kept f hstack hretired => rw [hstack, hretired, List.length_modifyHead, List.length_nil]; rfl
  | popped top hstack hretired =>
      rw [hstack, hretired, List.length_cons, List.length_nil]
      omega
  | cleared hstack hretired =>
      rw [hstack, hretired, List.length_nil]
      omega
  | placed frame f hstack hretired =>
      rw [hstack, hretired, List.length_cons, List.length_modifyHead, List.length_singleton]
      omega

/-! ### Steps in a tick -/

theorem Restacked.same {e e' : Engine σ} (hstack : e'.stack = e.stack)
    (hretired : e'.retired = e.retired) : Restacked e e' [] :=
  .kept id (by rw [hstack, List.modifyHead_id, id]) hretired

@[simp] theorem rest_retired (e : Engine σ) (delay : Nat) : (e.rest delay).retired = e.retired := by
  unfold rest
  repeat' split
  all_goals rfl

@[simp] theorem updateTop_retired (e : Engine σ) (f : Frame → Frame) :
    (e.updateTop f).retired = e.retired := by
  unfold updateTop
  split <;> rfl

theorem pop_restacked (e : Engine σ) (phase : Phase) : Restacked e (e.pop.goto phase) [] := by
  unfold pop
  split
  · exact .same rfl rfl
  · next hstack => exact .popped _ hstack rfl

theorem fetch?_restacked {e e' : Engine σ} (h : e.fetch? = some e') : Restacked e e' [] := by
  unfold fetch? at h
  split at h
  · cases h
    exact .same rfl rfl
  · next frame frames hstack =>
      split at h <;> cases h
      · next next _ => exact .kept (fun _ => next) (by simp [goto, hstack]) rfl
      · exact pop_restacked e .top
      · next next _ => exact .kept (fun _ => next) (by simp [goto, report, hstack]) rfl
      · next next _ => exact .kept (fun _ => next) (by simp [hstack]) rfl

theorem start_retired (e : Engine σ) (command : Command) :
    (e.start command).retired = e.retired := by
  unfold start
  split
  · split
    all_goals next hask => exact (congrArg Engine.retired (eq_of_ask hask) :)
  · rfl

theorem perform_retired (e : Engine σ) (effect : Effect) (next : effect.Reply → Action Executed)
    (text : String) (delay : Nat) : (e.perform effect next text delay).retired = e.retired := by
  cases effect with
  | host call =>
      simp only [perform]
      split
      all_goals next hask => exact (congrArg Engine.retired (eq_of_ask hask) :)
  | knowsAction name =>
      simp only [perform]
      split
      · rfl
      · split
        all_goals next hask => exact (congrArg Engine.retired (eq_of_ask hask) :)
  | sleep ms =>
      simp only [perform]
      repeat' split
      all_goals rfl

theorem settle_restacked (e : Engine σ) (executed : Executed) (text : String) (delay : Nat) :
    Restacked e ((e.updateTop (·.setKind executed.kind)).settle executed.result text delay)
      executed.frame?.toList := by
  obtain ⟨kind, result⟩ := executed
  have htop (f : Frame → Frame) :
      ((e.updateTop (·.setKind kind)).updateTop f).stack =
        e.stack.modifyHead (f ∘ (·.setKind kind)) := by
    rw [updateTop_stack, updateTop_stack, List.modifyHead_modifyHead]
  have hkept : Restacked e (e.updateTop (·.setKind kind)) [] :=
    .kept _ (updateTop_stack e _) (updateTop_retired e _)
  cases result with
  | error error => exact .kept _ (updateTop_stack e _) (updateTop_retired e _)
  | ok outcome =>
      cases outcome with
      | pause reason | loop restart | gateComplete =>
          exact .kept _ (updateTop_stack e _) (updateTop_retired e _)
      | proceed =>
          refine .kept _ ((rest_stack _ _).trans (htop Frame.advance)) ?_
          simp only [settle, rest_retired, updateTop_retired]
      | skipped =>
          refine .kept _ (htop Frame.advance) ?_
          simp only [settle, goto, updateTop_retired]
      | push frame =>
          refine .placed frame _ ((rest_stack _ _).trans (congrArg (frame :: ·) (htop _))) ?_
          simp only [settle, rest_retired, updateTop_retired]

theorem applyLoop_restacked (e : Engine σ) (restart : Bool) (text : String) (delay : Nat) :
    Restacked e (e.applyLoop restart text delay) [] := by
  unfold applyLoop
  split
  · exact .same rfl rfl
  · split
    · split
      · exact .same rfl rfl
      · next hstack =>
          split
          · next next _ => exact .kept (fun _ => next) (by simp [goto, hstack]) rfl
          · exact .same rfl rfl
    · exact .kept _ (updateTop_stack e _) (updateTop_retired e _)

theorem applyDeferredPause_retired (e : Engine σ) (delay : Nat) :
    (e.applyDeferredPause delay).retired = e.retired := by
  unfold applyDeferredPause
  split
  · rfl
  · exact rest_retired _ _

theorem print_restacked (e : Engine σ) (call : HostCall) (after : Aftermath) :
    Restacked e (e.print call after) [] := by
  obtain ⟨world, hprinted | ⟨-, hbroken⟩⟩ := e.print_cases call after
  · rw [hprinted]
    cases after with
    | pause delay => exact .same rfl rfl
    | pop =>
        cases hstack : e.stack with
        | nil => exact .same (by simp [conclude, pop, goto, hstack]) (by simp [conclude, pop, goto])
        | cons top rest =>
            refine .popped top ?_ ?_
            all_goals simp [conclude, pop, goto, hstack]
    | clear => exact .cleared rfl rfl
  · rw [hbroken]
    exact .same rfl rfl

theorem close_retired (e : Engine σ) (delay : Option Nat) :
    (e.close delay).retired = e.retired := by
  cases delay with
  | none => rfl
  | some delay => exact rest_retired _ _

theorem tick_restacked {e e' : Engine σ} (hphase : e.phase.inTick = true)
    (hstep : e.proceed? = some e') : Restacked e e' e.nesting?.toList := by
  cases tickStep_of_inTick hphase hstep with
  | fetched hp hfetch =>
      rw [nesting?, hp]
      exact fetch?_restacked hfetch
  | started hp =>
      rw [nesting?, hp]
      exact .same (start_stack e _) (start_retired e _)
  | settled hp =>
      rw [nesting?, hp]
      exact settle_restacked e _ _ _
  | performed hp =>
      rw [nesting?, hp]
      exact .same (perform_stack e _ _ _ _) (perform_retired e _ _ _ _)
  | looped hp =>
      rw [nesting?, hp]
      exact applyLoop_restacked e _ _ _
  | applied hp =>
      rw [nesting?, hp]
      exact .same (applyDeferredPause_stack e _) (applyDeferredPause_retired e _)
  | printed hp =>
      rw [nesting?, hp]
      exact print_restacked e _ _
  | paused hp =>
      rw [nesting?, hp]
      exact .same (close_stack e _) (close_retired e _)
  | woken hp | rested hp =>
      rw [nesting?, hp]
      exact .same rfl rfl

/-! ### All steps -/

theorem nesting?_of_not_inTick {e : Engine σ} (h : e.phase.inTick = false) : e.nesting? = none := by
  unfold nesting?
  split
  · next hp => rw [hp] at h; cases h
  · rfl

/-- An engine that waits within a command has no frame to place yet. -/
theorem nesting?_of_isWaiting {e : Engine σ} (h : e.isWaiting = true) : e.nesting? = none := by
  unfold nesting?
  split
  · next hp => simp [isWaiting, hp] at h
  · rfl

theorem not_inTick_of_applying? {e : Engine σ} {branch : Branch} {request : Request}
    (h : e.applying? branch = some request) : e.phase.inTick = false := by
  cases hin : e.phase.inTick with
  | false => rfl
  | true => rw [applying?_of_inTick hin] at h; cases h

theorem Round.restacked {e e' : Engine σ} (h : Round e e') : Restacked e e' [] := by
  cases h with
  | unready | close => exact .cleared rfl rfl
  | begin | drained | request | nothing | ready | tick | empty | rest | emptied | wake =>
      exact .same rfl rfl

theorem apply_restacked (e : Engine σ) (request : Request) (queue : List Request)
    (phase : Phase) :
    Restacked e (({ e with queue }.apply request).goto phase) request.frame?.toList := by
  cases request with
  | push frame => exact .placed frame id (by rw [List.modifyHead_id]; rfl) rfl
  | clear => exact .cleared rfl rfl
  | step =>
      cases hopen : e.pause.isOpen with
      | true =>
          rw [apply_step_of_open (e := { e with queue }) hopen]
          exact .same rfl rfl
      | false =>
          rw [apply_step_of_closed (e := { e with queue }) hopen]
          exact .kept _ (updateTop_stack { e with queue } _) (updateTop_retired { e with queue } _)

/-- What every step of an engine does to the stack. -/
theorem Step.restacked {e e' : Engine σ} {branch : Branch} (h : Step e branch e') :
    Restacked e e' (e.placedOn (.work branch)) := by
  cases h with
  | tick hphase hstep =>
      rw [placedOn, admittedOn, applying?_of_inTick hphase]
      exact tick_restacked hphase hstep
  | round hround =>
      rw [placedOn, admittedOn, hround.applying?, nesting?_of_not_inTick hround.inTick]
      exact hround.restacked
  | interrupted hwait =>
      rw [placedOn, admittedOn, nesting?_of_isWaiting hwait]
      exact .same rfl rfl
  | served hphase =>
      rw [placedOn, admittedOn, nesting?_of_not_inTick (by rw [hphase]; rfl)]
      exact .same rfl rfl
  | @applied drains request queue hphase hqueue =>
      rw [placedOn, admittedOn, applying?_of_taken hphase hqueue,
        nesting?_of_not_inTick (by rw [hphase]; rfl), Option.bind_some, Option.toList_none,
        List.append_nil]
      exact apply_restacked e request queue _

end Engine

end CraftLang
