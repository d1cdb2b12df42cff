import CraftLang.Proofs.Command.Outcomes
import CraftLang.Proofs.Engine.Callers
import CraftLang.Proofs.Engine.Work

/-!
What an engine in a tick is at. From the moment a command is found until its result is known, the
command stays at the program counter of the top frame, whatever callers do meanwhile.
-/

namespace CraftLang

namespace Engine

variable {σ : Type}

def current? (e : Engine σ) : Option Command :=
  e.stack.head?.bind fun frame => frame.commands[frame.index]?

/-- What is carried out comes from the command at the program counter, and what is printed then is
printed. -/
def AtWork (e : Engine σ) : Prop :=
  match e.phase with
  | .drawing command => e.current? = some command
  | .running program text _ | .suspended _ program text _ =>
    ∃ command, e.current? = some command ∧ command.text = text ∧
      (command.execute e.settings).Leads program
  | .looped restart _ _ =>
    ∃ (command : Command) (kind : CommandKind), e.current? = some { command with kind } ∧
      (command.execute e.settings).Leads (.done ⟨kind, .ok (.loop restart)⟩)
  | .printing call _ => call.isPrint = true
  | _ => True

/-- What is pending in the sources of frames does not matter. -/
theorem current?_congr {e e' : Engine σ}
    (h : e'.stack.map Frame.unfed = e.stack.map Frame.unfed) : e'.current? = e.current? := by
  have hunfed (e : Engine σ) :
      e.current? = (e.stack.map Frame.unfed).head?.bind
        fun frame => frame.commands[frame.index]? := by
    unfold current?
    cases e.stack <;> simp
  rw [hunfed, hunfed e, h]

theorem LeavesWork.atWork {e e' : Engine σ} (h : LeavesWork e e') (he : e.AtWork) :
    e'.AtWork := by
  unfold AtWork at he ⊢
  rw [h.phase, h.settings, current?_congr h.stack]
  exact he

/-! ### Steps -/

theorem fetch?_atWork {e e' : Engine σ} (hphase : e.phase = .fetching)
    (h : e.fetch? = some e') : e'.AtWork := by
  unfold fetch? at h
  split at h
  · cases h
    trivial
  · next frame frames hstack =>
      split at h <;> cases h
      · next command frame' hfetch =>
          obtain ⟨rfl, hcommand⟩ := Frame.fetchStep_eq_command hfetch
          exact hcommand
      · trivial
      · trivial
      · show AtWork { e with stack := _ }
        simp only [AtWork, hphase]

theorem start_atWork {e : Engine σ} {command : Command} (h : e.current? = some command) :
    (e.start command).AtWork := by
  unfold start
  split
  · split
    · next hask =>
        rw [eq_of_ask hask]
        exact ⟨command, h, rfl, .refl⟩
    · trivial
  · exact ⟨command, h, rfl, .refl⟩

theorem perform_atWork {e : Engine σ} {effect : Effect} {next : effect.Reply → Action Executed}
    {command : Command} (hcurrent : e.current? = some command)
    (hleads : (command.execute e.settings).Leads (.call effect next)) (delay : Nat) :
    (e.perform effect next command.text delay).AtWork := by
  cases effect with
  | host call =>
      simp only [perform]
      split
      · next hask =>
          rw [eq_of_ask hask]
          exact ⟨command, hcurrent, rfl, hleads.call _⟩
      · trivial
  | knowsAction name =>
      simp only [perform]
      split
      · exact ⟨command, hcurrent, rfl, hleads.call _⟩
      · split
        · next hask =>
            rw [eq_of_ask hask]
            exact ⟨command, hcurrent, rfl, hleads.call _⟩
        · trivial
  | sleep ms =>
      simp only [perform]
      split
      · trivial
      · split
        · exact ⟨command, hcurrent, rfl, hleads.call _⟩
        · exact ⟨command, hcurrent, rfl, hleads.call _⟩

theorem rest_atWork (e : Engine σ) (delay : Nat) : (e.rest delay).AtWork := by
  unfold rest
  repeat' split
  all_goals trivial

theorem settle_atWork {e : Engine σ} {command : Command} {executed : Executed}
    (hcurrent : e.current? = some command)
    (hleads : (command.execute e.settings).Leads (.done executed)) (text : String) (delay : Nat) :
    ((e.updateTop (·.setKind executed.kind)).settle executed.result text delay).AtWork := by
  obtain ⟨kind, result⟩ := executed
  cases result with
  | error error => trivial
  | ok outcome =>
      cases outcome with
      | proceed | push frame => exact rest_atWork _ _
      | skipped | gateComplete => trivial
      | pause reason => exact HostCall.notice_isPrint _ _
      | loop restart =>
          refine ⟨command, kind, ?_, ?_⟩
          · unfold updateTop settle goto current?
            cases hstack : e.stack with
            | nil => simp [current?, hstack] at hcurrent
            | cons frame frames =>
                have hframe : frame.commands[frame.index]? = some command := by
                  simpa [current?, hstack] using hcurrent
                exact Frame.setKind_getElem? hframe kind
          · unfold updateTop
            split
            all_goals exact hleads

theorem tick_atWork {e e' : Engine σ} (h : e.AtWork) (hphase : e.phase.inTick = true)
    (hstep : e.proceed? = some e') : e'.AtWork := by
  cases tickStep_of_inTick hphase hstep with
  | fetched hp hfetch => exact fetch?_atWork hp hfetch
  | started hp =>
      simp only [AtWork, hp] at h
      exact start_atWork h
  | settled hp =>
      simp only [AtWork, hp] at h
      obtain ⟨command, hcurrent, rfl, hleads⟩ := h
      exact settle_atWork hcurrent hleads _ _
  | performed hp =>
      simp only [AtWork, hp] at h
      obtain ⟨command, hcurrent, rfl, hleads⟩ := h
      exact perform_atWork hcurrent hleads _
  | woken hp =>
      simp only [AtWork, hp] at h
      exact h
  | looped =>
      unfold applyLoop
      repeat' split
      all_goals trivial
  | applied =>
      unfold applyDeferredPause
      split
      · trivial
      · exact rest_atWork _ _
  | @printed call after =>
      obtain ⟨world, hprinted | ⟨-, hbroken⟩⟩ := e.print_cases call after
      · rw [hprinted]
        cases after <;> trivial
      · rw [hbroken]
        trivial
  | @paused delay =>
      cases delay with
      | none => trivial
      | some delay => exact rest_atWork _ _
  | rested => trivial

/-- Between two ticks there is nothing to be at. -/
theorem Round.atWork {e e' : Engine σ} (h : Round e e') : e'.AtWork := by
  cases h with
  | begin hphase =>
      cases hcancel : e.cancel.isCancelled <;> simp [AtWork, goto]
  | @nothing drains => cases drains <;> trivial
  | drained | request | ready | unready | tick | empty | rest | emptied | wake | close => trivial

theorem take?_atWork {e e' : Engine σ} {branch : Branch} (h : e.AtWork)
    (hstep : e.take? branch = some e') : e'.AtWork := by
  cases step_of_take? hstep with
  | tick hphase hproceed => exact tick_atWork h hphase hproceed
  | round hround => exact hround.atWork
  | interrupted | served => trivial
  | @applied drains => cases drains <;> trivial

/-! ### All engines -/

theorem Reachable.atWork {e : Engine σ} (h : e.Reachable) : e.AtWork := by
  induction h with
  | spawn => trivial
  | on event _ hon ih =>
      cases event with
      | work branch => exact take?_atWork ih hon
      | call asked =>
          cases hon
          exact (receive_leavesWork _ asked).atWork ih
      | pass ms | change world =>
          cases hon
          exact ih

/-- In a tick an engine has told that it is running, and in the end that it has stopped. An engine
that broke down did so in a tick. -/
structure Tells (e : Engine σ) : Prop where
  running : e.phase.inTick = true → e.published.state = .running
  stopped : e.phase = .stopped → e.published.state = .stopped
  broken : e.phase = .broken → e.published.state = .running

theorem Round.tells {e e' : Engine σ} (h : Round e e') : e'.Tells := by
  cases h with
  | begin =>
      constructor
      all_goals cases hcancel : e.cancel.isCancelled <;> exact nofun
  | @nothing drains => cases drains <;> exact ⟨nofun, nofun, nofun⟩
  | tick => exact ⟨fun _ => rfl, nofun, nofun⟩
  | close => exact ⟨nofun, fun _ => rfl, nofun⟩
  | drained | request | ready | unready | empty | rest | emptied | wake =>
      exact ⟨nofun, nofun, nofun⟩

/-- An engine comes to nothing only with a host that breaks down. -/
theorem breaksDown_of_broken {e e' : Engine σ} {branch : Branch} (hstep : e.take? branch = some e')
    (hbroken : e'.phase = .broken) : e.BreaksDown := by
  cases step_of_take? hstep with
  | tick hphase hproceed =>
      by_cases hfetch : e.phase = .fetching
      · simp only [proceed?, hfetch] at hproceed
        have hlives := fetch?_hasEnded hfetch hproceed
        rw [hbroken] at hlives
        cases hlives
      · rcases isLate_of_inTick hphase hfetch hproceed with hlate | ⟨-, hbreaks⟩
        · rw [hbroken] at hlate
          cases hlate
        · exact hbreaks
  | round hround => exact absurd hbroken hround.phase_ne_broken
  | interrupted | served => cases hbroken
  | @applied drains => cases drains <;> cases hbroken

theorem take?_tells {e e' : Engine σ} {branch : Branch} (h : e.Tells)
    (hstep : e.take? branch = some e') : e'.Tells := by
  cases step_of_take? hstep with
  | tick hphase hproceed =>
      have hrunning : e'.published.state = .running :=
        (spares_of_inTick hphase hproceed).published ▸ h.running hphase
      refine ⟨fun _ => hrunning, fun hstopped => ?_, fun _ => hrunning⟩
      by_cases hfetch : e.phase = .fetching
      · simp only [proceed?, hfetch] at hproceed
        have hlives := fetch?_hasEnded hfetch hproceed
        rw [hstopped] at hlives
        cases hlives
      · have hlate := isLate_of_inTick hphase hfetch hproceed
        rw [hstopped] at hlate
        rcases hlate with hlate | ⟨hbroken, -⟩
        · cases hlate
        · cases hbroken
  | round hround => exact hround.tells
  | interrupted | served => constructor <;> intro hphase <;> cases hphase
  | @applied drains => cases drains <;> constructor <;> intro hphase <;> cases hphase

theorem Reachable.tells {e : Engine σ} (h : e.Reachable) : e.Tells := by
  induction h with
  | spawn => exact ⟨nofun, nofun, nofun⟩
  | @on e e' event _ hon ih =>
      cases event with
      | work branch => exact take?_tells ih hon
      | call asked =>
          cases hon
          have hleaves := e.receive_leavesWork asked
          constructor
          all_goals intro hphase; rw [hleaves.phase] at hphase; rw [hleaves.published]
          · exact ih.running hphase
          · exact ih.stopped hphase
          · exact ih.broken hphase
      | pass ms | change world =>
          cases hon
          exact ⟨ih.running, ih.stopped, ih.broken⟩

end Engine

end CraftLang
