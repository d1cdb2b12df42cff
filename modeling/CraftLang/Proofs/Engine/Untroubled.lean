import CraftLang.Proofs.Engine.Preemption

/-!
Engines that nothing troubles: nobody calls them but to feed a source of lines, the host answers,
and no command fails or pauses. As long as there are frames on its stack such an engine may run and
is in the middle of its work, and frames leave one by one, each of them at its own end.
-/

namespace CraftLang

/-- Whether an engine in this phase works on its frames, or is on the way to them. -/
def Phase.isBusy : Phase → Bool
  | .top | .draining | .checkingReady | .checkingPause | .fetching | .drawing _ | .running ..
  | .suspended .. | .looped .. | .loopApplied _ | .printing _ .pop | .resting _ => true
  | _ => false

theorem Phase.isLeaving_of_isBusy {phase : Phase} (h : phase.isBusy = true) :
    phase.isLeaving = false := by
  unfold isLeaving
  split
  · cases h
  · cases h
  · cases h
  · rfl

namespace Engine

variable {σ : Type} {e e' : Engine σ}

def isAnswered (e : Engine σ) : Bool :=
  match e.phase with
  | .drawing command =>
    !command.modifiers.wait.isRange ||
      (e.ask (.draw command.modifiers.wait.width)).1.toOption.isSome
  | .running (.call effect _) _ _ => (e.reply? effect).isSome
  | .printing call _ => (e.ask call).1.toOption.isSome
  | _ => true

/-- Whether an event troubles nobody: no tick fails or pauses, the host answers, and callers do no
more than feed a source of lines. -/
def isUntroubledOn (e : Engine σ) : Event σ → Bool
  | .work .proceed => !e.fails && e.isAnswered
  | .call asked => asked.feeds
  | _ => true

/-- An engine in the middle of its work that may run, with no requests of any kind. -/
structure Steady (host : Host σ) (settings : Settings) (e : Engine σ) : Prop where
  free : Undisturbed host settings false e
  busy : e.phase.isBusy = true

/-! ### One step -/

/-- What a step of an untroubled engine keeps. A frame leaves the stack only at its own end. -/
structure Advances (ended : Bool) (e e' : Engine σ) : Prop where
  pause : e'.pause = e.pause
  pauseAtLoop : e'.pauseAtLoop = e.pauseAtLoop
  stopAtLoop : e'.stopAtLoop = e.stopAtLoop
  busy : e'.phase.isBusy = true
  length : if ended then e'.stack.length + 1 = e.stack.length else e.stack.length ≤ e'.stack.length

theorem rest_advances (hcancel : e.cancel.isCancelled = false) (delay : Nat) :
    Advances false e (e.rest delay) := by
  unfold rest
  rw [if_neg (by simp [hcancel])]
  split
  all_goals exact ⟨rfl, rfl, rfl, rfl, Nat.le_refl _⟩

variable {frame : Frame} {base : List Frame}

theorem settle_advances {executed : Executed} {text : String} {delay : Nat}
    (hstack : e.stack = frame :: base) (hcancel : e.cancel.isCancelled = false)
    (hsuccess : executed.isSuccess = true) :
    Advances false e
      ((e.updateTop (·.setKind executed.kind)).settle executed.result text delay) := by
  obtain ⟨kind, result⟩ := executed
  rw [updateTop_of_cons hstack]
  have hrest (stack : List Frame) (h : e.stack.length ≤ stack.length) :
      Advances false e ({ e with stack }.rest delay) := by
    have hadvances := rest_advances (e := { e with stack }) hcancel delay
    exact ⟨hadvances.pause, hadvances.pauseAtLoop, hadvances.stopAtLoop, hadvances.busy,
      Nat.le_trans h hadvances.length⟩
  cases result with
  | error error => cases hsuccess
  | ok outcome =>
      cases outcome with
      | pause reason => cases hsuccess
      | proceed => exact hrest _ (by simp [hstack])
      | skipped => exact ⟨rfl, rfl, rfl, rfl, by simp [hstack, settle, updateTop, goto]⟩
      | loop | gateComplete => exact ⟨rfl, rfl, rfl, rfl, by simp [hstack, settle, goto]⟩
      | push pushed => exact hrest _ (by simp [hstack, updateTop])

theorem fetch?_advances (hphase : e.phase = .fetching) (hstack : e.stack = frame :: base)
    (hfails : e.fetchFails = false) (hfetch : e.fetch? = some e') : Advances e.ends e e' := by
  cases hlook : frame.fetchStep with
  | mk fetched next =>
      simp only [fetchFails, fetch?, hstack, hlook, List.head?_cons,
        Option.any_some] at hfails hfetch
      simp only [ends, hphase, hstack, List.head?_cons, Option.any_some, hlook]
      cases fetched with
      | command command =>
          cases hfetch
          exact ⟨rfl, rfl, rfl, rfl, by simp [hstack, goto]⟩
      | finished =>
          cases hfetch
          refine ⟨?_, ?_, ?_, rfl, ?_⟩
          all_goals simp [hstack, pop, goto]
      | failed error => cases hfails
      | again =>
          cases hfetch
          refine ⟨rfl, rfl, rfl, ?_, by simp [hstack]⟩
          show e.phase.isBusy = true
          rw [hphase]
          rfl
      | waiting => cases hfetch

theorem start_advances {command : Command} (hphase : e.phase = .drawing command)
    (hanswered : e.isAnswered = true) : Advances false e (e.start command) := by
  unfold start
  split
  · next hrange =>
      split
      · next hask =>
          rw [eq_of_ask hask]
          exact ⟨rfl, rfl, rfl, rfl, Nat.le_refl _⟩
      · next hask => simp [isAnswered, hphase, hrange, hask, Except.toOption] at hanswered
  · exact ⟨rfl, rfl, rfl, rfl, Nat.le_refl _⟩

theorem perform_advances {effect : Effect} {next : effect.Reply → Action Executed} {text : String}
    {delay : Nat} (hphase : e.phase = .running (.call effect next) text delay)
    (hanswered : e.isAnswered = true) : Advances false e (e.perform effect next text delay) := by
  simp only [isAnswered, hphase] at hanswered
  cases effect with
  | host call =>
      simp only [perform]
      split
      · next hask =>
          rw [eq_of_ask hask]
          exact ⟨rfl, rfl, rfl, rfl, Nat.le_refl _⟩
      · next hask =>
          simp only [reply?, hask, Except.toOption] at hanswered
          cases hanswered
  | knowsAction name =>
      simp only [perform]
      split
      · exact ⟨rfl, rfl, rfl, rfl, Nat.le_refl _⟩
      · next hloaded =>
          split
          · next hask =>
              rw [eq_of_ask hask]
              exact ⟨rfl, rfl, rfl, rfl, Nat.le_refl _⟩
          · next hask =>
              simp only [reply?, hloaded, hask, Except.toOption] at hanswered
              cases hanswered
  | sleep ms =>
      simp only [perform]
      split
      · next hcancel => simp [reply?, hcancel] at hanswered
      · split
        all_goals exact ⟨rfl, rfl, rfl, rfl, Nat.le_refl _⟩

theorem applyLoop_advances {restart : Bool} {text : String} {delay : Nat}
    (hphase : e.phase = .looped restart text delay) (hstack : e.stack = frame :: base)
    (hfails : e.fails = false) (hstop : e.stopAtLoop = false) :
    Advances false e (e.applyLoop restart text delay) := by
  unfold applyLoop
  rw [if_neg (by simp [hstop])]
  cases restart with
  | false =>
      rw [updateTop_of_cons hstack]
      exact ⟨rfl, rfl, rfl, rfl, by simp [hstack, goto]⟩
  | true =>
      simp only [hstack, if_true]
      split
      · exact ⟨rfl, rfl, rfl, rfl, by simp [hstack, goto]⟩
      · next hrestart =>
          -- Only a frame over a source of lines refuses, and then the tick fails.
          have hproduced := Frame.isProduced_of_restart hrestart
          simp [fails, hphase, hstack, hstop, hproduced] at hfails

/-- After what is printed at a gate the frame goes. -/
theorem print_advances {call : HostCall} {after : Aftermath} (hstack : e.stack = frame :: base)
    (hphase : e.phase = .printing call after) (hbusy : e.phase.isBusy = true)
    (hanswered : e.isAnswered = true) : Advances e.ends e (e.print call after) := by
  cases after with
  | pop =>
      simp only [isAnswered, hphase] at hanswered
      rw [show e.ends = true by rw [ends, hphase]; exact hanswered]
      obtain ⟨world, hprinted | ⟨hfails, -⟩⟩ := e.print_cases call .pop
      · rw [hprinted]
        refine ⟨?_, ?_, ?_, rfl, ?_⟩
        all_goals simp [hstack, conclude, pop, goto]
      · rw [hfails] at hanswered
        cases hanswered
  | pause | clear =>
      rw [hphase] at hbusy
      cases hbusy

theorem tick_advances (hcancel : e.cancel.isCancelled = false) (hpause : e.pauseAtLoop = false)
    (hstop : e.stopAtLoop = false) (hstack : e.stack = frame :: base)
    (hphase : e.phase.inTick = true) (hbusy : e.phase.isBusy = true) (hfails : e.fails = false)
    (hanswered : e.isAnswered = true) (hstep : e.proceed? = some e') : Advances e.ends e e' := by
  cases tickStep_of_inTick hphase hstep with
  | fetched hp hfetch => exact fetch?_advances hp hstack (by simpa [fails, hp] using hfails) hfetch
  | started hp =>
      have hends : e.ends = false := by simp [ends, hp]
      exact hends ▸ start_advances hp hanswered
  | settled hp =>
      have hends : e.ends = false := by simp [ends, hp]
      exact hends ▸ settle_advances hstack hcancel (by simpa [fails, hp] using hfails)
  | performed hp =>
      have hends : e.ends = false := by simp [ends, hp]
      exact hends ▸ perform_advances hp hanswered
  | looped hp =>
      have hends : e.ends = false := by simp [ends, hp]
      exact hends ▸ applyLoop_advances hp hstack hfails hstop
  | @applied delay hp =>
      have hends : e.ends = false := by simp [ends, hp]
      have hrest : e.applyDeferredPause delay = e.rest delay := by simp [applyDeferredPause, hpause]
      rw [hends, hrest]
      exact rest_advances hcancel _
  | printed hp => exact print_advances hstack hp hbusy hanswered
  | paused hp =>
      rw [hp] at hbusy
      cases hbusy
  | woken hp | rested hp =>
      have hends : e.ends = false := by simp [ends, hp]
      rw [hends]
      exact ⟨rfl, rfl, rfl, rfl, Nat.le_refl _⟩

/-! ### One event -/

variable {host : Host σ} {settings : Settings}

theorem Steady.of_advances {ended : Bool} (h : Steady host settings e) (hspares : Spares e e')
    (hadvances : Advances ended e e') : Steady host settings e' where
  free :=
    { host := hspares.host.trans h.free.host
      settings := hspares.settings.trans h.free.settings
      ready := by rw [hspares.ready, h.free.ready]
      pause := by rw [hadvances.pause, h.free.pause]
      cancel := by rw [hspares.cancel, h.free.cancel]
      queue := hspares.queue.trans h.free.queue
      untilLoop := by rw [hadvances.pauseAtLoop, hadvances.stopAtLoop, h.free.untilLoop] }
  busy := hadvances.busy

/-- A busy engine with frames on its stack goes through its round to the next tick. -/
theorem Steady.round (h : Steady host settings e) (hstack : e.stack ≠ []) (hround : Round e e') :
    Steady host settings e' ∧ e'.stack = e.stack := by
  have hbusy := h.busy
  cases hround with
  | begin =>
      refine ⟨⟨h.free.goto _, ?_⟩, rfl⟩
      rw [h.free.cancel]
      rfl
  | drained | ready => exact ⟨⟨h.free.goto _, rfl⟩, rfl⟩
  | request _ hqueue => exact absurd h.free.queue hqueue
  | tick => exact ⟨⟨(h.free.publish _).goto _, rfl⟩, rfl⟩
  | unready _ hclosed =>
      rw [h.free.ready] at hclosed
      cases hclosed
  | empty _ _ hnil => exact absurd hnil hstack
  | rest _ hclosed =>
      rw [h.free.pause] at hclosed
      cases hclosed
  | nothing hphase | emptied hphase | wake hphase | close hphase =>
      rw [hphase] at hbusy
      cases hbusy

/-- An untroubled engine with frames on its stack stays in the middle of its work, and loses no
frame but one that has come to its end. -/
theorem Steady.on {event : Event σ} (h : Steady host settings e) (hstack : e.stack ≠ [])
    (huntroubled : e.isUntroubledOn event = true) (hon : e.on? event = some e') :
    Steady host settings e' ∧
      if e.endedOn event = [] then e.stack.length ≤ e'.stack.length
      else e'.stack.length + 1 = e.stack.length := by
  obtain ⟨frame, base, hcons⟩ := List.exists_cons_of_ne_nil hstack
  cases event with
  | work branch =>
      cases step_of_take? hon with
      | tick hphase hstep =>
          have hsmooth : e.fails = false ∧ e.isAnswered = true := by
            simpa [isUntroubledOn] using huntroubled
          have hflags : e.pauseAtLoop = false ∧ e.stopAtLoop = false := by
            simpa using h.free.untilLoop
          have hadvances := tick_advances h.free.cancel hflags.1 hflags.2 hcons hphase h.busy
            hsmooth.1 hsmooth.2 hstep
          refine ⟨h.of_advances (spares_of_inTick hphase hstep) hadvances, ?_⟩
          have hlength := hadvances.length
          cases hends : e.ends <;> simp [hends, endedOn, hcons] at hlength ⊢ <;> exact hlength
      | round hround =>
          obtain ⟨hsteady, hsame⟩ := h.round hstack hround
          obtain ⟨-, -, hended⟩ := silent_of_not_inTick hround.inTick (.work .proceed)
          rw [if_pos hended, hsame]
          exact ⟨hsteady, Nat.le_refl _⟩
      | interrupted => simp [on?, take?, interrupt?, h.free.cancel] at hon
      | served _ hqueue => exact absurd h.free.queue hqueue
      | applied _ hqueue =>
          rw [h.free.queue] at hqueue
          cases hqueue
  | call asked =>
      cases hon
      have hended : e.endedOn (.call asked) = [] := rfl
      rw [if_pos hended]
      rcases e.receive_of_feeds huntroubled with hsame | ⟨id, f, hmap⟩
      · rw [hsame]
        exact ⟨h, Nat.le_refl _⟩
      · rw [hmap]
        have hqueue : (e.mapSourceFedBy id f).queue = [] := by
          simp [mapSourceFedBy, mapFrames, h.free.queue]
        refine ⟨⟨⟨h.free.host, h.free.settings, h.free.ready, h.free.pause, h.free.cancel, hqueue,
          h.free.untilLoop⟩, h.busy⟩, ?_⟩
        simp [mapSourceFedBy, mapFrames]
  | pass ms =>
      cases hon
      have hended : e.endedOn (.pass ms) = [] := rfl
      rw [if_pos hended]
      exact ⟨⟨⟨h.free.host, h.free.settings, h.free.ready, h.free.pause, h.free.cancel,
        h.free.queue, h.free.untilLoop⟩, h.busy⟩, Nat.le_refl _⟩
  | change world =>
      cases hon
      have hended : e.endedOn (.change world) = [] := rfl
      rw [if_pos hended]
      exact ⟨⟨⟨h.free.host, h.free.settings, h.free.ready, h.free.pause, h.free.cancel,
        h.free.queue, h.free.untilLoop⟩, h.busy⟩, Nat.le_refl _⟩

end Engine

end CraftLang
