import CraftLang.Host.DryRun
import CraftLang.Proofs.Engine.Schedules

/-!
The stack and recursion. An engine that is left to itself does with the frames on its stack what
evaluation by recursion does: each command is carried out alike, step by step here and at once
there, and a frame that was put on top goes when its evaluation ends.
-/

namespace CraftLang

namespace Engine

variable {σ : Type} {host : Host σ} {settings : Settings} {untilLoop : Bool} {base : List Frame}
  {e : Engine σ}

/-! ### Carrying out a command -/

/-- What an action gets for a call, the engine gets for it too. -/
theorem goes_perform {effect : Effect} {next : effect.Reply → Action Executed} {text : String}
    {delay : Nat} {reply : effect.Reply} {after : Timeline σ}
    (hcancel : e.cancel.isCancelled = false)
    (hphase : e.phase = .running (.call effect next) text delay) (habove : IsAbove base e.stack)
    (hperform : e.timeline.perform e.host effect = (.ok reply, after)) :
    (e.moveTo after).timeline = after ∧
      Goes base e [] ((e.moveTo after).goto (.running (next reply) text delay)) := by
  have hstarting : e.starting? = none := by rw [starting?, hphase]
  cases effect with
  | host call =>
      rcases hanswer : e.host.answer e.now call e.world with ⟨failure | answer, world⟩
      · simp only [Timeline.perform, Timeline.ask, timeline, hanswer] at hperform
        cases hperform
      · simp only [Timeline.perform, Timeline.ask, timeline, hanswer] at hperform
        cases hperform
        refine ⟨rfl, .step hstarting habove ?_ (.refl _)⟩
        simp only [proceed?, hphase, perform, ask, hanswer]
        rfl
  | knowsAction name =>
      by_cases hloaded : e.catalog.isLoaded = true
      · simp only [Timeline.perform, timeline, hloaded, if_true, Prod.mk.injEq] at hperform
        obtain ⟨hreply, rfl⟩ := hperform
        cases hreply
        refine ⟨rfl, .step hstarting habove ?_ (.refl _)⟩
        simp only [proceed?, hphase, perform, hloaded, if_true]
        rfl
      · rcases hanswer : e.host.answer e.now .craftActions e.world with ⟨failure | answer, world⟩
        · simp [Timeline.perform, Timeline.ask, timeline, hloaded, hanswer] at hperform
        · simp only [Timeline.perform, Timeline.ask, timeline, hloaded, hanswer, if_false,
            Bool.false_eq_true, Prod.mk.injEq] at hperform
          obtain ⟨hreply, rfl⟩ := hperform
          cases hreply
          refine ⟨rfl, .step hstarting habove ?_ (.refl _)⟩
          simp only [proceed?, hphase, perform, ask, hloaded, hanswer, if_false,
            Bool.false_eq_true]
          rfl
  | sleep ms =>
      simp only [Timeline.perform, Timeline.sleep, Timeline.isCancelledBefore, timeline,
        Option.any_none, if_false, Bool.false_eq_true] at hperform
      cases hperform
      refine ⟨rfl, ?_⟩
      by_cases hzero : ms = 0
      · subst hzero
        refine .step hstarting habove ?_ (.refl _)
        simp only [proceed?, hphase, perform, hcancel, if_true, if_false, Bool.false_eq_true]
        rfl
      · -- Nobody else lets time pass here, so all of it passes while the engine is suspended.
        have hwait := Goes.pass
          (e := e.goto (.suspended (e.now + sleepMs ms) (next ()) text delay)) habove (sleepMs ms)
        refine .step hstarting habove ?_ (hwait.trans (.step rfl habove ?_ (.refl _)))
        · simp only [proceed?, hphase, perform, hcancel, hzero, if_false, Bool.false_eq_true]
        · exact if_pos (Nat.le_refl _)

/-- A program comes to the same end in an engine as it does by itself. -/
theorem goes_run {program : Action Executed} {text : String} {delay : Nat} {executed : Executed}
    {after : Timeline σ} (hcancel : e.cancel.isCancelled = false)
    (hphase : e.phase = .running program text delay) (habove : IsAbove base e.stack)
    (hrun : e.timeline.run e.host program = (.ok executed, after)) :
    (e.moveTo after).timeline = after ∧
      Goes base e [] ((e.moveTo after).goto (.running (.done executed) text delay)) := by
  -- The engine makes the calls of the program one by one and has their effects on the way, so it is
  -- another engine for each call.
  induction program generalizing e with
  | done value =>
      cases hrun
      refine ⟨rfl, ?_⟩
      rw [goto_self (e := e.moveTo e.timeline) hphase]
      exact .refl e
  | call effect next ih =>
      rw [Timeline.run] at hrun
      split at hrun
      · next reply middle hperform =>
          obtain ⟨hmiddle, hfirst⟩ := goes_perform hcancel hphase habove hperform
          have hrest := ih reply (e := (e.moveTo middle).goto (.running (next reply) text delay))
            hcancel rfl habove (hmiddle ▸ hrun :)
          exact ⟨hrest.1, hfirst.trans hrest.2⟩
      · cases hrun

theorem goes_drawing {command : Command} {delay : Nat} {after : Timeline σ}
    (hphase : e.phase = .drawing command) (habove : IsAbove base e.stack)
    (hdraw : e.timeline.run e.host command.modifiers.wait.draw = (.ok delay, after)) :
    (e.moveTo after).timeline = after ∧
      Goes base e [command] ((e.moveTo after).goto
        (.running (command.execute e.settings) command.text delay)) := by
  have hstart {e₁ : Engine σ} (hstep : e.start command = e₁) : Goes base e [command] e₁ := by
    have hproceed : e.proceed? = some e₁ := by simp only [proceed?, hphase, hstep]
    have hwork := Goes.work habove hproceed
    rwa [starting?, hphase] at hwork
  unfold WaitPolicy.draw at hdraw
  split at hdraw
  · next hrange =>
      rcases hanswer : e.host.answer e.now (.draw command.modifiers.wait.width) e.world with
        ⟨failure | drawn, world⟩
      · simp only [Timeline.run, Timeline.perform, Timeline.ask, timeline, hanswer] at hdraw
        cases hdraw
      · simp only [Timeline.run, Timeline.perform, Timeline.ask, timeline, hanswer] at hdraw
        cases hdraw
        refine ⟨rfl, hstart ?_⟩
        simp only [start, hrange, if_true, ask, hanswer]
        rfl
  · next hrange =>
      cases hdraw
      refine ⟨rfl, hstart ?_⟩
      simp only [start, hrange, if_false, Bool.false_eq_true]
      rfl

/-- A command comes to the same result in an engine as it does by itself. -/
theorem goes_executed {command : Command} {delay : Nat} {executed : Executed}
    {after : Timeline σ} (h : Undisturbed host settings untilLoop e)
    (hphase : e.phase = .drawing command) (habove : IsAbove base e.stack)
    (hrun : e.timeline.run host (command.executeTimed settings) = (.ok (delay, executed), after)) :
    (e.moveTo after).timeline = after ∧
      Goes base e [command]
        ((e.moveTo after).goto (.running (.done executed) command.text delay)) := by
  rw [← h.host, ← h.settings] at hrun
  rw [Command.executeTimed, Timeline.run_bind] at hrun
  split at hrun
  · next drawn middle hdraw =>
      obtain ⟨hmiddle, hfirst⟩ := goes_drawing hphase habove hdraw
      rw [Timeline.run_bind] at hrun
      split at hrun
      · next last hexecute =>
          cases hrun
          have hrest := goes_run
            (e := (e.moveTo middle).goto
              (.running (command.execute e.settings) command.text delay))
            h.cancel rfl habove (hmiddle ▸ hexecute :)
          exact ⟨hrest.1, hfirst.trans hrest.2⟩
      · cases hrun
  · cases hrun

/-! ### Acting on the result -/

/-- What an engine comes to that has carried out a command of its top frame. -/
def Turns (host : Host σ) (settings : Settings) (untilLoop : Bool) (base : List Frame)
    (retired : Nat) (e' : Engine σ) : Turn σ → Prop
  | .onward frame timeline => Sits host settings untilLoop (frame :: base) timeline retired e'
  | .nested callee frame timeline =>
    Sits host settings untilLoop (callee :: frame :: base) timeline retired e'
  | .finished timeline => Sits host settings untilLoop base timeline (retired + 1) e'
  | .halted => True

theorem Undisturbed.sits (h : Undisturbed host settings untilLoop e) (stack : List Frame)
    (timeline : Timeline σ) (retired : Nat) (hcancel : timeline.cancelAt = none) :
    Sits host settings untilLoop stack timeline retired
      ({ e.moveTo timeline with stack, retired }.goto .top) where
  undisturbed := ((h.moveTo timeline).setStack stack retired).goto .top
  phase := .inl rfl
  stack := rfl
  timeline := by
    obtain ⟨world, catalog, now, cancelAt⟩ := timeline
    cases hcancel
    rfl
  retired := rfl

theorem Undisturbed.loopApplied (h : Undisturbed host settings false e) {delay : Nat}
    (hphase : e.phase = .loopApplied delay) (habove : IsAbove base e.stack) :
    Goes base e [] ((e.moveTo (e.timeline.pass delay)).goto .top) := by
  obtain ⟨hpause, -⟩ := Bool.or_eq_false_iff.mp h.untilLoop
  refine .step (by rw [starting?, hphase]) habove ?_ (h.rest habove delay)
  simp only [proceed?, hphase, applyDeferredPause, hpause, if_false, Bool.false_eq_true]

/-- The engine lets a loop have its effect as the evaluation does. -/
theorem goes_looped {frame : Frame} {restart : Bool} {text : String} {delay : Nat}
    (h : Undisturbed host settings untilLoop e) (hphase : e.phase = .looped restart text delay)
    (hstack : e.stack = frame :: base) :
    ∃ e', Goes base e [] e' ∧
      Turns host settings untilLoop base e.retired e'
        (.ofResult host untilLoop frame delay e.timeline (.ok (.loop restart))) := by
  cases untilLoop with
  -- A pause or a stop waits for this loop, and the evaluation goes no further.
  | true => exact ⟨e, .refl e, trivial⟩
  | false =>
      have hstarting : e.starting? = none := by rw [starting?, hphase]
      have habove : IsAbove base e.stack := hstack ▸ isAbove_cons frame base
      have happly : e.proceed? = some (e.applyLoop restart text delay) := by
        simp only [proceed?, hphase]
      obtain ⟨-, hstop⟩ := Bool.or_eq_false_iff.mp h.untilLoop
      rw [applyLoop, if_neg (by rw [hstop]; exact Bool.false_ne_true)] at happly
      have happlied (top : Frame) :=
        ((h.setStack (top :: base) e.retired).goto (.loopApplied delay)).loopApplied rfl
          (isAbove_cons top base)
      simp only [Turn.ofResult, if_false, Bool.false_eq_true]
      cases restart with
      | true =>
          simp only [if_true, hstack] at happly ⊢
          cases hrestart : frame.restart with
          | ok frame' =>
              simp only [hrestart] at happly ⊢
              exact ⟨_, .step hstarting habove happly (happlied frame'), h.sits _ _ _ rfl⟩
          | error error => exact ⟨e, .refl e, trivial⟩
      | false =>
          simp only [if_false, Bool.false_eq_true, updateTop, hstack] at happly ⊢
          exact ⟨_, .step hstarting habove happly (happlied frame.advance), h.sits _ _ _ rfl⟩

/-- The engine acts on a result as the evaluation does. -/
theorem goes_settled {frame : Frame} {executed : Executed} {text : String} {delay : Nat}
    (h : Undisturbed host settings untilLoop e)
    (hphase : e.phase = .running (.done executed) text delay) (hstack : e.stack = frame :: base) :
    ∃ e', Goes base e [] e' ∧
      Turns host settings untilLoop base e.retired e'
        (.ofResult host untilLoop (frame.setKind executed.kind) delay e.timeline
          executed.result) := by
  have hstarting : e.starting? = none := by rw [starting?, hphase]
  have habove : IsAbove base e.stack := hstack ▸ isAbove_cons frame base
  obtain ⟨kind, result⟩ := executed
  have hsettle : e.proceed? =
      some ({ e with stack := frame.setKind kind :: base }.settle result text delay) := by
    simp only [proceed?, hphase, updateTop, hstack]
  have hmoved (top : Frame) := h.setStack (top :: base) e.retired
  cases result with
  | error error => exact ⟨e, .refl e, trivial⟩
  | ok outcome =>
      cases outcome with
      | proceed =>
          have hrest := (hmoved (frame.setKind kind).advance).rest (isAbove_cons _ base) delay
          exact ⟨_, .step hstarting habove hsettle hrest, h.sits _ _ _ rfl⟩
      | skipped =>
          exact ⟨_, .step hstarting habove hsettle (.refl _), h.sits _ _ _ rfl⟩
      | loop restart =>
          have hlooped := (hmoved (frame.setKind kind)).goto (.looped restart text delay)
          obtain ⟨e', hgoes, hturns⟩ := goes_looped hlooped rfl rfl
          exact ⟨e', .step hstarting habove hsettle hgoes, hturns⟩
      | pause reason => exact ⟨e, .refl e, trivial⟩
      | gateComplete =>
          obtain rfl := h.host
          rcases hanswer : e.host.answer e.now (.printInfo "Craft loop complete") e.world with
            ⟨failure | reply, world⟩
          · simp only [Turn.ofResult, Timeline.ask, timeline, hanswer]
            exact ⟨e, .refl e, trivial⟩
          · simp only [Turn.ofResult, Timeline.ask, timeline, hanswer]
            have hsits := h.sits base { e.timeline with world } (e.retired + 1) rfl
            refine ⟨_, .step hstarting habove hsettle
              (.step rfl (isAbove_cons _ base) ?_ (.refl _)), hsits⟩
            simp only [settle, goto, proceed?, print, ask, hanswer, conclude, pop]
            rfl
      | push callee =>
          have hrest := (h.setStack (callee :: (frame.setKind kind).advance :: base) e.retired).rest
            (isAbove_cons callee ((frame.setKind kind).advance :: base)).of_cons delay
          exact ⟨_, .step hstarting habove hsettle hrest, h.sits _ _ _ rfl⟩

theorem goes_turn {frame : Frame} {command : Command} (h : Undisturbed host settings untilLoop e)
    (hphase : e.phase = .drawing command) (hstack : e.stack = frame :: base) :
    ∃ e', Goes base e [command] e' ∧
      Turns host settings untilLoop base e.retired e'
        (frame.turn host settings untilLoop command e.timeline) := by
  have habove : IsAbove base e.stack := hstack ▸ isAbove_cons frame base
  unfold Frame.turn
  split
  · next delay executed after hrun =>
      obtain ⟨hafter, hexecuted⟩ := goes_executed h hphase habove hrun
      obtain ⟨e', hsettled, hturns⟩ := goes_settled
        (e := (e.moveTo after).goto (.running (.done executed) command.text delay))
        ((h.moveTo after).goto _) rfl hstack
      exact ⟨e', hexecuted.trans hsettled, (hafter ▸ hturns :)⟩
  · have hproceed : e.proceed? = some (e.start command) := by simp only [proceed?, hphase]
    have hstart := Goes.work habove hproceed
    rw [starting?, hphase] at hstart
    exact ⟨e.start command, hstart, trivial⟩

/-! ### Whole frames -/

/-- What an engine comes to that has done what an evaluation does. -/
def Comes (host : Host σ) (settings : Settings) (untilLoop : Bool) (base : List Frame)
    (retired : Nat) (e' : Engine σ) : Ending σ → Prop
  | .finished frames timeline => Sits host settings untilLoop base timeline (retired + frames) e'
  | .halted => True
  | .unfinished => IsAbove base e'.stack

theorem comes_counting {retired frames : Nat} {e' : Engine σ} {course : Course σ}
    (h : Comes host settings untilLoop base (retired + frames) e' course.ending) :
    Comes host settings untilLoop base retired e' (course.counting frames).ending := by
  obtain ⟨commands, ending⟩ := course
  cases ending with
  | finished more timeline =>
      show Sits host settings untilLoop base timeline (retired + (frames + more)) e'
      rw [← Nat.add_assoc]
      exact h
  | halted => trivial
  | unfinished => exact h

theorem comes_of_cons {caller : Frame} {retired : Nat} {e' : Engine σ} {ending : Ending σ}
    (h : Comes host settings untilLoop (caller :: base) retired e' ending)
    (hending : ∀ frames timeline, ending ≠ .finished frames timeline) :
    Comes host settings untilLoop base retired e' ending := by
  cases ending with
  | finished frames timeline => exact absurd rfl (hending frames timeline)
  | halted => trivial
  | unfinished => exact IsAbove.of_cons h

/-- The engine does with the frame on top of others what the evaluation of the frame does. -/
theorem goes_evaluate (fuel : Nat) {frame : Frame} {timeline : Timeline σ} {retired : Nat}
    (h : Sits host settings untilLoop (frame :: base) timeline retired e) :
    ∃ e', Goes base e (frame.evaluate host settings untilLoop fuel timeline).commands e' ∧
      Comes host settings untilLoop base retired e'
        (frame.evaluate host settings untilLoop fuel timeline).ending := by
  -- Each unit of fuel is a command of some frame. The induction is for frames on top of any others,
  -- because the callee of a command lies on top of its caller.
  induction fuel generalizing e frame base timeline retired with
  | zero =>
      refine ⟨e, .refl e, ?_⟩
      show IsAbove base e.stack
      exact h.stack ▸ isAbove_cons frame base
  | succ fuel ih =>
      obtain ⟨hundisturbed, hphase, hstack, rfl, rfl⟩ := h
      have hround : Goes base e [] ((e.publish .running).goto .fetching) :=
        hundisturbed.round hphase (hstack ▸ isAbove_cons frame base)
      rw [Frame.evaluate]
      split
      · next command frame' hfetch =>
          have hcommand := hround.trans (goes_of_command rfl hstack hfetch)
          have hdrawing := (((hundisturbed.publish .running).goto .fetching).setStack
            (frame' :: base) e.retired).goto (.drawing command)
          obtain ⟨e₁, hturn, hturns⟩ := goes_turn hdrawing rfl rfl
          have hfirst : Goes base e [command] e₁ := hcommand.trans hturn
          replace hturns : Turns host settings untilLoop base e.retired e₁
            (frame'.turn host settings untilLoop command e.timeline) := hturns
          split
          · next hturn =>
              rw [hturn] at hturns
              obtain ⟨e', hgoes, hcomes⟩ := ih hturns
              exact ⟨e', hfirst.trans hgoes, hcomes⟩
          · next callee frame'' timeline hturn =>
              rw [hturn] at hturns
              -- The callee is evaluated on top of its caller, and then the caller on top of `base`.
              obtain ⟨e₂, hcallee, hcomes⟩ := ih hturns
              unfold Course.andThen
              split
              · next frames middle hending =>
                  rw [hending] at hcomes
                  obtain ⟨e', hgoes, hcomes'⟩ := ih hcomes
                  exact ⟨e', hfirst.trans (hcallee.of_cons.trans hgoes), comes_counting hcomes'⟩
              · next hending =>
                  exact ⟨e₂, hfirst.trans hcallee.of_cons, comes_of_cons hcomes hending⟩
          · next hturn =>
              rw [hturn] at hturns
              exact ⟨e₁, hfirst, hturns⟩
          · exact ⟨e₁, hfirst, trivial⟩
      · next frame' hfetch =>
          refine ⟨_, hround.trans (goes_of_finished rfl hstack hfetch), ?_⟩
          exact ((hundisturbed.publish .running).sits base e.timeline (e.retired + 1) rfl)
      · exact ⟨e, .refl e, trivial⟩

/-- A run of an engine by itself in which a frame on top of `base` goes the way of an evaluation
with some fuel. Until the end of the run there are frames on top of `base`. -/
structure Replays (base : List Frame) (fuel : Nat) (course : Course σ) (e : Engine σ)
    (done : List (Event σ)) (e' : Engine σ) : Prop where
  passes : Passes base e done e'
  started : e.started done = course.commands
  /-- The evaluation has ended, and so the frame has gone. -/
  finished : ∀ frames timeline, course.ending = .finished frames timeline →
    e'.stack = base ∧ e'.retired = e.retired + frames ∧ e'.world = timeline.world
  /-- The evaluation has used up its fuel, and so there is a command for each unit of it. -/
  unfinished : course.ending = .unfinished → IsAbove base e'.stack ∧ fuel ≤ course.commands.length

theorem Replays.congr {fuel : Nat} {course : Course σ} {e' e'' : Engine σ}
    {done done' : List (Event σ)} (h : Replays base fuel course e done e')
    (hpasses : Passes base e done' e'') (hsame : e''.untimed = e'.untimed)
    (hstarted : e.started done' = e.started done) :
    Replays base fuel course e done' e'' := by
  have hstack : e''.stack = e'.stack := (congrArg Engine.stack hsame :)
  have hretired : e''.retired = e'.retired := (congrArg Engine.retired hsame :)
  have hworld : e''.world = e'.world := (congrArg Engine.world hsame :)
  refine ⟨hpasses, hstarted.trans h.started, ?_, ?_⟩
  · rw [hstack, hretired, hworld]
    exact h.finished
  · rw [hstack]
    exact h.unfinished

/-- A frame that is the last one in the queue is put on the stack. -/
theorem sits_of_applying {e₀ : Engine σ} {branch : Branch} {frame : Frame}
    (happlying : e.applying? branch = some (.push frame)) (hqueue : e.queue = [.push frame])
    (hstep : e.take? branch = some e₀) (hready : e.ready.isOpen = true)
    (hcancel : e.cancel.isCancelled = false) :
    Sits e.host e.settings (e.pauseAtLoop || e.stopAtLoop) (frame :: e.stack) e.timeline e.retired
      e₀ := by
  obtain ⟨drains, queue, -, hqueue', rfl⟩ := eq_of_applying? happlying hstep
  obtain ⟨-, rfl⟩ := List.cons.inj (hqueue.symm.trans hqueue')
  refine ⟨⟨rfl, rfl, hready, rfl, hcancel, rfl, rfl⟩, ?_, rfl, rfl, rfl⟩
  cases drains
  · exact .inl rfl
  · exact .inr rfl

/-- An engine does with a frame that is put on its stack what the evaluation of the frame by
recursion does. It carries out the same commands in the same order, and the frame goes when the
evaluation ends. This holds for any fuel, so it holds of endless evaluations as well; if a pause or
a stop is deferred already, it holds up to the first loop. How much time passes between the steps
does not matter to it if it does not matter to the host. -/
theorem stack_evaluates {e₀ : Engine σ} {branch : Branch} {frame : Frame} {course : Course σ}
    {fuel : Nat} (happlying : e.applying? branch = some (.push frame))
    (hqueue : e.queue = [.push frame]) (hstep : e.take? branch = some e₀)
    (hready : e.ready.isOpen = true) (hcancel : e.cancel.isCancelled = false)
    (hcourse : frame.evaluate e.host e.settings (e.pauseAtLoop || e.stopAtLoop) fuel e.timeline =
      course) :
    (∃ done e', Replays e.stack fuel course e₀ done e') ∧
    (e.host.IsTimeless → ∀ events, (∀ event ∈ events, event.isOwn = true) →
      (e₀.run? events).isSome = true →
        ∃ done e', Replays e.stack fuel course e₀ done e' ∧
          (done <+: events ∨ events <+: done)) := by
  have hsits := sits_of_applying happlying hqueue hstep hready hcancel
  obtain ⟨e', ⟨done, hpasses, hstarted⟩, hcomes⟩ := goes_evaluate fuel hsits
  have hreplays : Replays e.stack fuel course e₀ done e' := by
    subst hcourse
    refine ⟨hpasses, hstarted, fun frames timeline hending => ?_, fun hending => ?_⟩
    · rw [hending] at hcomes
      exact ⟨hcomes.stack, hsits.retired.symm ▸ hcomes.retired,
        congrArg Timeline.world hcomes.timeline⟩
    · refine ⟨?_, Frame.le_length_of_unfinished _ _ _ hending⟩
      rw [hending] at hcomes
      exact hcomes
  refine ⟨⟨done, e', hreplays⟩, fun htimeless events hown hrun => ?_⟩
  have hundisturbed := hsits.undisturbed
  have hsecluded : Secluded e₀ :=
    ⟨hundisturbed.host.symm ▸ htimeless, hundisturbed.cancel, hundisturbed.queue⟩
  obtain ⟨done', e'', hpasses', hsame, hstarted', hprefix⟩ :=
    hpasses.follows hsecluded rfl hown hrun
  exact ⟨done', e'', hreplays.congr hpasses' hsame hstarted', hprefix⟩

def nativeFrame (stored : StoredMacro) : Frame :=
  (Frame.ofNative {} stored none).toOption.getD (.ofCommands stored [])

def outerMacro : StoredMacro := { name := "Outer", contents := "/a\n/runmacro \"Inner\"\n/b" }

def innerMacro : StoredMacro := { name := "Inner", contents := "/c\n/loop 1" }

def queuedOuter : Engine (DryRun × Library) :=
  (spawn DryRun.host.withLibrary {} ({}, { macros := [outerMacro, innerMacro] })).ran
    (.call (.enqueue outerMacro none) :: onItsOwn 2)

theorem dryRun_isTimeless : DryRun.host.IsTimeless := by
  intro now now' call run
  cases call <;> rfl

theorem withLibrary_isTimeless {host : Host σ} (h : host.IsTimeless) :
    host.withLibrary.IsTimeless := by
  intro now now' call state
  cases call with
  | findMacro | startScript => rfl
  | _ => simp only [Host.withLibrary, h now now']

/-- The inner macro is run to its end, its loop included, before the outer one goes on. -/
theorem stack_evaluates_queuedOuter :
    ∃ done e', Passes [] (queuedOuter.ran [.work .proceed]) done e' ∧
      ((queuedOuter.ran [.work .proceed]).started done).map Command.text =
        ["/a", "/runmacro \"Inner\"", "/c", "/loop 1", "/c", "/loop 1", "/b"] ∧
      e'.stack = [] ∧ e'.retired = 2 ∧ (done <+: onItsOwn 20 ∨ onItsOwn 20 <+: done) := by
  have happlying : queuedOuter.applying? .proceed = some (.push (nativeFrame outerMacro)) := by rfl
  have hqueue : queuedOuter.queue = [.push (nativeFrame outerMacro)] := by rfl
  have hstep : queuedOuter.take? .proceed = some (queuedOuter.ran [.work .proceed]) := by rfl
  obtain ⟨course, hcourse⟩ : ∃ course, (nativeFrame outerMacro).evaluate queuedOuter.host
      queuedOuter.settings false 10 queuedOuter.timeline = course := ⟨_, rfl⟩
  obtain ⟨-, hevery⟩ := stack_evaluates happlying hqueue hstep (by rfl) (by rfl) hcourse
  obtain ⟨done, e', hreplays, hprefix⟩ := hevery (withLibrary_isTimeless dryRun_isTimeless)
    (onItsOwn 20) (forall_onItsOwn (P := (·.isOwn = true)) rfl 20) (by rfl)
  obtain ⟨timeline, hending⟩ : ∃ timeline, course.ending = .finished 2 timeline :=
    ⟨_, by rw [← hcourse]; rfl⟩
  obtain ⟨hstack, hretired, -⟩ := hreplays.finished 2 timeline hending
  refine ⟨done, e', hreplays.passes, ?_, hstack, hretired, hprefix⟩
  rw [hreplays.started, ← hcourse]
  rfl

/-- An engine that by itself comes to a standstill does not go the way of an evaluation of more
commands. -/
theorem not_replays_of_stuck {e₀ : Engine σ} {fuel steps : Nat} {course : Course σ}
    (hsecluded : Secluded e₀) (hrun : (e₀.run? (onItsOwn steps)).isSome = true)
    (hstuck : ∀ ms branch, { e₀.ran (onItsOwn steps) with
      now := (e₀.ran (onItsOwn steps)).now + ms }.take? branch = none)
    (hshort : (e₀.started (onItsOwn steps)).length < course.commands.length) :
    ¬∃ done e', Replays base fuel course e₀ done e' := by
  rintro ⟨done, e', hreplays⟩
  have hownSteps := forall_onItsOwn (σ := σ) (P := (·.isOwn = true)) rfl steps
  obtain ⟨done', e'', hpasses, -, hstarted, hprefix⟩ :=
    hreplays.passes.follows hsecluded rfl hownSteps hrun
  rw [← hreplays.started, ← hstarted] at hshort
  rcases hprefix with ⟨more, hmore⟩ | ⟨more, hmore⟩
  · -- The schedule goes on behind the run, so no more than this was started in the run.
    rw [← hmore, started_append hpasses.run, List.length_append] at hshort
    omega
  · have hran := run?_eq_some_ran hrun
    have hown : ∀ event ∈ more, event.isOwn = true := fun event hmem =>
      hpasses.own event (hmore ▸ List.mem_append_right _ hmem)
    have hdone := hpasses.run
    rw [← hmore, run?_append, hran, Option.bind_some] at hdone
    have hsome : ((e₀.ran (onItsOwn steps)).run? more).isSome = true := by rw [hdone]; rfl
    rw [← hmore, started_append hran, started_of_stuck hstuck hown hsome, List.append_nil] at hshort
    omega

/-- A dry run in which a pause at the next loop was asked for before the inner macro. -/
def queuedInner : Engine DryRun :=
  (spawn DryRun.host {} {}).ran
    (.call (.pause true) :: .call (.enqueue innerMacro none) :: onItsOwn 2)

theorem stack_leaves_evaluation_queuedInner :
    queuedInner.applying? .proceed = some (.push (nativeFrame innerMacro)) ∧
      queuedInner.queue = [.push (nativeFrame innerMacro)] ∧
      queuedInner.take? .proceed = some (queuedInner.ran [.work .proceed]) ∧
      queuedInner.ready.isOpen = true ∧ queuedInner.cancel.isCancelled = false ∧
      queuedInner.host.IsTimeless ∧
      ((nativeFrame innerMacro).evaluate queuedInner.host queuedInner.settings false 5
        queuedInner.timeline).commands.map Command.text = ["/c", "/loop 1", "/c", "/loop 1"] ∧
      (∃ timeline, ((nativeFrame innerMacro).evaluate queuedInner.host queuedInner.settings false 5
        queuedInner.timeline).ending = .finished 1 timeline) ∧
      ¬∃ done e', Replays queuedInner.stack 5
        ((nativeFrame innerMacro).evaluate queuedInner.host queuedInner.settings false 5
          queuedInner.timeline) (queuedInner.ran [.work .proceed]) done e' := by
  refine ⟨by rfl, by rfl, by rfl, by rfl, by rfl, dryRun_isTimeless, by rfl, ⟨_, by rfl⟩, ?_⟩
  have hrun : ((queuedInner.ran [.work .proceed]).run? (onItsOwn 22)).isSome = true := by rfl
  refine not_replays_of_stuck ⟨dryRun_isTimeless, by rfl, by rfl⟩ hrun ?_ ?_
  · intro ms branch
    cases branch <;> rfl
  · have hstarted : ((queuedInner.ran [.work .proceed]).started (onItsOwn 22)).length = 2 := by rfl
    rw [hstarted]
    exact (by decide : 2 < 4)

end Engine

end CraftLang
