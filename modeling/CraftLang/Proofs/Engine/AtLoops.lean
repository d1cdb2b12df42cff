import CraftLang.Proofs.Command.Success
import CraftLang.Proofs.Engine.Deferrals
import CraftLang.Proofs.Engine.HeldUp
import CraftLang.Proofs.Engine.Recursion
import CraftLang.Proofs.Engine.Stopping

/-!
What was deferred to the next loop command, at that command. A stop takes all frames off the stack,
and none of them comes to another command. Otherwise the loop has its effect first; a pause then
closes the gate, and when the engine is resumed it goes on as if there had been no pause.
-/

namespace CraftLang

/-- Only a loop command comes to the result of a loop, and its counter says which. -/
theorem Command.Yields.of_loop {command : Command} {kind : CommandKind} {restart : Bool}
    (h : command.Yields ⟨kind, .ok (.loop restart)⟩) :
    ∃ counter, command.kind = .loop counter ∧ kind = .loop counter.next.2 ∧
      counter.next.1.restarts = restart := by
  unfold Yields at h
  split at h
  · next counter hkind =>
      cases h
      exact ⟨counter, hkind, rfl, rfl⟩
  · next counter hkind =>
      rcases hpass : counter.next.1 with left | _ <;> simp [hpass, GateCounter.Pass.outcome] at h
  · exact absurd h.2 nofun

namespace Engine

variable {σ : Type} {u e e' p p' : Engine σ} {event : Event σ} {restart : Bool} {text : String}
  {delay : Nat}

/-- A loop command at the program counter was carried out; it goes back to the start, or it is
exhausted. -/
def HasLooped (e : Engine σ) (restart : Bool) : Prop :=
  ∃ (command : Command) (counter : LoopCounter), command.kind = .loop counter ∧
    e.current? = some { command with kind := .loop counter.next.2 } ∧
    counter.next.1.restarts = restart

/-! ### Where the engine looks -/

theorem Reachable.hasLooped (h : e.Reachable) (hphase : e.phase = .looped restart text delay) :
    e.HasLooped restart := by
  have hwork := h.atWork
  simp only [AtWork, hphase] at hwork
  obtain ⟨command, kind, hcurrent, hleads⟩ := hwork
  obtain ⟨counter, hkind, rfl, hrestart⟩ :=
    (hleads.ends (command.execute_yields e.settings)).of_loop
  exact ⟨command, counter, hkind, hcurrent, hrestart⟩

/-- A loop command that was carried out is followed by a look at the deferred stop. -/
theorem Reachable.proceed?_of_loop (h : e.Reachable) {executed : Executed} {command : Command}
    {counter : LoopCounter} (hphase : e.phase = .running (.done executed) text delay)
    (hcurrent : e.current? = some command) (hkind : command.kind = .loop counter) :
    ∃ e', e.take? .proceed = some e' ∧ e'.phase = .looped counter.next.1.restarts text delay := by
  have hwork := h.atWork
  simp only [AtWork, hphase] at hwork
  obtain ⟨command', hcurrent', -, hleads⟩ := hwork
  obtain rfl := Option.some.inj (hcurrent.symm.trans hcurrent')
  have hyields : command.Yields executed := hleads.ends (command.execute_yields e.settings)
  simp only [Command.Yields, hkind] at hyields
  refine ⟨_, by simp only [take?, proceed?, hphase]; rfl, ?_⟩
  rw [hyields]
  rfl

theorem rest_looksAt (e : Engine σ) (delay : Nat) (deferral : Deferral) :
    (e.rest delay).phase.looksAt deferral = false := by
  unfold rest
  repeat' split
  all_goals cases deferral <;> rfl

theorem applyDeferredPause_looksAt (e : Engine σ) (delay : Nat) (deferral : Deferral) :
    (e.applyDeferredPause delay).phase.looksAt deferral = false := by
  unfold applyDeferredPause
  split
  · cases deferral <;> rfl
  · exact rest_looksAt _ _ _

/-- In a tick a look at the deferred pause follows a look at the deferred stop, and nothing else. -/
theorem tick_looksAt (hphase : e.phase.inTick = true) (hlooks : e.phase.looksAt .stop = false)
    (hstep : e.proceed? = some e') : e'.phase.looksAt .pause = false := by
  cases tickStep_of_inTick hphase hstep with
  | fetched hp hfetch =>
      unfold fetch? at hfetch
      repeat' split at hfetch
      all_goals cases hfetch
      all_goals first | rfl | exact congrArg (Phase.looksAt · .pause) hp
  | started =>
      unfold start
      repeat' split
      all_goals rfl
  | settled =>
      unfold settle
      split
      all_goals first | rfl | exact rest_looksAt _ _ _
  | @performed effect =>
      cases effect
      all_goals
        simp only [perform]
        repeat' split
      all_goals rfl
  | woken | rested => rfl
  | looped hp => simp [hp, Phase.looksAt] at hlooks
  | applied => exact applyDeferredPause_looksAt _ _ _
  | @printed call after =>
      obtain ⟨world, hprinted | ⟨-, hbroken⟩⟩ := e.print_cases call after
      · rw [hprinted]
        cases after <;> rfl
      · rw [hbroken]
        rfl
  | @paused delay =>
      cases delay with
      | none => rfl
      | some delay => exact rest_looksAt _ _ _

/-- The look at a loop takes no frame off the stack. -/
theorem applyLoop_ne_nil (restart : Bool) (text : String) (delay : Nat) (hne : e.stack ≠ []) :
    (e.applyLoop restart text delay).stack ≠ [] := by
  obtain ⟨top, rest, hstack⟩ := List.exists_cons_of_ne_nil hne
  unfold applyLoop
  split
  · exact hne
  · split
    · simp only [hstack]
      split
      · exact List.cons_ne_nil _ _
      · exact hne
    · simp [updateTop, hstack, goto]

/-- The look at the deferred pause comes when a loop has had its effect. -/
theorem on?_loopApplied (hon : e.on? event = some e') (hphase : e'.phase = .loopApplied delay) :
    e.phase = .loopApplied delay ∨
      ∃ branch restart text, event = .work branch ∧ e.phase = .looped restart text delay := by
  cases event with
  | work branch =>
      right
      have hlooked : e'.phase.looksAt .pause = true := by rw [hphase]; rfl
      cases step_of_take? hon with
      | tick htick hproceed =>
          cases hlooks : e.phase.looksAt .stop with
          | false => exact absurd ((tick_looksAt htick hlooks hproceed).symm.trans hlooked) nofun
          | true =>
              unfold Phase.looksAt at hlooks
              split at hlooks
              · next restart text delay' hp _ =>
                  have hstep : e.take? .proceed = some e' := hproceed
                  obtain rfl := eq_applyLoop_of_take? hp hstep
                  rcases e.applyLoop_phase restart text delay' with
                    htop | ⟨call, after, hprinting⟩ | happlied
                  · cases hphase.symm.trans htop
                  · cases hphase.symm.trans hprinting
                  · cases hphase.symm.trans happlied
                    exact ⟨.proceed, restart, text, rfl, hp⟩
              · next hpause => cases hpause
              · cases hlooks
      | round hround =>
          cases hround with
          | begin => cases hcancel : e.cancel.isCancelled <;> simp [goto, hcancel] at hphase
          | @nothing drains => cases drains <;> cases hphase
          | drained | request | ready | unready | tick | empty | rest | emptied | wake | close =>
              cases hphase
      | interrupted | served => cases hphase
      | @applied drains => cases drains <;> cases hphase
  | call asked =>
      cases hon
      exact .inl ((e.receive_leavesWork asked).phase.symm.trans hphase)
  | pass ms | change world =>
      cases hon
      exact .inl hphase

theorem HasLooped.ne_nil (h : e.HasLooped restart) : e.stack ≠ [] := by
  obtain ⟨command, counter, -, hcurrent, -⟩ := h
  intro hnil
  simp [current?, hnil] at hcurrent

/-- Where a loop has had its effect there is its frame. -/
theorem Reachable.ne_nil_of_loopApplied (h : e.Reachable) (hphase : e.phase = .loopApplied delay) :
    e.stack ≠ [] := by
  induction h with
  | spawn => cases hphase
  | @on e e' event hreach hon ih =>
      rcases on?_loopApplied hon hphase with hsame | ⟨branch, restart, text, rfl, hp⟩
      · cases event with
        | work branch =>
            have hlooks := e.applyDeferredPause_looksAt delay .pause
            rw [← eq_applyDeferredPause_of_take? hsame hon, hphase] at hlooks
            cases hlooks
        | call asked =>
            cases hon
            exact (e.receive_leavesWork asked).ne_nil (ih hsame)
        | pass ms | change world =>
            cases hon
            exact ih hsame
      · obtain rfl := eq_applyLoop_of_take? hp hon
        exact applyLoop_ne_nil restart text delay (hreach.hasLooped hp).ne_nil

/-! ### What the engine does there -/

/-- A stop comes first. Its flag is cleared, and the engine is about to tell of it. -/
theorem applyLoop_of_stop (hstop : e.stopAtLoop = true) (restart : Bool) (text : String)
    (delay : Nat) :
    e.applyLoop restart text delay =
      { e with
        stopAtLoop := false
        phase := .printing (.printInfo "Stopping at loop") .clear } := by
  rw [applyLoop, if_pos hstop]
  rfl

/-- Without a stop the loop has its effect on its frame, and nothing else happens. A frame that
holds its commands can always start again. -/
theorem applyLoop_of_parsed {top : Frame} {rest : List Frame} (hstop : e.stopAtLoop = false)
    (hstack : e.stack = top :: rest) (hparsed : top.isProduced = false) (restart : Bool)
    (text : String) (delay : Nat) :
    e.applyLoop restart text delay =
      { e with
        stack :=
          (if restart then { top with index := 0, iterations := top.iterations + 1 }
            else { top with index := top.index + 1 }) :: rest
        phase := .loopApplied delay } := by
  rw [applyLoop, if_neg (by rw [hstop]; exact Bool.false_ne_true)]
  cases restart with
  | false =>
      simp only [updateTop, hstack, if_false, Bool.false_eq_true]
      rfl
  | true =>
      simp only [hstack, Frame.restart, hparsed, if_true, if_false, Bool.false_eq_true]
      rfl

theorem take?_looped (hphase : e.phase = .looped restart text delay) :
    e.take? .proceed = some (e.applyLoop restart text delay) := by
  simp only [take?, proceed?, hphase]

theorem take?_of_deferredPause (hphase : e.phase = .loopApplied delay)
    (hpause : e.pauseAtLoop = true) :
    e.take? .proceed = some
      { e with
        pauseAtLoop := false
        phase := .printing (.printInfo "Pausing at loop") (.pause (some delay)) } := by
  simp only [take?, proceed?, hphase, applyDeferredPause, hpause, if_true]
  rfl

/-- An engine that differs from another one by a deferral at most is that engine with its own flag
and its own published status. -/
theorem eq_arming_of_alike {deferral : Deferral}
    (halike : u.disarmed deferral = e.disarmed deferral) :
    u = e.arming deferral (u.isArmed deferral) u.published := by
  have hsame := congrArg (·.arming deferral (u.isArmed deferral) u.published) halike
  simp only [disarmed, arming_arming, arming_self] at hsame
  exact hsame

/-- With a deferred pause the engine is about to be held up where it goes on without it. -/
theorem aboutToPause_of_deferredPause (hphase : e.phase = .loopApplied delay)
    (hpause : e.pauseAtLoop = true) (hstack : e.stack ≠ []) (hqueue : e.queue = [])
    (hready : e.ready.isOpen = true) (hcancel : e.cancel.isCancelled = false)
    (hstep : e.take? .proceed = some p) (published : EngineStatus) :
    AboutToPause delay ((e.arming .pause false published).rest delay) p := by
  rw [take?_of_deferredPause hphase hpause, Option.some.injEq] at hstep
  have hcancel' : (e.arming .pause false published).cancel.isCancelled = false := by
    rwa [arming_cancel]
  rw [rest_of_awake hcancel', ← hstep]
  refine ⟨⟨hstack, hqueue, hready, hcancel⟩, ⟨_, _, rfl⟩, .inl ⟨_, rfl⟩, ?_⟩
  by_cases hzero : delay = 0
  · exact .inl ⟨hzero, if_pos hzero⟩
  · exact .inr ⟨hzero, _, if_neg hzero, Nat.le_refl _⟩

/-- An engine with a deferred pause, and one without it that has come to the same loop. Once the
gate of the one is closed, the other may be as slow; and with the resume both come to the same. -/
theorem resumes_alike (hreach : e.Reachable) (halike : u.disarmed .pause = e.disarmed .pause)
    (hnone : u.pauseAtLoop = false) (hphase : e.phase = .loopApplied delay)
    (hpause : e.pauseAtLoop = true) (hqueue : e.queue = [])
    (hready : e.ready.isOpen = true) (hcancel : e.cancel.isCancelled = false)
    (hstep : e.take? .proceed = some p) {waiting : List (Event σ)}
    (hbe : ∀ event ∈ waiting, event.letsBe = true) (hrun : p.run? waiting = some p') :
    p.started waiting = [] ∧
      (p'.phase = .broken ∨ (∃ call, p'.phase = .printing call (.pause (some delay))) ∨
        p'.phase = .pausing (some delay) ∨
        ∃ u' q, u.run? (.work .proceed :: p.besides waiting) = some u' ∧
          q.phase = .fetching ∧ Goes [] p'.resume [] q ∧ Goes [] u'.resume [] q) := by
  have habout := aboutToPause_of_deferredPause hphase hpause (hreach.ne_nil_of_loopApplied hphase)
    hqueue hready hcancel hstep u.published
  obtain ⟨hstarted, hend⟩ := habout.run hbe hrun
  refine ⟨hstarted, hend.imp_right fun ⟨u', hrun', hnext⟩ => ?_⟩
  rcases hnext with hsoon | hheld
  · exact hsoon.place.imp_right .inl
  · obtain ⟨q, hfetching, hgoes, hgoes'⟩ := hheld.resume
    have hsame : u = e.arming .pause false u.published := hnone ▸ eq_arming_of_alike halike
    refine .inr (.inr ⟨u', q, ?_, hfetching, hgoes, hgoes'⟩)
    have hrested : u.on? (.work .proceed) =
      some ((e.arming .pause false u.published).rest delay) := by
      have hp : u.phase = .loopApplied delay := by rw [hsame, arming_phase, hphase]
      rw [← hsame]
      simp only [on?, take?, proceed?, hp, applyDeferredPause, hnone, if_false, Bool.false_eq_true]
    exact run?_cons_eq_some.mpr ⟨_, hrested, hrun'⟩

end Engine

namespace Dated

variable {σ : Type} {d d' : Dated σ} {events : List (Event σ)}

/-- What happens to an engine happens to it with the numbers of its calls. -/
theorem exists_on?_of_engine {event : Event σ} {e : Engine σ} (hon : d.engine.on? event = some e) :
    ∃ d', d.on? event = some d' ∧ d'.engine = e := by
  rw [on?, hon]
  exact ⟨_, rfl, rfl⟩

/-- Once all frames are off the stack, none of them comes to another command. Requests for other
frames may be left in the queue. -/
theorem Valid.startedFrom_of_cleared (h : d.Valid) (hon : d.on? (.work .proceed) = some d')
    (hstack : d'.engine.stack = []) (hqueue : d'.engine.queue = d.engine.queue)
    {d₂ : Dated σ} (hrun : d'.run? events = some d₂) :
    d'.startedFrom (· ∈ d.origins) events = [] := by
  have hvalid := h.on hon
  have hsent : d'.sent = d.sent := by
    rw [sent_of_on? hon, hqueue]
    simp
  have hcalls : d'.calls = d.calls := by
    rw [calls, asked_of_on? hon]
    exact congrArg List.length (List.append_nil _)
  have horigins : d'.origins = [] := by
    rw [← List.length_eq_zero_iff, hvalid.origins_length, hstack, List.length_nil]
  -- What is still to come goes back to the first request in the queue, or to a later call.
  obtain ⟨first, later, hfirst⟩ : ∃ first later, d.sent ++ [d.calls] = first :: later :=
    List.exists_cons_of_ne_nil (by simp)
  have hsince : Since first d' := by
    intro call hmem
    rw [horigins, List.nil_append, hsent, hcalls, hfirst] at hmem
    have hsorted := h.sorted
    rw [hfirst, List.pairwise_cons] at hsorted
    rcases List.mem_cons.mp hmem with rfl | hlater
    · exact Nat.le_refl _
    · exact Nat.le_of_lt (hsorted.1 call hlater)
  refine startedFrom_of_since (fun call hcall => ?_) hvalid hsince hrun
  exact h.before call (of_decide_eq_true hcall) first (by rw [hfirst]; exact List.mem_cons_self)

/-- While the engine is about to take its frames off the stack, none of them comes to another
command; nor after that, also if the host breaks down. -/
theorem Valid.startedFrom_of_printing (h : d.Valid) {call : HostCall}
    (hphase : d.engine.phase = .printing call .clear) {d₂ : Dated σ}
    (hrun : d.run? events = some d₂) : d.startedFrom (· ∈ d.origins) events = [] := by
  induction events generalizing d with
  | nil => rfl
  | cons event events ih =>
      obtain ⟨d₁, hon, hrest⟩ := run?_cons_eq_some.mp hrun
      have hengine := on?_engine hon
      have hnone : d.engine.startedOn event = [] := by
        cases event with
        | work branch => simp [Engine.startedOn, Engine.starting?, hphase]
        | call | pass | change => rfl
      have hfirst : d.startedFromOn (· ∈ d.origins) event = [] :=
        List.sublist_nil.mp (hnone ▸ d.startedFromOn_sublist (· ∈ d.origins) event)
      rw [startedFrom_cons hon, hfirst, List.nil_append]
      cases hstep : event.isStep with
      | false =>
          have hunder := Engine.undergoes_of_on hstep hengine
          have hlength : d₁.engine.stack.length = d.engine.stack.length := by
            simpa using congrArg List.length hunder.stack
          have horigins : d₁.origins = d.origins := by
            simp [origins_of_on? hon, hlength]
          rw [← horigins]
          exact ih (h.on hon) (hunder.phase.trans hphase) hrest
      | true =>
          cases event with
          | call | pass | change => cases hstep
          | work branch =>
              obtain ⟨rfl, hproceed⟩ :=
                Engine.proceed_of_take? (by simp [Engine.isWaiting, hphase]) hengine
              simp only [Engine.proceed?, hphase, Option.some.injEq] at hproceed
              obtain ⟨world, hprinted | ⟨-, hbroken⟩⟩ := d.engine.print_cases call .clear
              · rw [hprinted] at hproceed
                exact h.startedFrom_of_cleared hon (by rw [← hproceed]; rfl)
                  (by rw [← hproceed]; rfl) hrest
              · rw [hbroken] at hproceed
                have hended : d₁.engine.phase.hasEnded = true := by rw [← hproceed]; rfl
                have hnothing := (Engine.run?_of_hasEnded hended (run?_engine_of_some hrest)).2
                exact List.sublist_nil.mp (hnothing ▸ startedFrom_sublist _ hrest)

theorem Valid.stops (h : d.Valid) {restart : Bool} {text : String} {delay : Nat}
    (hphase : d.engine.phase = .looped restart text delay) (hstop : d.engine.stopAtLoop = true) :
    ∃ d', d.on? (.work .proceed) = some d' ∧
      d'.engine =
        { d.engine with
          stopAtLoop := false
          phase := .printing (.printInfo "Stopping at loop") .clear } ∧
      ∀ events d₂, d'.run? events = some d₂ → d'.startedFrom (· ∈ d.origins) events = [] := by
  have hstep : d.engine.on? (.work .proceed) = some _ :=
    (Engine.take?_looped hphase).trans (congrArg some (Engine.applyLoop_of_stop hstop _ _ _))
  obtain ⟨d', hon, hengine⟩ := exists_on?_of_engine hstep
  refine ⟨d', hon, hengine, fun events d₂ hrun => ?_⟩
  have horigins : d'.origins = d.origins := by simp [origins_of_on? hon, hengine]
  rw [← horigins]
  exact (h.on hon).startedFrom_of_printing (by rw [hengine]) hrun

/-- What is deferred to the next loop takes effect there, once, and has no part in anything else. -/
structure DefersToLoops (d : Dated σ) : Prop where
  /-- A step of a tick leaves the flag of a deferral alone and is the same whatever the flag is and
  whatever callers have been told, unless it is the look at the flag. -/
  elsewhere {deferral : Deferral} (hphase : d.engine.phase.inTick = true)
    (hlooks : d.engine.phase.looksAt deferral = false) :
    (∀ e, d.engine.proceed? = some e → e.isArmed deferral = d.engine.isArmed deferral) ∧
      ∀ armed published, (d.engine.arming deferral armed published).proceed? =
        d.engine.proceed?.map (·.arming deferral armed published)
  /-- In a run without the look the flag is what callers make of it. Whether or not it was set
  before, the run is possible without the calls that set it as well, and it leads to the same but
  for the flag and what is published of it. -/
  between {deferral : Deferral} {events : List (Event σ)} {e : Engine σ}
    (hrun : d.engine.run? events = some e) (hlooks : d.engine.looks deferral events = false) :
    e.isArmed deferral = (d.engine.isArmed deferral || events.any (·.defers deferral)) ∧
      ∀ armed, ∃ u, (d.engine.arming deferral armed d.engine.published).run?
          (events.filter (!·.defers deferral)) = some u ∧
        u.isArmed deferral = armed ∧ u.disarmed deferral = e.disarmed deferral
  /-- When a loop command was carried out, the look at the stop is next. -/
  loops {executed : Executed} {text : String} {delay : Nat} {command : Command}
    {counter : LoopCounter} (hphase : d.engine.phase = .running (.done executed) text delay)
    (hcurrent : d.engine.current? = some command) (hkind : command.kind = .loop counter) :
    ∃ e, d.engine.take? .proceed = some e ∧ e.phase = .looped counter.next.1.restarts text delay
  /-- The look at the stop comes with a loop command, whether it restarts or is exhausted. -/
  looped {restart : Bool} {text : String} {delay : Nat}
    (hphase : d.engine.phase = .looped restart text delay) : d.engine.HasLooped restart
  /-- The look at the pause comes right after the step with the look at the stop. -/
  loopApplied {event : Event σ} {e : Engine σ} {delay : Nat} (hon : d.engine.on? event = some e)
    (hphase : e.phase = .loopApplied delay) :
    d.engine.phase = .loopApplied delay ∨ ∃ branch restart text, event = .work branch ∧
      d.engine.phase = .looped restart text delay
  /-- A deferred stop clears its flag and nothing else, and then the engine tells of it to take all
  frames off the stack. These frames come to no other command, whatever callers do. -/
  stops {restart : Bool} {text : String} {delay : Nat}
    (hphase : d.engine.phase = .looped restart text delay) (hstop : d.engine.stopAtLoop = true) :
    ∃ d', d.on? (.work .proceed) = some d' ∧
      d'.engine =
        { d.engine with
          stopAtLoop := false
          phase := .printing (.printInfo "Stopping at loop") .clear } ∧
      ∀ events d₂, d'.run? events = some d₂ → d'.startedFrom (· ∈ d.origins) events = []
  /-- What the engine tells of it tells with its next step, and until then its frames are there.
  After a stop that step takes them off the stack, and after a pause the gate is next. A host that
  breaks down at this takes the engine with it. -/
  prints {call : HostCall} {after : Aftermath} {calls : List (Event σ)} {e : Engine σ}
    (hphase : d.engine.phase = .printing call after) (hcalls : ∀ event ∈ calls,
    event.isStep = false)
    (hrun : d.engine.run? calls = some e) :
    e.stack.map Frame.unfed = d.engine.stack.map Frame.unfed ∧ e.retired = d.engine.retired ∧
      (∀ branch, branch ≠ .proceed → e.take? branch = none) ∧
      (e.take? .proceed = some ({ e with world := e.worldAfter [call] }.conclude after) ∨
        (e.ask call).1.toOption = none ∧
          e.take? .proceed = some { e with world := e.worldAfter [call], phase := .broken })
  /-- Without a stop the frame of the loop starts again, or it goes on. -/
  turns {restart : Bool} {text : String} {delay : Nat} {top : Frame} {rest : List Frame}
    (hphase : d.engine.phase = .looped restart text delay) (hstop : d.engine.stopAtLoop = false)
    (hstack : d.engine.stack = top :: rest) (hparsed : top.isProduced = false) :
    d.engine.take? .proceed = some
      { d.engine with
        stack :=
          (if restart then { top with index := 0, iterations := top.iterations + 1 }
            else { top with index := top.index + 1 }) :: rest
        phase := .loopApplied delay }
  /-- Then a deferred pause clears its flag, and the engine tells of it. -/
  pauses {delay : Nat} (hphase : d.engine.phase = .loopApplied delay)
    (hpause : d.engine.pauseAtLoop = true) :
    d.engine.take? .proceed = some
      { d.engine with
        pauseAtLoop := false
        phase := .printing (.printInfo "Pausing at loop") (.pause (some delay)) }
  /-- It closes the gate, and the delay of the loop begins. -/
  closes {delay : Nat} (hphase : d.engine.phase = .pausing (some delay)) :
    d.engine.take? .proceed = some ({ d.engine with pause := .closed }.rest delay)
  /-- From the look on the engine starts no command until it is resumed, if nothing else is asked of
  it. (A request resumes it, clears its stack or moves its program counter, and without a ready host
  its stack is cleared.) Once its gate is closed, it comes by itself with the resume to an engine to
  which it comes without the deferred pause, in a host that has got the same message, and after the
  same time. -/
  resumes {leading waiting : List (Event σ)} {e p p' : Engine σ} {delay : Nat}
    (hleading : d.engine.run? leading = some e) (hlooks : d.engine.looks .pause leading = false)
    (hphase : e.phase = .loopApplied delay) (hpause : e.pauseAtLoop = true) (hqueue : e.queue = [])
    (hready : e.ready.isOpen = true) (hcancel : e.cancel.isCancelled = false)
    (hstep : e.take? .proceed = some p) (hbe : ∀ event ∈ waiting, event.letsBe = true)
    (hwaiting : p.run? waiting = some p') :
    p.started waiting = [] ∧
      (p'.phase = .broken ∨ (∃ call, p'.phase = .printing call (.pause (some delay))) ∨
        p'.phase = .pausing (some delay) ∨
        ∃ u q, (d.engine.arming .pause false d.engine.published).run?
            (leading.filter (!·.defers .pause) ++ .work .proceed :: p.besides waiting) = some u ∧
          q.phase = .fetching ∧ Engine.Goes [] p'.resume [] q ∧ Engine.Goes [] u.resume [] q)
  /-- In any run the engine acts on what is deferred no more often than callers defer it, but for
  what was deferred before. -/
  once {deferral : Deferral} {events : List (Event σ)} {e : Engine σ}
    (hrun : d.engine.run? events = some e) :
    d.engine.acts deferral events + (e.isArmed deferral).toNat ≤
      events.countP (·.defers deferral) + (d.engine.isArmed deferral).toNat

/-- It is so for every engine, whatever callers have asked of it and whenever they did. -/
theorem deferrals_act_at_loops (host : Host σ) (settings : Settings) (world : σ) (catalog : Catalog)
    {before : List (Event σ)} (hbefore : (spawn host settings world catalog).run? before = some d) :
    DefersToLoops d := by
  have hvalid := (spawn_valid host settings world catalog).run hbefore
  have hreach := hvalid.reachable
  exact {
    elsewhere := fun hphase hlooks => by
      refine ⟨fun e hstep => ?_, Engine.tick_arming hphase hlooks⟩
      have htake : d.engine.take? .proceed = some e := hstep
      exact Engine.isArmed_of_take? hlooks htake
    between := fun {deferral} _ _ hrun hlooks => by
      have halike (armed : Bool) :
          (d.engine.arming deferral armed d.engine.published).disarmed deferral =
            d.engine.disarmed deferral :=
        Engine.disarmed_arming rfl
      refine ⟨(Engine.run?_alike (halike false) hlooks hrun).1, fun armed => ?_⟩
      obtain ⟨-, u, hrun', hsame, harmed⟩ := Engine.run?_alike (halike armed) hlooks hrun
      exact ⟨u, hrun', harmed.trans Engine.arming_isArmed, hsame⟩
    loops := hreach.proceed?_of_loop
    looped := hreach.hasLooped
    loopApplied := Engine.on?_loopApplied
    stops := hvalid.stops
    turns := fun hphase hstop hstack hparsed => (Engine.take?_looped hphase).trans
      (congrArg some (Engine.applyLoop_of_parsed hstop hstack hparsed _ _ _))
    prints := fun hphase hcalls hrun => Engine.prints_next hphase hcalls hrun
    pauses := Engine.take?_of_deferredPause
    closes := fun hphase => by simp only [Engine.take?, Engine.proceed?, hphase, Engine.close]
    resumes := fun hleading hlooks hphase hpause hqueue hready hcancel hstep hbe hwaiting => by
      obtain ⟨-, u, hrun, halike, hnone⟩ :=
        Engine.run?_alike (u := d.engine.arming .pause false d.engine.published)
          (Engine.disarmed_arming rfl) hlooks hleading
      obtain ⟨hstarted, hend⟩ := Engine.resumes_alike (hreach.run hleading) halike
        (hnone.trans Engine.arming_isArmed) hphase hpause hqueue hready hcancel hstep hbe hwaiting
      refine ⟨hstarted, hend.imp_right (·.imp_right (·.imp_right ?_))⟩
      rintro ⟨u', q, hrun', hmet⟩
      exact ⟨u', q, by rw [Engine.run?_append, hrun, Option.bind_some, hrun'], hmet⟩
    once := Engine.acts_le }

/-- A dry run with a macro within a macro. It starts shortly before the loop command of the inner
one. -/
def nestedLoop (events : List (Event (DryRun × Library))) : Dated (DryRun × Library) :=
  (spawn DryRun.host.withLibrary {} ({}, { macros := [Engine.outerMacro, Engine.innerMacro] })).ran
    (.call (.enqueue Engine.outerMacro none) :: Engine.onItsOwn 26 ++ events)

def deferBoth : List (Event (DryRun × Library)) :=
  .call (.pause true) :: .call (.stop true) :: Engine.onItsOwn 7

def stoppingAtLoop : Dated (DryRun × Library) := (nestedLoop deferBoth).ran [.work .proceed]

def thenOther : List (Event (DryRun × Library)) :=
  .call (.enqueue { name := "Other", contents := "/d" } none) :: Engine.onItsOwn 9

def deferPause : List (Event (DryRun × Library)) :=
  .call (.pause true) :: Engine.onItsOwn 8

def loopApplied : Engine (DryRun × Library) := (nestedLoop []).engine.ran deferPause

def pausingAtLoop : Engine (DryRun × Library) := loopApplied.ran [.work .proceed]

def whilePaused : List (Event (DryRun × Library)) := Engine.onItsOwn 6 ++ [.pass 500]

theorem deferrals_act_at_loops_nested :
    ((nestedLoop []).engine.ran deferBoth).isArmed .stop = true ∧
    (stoppingAtLoop.engine.isArmed .pause = true ∧ stoppingAtLoop.engine.stack.length = 2 ∧
      (stoppingAtLoop.engine.ran [.work .proceed]).stack = [] ∧
      (stoppingAtLoop.engine.take? .proceed =
          some ({ stoppingAtLoop.engine with
            world := stoppingAtLoop.engine.worldAfter
              [.printInfo "Stopping at loop"] }.conclude .clear) ∨
        (stoppingAtLoop.engine.ask (.printInfo "Stopping at loop")).1.toOption = none ∧
          stoppingAtLoop.engine.take? .proceed = some { stoppingAtLoop.engine with
            world := stoppingAtLoop.engine.worldAfter [.printInfo "Stopping at loop"]
            phase := .broken }) ∧
      (stoppingAtLoop.engine.started thenOther).map Command.text = ["/d"] ∧
      stoppingAtLoop.startedFrom (· ∈ [0, 0]) thenOther = []) ∧
    ((pausingAtLoop.ran whilePaused).published.state = .paused ∧
      ∃ u q, (nestedLoop []).engine.run? (Engine.onItsOwn 8 ++ .work .proceed ::
          [.change (pausingAtLoop.ran [.work .proceed]).world, .pass 500]) = some u ∧
        q.phase = .fetching ∧
        Engine.Goes [] (pausingAtLoop.ran whilePaused).resume [] q ∧
        Engine.Goes [] u.resume [] q) ∧
    (nestedLoop []).engine.acts .stop (deferBoth ++ [.work .proceed]) ≤ 1 := by
  have hspawn (events : List (Event (DryRun × Library)))
      (hrun : ((spawn DryRun.host.withLibrary {}
        ({}, { macros := [Engine.outerMacro, Engine.innerMacro] })).run?
          (.call (.enqueue Engine.outerMacro none) :: Engine.onItsOwn 26 ++ events)).isSome =
            true) :
      DefersToLoops (nestedLoop events) :=
    deferrals_act_at_loops DryRun.host.withLibrary {}
      ({}, { macros := [Engine.outerMacro, Engine.innerMacro] }) {} (run?_eq_some_ran hrun)
  have hstart := hspawn [] (by rfl)
  have hlooped := hspawn deferBoth (by rfl)
  have hstopping := hspawn (deferBoth ++ [.work .proceed]) (by rfl)
  have hboth : (nestedLoop []).engine.run? deferBoth = some _ := Engine.run?_eq_some_ran (by rfl)
  refine ⟨(hstart.between hboth (by rfl)).1, ?_, ⟨by rfl, ?_⟩, ?_⟩
  · obtain ⟨d', hon, hengine, hnone⟩ := hlooped.stops (by rfl) (by rfl)
    obtain rfl : stoppingAtLoop = d' :=
      Option.some.inj ((show some stoppingAtLoop = (nestedLoop deferBoth).on? (.work .proceed) by
        rfl).trans hon)
    have hother : stoppingAtLoop.run? thenOther = some _ := run?_eq_some_ran (by rfl)
    have hsame : (nestedLoop (deferBoth ++ [.work .proceed])).engine = stoppingAtLoop.engine :=
      by rfl
    have hprinting : (nestedLoop (deferBoth ++ [.work .proceed])).engine.phase =
        .printing (.printInfo "Stopping at loop") .clear := by rfl
    obtain ⟨-, -, -, hprinted⟩ :=
      hstopping.prints hprinting (List.forall_mem_nil _) (Engine.run?_nil _)
    rw [hsame] at hprinted
    exact ⟨by rw [hengine]; rfl, by rw [hengine]; rfl, by rfl, hprinted, by rfl, hnone _ _ hother⟩
  · have hleading : (nestedLoop []).engine.run? deferPause = some loopApplied :=
      Engine.run?_eq_some_ran (by rfl)
    have hstep : loopApplied.take? .proceed = some pausingAtLoop := by rfl
    have hwaiting : pausingAtLoop.run? whilePaused = some _ := Engine.run?_eq_some_ran (by rfl)
    have hbe : ∀ event ∈ whilePaused, event.letsBe = true := List.all_eq_true.mp (by rfl)
    have happlied : loopApplied.phase = .loopApplied 0 := by rfl
    obtain ⟨-, hmet⟩ := hstart.resumes hleading (by rfl) happlied (by rfl) (by rfl) (by rfl)
      (by rfl) hstep hbe hwaiting
    have hfresh : (nestedLoop []).engine.arming .pause false (nestedLoop []).engine.published =
        (nestedLoop []).engine :=
      Engine.arming_self (nestedLoop []).engine .pause
    have hbesides : pausingAtLoop.besides whilePaused =
        [.change (pausingAtLoop.ran [.work .proceed]).world, .pass 500] := by
      rfl
    have hblocked : (pausingAtLoop.ran whilePaused).phase = .blocked false := by rfl
    rw [hfresh, hbesides, hblocked] at hmet
    rcases hmet with hbroken | ⟨call, hprinting⟩ | hpausing | hmet
    · cases hbroken
    · cases hprinting
    · cases hpausing
    · exact hmet
  · have hstopped : (nestedLoop []).engine.run? (deferBoth ++ [.work .proceed]) = some _ :=
      Engine.run?_eq_some_ran (by rfl)
    have honce := @DefersToLoops.once _ _ hstart .stop _ _ hstopped
    exact Nat.le_trans (Nat.le_add_right _ _) (Nat.le_trans honce (Nat.le_of_eq (by rfl)))

end Dated

end CraftLang
