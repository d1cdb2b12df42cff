import CraftLang.Engine.Run
import CraftLang.Proofs.Engine.Undisturbed

/-!
Schedules of an engine by itself. How time passes between its steps makes no difference to an
engine whose host does not look at the clock: when it goes on may change, and nothing else.
-/

namespace CraftLang

def Host.IsTimeless {σ : Type} (host : Host σ) : Prop :=
  ∀ now now' call world, host.answer now call world = host.answer now' call world

def Phase.untimed : Phase → Phase
  | .suspended _ program text delay => .suspended 0 program text delay
  | .resting _ => .resting 0
  | phase => phase

namespace Engine

variable {σ : Type}

def untimed (e : Engine σ) : Engine σ :=
  { e with now := 0, phase := e.phase.untimed }

/-! ### Steps do not look at the clock -/

section

variable {e : Engine σ}

@[simp] theorem untimed_catalog : e.untimed.catalog = e.catalog := rfl

@[simp] theorem untimed_pause : e.untimed.pause = e.pause := rfl

@[simp] theorem untimed_ready : e.untimed.ready = e.ready := rfl

@[simp] theorem untimed_cancel : e.untimed.cancel = e.cancel := rfl

@[simp] theorem untimed_pauseAtLoop : e.untimed.pauseAtLoop = e.pauseAtLoop := rfl

@[simp] theorem untimed_stopAtLoop : e.untimed.stopAtLoop = e.stopAtLoop := rfl

@[simp] theorem untimed_queue : e.untimed.queue = e.queue := rfl

@[simp] theorem untimed_stack : e.untimed.stack = e.stack := rfl

@[simp] theorem untimed_phase : e.untimed.phase = e.phase.untimed := rfl

theorem ask_untimed (h : e.host.IsTimeless) (call : HostCall) :
    e.untimed.ask call = ((e.ask call).1, (e.ask call).2.untimed) := by
  have hanswer := h 0 e.now call e.world
  simp only [ask, untimed, hanswer]

theorem updateTop_untimed (f : Frame → Frame) :
    e.untimed.updateTop f = (e.updateTop f).untimed := by
  obtain ⟨host, settings, world, catalog, now, pause, ready, cancel, pauseAtLoop, stopAtLoop,
    queue, published, stack, retired, phase⟩ := e
  cases stack <;> rfl

theorem pop_untimed : e.untimed.pop = e.pop.untimed := by
  obtain ⟨host, settings, world, catalog, now, pause, ready, cancel, pauseAtLoop, stopAtLoop,
    queue, published, stack, retired, phase⟩ := e
  cases stack <;> rfl

theorem rest_untimed (delay : Nat) : (e.untimed.rest delay).untimed = (e.rest delay).untimed := by
  cases hcancel : e.cancel.isCancelled with
  | true =>
      simp only [rest, untimed_cancel, hcancel, if_true]
      rfl
  | false =>
      simp only [rest, untimed_cancel, hcancel, if_false, Bool.false_eq_true]
      split <;> rfl

theorem untimed_untimed (e : Engine σ) : e.untimed.untimed = e.untimed := by
  obtain ⟨host, settings, world, catalog, now, pause, ready, cancel, pauseAtLoop, stopAtLoop,
    queue, published, stack, retired, phase⟩ := e
  cases phase <;> rfl

theorem perform_untimed (h : e.host.IsTimeless) (effect : Effect)
    (next : effect.Reply → Action Executed) (text : String) (delay : Nat) :
    (e.untimed.perform effect next text delay).untimed =
      (e.perform effect next text delay).untimed := by
  cases effect with
  | host call =>
      simp only [perform, ask_untimed h]
      rcases e.ask call with ⟨failure | reply, e₁⟩ <;> rfl
  | knowsAction name =>
      simp only [perform, ask_untimed h, untimed_catalog]
      split
      · rfl
      · rcases e.ask .craftActions with ⟨failure | names, e₁⟩ <;> rfl
  | sleep ms =>
      cases hcancel : e.cancel.isCancelled with
      | true =>
          simp only [perform, untimed_cancel, hcancel, if_true]
          rfl
      | false =>
          simp only [perform, untimed_cancel, hcancel, if_false, Bool.false_eq_true]
          split <;> rfl

theorem settle_untimed (result : Except CommandError Outcome) (text : String) (delay : Nat) :
    (e.untimed.settle result text delay).untimed = (e.settle result text delay).untimed := by
  cases result with
  | error error => rfl
  | ok outcome =>
      cases outcome with
      | proceed =>
          simp only [settle]
          rw [updateTop_untimed, rest_untimed]
      | skipped =>
          simp only [settle]
          rw [updateTop_untimed]
          rfl
      | loop | pause | gateComplete => rfl
      | push frame =>
          simp only [settle]
          rw [updateTop_untimed]
          exact rest_untimed (e := { e.updateTop Frame.advance with stack := _ }) delay

theorem applyLoop_untimed (restart : Bool) (text : String) (delay : Nat) :
    (e.untimed.applyLoop restart text delay).untimed =
      (e.applyLoop restart text delay).untimed := by
  cases hstop : e.stopAtLoop with
  | true =>
      simp only [applyLoop, untimed_stopAtLoop, hstop, if_true]
      rfl
  | false =>
      cases restart with
      | false =>
          simp only [applyLoop, untimed_stopAtLoop, hstop, if_false, Bool.false_eq_true,
            updateTop_untimed]
          rfl
      | true =>
          simp only [applyLoop, untimed_stopAtLoop, untimed_stack, hstop, if_true, if_false,
            Bool.false_eq_true]
          split
          · rfl
          · split <;> rfl

theorem applyDeferredPause_untimed (delay : Nat) :
    (e.untimed.applyDeferredPause delay).untimed = (e.applyDeferredPause delay).untimed := by
  cases hpause : e.pauseAtLoop with
  | true =>
      simp only [applyDeferredPause, untimed_pauseAtLoop, hpause, if_true]
      rfl
  | false =>
      simp only [applyDeferredPause, untimed_pauseAtLoop, hpause, if_false, Bool.false_eq_true]
      exact rest_untimed delay

theorem print_untimed (h : e.host.IsTimeless) (call : HostCall) (after : Aftermath) :
    (e.untimed.print call after).untimed = (e.print call after).untimed := by
  simp only [print, ask_untimed h]
  rcases e.ask call with ⟨failure | reply, e₁⟩
  · rfl
  · cases after with
    | pause | clear => rfl
    | pop =>
        simp only [conclude]
        rw [pop_untimed]
        rfl

theorem close_untimed (delay : Option Nat) :
    (e.untimed.close delay).untimed = (e.close delay).untimed := by
  cases delay with
  | none => rfl
  | some delay => exact rest_untimed (e := { e with pause := .closed }) delay

theorem fetch?_untimed : e.untimed.fetch?.map untimed = e.fetch?.map untimed := by
  simp only [fetch?, untimed_stack]
  split
  · rfl
  · next frame frames _ =>
      rcases hfetch : frame.fetchStep with ⟨fetched, frame'⟩
      cases fetched with
      | command command => rfl
      | finished =>
          simp only [Option.map_some]
          rw [pop_untimed]
          rfl
      | failed | waiting => rfl
      | again =>
          simp only [Option.map_some]
          exact congrArg some (untimed_untimed { e with stack := frame' :: frames })

theorem start_untimed (h : e.host.IsTimeless) (command : Command) :
    (e.untimed.start command).untimed = (e.start command).untimed := by
  simp only [start, ask_untimed h]
  split
  · rcases e.ask (.draw command.modifiers.wait.width) with ⟨failure | drawn, e₁⟩ <;> rfl
  · rfl

def IsDue (e : Engine σ) : Prop :=
  ∀ wakeAt ∈ e.deadline?, wakeAt ≤ e.now

/-- A step of an engine that need not wait for a time is the same without the clock. -/
theorem proceed?_untimed (h : e.host.IsTimeless) (hqueue : e.queue = []) (hdue : e.IsDue) :
    e.untimed.proceed?.map untimed = e.proceed?.map untimed := by
  cases hp : e.phase with
  | top | draining | emptied | closing | stopped | broken =>
      simp only [proceed?, untimed_phase, hp, Phase.untimed] <;> rfl
  | taken drains =>
      simp only [proceed?, untimed_phase, hp, Phase.untimed, untimed_queue, hqueue]
      cases drains <;> rfl
  | checkingReady =>
      cases hready : e.ready.isOpen <;>
        simp only [proceed?, untimed_phase, hp, Phase.untimed, untimed_ready, hready] <;> rfl
  | checkingPause =>
      cases hpause : e.pause.isOpen <;> cases hframes : e.stack.isEmpty <;>
        simp only [proceed?, untimed_phase, hp, Phase.untimed, untimed_pause, untimed_stack, hpause,
          hframes] <;> rfl
  | blocked forReady =>
      cases forReady <;> cases hready : e.ready.isOpen <;> cases hpause : e.pause.isOpen <;>
        simp only [proceed?, untimed_phase, hp, Phase.untimed, untimed_ready, untimed_pause, hready,
          hpause] <;> rfl
  | fetching =>
      simp only [proceed?, untimed_phase, hp, Phase.untimed]
      exact fetch?_untimed
  | drawing command =>
      simp only [proceed?, untimed_phase, hp, Phase.untimed]
      exact congrArg some (start_untimed h command)
  | running program text delay =>
      cases program with
      | done executed =>
          simp only [proceed?, untimed_phase, hp, Phase.untimed, updateTop_untimed]
          exact congrArg some (settle_untimed executed.result text delay)
      | call effect next =>
          simp only [proceed?, untimed_phase, hp, Phase.untimed]
          exact congrArg some (perform_untimed h effect next text delay)
  | suspended wakeAt program text delay =>
      have hwakeAt : wakeAt ≤ e.now := hdue wakeAt (by simp only [deadline?, hp, Option.mem_def])
      simp only [proceed?, untimed_phase, hp, Phase.untimed, hwakeAt, if_true]
      rfl
  | looped restart text delay =>
      simp only [proceed?, untimed_phase, hp, Phase.untimed]
      exact congrArg some (applyLoop_untimed restart text delay)
  | loopApplied delay =>
      simp only [proceed?, untimed_phase, hp, Phase.untimed]
      exact congrArg some (applyDeferredPause_untimed delay)
  | printing call after =>
      simp only [proceed?, untimed_phase, hp, Phase.untimed]
      exact congrArg some (print_untimed h call after)
  | pausing delay =>
      simp only [proceed?, untimed_phase, hp, Phase.untimed]
      exact congrArg some (close_untimed delay)
  | resting wakeAt =>
      have hwakeAt : wakeAt ≤ e.now := hdue wakeAt (by simp only [deadline?, hp, Option.mem_def])
      simp only [proceed?, untimed_phase, hp, Phase.untimed, hwakeAt, if_true]
      rfl

end

/-! ### One schedule and another -/

/-- An engine that nobody has asked for anything, and whose host does not look at the clock. -/
structure Secluded (e : Engine σ) : Prop where
  host : e.host.IsTimeless
  cancel : e.cancel.isCancelled = false
  queue : e.queue = []

variable {e e' a a' : Engine σ}

theorem Secluded.congr (h : Secluded a) (hsame : e.untimed = a.untimed) : Secluded e where
  host := by
    have hhost : e.host = a.host := (congrArg Engine.host hsame :)
    exact hhost ▸ h.host
  cancel := by
    have hcancel : e.cancel = a.cancel := (congrArg Engine.cancel hsame :)
    exact hcancel ▸ h.cancel
  queue := by
    have hqueue : e.queue = a.queue := (congrArg Engine.queue hsame :)
    exact hqueue ▸ h.queue

theorem Secluded.proceed? (h : Secluded e) (hstep : e.proceed? = some e') : Secluded e' := by
  cases step_of_proceed hstep with
  | tick hphase htick =>
      have hspares := spares_of_inTick hphase htick
      exact ⟨hspares.host ▸ h.host, hspares.cancel ▸ h.cancel, hspares.queue ▸ h.queue⟩
  | round hround =>
      cases hround with
      | begin | drained | request | nothing | ready | unready | tick | empty | rest | emptied
        | wake =>
          exact ⟨h.host, h.cancel, h.queue⟩
      | close => exact ⟨h.host, h.cancel, rfl⟩
  | applied _ hqueue => exact absurd (h.queue.symm.trans hqueue) nofun

/-- Nothing but the work itself moves such an engine on. -/
theorem Secluded.branch {branch : Branch} (h : Secluded e) (hstep : e.take? branch = some e') :
    e.proceed? = some e' := by
  cases branch with
  | proceed => exact hstep
  | interrupt => simp [take?, interrupt?, h.cancel] at hstep
  | serve =>
      simp only [take?, serve?, h.queue] at hstep
      split at hstep <;> cases hstep

theorem isDue_of_proceed? (hstep : e.proceed? = some e') : e.IsDue := by
  intro wakeAt hwakeAt
  unfold deadline? at hwakeAt
  split at hwakeAt
  · next hp =>
      cases hwakeAt
      simp only [Engine.proceed?, hp, Option.ite_none_right_eq_some] at hstep
      exact hstep.1
  · next hp =>
      cases hwakeAt
      simp only [Engine.proceed?, hp, Option.ite_none_right_eq_some] at hstep
      exact hstep.1
  · cases hwakeAt

theorem Secluded.proceed?_eq (h : Secluded e) (hstep : e.proceed? = some e') :
    e.untimed.proceed?.map untimed = some e'.untimed := by
  rw [proceed?_untimed h.host h.queue (isDue_of_proceed? hstep), hstep, Option.map_some]

theorem Secluded.same (h : Secluded a) (hsame : e.untimed = a.untimed)
    (hstep : e.proceed? = some e') (hstep' : a.proceed? = some a') :
    e'.untimed = a'.untimed := by
  have heq := (h.congr hsame).proceed?_eq hstep
  rw [hsame, h.proceed?_eq hstep'] at heq
  exact (Option.some.inj heq).symm

/-- A step is possible at another time too, after some waiting. -/
theorem Secluded.later (h : Secluded a) (hsame : e.untimed = a.untimed)
    (hstep : a.proceed? = some a') :
    ∃ ms e', { e with now := e.now + ms }.proceed? = some e' := by
  -- Up to the deadline, if the engine waits for one.
  have hdue : IsDue { e with now := e.now + e.deadline?.getD 0 } := by
    intro wakeAt hwakeAt
    have hdeadline : e.deadline? = some wakeAt := hwakeAt
    show wakeAt ≤ e.now + e.deadline?.getD 0
    rw [hdeadline, Option.getD_some]
    exact Nat.le_add_left _ _
  have hsecluded := h.congr hsame
  have heq := proceed?_untimed (e := { e with now := e.now + e.deadline?.getD 0 }) hsecluded.host
    hsecluded.queue hdue
  have huntimed : untimed { e with now := e.now + e.deadline?.getD 0 } = a.untimed := hsame
  rw [huntimed, h.proceed?_eq hstep, eq_comm, Option.map_eq_some_iff] at heq
  obtain ⟨e', hnext, -⟩ := heq
  exact ⟨_, e', hnext⟩

theorem starting?_of_untimed (hsame : e.untimed = a.untimed) : e.starting? = a.starting? := by
  have huntimed (e : Engine σ) : e.untimed.starting? = e.starting? := by
    simp only [starting?, untimed]
    cases e.phase <;> rfl
  rw [← huntimed, hsame, huntimed]

/-- By itself the engine comes from `e` to what `a'` is but for the clock, and starts `commands` on
the way. It has come there in the course of the schedule `events`, or it can do so after it. -/
def Follows (base : List Frame) (commands : List Command) (a' e : Engine σ)
    (events : List (Event σ)) : Prop :=
  ∃ done e', Passes base e done e' ∧ e'.untimed = a'.untimed ∧ e.started done = commands ∧
    (done <+: events ∨ events <+: done)

namespace Follows

variable {base : List Frame} {commands : List Command} {e₁ : Engine σ} {events : List (Event σ)}

theorem on (event : Event σ) (hown : event.isOwn = true) (habove : IsAbove base e.stack)
    (hon : e.on? event = some e₁) (h : Follows base commands a' e₁ events) :
    Follows base (e.startedOn event ++ commands) a' e (event :: events) := by
  obtain ⟨done, e', hpasses, hsame, hstarted, hprefix⟩ := h
  refine ⟨event :: done, e', .on hown habove hon hpasses, hsame, ?_, ?_⟩
  · rw [started_cons hon, hstarted]
  · exact hprefix.imp (List.prefix_cons_inj event).mpr (List.prefix_cons_inj event).mpr

theorem of_nil (h : Follows base commands a' e events) : Follows base commands a' e [] := by
  obtain ⟨done, e', hpasses, hsame, hstarted, -⟩ := h
  exact ⟨done, e', hpasses, hsame, hstarted, .inr List.nil_prefix⟩

end Follows

/-- Where an engine comes by itself in one schedule, it comes in every other one, sooner or
later. -/
theorem Passes.follows {base : List Frame} {rest events : List (Event σ)}
    (h : Passes base a rest a') (hsecluded : Secluded a) (hsame : e.untimed = a.untimed)
    (hown : ∀ event ∈ events, event.isOwn = true) (hrun : (e.run? events).isSome = true) :
    Follows base (a.started rest) a' e events := by
  -- The induction is on the steps from `a`, and only a step of the work itself needs one from `e`.
  induction h generalizing e events with
  | here a => exact ⟨[], e, .here e, hsame, rfl, .inl List.nil_prefix⟩
  | @on a a₁ a' event rest hevent habove hon hrest ih =>
      cases event with
      | call | change => exact absurd hevent nofun
      | pass ms =>
          cases hon
          exact ih ⟨hsecluded.host, hsecluded.cancel, hsecluded.queue⟩ hsame hown hrun
      | work branch =>
          have hstep := hsecluded.branch hon
          rw [started_cons hon]
          -- The schedule may let time pass first, and it may end before the next step.
          induction events generalizing e with
          | nil =>
              have hstack : e.stack = a.stack := (congrArg Engine.stack hsame :)
              obtain ⟨ms, e₂, hnext⟩ := hsecluded.later hsame hstep
              have hsame₂ := hsecluded.same (e := { e with now := e.now + ms }) hsame hnext hstep
              have hfollows : Follows base (a₁.started rest) a' e₂ [] :=
                ih (hsecluded.proceed? hstep) hsame₂ nofun rfl
              have hlater := hfollows.on (e := { e with now := e.now + ms }) (.work .proceed) rfl
                (hstack ▸ habove) hnext
              have hstarting : e.startedOn (.work .proceed) = a.startedOn (.work branch) :=
                congrArg Option.toList (starting?_of_untimed hsame)
              rw [← hstarting]
              exact (hlater.on (.pass ms) rfl (hstack ▸ habove) rfl).of_nil
          | cons event events ih_events =>
              have hown' : ∀ event ∈ events, event.isOwn = true :=
                fun event hmem => hown event (List.mem_cons_of_mem _ hmem)
              have hstack : e.stack = a.stack := (congrArg Engine.stack hsame :)
              obtain ⟨e₃, hrun⟩ := Option.isSome_iff_exists.mp hrun
              obtain ⟨e₂, hon₂, hrun'⟩ := run?_cons_eq_some.mp hrun
              have hsome : (e₂.run? events).isSome = true := by rw [hrun']; rfl
              cases event with
              | call | change => exact absurd (hown _ List.mem_cons_self) nofun
              | pass ms =>
                  cases hon₂
                  exact (ih_events (e := { e with now := e.now + ms }) hsame hown' hsome).on
                    (.pass ms) rfl (hstack ▸ habove) rfl
              | work branch' =>
                  have hnext := (hsecluded.congr hsame).branch hon₂
                  have hfollows := ih (hsecluded.proceed? hstep)
                    (hsecluded.same hsame hnext hstep) hown' hsome
                  have hstarting : e.startedOn (.work branch') = a.startedOn (.work branch) :=
                    congrArg Option.toList (starting?_of_untimed hsame)
                  rw [← hstarting]
                  exact hfollows.on (.work branch') rfl (hstack ▸ habove) hon₂

/-- An engine that can take no step now or later starts no command by itself. -/
theorem started_of_stuck {events : List (Event σ)}
    (hstuck : ∀ ms branch, { e with now := e.now + ms }.take? branch = none)
    (hown : ∀ event ∈ events, event.isOwn = true) (hrun : (e.run? events).isSome = true) :
    e.started events = [] := by
  induction events generalizing e with
  | nil => rfl
  | cons event events ih =>
      obtain ⟨e', hrun⟩ := Option.isSome_iff_exists.mp hrun
      obtain ⟨e₁, hon, hrest⟩ := run?_cons_eq_some.mp hrun
      cases event with
      | call | change => exact absurd (hown _ List.mem_cons_self) nofun
      | work branch => exact absurd ((hstuck 0 branch).symm.trans hon) nofun
      | pass ms =>
          cases hon
          refine ih (e := { e with now := e.now + ms }) (fun more branch => ?_)
            (fun event hmem => hown event (List.mem_cons_of_mem _ hmem)) (by rw [hrest]; rfl)
          have hlater := hstuck (ms + more) branch
          rwa [← Nat.add_assoc] at hlater

end Engine

end CraftLang
