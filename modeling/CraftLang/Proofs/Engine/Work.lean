import CraftLang.Proofs.Engine.Interleaving
import CraftLang.Proofs.Frame.Progress

/-!
What the steps of an engine do. A round goes from the queue over the two gates to a tick, in which
the engine looks for a command of the top frame, carries it out and acts on its result. Only the
steps outside of a tick look at the queue and open the pause gate; only the steps in a tick call
the host.
-/

namespace CraftLang

def Phase.inTick : Phase → Bool
  | .fetching | .drawing _ | .running .. | .suspended .. | .looped .. | .loopApplied _
  | .printing .. | .pausing _ | .resting _ => true
  | _ => false

/-- Whether a phase comes after a tick has started its command, or has failed to find one. The end
of a tick counts too. -/
def Phase.isLate : Phase → Bool
  | .top | .running .. | .suspended .. | .looped .. | .loopApplied _ | .printing .. | .pausing _
  | .resting _ | .closing => true
  | _ => false

namespace Engine

variable {σ : Type}

/-- A call to the host changes the state of the host. -/
theorem eq_of_ask {e e₁ : Engine σ} {call : HostCall} {reply : Except HostFailure call.Reply}
    (h : e.ask call = (reply, e₁)) : e₁ = { e with world := e₁.world } := by
  cases h
  rfl

theorem stack_of_ask {e e₁ : Engine σ} {call : HostCall} {reply : Except HostFailure call.Reply}
    (h : e.ask call = (reply, e₁)) : e₁.stack = e.stack := by
  rw [eq_of_ask h]

/-- The engine goes on after the host has printed, or it is gone with a host that broke down. -/
theorem print_cases (e : Engine σ) (call : HostCall) (after : Aftermath) :
    ∃ world, e.print call after = { e with world }.conclude after ∨
      (e.ask call).1.toOption = none ∧ e.print call after = { e with world }.goto .broken := by
  unfold print
  split
  · next hask => exact ⟨_, .inl (by rw [← eq_of_ask hask])⟩
  · next hask => exact ⟨_, .inr ⟨by rw [hask]; rfl, by rw [← eq_of_ask hask]⟩⟩

/-! ### Ticks -/

inductive TickStep (e : Engine σ) : Engine σ → Prop
  | fetched {e' : Engine σ} (hphase : e.phase = .fetching) (hfetch : e.fetch? = some e') :
      TickStep e e'
  | started {command : Command} (hphase : e.phase = .drawing command) :
      TickStep e (e.start command)
  | settled {executed : Executed} {text : String} {delay : Nat}
      (hphase : e.phase = .running (.done executed) text delay) :
      TickStep e ((e.updateTop (·.setKind executed.kind)).settle executed.result text delay)
  | performed {effect : Effect} {next : effect.Reply → Action Executed} {text : String}
      {delay : Nat} (hphase : e.phase = .running (.call effect next) text delay) :
      TickStep e (e.perform effect next text delay)
  | woken {wakeAt : Nat} {program : Action Executed} {text : String} {delay : Nat}
      (hphase : e.phase = .suspended wakeAt program text delay) :
      TickStep e (e.goto (.running program text delay))
  | looped {restart : Bool} {text : String} {delay : Nat}
      (hphase : e.phase = .looped restart text delay) :
      TickStep e (e.applyLoop restart text delay)
  | applied {delay : Nat} (hphase : e.phase = .loopApplied delay) :
      TickStep e (e.applyDeferredPause delay)
  | printed {call : HostCall} {after : Aftermath} (hphase : e.phase = .printing call after) :
      TickStep e (e.print call after)
  | paused {delay : Option Nat} (hphase : e.phase = .pausing delay) : TickStep e (e.close delay)
  | rested {wakeAt : Nat} (hphase : e.phase = .resting wakeAt) : TickStep e (e.goto .top)

theorem tickStep_of_inTick {e e' : Engine σ} (hphase : e.phase.inTick = true)
    (hstep : e.proceed? = some e') : TickStep e e' := by
  cases hp : e.phase with
  | top | draining | taken | checkingReady | checkingPause | emptied | blocked | closing | stopped
  | broken =>
      simp [hp, Phase.inTick] at hphase
  | fetching =>
      simp only [proceed?, hp] at hstep
      exact .fetched hp hstep
  | drawing command =>
      simp only [proceed?, hp, Option.some.injEq] at hstep
      exact hstep ▸ .started hp
  | running program text delay =>
      cases program with
      | done executed =>
          simp only [proceed?, hp, Option.some.injEq] at hstep
          exact hstep ▸ .settled hp
      | call effect next =>
          simp only [proceed?, hp, Option.some.injEq] at hstep
          exact hstep ▸ .performed hp
  | suspended wakeAt program text delay =>
      simp only [proceed?, hp, Option.ite_none_right_eq_some, Option.some.injEq] at hstep
      exact hstep.2 ▸ .woken hp
  | looped restart text delay =>
      simp only [proceed?, hp, Option.some.injEq] at hstep
      exact hstep ▸ .looped hp
  | loopApplied delay =>
      simp only [proceed?, hp, Option.some.injEq] at hstep
      exact hstep ▸ .applied hp
  | printing call after =>
      simp only [proceed?, hp, Option.some.injEq] at hstep
      exact hstep ▸ .printed hp
  | pausing delay =>
      simp only [proceed?, hp, Option.some.injEq] at hstep
      exact hstep ▸ .paused hp
  | resting wakeAt =>
      simp only [proceed?, hp, Option.ite_none_right_eq_some, Option.some.injEq] at hstep
      exact hstep.2 ▸ .rested hp

/-! ### What a tick leaves alone -/

/-- What a tick leaves alone: callers and their signals. The pause gate it can only close. -/
structure Spares (e e' : Engine σ) : Prop where
  host : e'.host = e.host
  settings : e'.settings = e.settings
  ready : e'.ready = e.ready
  cancel : e'.cancel = e.cancel
  queue : e'.queue = e.queue
  now : e'.now = e.now
  published : e'.published = e.published
  pause : e'.pause = e.pause ∨ e'.pause = .closed

namespace Spares

variable {e e₁ e₂ : Engine σ}

theorem refl (e : Engine σ) : Spares e e :=
  ⟨rfl, rfl, rfl, rfl, rfl, rfl, rfl, .inl rfl⟩

theorem trans (h : Spares e e₁) (h' : Spares e₁ e₂) : Spares e e₂ where
  host := h'.host.trans h.host
  settings := h'.settings.trans h.settings
  ready := h'.ready.trans h.ready
  cancel := h'.cancel.trans h.cancel
  queue := h'.queue.trans h.queue
  now := h'.now.trans h.now
  published := h'.published.trans h.published
  pause := by
    rcases h'.pause with hp | hp
    · rw [hp]
      exact h.pause
    · exact .inr hp

theorem goto (phase : Phase) (h : Spares e e₁) : Spares e (e₁.goto phase) :=
  h.trans ⟨rfl, rfl, rfl, rfl, rfl, rfl, rfl, .inl rfl⟩

theorem ask (call : HostCall) (h : Spares e e₁) : Spares e (e₁.ask call).2 :=
  h.trans ⟨rfl, rfl, rfl, rfl, rfl, rfl, rfl, .inl rfl⟩

theorem updateTop (f : Frame → Frame) (h : Spares e e₁) : Spares e (e₁.updateTop f) := by
  refine h.trans ?_
  unfold Engine.updateTop
  split
  · exact .refl _
  · exact ⟨rfl, rfl, rfl, rfl, rfl, rfl, rfl, .inl rfl⟩

theorem pop (h : Spares e e₁) : Spares e e₁.pop := by
  refine h.trans ?_
  unfold Engine.pop
  split
  · exact .refl _
  · exact ⟨rfl, rfl, rfl, rfl, rfl, rfl, rfl, .inl rfl⟩

theorem clear (h : Spares e e₁) : Spares e e₁.clear :=
  h.trans ⟨rfl, rfl, rfl, rfl, rfl, rfl, rfl, .inl rfl⟩

theorem setStack (stack : List Frame) (h : Spares e e₁) : Spares e { e₁ with stack } :=
  h.trans ⟨rfl, rfl, rfl, rfl, rfl, rfl, rfl, .inl rfl⟩

theorem rest (delay : Nat) (h : Spares e e₁) : Spares e (e₁.rest delay) := by
  unfold Engine.rest
  repeat' split
  all_goals exact h.goto _

theorem conclude (after : Aftermath) (h : Spares e e₁) : Spares e (e₁.conclude after) := by
  cases after with
  | pause delay => exact h.goto _
  | pop => exact h.pop.goto _
  | clear => exact h.clear.goto _

theorem print (call : HostCall) (after : Aftermath) (h : Spares e e₁) :
    Spares e (e₁.print call after) := by
  have hchanged (world : σ) : Spares e { e₁ with world } :=
    h.trans ⟨rfl, rfl, rfl, rfl, rfl, rfl, rfl, .inl rfl⟩
  obtain ⟨world, hprinted | ⟨-, hbroken⟩⟩ := e₁.print_cases call after
  · exact hprinted ▸ (hchanged world).conclude after
  · exact hbroken ▸ (hchanged world).goto .broken

theorem close (delay : Option Nat) (h : Spares e e₁) : Spares e (e₁.close delay) := by
  have hclosed : Spares e { e₁ with pause := .closed } :=
    h.trans ⟨rfl, rfl, rfl, rfl, rfl, rfl, rfl, .inr rfl⟩
  cases delay with
  | none => exact hclosed.goto _
  | some delay => exact hclosed.rest delay

theorem perform (effect : Effect) (next : effect.Reply → Action Executed) (text : String)
    (delay : Nat) (h : Spares e e₁) : Spares e (e₁.perform effect next text delay) := by
  cases effect with
  | host call =>
      have hask := h.ask call
      simp only [Engine.perform]
      split <;> rename_i heq <;> rw [heq] at hask
      · exact hask.goto _
      · exact hask.goto _
  | knowsAction name =>
      have hask := h.ask .craftActions
      simp only [Engine.perform]
      split
      · exact h.goto _
      · split <;> rename_i heq <;> rw [heq] at hask
        · exact hask.trans ⟨rfl, rfl, rfl, rfl, rfl, rfl, rfl, .inl rfl⟩
        · exact hask.goto _
  | sleep ms =>
      simp only [Engine.perform]
      repeat' split
      all_goals exact h.goto _

theorem settle (result : Except CommandError Outcome) (text : String) (delay : Nat)
    (h : Spares e e₁) : Spares e (e₁.settle result text delay) := by
  unfold Engine.settle
  split
  · exact (h.updateTop _).rest delay
  · exact (h.updateTop _).goto _
  · exact h.goto _
  · exact h.goto _
  · exact h.goto _
  · exact ((h.updateTop _).setStack _).rest delay
  · exact h.goto _

theorem applyLoop (restart : Bool) (text : String) (delay : Nat) (h : Spares e e₁) :
    Spares e (e₁.applyLoop restart text delay) := by
  have hstop : Spares e { e₁ with stopAtLoop := false } :=
    h.trans ⟨rfl, rfl, rfl, rfl, rfl, rfl, rfl, .inl rfl⟩
  unfold Engine.applyLoop
  split
  · exact hstop.goto _
  · split
    · split
      · exact h.goto _
      · split
        · exact (h.setStack _).goto _
        · exact h.goto _
    · exact (h.updateTop _).goto _

theorem applyDeferredPause (delay : Nat) (h : Spares e e₁) :
    Spares e (e₁.applyDeferredPause delay) := by
  have hpause : Spares e { e₁ with pauseAtLoop := false } :=
    h.trans ⟨rfl, rfl, rfl, rfl, rfl, rfl, rfl, .inl rfl⟩
  unfold Engine.applyDeferredPause
  split
  · exact hpause.goto _
  · exact h.rest delay

theorem fetch? (h : Spares e e₁) (hfetch : e₁.fetch? = some e₂) : Spares e e₂ := by
  unfold Engine.fetch? at hfetch
  repeat' split at hfetch
  all_goals cases hfetch
  · exact h.goto _
  · exact (h.setStack _).goto _
  · exact h.pop.goto _
  · exact (h.setStack _).goto _
  · exact h.setStack _

theorem start (command : Command) (h : Spares e e₁) : Spares e (e₁.start command) := by
  have hask := h.ask (.draw command.modifiers.wait.width)
  unfold Engine.start
  split
  · split <;> rename_i heq <;> rw [heq] at hask
    · exact hask.goto _
    · exact hask.goto _
  · exact h.goto _

end Spares

theorem spares_of_inTick {e e' : Engine σ} (hphase : e.phase.inTick = true)
    (hstep : e.proceed? = some e') : Spares e e' := by
  have h := Spares.refl e
  cases tickStep_of_inTick hphase hstep with
  | fetched _ hfetch => exact h.fetch? hfetch
  | started => exact h.start _
  | settled => exact (h.updateTop _).settle _ _ _
  | performed => exact h.perform _ _ _ _
  | woken => exact h.goto _
  | looped => exact h.applyLoop _ _ _
  | applied => exact h.applyDeferredPause _
  | printed => exact h.print _ _
  | paused => exact h.close _
  | rested => exact h.goto _

/-- A look for a command leaves on top what it makes of the frame there, or takes that frame off. -/
theorem fetch?_stack {e e' : Engine σ} (h : e.fetch? = some e') :
    (e.stack = [] ∧ e'.stack = []) ∨ ∃ top rest, e.stack = top :: rest ∧
      (e'.stack = top.fetchStep.2 :: rest ∨ e'.stack = rest) := by
  unfold fetch? at h
  split at h
  · next hstack =>
      cases h
      exact .inl ⟨hstack, hstack⟩
  · next top rest hstack =>
      refine .inr ⟨top, rest, hstack, ?_⟩
      split at h <;> cases h
      · next hlook => exact .inl (by rw [hlook]; rfl)
      · exact .inr (by simp [pop, goto, hstack])
      · next hlook => exact .inl (by rw [hlook]; rfl)
      · next hlook => exact .inl (by rw [hlook])

/-! ### Where a tick goes -/

theorem fetch?_hasEnded {e e' : Engine σ} (hphase : e.phase = .fetching)
    (h : e.fetch? = some e') : e'.phase.hasEnded = false := by
  unfold fetch? at h
  split at h
  · cases h
    rfl
  · split at h <;> cases h
    · rfl
    · rfl
    · rfl
    · exact congrArg Phase.hasEnded hphase

theorem rest_isLate (e : Engine σ) (delay : Nat) : (e.rest delay).phase.isLate = true := by
  unfold rest
  repeat' split
  all_goals rfl

theorem perform_isLate (e : Engine σ) (effect : Effect) (next : effect.Reply → Action Executed)
    (text : String) (delay : Nat) : (e.perform effect next text delay).phase.isLate = true := by
  cases effect <;> simp only [perform] <;> repeat' split
  all_goals rfl

theorem settle_isLate (e : Engine σ) (result : Except CommandError Outcome) (text : String)
    (delay : Nat) : (e.settle result text delay).phase.isLate = true := by
  unfold settle
  split
  · exact rest_isLate _ _
  · rfl
  · rfl
  · rfl
  · rfl
  · exact rest_isLate _ _
  · rfl

theorem applyLoop_phase (e : Engine σ) (restart : Bool) (text : String) (delay : Nat) :
    (e.applyLoop restart text delay).phase = .top ∨
      (∃ call after, (e.applyLoop restart text delay).phase = .printing call after) ∨
      (e.applyLoop restart text delay).phase = .loopApplied delay := by
  unfold applyLoop
  repeat' split
  all_goals first | exact .inl rfl | exact .inr (.inl ⟨_, _, rfl⟩) | exact .inr (.inr rfl)

theorem applyLoop_isLate (e : Engine σ) (restart : Bool) (text : String) (delay : Nat) :
    (e.applyLoop restart text delay).phase.isLate = true := by
  unfold applyLoop
  repeat' split
  all_goals rfl

theorem applyDeferredPause_isLate (e : Engine σ) (delay : Nat) :
    (e.applyDeferredPause delay).phase.isLate = true := by
  unfold applyDeferredPause
  split
  · rfl
  · exact rest_isLate _ _

theorem close_isLate (e : Engine σ) (delay : Option Nat) :
    (e.close delay).phase.isLate = true := by
  cases delay with
  | none => rfl
  | some delay => exact rest_isLate _ _

/-- The host breaks down at the next call of the engine, where nothing contains that: the engine is
about to draw a delay, or to print something on its own account. -/
def BreaksDown (e : Engine σ) : Prop :=
  match e.phase with
  | .drawing command => (e.ask (.draw command.modifiers.wait.width)).1.toOption = none
  | .printing call _ => (e.ask call).1.toOption = none
  | _ => False

theorem start_isLate (e : Engine σ) (command : Command) :
    (e.start command).phase.isLate = true ∨ (e.start command).phase = .broken ∧
      (e.ask (.draw command.modifiers.wait.width)).1.toOption = none := by
  unfold start
  split
  · split
    · exact .inl rfl
    · next hask => exact .inr ⟨rfl, by rw [hask]; rfl⟩
  · exact .inl rfl

theorem print_isLate (e : Engine σ) (call : HostCall) (after : Aftermath) :
    (e.print call after).phase.isLate = true ∨ (e.print call after).phase = .broken ∧
      (e.ask call).1.toOption = none := by
  obtain ⟨world, hprinted | ⟨hfails, hbroken⟩⟩ := e.print_cases call after
  · rw [hprinted]
    cases after <;> exact .inl rfl
  · rw [hbroken]
    exact .inr ⟨rfl, hfails⟩

/-- Once a command is found, a tick does not look for another one. -/
theorem isLate_of_inTick {e e' : Engine σ} (hphase : e.phase.inTick = true)
    (hfetch : e.phase ≠ .fetching) (hstep : e.proceed? = some e') :
    e'.phase.isLate = true ∨ e'.phase = .broken ∧ e.BreaksDown := by
  cases tickStep_of_inTick hphase hstep with
  | fetched hp => exact absurd hp hfetch
  | started hp =>
      rw [BreaksDown, hp]
      exact start_isLate _ _
  | printed hp =>
      rw [BreaksDown, hp]
      exact print_isLate _ _ _
  | settled => exact .inl (settle_isLate _ _ _ _)
  | performed => exact .inl (perform_isLate _ _ _ _ _)
  | looped => exact .inl (applyLoop_isLate _ _ _ _)
  | applied => exact .inl (applyDeferredPause_isLate _ _)
  | paused => exact .inl (close_isLate _ _)
  | woken | rested => exact .inl rfl

/-! ### Between two ticks -/

def applying? (e : Engine σ) (branch : Branch) : Option Request :=
  match branch, e.phase with
  | .proceed, .taken _ => e.queue.head?
  | _, _ => none

/-- The steps that an engine takes by itself between two ticks, but for those in which it carries
out a request. -/
inductive Round (e : Engine σ) : Engine σ → Prop
  | begin (hphase : e.phase = .top) :
      Round e (e.goto (if e.cancel.isCancelled then .closing else .draining))
  | drained (hphase : e.phase = .draining) (hqueue : e.queue = []) :
      Round e (e.goto .checkingReady)
  | request (hphase : e.phase = .draining) (hqueue : e.queue ≠ []) : Round e (e.goto (.taken true))
  | nothing {drains : Bool} (hphase : e.phase = .taken drains) (hqueue : e.queue = []) :
      Round e (e.goto (if drains then .draining else .top))
  | ready (hphase : e.phase = .checkingReady) (hready : e.ready.isOpen = true) :
      Round e (e.goto .checkingPause)
  | unready (hphase : e.phase = .checkingReady) (hready : e.ready.isOpen = false) :
      Round e ((e.clear.publish .notReady).goto (.blocked true))
  | tick (hphase : e.phase = .checkingPause) (hpause : e.pause.isOpen = true)
      (hstack : e.stack ≠ []) : Round e ((e.publish .running).goto .fetching)
  | empty (hphase : e.phase = .checkingPause) (hpause : e.pause.isOpen = true)
      (hstack : e.stack = []) : Round e (e.goto .emptied)
  | rest (hphase : e.phase = .checkingPause) (hpause : e.pause.isOpen = false) :
      Round e ((e.publish (if e.stack.isEmpty then .idle else .paused)).goto (.blocked false))
  | emptied (hphase : e.phase = .emptied) : Round e ({ e with pause := .closed }.goto .top)
  | wake {forReady : Bool} (hphase : e.phase = .blocked forReady) : Round e (e.goto .top)
  | close (hphase : e.phase = .closing) :
      Round e ({ (e.clear.publish .stopped) with queue := [] }.goto .stopped)

/-- The steps of an engine along its ways. A wait ends early because the engine was cancelled or
because of a request; requests are taken at the top of a round as well. When a request is taken it
is carried out with the step that follows. -/
inductive Step (e : Engine σ) : Branch → Engine σ → Prop
  | tick {e' : Engine σ} (hphase : e.phase.inTick = true) (hstep : e.proceed? = some e') :
      Step e .proceed e'
  | round {e' : Engine σ} (hround : Round e e') : Step e .proceed e'
  | interrupted (hwait : e.isWaiting = true) : Step e .interrupt (e.goto .closing)
  | served {forReady : Bool} (hphase : e.phase = .blocked forReady) (hqueue : e.queue ≠ []) :
      Step e .serve (e.goto (.taken false))
  | applied {drains : Bool} {request : Request} {queue : List Request}
      (hphase : e.phase = .taken drains) (hqueue : e.queue = request :: queue) :
      Step e .proceed (({ e with queue }.apply request).goto (if drains then .draining else .top))

/-- A step that is asked for when the engine is not paused is passed over. -/
theorem apply_step_of_open {e : Engine σ} (h : e.pause.isOpen = true) : e.apply .step = e := by
  simp only [apply, h, if_true]

theorem apply_step_of_closed {e : Engine σ} (h : e.pause.isOpen = false) :
    e.apply .step = e.updateTop Frame.advance := by
  simp [apply, h]

/-- A step that is asked for touches no more than a tick does. -/
theorem apply_step_spares (e : Engine σ) : Spares e (e.apply .step) := by
  cases hopen : e.pause.isOpen with
  | true =>
      rw [apply_step_of_open hopen]
      exact .refl e
  | false =>
      rw [apply_step_of_closed hopen]
      exact (Spares.refl e).updateTop _

theorem goto_self {e : Engine σ} {phase : Phase} (h : e.phase = phase) : e.goto phase = e := by
  subst h
  rfl

/-! ### All steps -/

theorem step_of_proceed {e e' : Engine σ} (hstep : e.proceed? = some e') :
    Step e .proceed e' := by
  cases hp : e.phase with
  | fetching | drawing | running | suspended | looped | loopApplied | printing | pausing
  | resting =>
      exact .tick (by rw [hp]; rfl) hstep
  | top =>
      simp only [proceed?, hp, Option.some.injEq] at hstep
      exact hstep ▸ .round (.begin hp)
  | draining =>
      simp only [proceed?, hp, Option.some.injEq] at hstep
      cases hqueue : e.queue with
      | nil =>
          rw [← hstep, hqueue]
          exact .round (.drained hp hqueue)
      | cons request queue =>
          rw [← hstep, hqueue]
          exact .round (.request hp (by simp [hqueue]))
  | taken drains =>
      simp only [proceed?, hp] at hstep
      split at hstep <;> cases hstep
      · next hqueue => exact .round (.nothing hp hqueue)
      · next request queue hqueue =>
          have happlied := Step.applied hp hqueue
          rwa [hp] at happlied
  | checkingReady =>
      simp only [proceed?, hp] at hstep
      split at hstep <;> cases hstep
      · next hready => exact .round (.ready hp hready)
      · next hready => exact .round (.unready hp (by simpa using hready))
  | checkingPause =>
      simp only [proceed?, hp] at hstep
      split at hstep
      · next hpause =>
          split at hstep <;> cases hstep
          · next hstack => exact .round (.empty hp hpause (by simpa using hstack))
          · next hstack => exact .round (.tick hp hpause (by simpa using hstack))
      · next hpause =>
          cases hstep
          exact .round (.rest hp (by simpa using hpause))
  | emptied =>
      simp only [proceed?, hp, Option.some.injEq] at hstep
      exact hstep ▸ .round (.emptied hp)
  | blocked forReady =>
      cases forReady <;>
        simp only [proceed?, hp, Option.ite_none_right_eq_some, Option.some.injEq] at hstep
      all_goals exact hstep.2 ▸ .round (.wake hp)
  | closing =>
      simp only [proceed?, hp, Option.some.injEq] at hstep
      exact hstep ▸ .round (.close hp)
  | stopped | broken => simp [proceed?, hp] at hstep

/-- Every step is one of these. -/
theorem step_of_take? {e e' : Engine σ} {branch : Branch} (h : e.take? branch = some e') :
    Step e branch e' := by
  cases branch with
  | interrupt =>
      simp only [take?, interrupt?, Option.ite_none_right_eq_some, Bool.and_eq_true,
        Option.some.injEq] at h
      exact h.2 ▸ .interrupted h.1.2
  | proceed => exact step_of_proceed h
  | serve =>
      simp only [take?, serve?] at h
      split at h
      · next forReady hphase =>
          simp only [Option.ite_none_left_eq_some, List.isEmpty_iff, Option.some.injEq] at h
          exact h.2 ▸ .served hphase h.1
      · cases h

/-- An engine that need not wait takes the one step that is next. -/
theorem proceed_of_take? {e e' : Engine σ} {branch : Branch} (hwaiting : e.isWaiting = false)
    (hstep : e.take? branch = some e') : branch = .proceed ∧ e.proceed? = some e' := by
  cases branch with
  | interrupt => simp [take?, interrupt?, hwaiting] at hstep
  | serve =>
      unfold isWaiting at hwaiting
      simp only [take?, serve?] at hstep
      split at hstep <;> simp_all
  | proceed => exact ⟨rfl, hstep⟩

theorem take?_of_hasEnded {e : Engine σ} (h : e.phase.hasEnded = true) (branch : Branch) :
    e.take? branch = none := by
  unfold Phase.hasEnded at h
  split at h
  all_goals next hp => cases branch <;> simp_all [take?, interrupt?, isWaiting, proceed?, serve?]

theorem applying?_of_taken {e : Engine σ} {drains : Bool} {request : Request}
    {queue : List Request} (hphase : e.phase = .taken drains)
    (hqueue : e.queue = request :: queue) :
    e.applying? .proceed = some request := by
  simp [applying?, hphase, hqueue]

theorem applying?_of_inTick {e : Engine σ} (h : e.phase.inTick = true) (branch : Branch) :
    e.applying? branch = none := by
  unfold applying?
  cases branch <;> cases hp : e.phase <;> simp_all [Phase.inTick]

/-- The steps by which an engine goes through a round by itself carry out no request. -/
theorem Round.applying? {e e' : Engine σ} (h : Round e e') : e.applying? .proceed = none := by
  cases h <;> simp_all [Engine.applying?]

/-- A request is carried out with the step that says so. -/
theorem eq_of_applying? {e e' : Engine σ} {branch : Branch} {request : Request}
    (happlying : e.applying? branch = some request) (hstep : e.take? branch = some e') :
    ∃ drains queue, e.phase = .taken drains ∧ e.queue = request :: queue ∧
      e' = ({ e with queue }.apply request).goto (if drains then .draining else .top) := by
  cases step_of_take? hstep with
  | tick hphase =>
      rw [applying?_of_inTick hphase] at happlying
      cases happlying
  | round hround =>
      rw [hround.applying?] at happlying
      cases happlying
  | interrupted | served => cases happlying
  | applied hphase hqueue =>
      obtain rfl := Option.some.inj ((applying?_of_taken hphase hqueue).symm.trans happlying)
      exact ⟨_, _, hphase, hqueue, rfl⟩

theorem Round.inTick {e e' : Engine σ} (h : Round e e') : e.phase.inTick = false := by
  cases h with
  | begin hphase | drained hphase | request hphase | nothing hphase | ready hphase | unready hphase
  | tick hphase | empty hphase | rest hphase | emptied hphase | wake hphase | close hphase =>
      rw [hphase]
      rfl

theorem Round.phase_ne_broken {e e' : Engine σ} (h : Round e e') : e'.phase ≠ .broken := by
  cases h with
  | begin => cases hcancel : e.cancel.isCancelled <;> exact nofun
  | @nothing drains => cases drains <;> exact nofun
  | drained | request | ready | unready | tick | empty | rest | emptied | wake
    | close => exact nofun

/-- A round leads into a tick at its start. -/
theorem Round.inTick_next {e e' : Engine σ} (h : Round e e') (hphase : e'.phase.inTick = true) :
    e'.phase = .fetching := by
  cases h with
  | tick => rfl
  | begin => cases hcancel : e.cancel.isCancelled <;> simp [hcancel, goto, Phase.inTick] at hphase
  | @nothing drains => cases drains <;> exact absurd hphase Bool.false_ne_true
  | drained | request | ready | unready | empty | rest | emptied | wake | close =>
      exact absurd hphase Bool.false_ne_true

theorem apply_queue (e : Engine σ) (request : Request) : (e.apply request).queue = e.queue := by
  cases request with
  | push frame => rfl
  | clear => rfl
  | step => exact (apply_step_spares e).queue

/-- A round leaves the queue alone, or drops what is in it at its end. -/
theorem Round.queue {e e' : Engine σ} (h : Round e e') : e'.queue = e.queue ∨ e'.queue = [] := by
  cases h with
  | close => exact .inr rfl
  | begin | drained | request | nothing | ready | unready | tick | empty | rest | emptied | wake =>
      exact .inl rfl

end Engine

end CraftLang
