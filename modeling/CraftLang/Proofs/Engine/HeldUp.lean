import CraftLang.Proofs.Engine.Abreast
import CraftLang.Proofs.Engine.Undisturbed

/-!
Engines that are held up. Before its next command an engine comes to the pause gate, and behind a
closed gate it does nothing but publish that it is paused. So it stays what it would be with the
gate open if it were slow: once it is resumed, it comes to where it would come then.
-/

namespace CraftLang

/-- Whether a call leaves a paused engine where it is. It may pause it once more, defer something to
the next loop or feed a source. -/
def Call.letsBe : Call → Bool
  | .pause _ | .stop true | .feed .. | .closeChannel _ => true
  | _ => false

def Event.letsBe {σ : Type} : Event σ → Bool
  | .call asked => asked.letsBe
  | _ => true

/-- Whether an engine in this phase looks at the pause gate before it does anything else. -/
def Phase.facesGate : Phase → Bool
  | .top | .draining | .checkingReady | .checkingPause | .blocked false => true
  | _ => false

namespace Engine

variable {σ : Type} {u u' e e' : Engine σ} {event : Event σ} {events : List (Event σ)}

/-- The engine is done with a command, and its delay is over. -/
def IsRested (e : Engine σ) : Prop :=
  e.phase = .top ∨ ∃ wakeAt, e.phase = .resting wakeAt ∧ wakeAt ≤ e.now

/-- An engine with frames that nobody has asked for anything, in a host that is ready. -/
structure LeftAlone (u : Engine σ) : Prop where
  stack : u.stack ≠ []
  queue : u.queue = []
  ready : u.ready.isOpen = true
  cancel : u.cancel.isCancelled = false

/-- The engine `e` is held up by its pause gate, after a command that has left it like `u`. Its
delay can have begun later. -/
structure HeldUp (u e : Engine σ) : Prop where
  alone : LeftAlone u
  same : ∃ phase published, e = { u with pause := .closed, phase, published }
  place : (∃ wakeAt later, u.phase = .resting wakeAt ∧ e.phase = .resting later ∧ wakeAt ≤ later) ∨
    e.phase.facesGate = true ∧ u.IsRested

/-- The engine `e` is about to close its pause gate, after a loop that has left it like `u`. It has
something to print first, and `u` waits out the delay of the loop already. -/
structure AboutToPause (delay : Nat) (u e : Engine σ) : Prop where
  alone : LeftAlone u
  same : ∃ phase published, e = { u with phase, published }
  place : (∃ call, e.phase = .printing call (.pause (some delay))) ∨
    e.phase = .pausing (some delay)
  rests : delay = 0 ∧ u.phase = .top ∨
    delay ≠ 0 ∧ ∃ wakeAt, u.phase = .resting wakeAt ∧ wakeAt ≤ u.now + sleepMs delay

/-- What happens to an engine besides its steps, in the course of a run. What it prints is something
that happens to its host. -/
def besides (e : Engine σ) : List (Event σ) → List (Event σ)
  | [] => []
  | event :: events =>
    match e.on? event with
    | none => []
    | some e' =>
      (match event, e.phase with
        | .work _, .printing _ _ => [.change e'.world]
        | .work _, _ => []
        | event, _ => [event]) ++ e'.besides events

theorem besides_of_step {branch : Branch} (hon : e.on? (.work branch) = some e')
    (hphase : ∀ call after, e.phase ≠ .printing call after) (events : List (Event σ)) :
    e.besides (.work branch :: events) = e'.besides events := by
  simp only [besides, hon, List.nil_append]

theorem besides_of_print {branch : Branch} {call : HostCall} {after : Aftermath}
    (hon : e.on? (.work branch) = some e') (hphase : e.phase = .printing call after)
    (events : List (Event σ)) :
    e.besides (.work branch :: events) = .change e'.world :: e'.besides events := by
  simp only [besides, hon, hphase]
  rfl

theorem besides_of_not_isStep (hstep : event.isStep = false) (hon : e.on? event = some e')
    (events : List (Event σ)) : e.besides (event :: events) = event :: e'.besides events := by
  cases event with
  | work => cases hstep
  | call | pass | change => simp only [besides, hon, List.singleton_append]

theorem not_inTick_of_facesGate {phase : Phase} (h : phase.facesGate = true) :
    phase.inTick = false := by
  cases phase <;> first | rfl | cases h

theorem hasEnded_of_facesGate {phase : Phase} (h : phase.facesGate = true) :
    phase.hasEnded = false := by
  cases phase <;> first | rfl | cases h

/-! ### Events that are no steps -/

/-- A call that lets a paused engine be sends no request and keeps the host ready. -/
theorem receive_letsBe {asked : Call} (h : asked.letsBe = true) (hqueue : e.queue = []) :
    (e.receive asked).queue = [] ∧ (e.receive asked).ready = e.ready ∧
      (e.receive asked).cancel = e.cancel := by
  have hfed (hfeeds : asked.feeds = true) :
      (e.receive asked).queue = [] ∧ (e.receive asked).ready = e.ready ∧
        (e.receive asked).cancel = e.cancel := by
    rcases e.receive_of_feeds hfeeds with hsame | ⟨id, f, hmap⟩
    · rw [hsame]
      exact ⟨hqueue, rfl, rfl⟩
    · rw [hmap]
      exact ⟨by simp [mapSourceFedBy, mapFrames, hqueue], rfl, rfl⟩
  cases asked with
  | pause atLoop => cases atLoop <;> exact ⟨hqueue, rfl, rfl⟩
  | stop atLoop =>
      cases atLoop with
      | true => exact ⟨hqueue, rfl, rfl⟩
      | false => cases h
  | feed | closeChannel => exact hfed rfl
  | enqueue | enqueueSource | runByName | resume | step | setReady | shutdown => cases h

theorem LeftAlone.undergo (h : LeftAlone u) (hbe : event.letsBe = true)
    (hstep : event.isStep = false) (hon : u.on? event = some u') :
    LeftAlone u' ∧ u'.phase = u.phase ∧ u.now ≤ u'.now := by
  cases event with
  | work branch => cases hstep
  | pass ms =>
      cases hon
      exact ⟨⟨h.stack, h.queue, h.ready, h.cancel⟩, rfl, Nat.le_add_right _ _⟩
  | change world =>
      cases hon
      exact ⟨⟨h.stack, h.queue, h.ready, h.cancel⟩, rfl, Nat.le_refl _⟩
  | call asked =>
      cases hon
      have hleaves := u.receive_leavesWork asked
      obtain ⟨hqueue, hready, hcancel⟩ := receive_letsBe hbe h.queue
      exact ⟨⟨hleaves.ne_nil h.stack, hqueue, hready ▸ h.ready, hcancel ▸ h.cancel⟩, hleaves.phase,
        Nat.le_of_eq hleaves.now.symm⟩

/-- A call that lets a paused engine be does not open its gate. -/
theorem pause_of_letsBe (hbe : event.letsBe = true) (hstep : event.isStep = false)
    (hon : u.on? event = some u') :
    (if event.setsPause then u'.pause else .closed) = .closed ∧
      (if event.setsPause then u'.pause else u.pause) = u'.pause := by
  cases event with
  | work branch => cases hstep
  | pass ms | change world =>
      cases hon
      exact ⟨rfl, rfl⟩
  | call asked =>
      cases hon
      refine ⟨?_, ?_⟩
      · cases asked with
        | pause atLoop => cases atLoop <;> rfl
        | stop atLoop =>
            cases atLoop with
            | true => rfl
            | false => cases hbe
        | resume => cases hbe
        | enqueue | enqueueSource | runByName | step | setReady | shutdown | feed | closeChannel =>
            rfl
      · show (if asked.setsPause then (u.receive asked).pause else u.pause) =
          (u.receive asked).pause
        cases hsets : asked.setsPause with
        | true => rfl
        | false => exact (receive_pause u hsets).symm

/-! ### Held up -/

theorem rest_of_awake (hcancel : e.cancel.isCancelled = false) (delay : Nat) :
    e.rest delay = e.goto (if delay = 0 then .top else .resting (e.now + sleepMs delay)) := by
  rw [rest, if_neg (by rw [hcancel]; exact Bool.false_ne_true)]
  split <;> rfl

namespace HeldUp

/-- An engine that is held up is still held up after a step, and does not start a command. -/
theorem work {branch : Branch} (h : HeldUp u e) (hstep : e.take? branch = some e') :
    HeldUp u e' ∧ e.starting? = none ∧ ∀ call after, e.phase ≠ .printing call after := by
  obtain ⟨halone, ⟨phase, published, rfl⟩, hplace⟩ := h
  have hqueue := halone.queue
  have hcancel := halone.cancel
  have hgate (phase' : Phase) (published' : EngineStatus) (hfaces : phase'.facesGate = true)
      (hrested : u.IsRested) :
      HeldUp u { u with pause := .closed, phase := phase', published := published' } :=
    ⟨halone, ⟨_, _, rfl⟩, .inr ⟨hfaces, hrested⟩⟩
  rcases hplace with ⟨wakeAt, later, hrest, hsame, hle⟩ | ⟨hfaces, hrested⟩
  · obtain rfl : phase = .resting later := hsame
    refine ⟨?_, rfl, nofun⟩
    cases branch with
    | interrupt => simp [take?, interrupt?, hcancel] at hstep
    | proceed =>
        simp only [take?, proceed?, Option.ite_none_right_eq_some, Option.some.injEq] at hstep
        exact hstep.2 ▸ hgate .top _ rfl (.inr ⟨wakeAt, hrest, Nat.le_trans hle hstep.1⟩)
    | serve => cases hstep
  · have hidle : ∀ call after, phase ≠ .printing call after := by
      rintro call after rfl
      cases hfaces
    have hnone : ({ u with pause := .closed, phase, published } : Engine σ).starting? = none := by
      cases phase <;> first | rfl | cases hfaces
    refine ⟨?_, hnone, hidle⟩
    cases branch with
    | interrupt => simp [take?, interrupt?, hcancel] at hstep
    | serve =>
        cases step_of_take? hstep with
        | served _ hsome => exact absurd hqueue hsome
    | proceed =>
        cases step_of_take? hstep with
        | tick hphase =>
            exact absurd ((not_inTick_of_facesGate hfaces).symm.trans hphase) Bool.false_ne_true
        | applied _ hsome => exact absurd (hsome.symm.trans hqueue) (List.cons_ne_nil _ _)
        | round hround =>
            cases hround with
            | begin =>
                have hbegin := hgate .draining published rfl hrested
                rwa [show (if u.cancel.isCancelled = true then Phase.closing else .draining) = _
                  from if_neg (by rw [hcancel]; exact Bool.false_ne_true)]
            | drained | ready | wake | rest => exact hgate _ _ rfl hrested
            | request _ hsome => exact absurd hqueue hsome
            | unready _ hclosed => exact absurd (hclosed.symm.trans halone.ready) Bool.false_ne_true
            | tick _ hopen | empty _ hopen => cases hopen
            | nothing hphase | emptied hphase | close hphase => cases hphase ▸ hfaces

/-- What happens to an engine that is held up happens to the other one as well. -/
theorem alike (h : HeldUp u e) (hbe : event.letsBe = true) (hstep : event.isStep = false)
    (hon : e.on? event = some e') : ∃ u', u.on? event = some u' ∧ HeldUp u' e' := by
  obtain ⟨halone, ⟨phase, published, rfl⟩, hplace⟩ := h
  have hphase : phase.EndsAlike u.phase := by
    rcases hplace with ⟨wakeAt, later, hrest, hsame, -⟩ | ⟨hfaces, hrested⟩
    · rw [hrest, show phase = .resting later from hsame]
      exact .of_lives rfl rfl
    · refine .of_lives (hasEnded_of_facesGate hfaces) ?_
      rcases hrested with htop | ⟨wakeAt, hrest, -⟩
      · rw [htop]
        rfl
      · rw [hrest]
        rfl
  obtain ⟨u', hunder⟩ := undergoes_of_not_isStep hstep u
  have hon' := hunder.on
  have hsame : ({ u with pause := .closed, phase, published } : Engine σ).on? event = _ :=
    hunder.recast .closed _ published hphase (List.forall_mem_nil _)
  obtain ⟨halone', hphase', hnow⟩ := halone.undergo hbe hstep hon'
  obtain rfl := Option.some.inj (hsame.symm.trans hon)
  have hclosed := (pause_of_letsBe hbe hstep hon').1
  refine ⟨u', hon', halone', ⟨phase, published, by rw [hclosed]; rfl⟩, ?_⟩
  rw [IsRested, hphase']
  refine hplace.imp_right fun ⟨hfaces, hrested⟩ => ⟨hfaces, hrested.imp_right ?_⟩
  exact fun ⟨wakeAt, hrest, hle⟩ => ⟨wakeAt, hrest, Nat.le_trans hle hnow⟩

/-- What is done in a run of an engine that is held up is nothing, so the other engine may be as
slow. -/
theorem run (h : HeldUp u e) (hbe : ∀ event ∈ events, event.letsBe = true)
    (hrun : e.run? events = some e') :
    e.started events = [] ∧ ∃ u', u.run? (e.besides events) = some u' ∧ HeldUp u' e' := by
  induction events generalizing u e with
  | nil =>
      cases hrun
      exact ⟨rfl, u, rfl, h⟩
  | cons event events ih =>
      obtain ⟨e₁, hon, hrest⟩ := run?_cons_eq_some.mp hrun
      have hbe' : ∀ event ∈ events, event.letsBe = true :=
        fun event hmem => hbe event (List.mem_cons_of_mem _ hmem)
      rw [started_cons hon]
      cases hstep : event.isStep with
      | true =>
          cases event with
          | work branch =>
              obtain ⟨hheld, hnone, hsilent⟩ := h.work hon
              obtain ⟨hstarted, hlater⟩ := ih hheld hbe' hrest
              rw [besides_of_step hon hsilent]
              refine ⟨?_, hlater⟩
              rw [hstarted, startedOn, hnone]
              rfl
          | call | pass | change => cases hstep
      | false =>
          obtain ⟨u₁, hon', hheld⟩ := h.alike (hbe event List.mem_cons_self) hstep hon
          obtain ⟨hstarted, u', hrun', hheld'⟩ := ih hheld hbe' hrest
          rw [besides_of_not_isStep hstep hon]
          refine ⟨?_, u', run?_cons_eq_some.mpr ⟨u₁, hon', hrun'⟩, hheld'⟩
          rw [hstarted, List.append_nil]
          cases event with
          | work => cases hstep
          | call | pass | change => rfl

end HeldUp

/-! ### About to be held up -/

namespace AboutToPause

variable {delay : Nat}

theorem isWaiting (h : AboutToPause delay u e) : e.isWaiting = false := by
  rcases h.place with ⟨call, hp⟩ | hp <;> simp [Engine.isWaiting, hp]

theorem starting? (h : AboutToPause delay u e) : e.starting? = none := by
  rcases h.place with ⟨call, hp⟩ | hp <;> simp [Engine.starting?, hp]

/-- The engine prints what it has to print, and then the gate holds it up; unless the host breaks
down. -/
theorem work {branch : Branch} (h : AboutToPause delay u e) (hstep : e.take? branch = some e') :
    (e.phase = .pausing (some delay) ∧ HeldUp u e') ∨
      ∃ call, e.phase = .printing call (.pause (some delay)) ∧
        (AboutToPause delay { u with world := e'.world } e' ∨ e'.phase = .broken) := by
  obtain ⟨-, hproceed⟩ := proceed_of_take? h.isWaiting hstep
  obtain ⟨halone, ⟨phase, published, rfl⟩, hplace, hrests⟩ := h
  rcases hplace with ⟨call, hp⟩ | hp
  · obtain rfl : phase = .printing call (.pause (some delay)) := hp
    refine .inr ⟨call, rfl, ?_⟩
    simp only [proceed?, Option.some.injEq] at hproceed
    obtain ⟨world, hprinted | ⟨-, hbroken⟩⟩ :=
      print_cases { u with phase := .printing call (.pause (some delay)), published } call
        (.pause (some delay))
    · rw [← hproceed, hprinted]
      exact .inl ⟨⟨halone.stack, halone.queue, halone.ready, halone.cancel⟩, ⟨_, _, rfl⟩, .inr rfl,
        hrests⟩
    · rw [← hproceed, hbroken]
      exact .inr rfl
  · obtain rfl : phase = .pausing (some delay) := hp
    refine .inl ⟨rfl, ?_⟩
    simp only [proceed?, close, Option.some.injEq] at hproceed
    rw [rest_of_awake (e := { u with pause := .closed, phase := _, published }) halone.cancel]
      at hproceed
    rw [← hproceed]
    refine ⟨halone, ⟨_, _, rfl⟩, ?_⟩
    rcases hrests with ⟨hzero, htop⟩ | ⟨hne, wakeAt, hrest, hle⟩
    · rw [if_pos hzero]
      exact .inr ⟨rfl, .inl htop⟩
    · rw [if_neg hne]
      exact .inl ⟨wakeAt, _, hrest, rfl, hle⟩

/-- What happens to the engine happens to the other one as well. -/
theorem alike (h : AboutToPause delay u e) (hbe : event.letsBe = true)
    (hstep : event.isStep = false) (hon : e.on? event = some e') :
    ∃ u', u.on? event = some u' ∧ AboutToPause delay u' e' := by
  obtain ⟨halone, ⟨phase, published, rfl⟩, hplace, hrests⟩ := h
  have hphase : phase.EndsAlike u.phase := by
    refine .of_lives ?_ ?_
    · rcases hplace with ⟨call, hp⟩ | hp
      · rw [show phase = .printing call (.pause (some delay)) from hp]
        rfl
      · rw [show phase = .pausing (some delay) from hp]
        rfl
    · rcases hrests with ⟨-, htop⟩ | ⟨-, wakeAt, hrest, -⟩
      · rw [htop]
        rfl
      · rw [hrest]
        rfl
  obtain ⟨u', hunder⟩ := undergoes_of_not_isStep hstep u
  have hon' := hunder.on
  have hsame : ({ u with phase, published } : Engine σ).on? event = _ :=
    hunder.recast u.pause _ published hphase (List.forall_mem_nil _)
  obtain ⟨halone', hphase', hnow⟩ := halone.undergo hbe hstep hon'
  obtain rfl := Option.some.inj (hsame.symm.trans hon)
  have hkept := (pause_of_letsBe hbe hstep hon').2
  refine ⟨u', hon', halone', ⟨phase, published, by rw [hkept]; rfl⟩, hplace, ?_⟩
  rw [hphase']
  refine hrests.imp_right fun ⟨hne, wakeAt, hrest, hle⟩ => ⟨hne, wakeAt, hrest, ?_⟩
  exact Nat.le_trans hle (Nat.add_le_add_right hnow _)

/-- In a run the engine starts no command, and what happens to it can happen to the other one. -/
theorem run (h : AboutToPause delay u e) (hbe : ∀ event ∈ events, event.letsBe = true)
    (hrun : e.run? events = some e') :
    e.started events = [] ∧ (e'.phase = .broken ∨ ∃ u', u.run? (e.besides events) = some u' ∧
      (AboutToPause delay u' e' ∨ HeldUp u' e')) := by
  induction events generalizing u e with
  | nil =>
      cases hrun
      exact ⟨rfl, .inr ⟨u, rfl, .inl h⟩⟩
  | cons event events ih =>
      obtain ⟨e₁, hon, hrest⟩ := run?_cons_eq_some.mp hrun
      have hbe' : ∀ event ∈ events, event.letsBe = true :=
        fun event hmem => hbe event (List.mem_cons_of_mem _ hmem)
      rw [started_cons hon]
      cases hstep : event.isStep with
      | true =>
          cases event with
          | work branch =>
              have hnone : e.startedOn (.work branch) = [] := by rw [startedOn, h.starting?]; rfl
              rw [hnone, List.nil_append]
              rcases h.work hon with ⟨hp, hheld⟩ | ⟨call, hp, habout | hbroken⟩
              · obtain ⟨hstarted, u', hrun', hheld'⟩ := hheld.run hbe' hrest
                have hsilent (call after) : e.phase ≠ .printing call after := by simp [hp]
                rw [besides_of_step hon hsilent]
                exact ⟨hstarted, .inr ⟨u', hrun', .inr hheld'⟩⟩
              · obtain ⟨hstarted, hlater⟩ := ih habout hbe' hrest
                rw [besides_of_print hon hp]
                refine ⟨hstarted, hlater.imp_right ?_⟩
                rintro ⟨u', hrun', hnext⟩
                exact ⟨u', run?_cons_eq_some.mpr ⟨_, rfl, hrun'⟩, hnext⟩
              · obtain ⟨hphase, hstarted⟩ := run?_of_hasEnded (by rw [hbroken]; rfl) hrest
                exact ⟨hstarted, .inl (hphase.trans hbroken)⟩
          | call | pass | change => cases hstep
      | false =>
          obtain ⟨u₁, hon', habout⟩ := h.alike (hbe event List.mem_cons_self) hstep hon
          obtain ⟨hstarted, hlater⟩ := ih habout hbe' hrest
          have hnone : e.startedOn event = [] := by
            cases event with
            | work => cases hstep
            | call | pass | change => rfl
          rw [besides_of_not_isStep hstep hon, hnone, hstarted]
          refine ⟨rfl, hlater.imp_right ?_⟩
          rintro ⟨u', hrun', hnext⟩
          exact ⟨u', run?_cons_eq_some.mpr ⟨u₁, hon', hrun'⟩, hnext⟩

end AboutToPause

/-! ### The resume -/

/-- An engine that may run gets to the next command from wherever it is on its way to it. -/
theorem Undisturbed.goesOn {host : Host σ} {settings : Settings} {untilLoop : Bool}
    {base : List Frame} (h : Undisturbed host settings untilLoop e)
    (hfaces : e.phase.facesGate = true) (habove : IsAbove base e.stack) :
    Goes base e [] ((e.publish .running).goto .fetching) := by
  cases hphase : e.phase with
  | top | draining => exact h.round (by simp [hphase]) habove
  | checkingReady => exact h.readied hphase habove
  | checkingPause => exact h.unpaused hphase habove
  | blocked forReady =>
      cases forReady with
      | false =>
          refine .step (by rw [starting?, hphase]) habove ?_ ((h.goto .top).round (.inl rfl) habove)
          simp [proceed?, hphase, h.pause]
      | true => rw [hphase] at hfaces; cases hfaces
  | taken | emptied | fetching | drawing | running | suspended | looped | loopApplied | printing
  | pausing | resting | closing | stopped | broken => rw [hphase] at hfaces; cases hfaces

/-- An engine that may run wakes up after the delay of its command, and gets to the next one. -/
theorem Undisturbed.wakes {host : Host σ} {settings : Settings} {untilLoop : Bool}
    {base : List Frame} {wakeAt ms : Nat} (h : Undisturbed host settings untilLoop e)
    (hphase : e.phase = .resting wakeAt) (hdue : wakeAt ≤ e.now + ms)
    (habove : IsAbove base e.stack) :
    Goes base e [] (({ e with now := e.now + ms }.publish .running).goto .fetching) := by
  have hlate := h.moveTo { e.timeline with now := e.now + ms }
  refine (Goes.pass habove ms).trans
    (.step ?_ habove ?_ ((hlate.goto .top).round (.inl rfl) habove))
  · simp only [starting?, hphase]
  · simp only [proceed?, hphase]
    exact if_pos hdue

/-- With a resume an engine that was held up comes to the same as the other one. -/
theorem HeldUp.resume (h : HeldUp u e) :
    ∃ q, q.phase = .fetching ∧ Goes [] e.resume [] q ∧ Goes [] u.resume [] q := by
  obtain ⟨halone, ⟨phase, published, rfl⟩, hplace⟩ := h
  have hfree (phase' : Phase) (published' : EngineStatus) :
      Undisturbed u.host u.settings (u.pauseAtLoop || u.stopAtLoop)
        { u.resume with phase := phase', published := published' } :=
    ⟨rfl, rfl, halone.ready, rfl, halone.cancel, halone.queue, rfl⟩
  have habove : IsAbove [] u.stack := ⟨u.stack, halone.stack, (List.append_nil _).symm⟩
  rcases hplace with ⟨wakeAt, later, hrest, hsame, hle⟩ | ⟨hfaces, hrested⟩
  · -- Both wait up to the end of the later delay.
    have hdue : later ≤ u.now + (later - u.now) := by omega
    exact ⟨_, rfl, (hfree phase published).wakes hsame hdue habove,
      (hfree u.phase u.published).wakes hrest (Nat.le_trans hle hdue) habove⟩
  · refine ⟨_, rfl, (hfree phase published).goesOn hfaces habove, ?_⟩
    rcases hrested with htop | ⟨wakeAt, hrest, hle⟩
    · exact (hfree u.phase u.published).round (.inl htop) habove
    · have hdue : wakeAt ≤ u.now + 0 := hle
      exact (hfree u.phase u.published).wakes hrest hdue habove

end Engine

end CraftLang
