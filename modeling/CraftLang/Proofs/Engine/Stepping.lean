import CraftLang.Proofs.Engine.AtWork
import CraftLang.Proofs.Engine.PauseGate

/-!
What becomes of a step that is asked for. The request travels through the queue, while a resume
opens the pause gate at once; the engine follows the request if it carries it out before that, and
passes it over otherwise, even if it had taken it before. In both cases no command is started
before.
-/

namespace CraftLang

/-- Whether an event leaves an engine to itself: callers do no more than feed its sources. -/
def Event.isQuiet {σ : Type} : Event σ → Bool
  | .call asked => asked.feeds
  | _ => true

theorem Event.opensGate_of_isQuiet {σ : Type} {event : Event σ} (h : event.isQuiet = true) :
    event.opensGate = false := by
  cases event with
  | work | pass | change => rfl
  | call asked => cases asked <;> first | rfl | cases h

/-- Whether a phase lies in a tick and comes only after the start of its command. -/
def Phase.isStarted : Phase → Bool
  | .running .. | .suspended .. | .looped .. | .loopApplied _ | .resting _ => true
  | .printing _ (.pause none) | .pausing none => false
  | .printing .. | .pausing _ => true
  | _ => false

def Phase.isLooking : Phase → Bool
  | .fetching | .drawing _ => true
  | _ => false

/-- Whether an engine has no command in work and comes to none before its pause gate is closed. -/
def Phase.isHalting : Phase → Bool
  | .printing _ (.pause none) | .pausing none | .stopped | .broken => true
  | _ => false

theorem Phase.not_isLooking_of_not_inTick {phase : Phase} (h : phase.inTick = false) :
    phase.isLooking = false := by
  cases phase <;> simp_all [inTick, isLooking]

theorem Phase.isLooking_or_isHalting {phase : Phase} (hin : phase.inTick = true)
    (hstarted : phase.isStarted = false) : phase.isLooking = true ∨ phase.isHalting = true := by
  cases phase with
  | fetching | drawing => exact .inl rfl
  | printing call after =>
      rcases after with (_ | delay) | - | -
      · exact .inr rfl
      all_goals cases hstarted
  | pausing delay =>
      cases delay with
      | none => exact .inr rfl
      | some delay => cases hstarted
  | running | suspended | looped | loopApplied | resting => cases hstarted
  | top | draining | taken | checkingReady | checkingPause | emptied | blocked | closing | stopped
  | broken => cases hin

/-- In a stack, the frame `frame` has come off from the top of `frames`, or it is still there and
its program counter has moved by `moved`. -/
def StandsOver (frame : Frame) (frames : List Frame) (moved : Nat) (stack : List Frame) : Prop :=
  stack.length ≤ frames.length ∨
    ∃ top rest, stack = top :: rest ∧ rest.map Frame.unfed = frames.map Frame.unfed ∧
      top.index = frame.index + moved ∧ frame.commands <+: top.commands

namespace StandsOver

variable {frame top top' : Frame} {frames rest stack stack' : List Frame} {moved : Nat}

theorem pop (h : StandsOver frame frames moved (top :: rest)) :
    StandsOver frame frames moved rest := by
  rcases h with h | ⟨_, _, heq, hrest, -⟩
  · exact .inl (Nat.le_of_succ_le h)
  · obtain ⟨rfl, rfl⟩ := List.cons.inj heq
    exact .inl (Nat.le_of_eq (by simpa using congrArg List.length hrest))

theorem replace (h : StandsOver frame frames moved (top :: rest)) (steps : Nat)
    (hindex : top'.index = top.index + steps) (hcommands : top.commands <+: top'.commands) :
    StandsOver frame frames (moved + steps) (top' :: rest) := by
  rcases h with h | ⟨_, _, heq, hrest, hmoved, hprefix⟩
  · exact .inl h
  · obtain ⟨rfl, rfl⟩ := List.cons.inj heq
    exact .inr ⟨top', _, rfl, hrest, by omega, hprefix.trans hcommands⟩

/-- What is pending in the sources of frames does not matter. -/
theorem congr (h : StandsOver frame frames moved stack)
    (hstack : stack'.map Frame.unfed = stack.map Frame.unfed) :
    StandsOver frame frames moved stack' := by
  have hlength : stack'.length = stack.length := by simpa using congrArg List.length hstack
  rcases h with h | ⟨top, rest, rfl, hrest, hmoved, hprefix⟩
  · exact .inl (hlength ▸ h)
  · cases stack' with
    | nil => simp at hlength
    | cons top' rest' =>
        rw [List.map_cons, List.map_cons] at hstack
        obtain ⟨htop, hrest'⟩ := List.cons.inj hstack
        refine .inr ⟨top', rest', rfl, hrest'.trans hrest, ?_, ?_⟩
        · rw [← Frame.unfed_index, htop, Frame.unfed_index, hmoved]
        · rw [← Frame.unfed_commands top', htop, Frame.unfed_commands]
          exact hprefix

end StandsOver

namespace Engine

variable {σ : Type}

/-- How many step requests the engine carries out on an event while the pause gate is closed. These
are the ones that it follows. -/
def steppedOn (e : Engine σ) : Event σ → Nat
  | .work branch => if e.pause.isOpen = false ∧ e.applying? branch = some .step then 1 else 0
  | _ => 0

/-- How many step requests the engine follows in the course of a run. -/
def stepped (e : Engine σ) : List (Event σ) → Nat
  | [] => 0
  | event :: events =>
    match e.on? event with
    | none => 0
    | some e' => e.steppedOn event + e'.stepped events

theorem stepped_cons {e e₁ : Engine σ} {event : Event σ} (hon : e.on? event = some e₁)
    (events : List (Event σ)) :
    e.stepped (event :: events) = e.steppedOn event + e₁.stepped events := by
  simp only [stepped, hon]

theorem steppedOn_of_open {e : Engine σ} (h : e.pause.isOpen = true) (event : Event σ) :
    e.steppedOn event = 0 := by
  cases event <;> simp [steppedOn, h]

theorem steppedOn_of_applying?_none {e : Engine σ} {branch : Branch}
    (h : e.applying? branch = none) : e.steppedOn (.work branch) = 0 := by
  simp [steppedOn, h]

theorem steppedOn_of_closed {e : Engine σ} {branch : Branch} (h : e.pause.isOpen = false)
    (happlying : e.applying? branch = some .step) : e.steppedOn (.work branch) = 1 := by
  simp [steppedOn, h, happlying]

/-- No command starts before somebody opens the pause gate: it is closed, or it will be before the
engine looks at it. -/
def Halts (e : Engine σ) : Prop :=
  e.phase.isHalting = true ∨ e.pause = .closed

/-- In such a phase a tick goes on to its end. -/
theorem tick_of_isHalting {e e' : Engine σ} (hphase : e.phase.isHalting = true)
    (hin : e.phase.inTick = true) (hstep : e.proceed? = some e') :
    e'.stack = e.stack ∧ e'.Halts := by
  cases tickStep_of_inTick hin hstep with
  | @printed call after hp =>
      obtain rfl : after = .pause none := by
        rw [hp] at hphase
        unfold Phase.isHalting at hphase
        split at hphase <;> simp_all
      obtain ⟨world, hprinted | ⟨-, hbroken⟩⟩ := e.print_cases call (.pause none)
      · exact hprinted ▸ ⟨rfl, .inl rfl⟩
      · exact hbroken ▸ ⟨rfl, .inl rfl⟩
  | @paused delay hp =>
      cases delay with
      | none => exact ⟨rfl, .inr rfl⟩
      | some delay => simp [hp, Phase.isHalting] at hphase
  | fetched hp | started hp | settled hp | performed hp | woken hp | looped hp | applied hp
  | rested hp =>
      simp [hp, Phase.isHalting] at hphase

/-- An engine that halts takes no request while it has not closed the gate. -/
theorem Halts.isOpen_of_taken {e : Engine σ} {drains : Bool} (h : e.Halts)
    (hphase : e.phase = .taken drains) : e.pause.isOpen = false := by
  rcases h with hhalting | hpause
  · simp [hphase, Phase.isHalting] at hhalting
  · rw [hpause]
    rfl

/-- No command was started since a step was asked for, with the frame `frame` on top of `frames`:
the request is in the queue, or it was carried out, and the frame has moved by `moved`. -/
structure Awaits (frame : Frame) (frames : List Frame) (moved : Nat) (e : Engine σ) : Prop where
  phase : e.phase.isStarted = false
  gate : e.phase.isLooking = true → e.pause.isOpen = true
  request : e.queue = [] ∧ moved ≤ 1 ∨ e.queue = [.step] ∧ moved = 0
  stack : StandsOver frame frames moved e.stack

namespace Awaits

variable {frame : Frame} {frames : List Frame} {moved : Nat} {e e' : Engine σ}

theorem between (h : Awaits frame frames moved e) (hphase : e'.phase.isStarted = false)
    (hlook : e'.phase.isLooking = false) (hqueue : e'.queue = e.queue)
    (hstack : StandsOver frame frames moved e'.stack) : Awaits frame frames moved e' where
  phase := hphase
  gate := fun hlooks => absurd (hlook.symm.trans hlooks) nofun
  request := hqueue ▸ h.request
  stack := hstack

theorem fetch? (h : Awaits frame frames moved e) (hp : e.phase = .fetching)
    (hstep : e.fetch? = some e') : Awaits frame frames moved e' := by
  have hopen : e.pause.isOpen = true := h.gate (by rw [hp]; rfl)
  have hstand := h.stack
  unfold Engine.fetch? at hstep
  split at hstep
  · cases hstep
    exact h.between rfl rfl rfl h.stack
  · next top rest hstack =>
      rw [hstack] at hstand
      have hfetched : StandsOver frame frames moved (top.fetchStep.2 :: rest) :=
        hstand.replace 0 top.fetchStep_index top.fetchStep_commands
      split at hstep <;> cases hstep
      · next command top' hfetch =>
          rw [hfetch] at hfetched
          exact ⟨rfl, fun _ => hopen, h.request, hfetched⟩
      · refine h.between rfl rfl ?_ ?_
        · simp [pop, goto, hstack]
        · simpa [pop, goto, hstack] using hstand.pop
      · next top' hfetch =>
          rw [hfetch] at hfetched
          exact h.between rfl rfl rfl hfetched
      · next top' hfetch =>
          rw [hfetch] at hfetched
          exact ⟨h.phase, fun _ => hopen, h.request, hfetched⟩

theorem round (h : Awaits frame frames moved e) (hround : Round e e') :
    Awaits frame frames moved e' := by
  cases hround with
  | begin =>
      refine h.between ?_ ?_ rfl h.stack
      all_goals cases e.cancel.isCancelled <;> rfl
  | tick hphase hopen => exact ⟨rfl, fun _ => hopen, h.request, h.stack⟩
  | unready => exact h.between rfl rfl rfl (.inl (Nat.zero_le _))
  | close =>
      refine ⟨rfl, nofun, .inl ⟨rfl, ?_⟩, .inl (Nat.zero_le _)⟩
      rcases h.request with ⟨-, hmoved⟩ | ⟨-, hmoved⟩ <;> omega
  | @nothing drains => cases drains <;> exact h.between rfl rfl rfl h.stack
  | drained | request | ready | empty | rest | emptied | wake => exact h.between rfl rfl rfl h.stack

/-- As long as no command was started, the engine prints only that it found none. -/
theorem after_of_printing (h : Awaits frame frames moved e) {call : HostCall} {after : Aftermath}
    (hp : e.phase = .printing call after) : after = .pause none := by
  have hphase := h.phase
  rw [hp] at hphase
  unfold Phase.isStarted at hphase
  split at hphase <;> simp_all

theorem printed (h : Awaits frame frames moved e) {call : HostCall} {after : Aftermath}
    (hp : e.phase = .printing call after) : Awaits frame frames moved (e.print call after) := by
  obtain rfl := h.after_of_printing hp
  obtain ⟨world, hprinted | ⟨-, hbroken⟩⟩ := e.print_cases call (.pause none)
  · exact hprinted ▸ h.between rfl rfl rfl h.stack
  · exact hbroken ▸ h.between rfl rfl rfl h.stack

/-- The one request that there is moves the top frame, if the gate is closed. -/
theorem applied {drains : Bool} {request : Request} {queue : List Request}
    (h : Awaits frame frames moved e) (htaken : e.phase = .taken drains)
    (hqueue : e.queue = request :: queue) :
    Awaits frame frames (moved + e.steppedOn (.work .proceed))
      (({ e with queue }.apply request).goto (if drains then .draining else .top)) := by
  generalize hphase : (if drains then Phase.draining else .top) = phase
  have hstarted : phase.isStarted = false := by cases drains <;> exact hphase ▸ rfl
  have hlook : phase.isLooking = false := by cases drains <;> exact hphase ▸ rfl
  have hgate : phase.isLooking = true → ({ e with queue }.apply request).pause.isOpen = true :=
    fun hlooks => absurd (hlook.symm.trans hlooks) nofun
  rcases h.request with ⟨hnil, -⟩ | ⟨hone, rfl⟩
  · rw [hnil] at hqueue
    cases hqueue
  · -- What the engine does with a step is decided by the gate at the time when it is carried out.
    rw [hone] at hqueue
    cases hqueue
    have hstand := h.stack
    cases hopen : e.pause.isOpen with
    | true =>
        rw [steppedOn_of_open hopen]
        rw [apply_step_of_open (e := { e with queue := [] }) hopen] at hgate ⊢
        exact ⟨hstarted, hgate, .inl ⟨rfl, Nat.zero_le _⟩, hstand⟩
    | false =>
        rw [steppedOn_of_closed hopen (applying?_of_taken htaken hone)]
        refine ⟨hstarted, hgate, .inl ⟨apply_queue _ _, Nat.le_refl _⟩, ?_⟩
        rw [apply_step_of_closed (e := { e with queue := [] }) hopen]
        unfold updateTop
        cases hstack : e.stack with
        | nil => exact .inl (by simp [goto])
        | cons top rest =>
            rw [hstack] at hstand
            exact hstand.replace 1 rfl (List.prefix_refl _)

theorem mapSourceFedBy (h : Awaits frame frames moved e) (id : Nat)
    (f : LineSource → LineSource) : Awaits frame frames moved (e.mapSourceFedBy id f) where
  phase := h.phase
  gate := h.gate
  request := by
    rcases h.request with ⟨hqueue, hmoved⟩ | ⟨hqueue, hmoved⟩
    · exact .inl ⟨by simp [Engine.mapSourceFedBy, mapFrames, hqueue], hmoved⟩
    · exact .inr ⟨by simp [Engine.mapSourceFedBy, mapFrames, hqueue], hmoved⟩
  stack := h.stack.congr (mapSourceFedBy_leavesWork e id f).stack

/-- Quiet events and a resume do not touch what is awaited. -/
theorem on {event : Event σ} (h : Awaits frame frames moved e)
    (hquiet : event.isQuiet = true ∨ event = .call .resume) (hstarted : e.startedOn event = [])
    (hon : e.on? event = some e') : Awaits frame frames (moved + e.steppedOn event) e' := by
  cases event with
  | work branch =>
      cases step_of_take? hon with
      | tick hphase hstep =>
          rw [steppedOn_of_applying?_none (applying?_of_inTick hphase _)]
          cases tickStep_of_inTick hphase hstep with
          | fetched hp hfetch => exact h.fetch? hp hfetch
          | started hp => simp [startedOn, starting?, hp] at hstarted
          | printed hp => exact h.printed hp
          | @paused delay hp =>
              cases delay with
              | none => exact h.between rfl rfl rfl h.stack
              | some delay => exact absurd h.phase (by simp [hp, Phase.isStarted])
          | settled hp | performed hp | woken hp | looped hp | applied hp | rested hp =>
              exact absurd h.phase (by simp [hp, Phase.isStarted])
      | round hround =>
          rw [steppedOn_of_applying?_none hround.applying?]
          exact h.round hround
      | interrupted | served =>
          rw [steppedOn_of_applying?_none rfl]
          exact h.between rfl rfl rfl h.stack
      | applied hphase hqueue => exact h.applied hphase hqueue
  | call asked =>
      cases hon
      rcases hquiet with hquiet | hresume
      · rcases e.receive_of_feeds hquiet with hsame | ⟨id, f, hmap⟩
        · rw [hsame]
          exact h
        · rw [hmap]
          exact h.mapSourceFedBy id f
      · cases hresume
        exact ⟨h.phase, fun _ => rfl, h.request, h.stack⟩
  | pass ms | change world =>
      cases hon
      exact ⟨h.phase, h.gate, h.request, h.stack⟩

theorem run {events : List (Event σ)} (h : Awaits frame frames moved e)
    (hquiet : ∀ event ∈ events, event.isQuiet = true) (hstarted : e.started events = [])
    (hrun : e.run? events = some e') : Awaits frame frames (moved + e.stepped events) e' := by
  induction events generalizing e moved with
  | nil =>
      cases hrun
      exact h
  | cons event events ih =>
      obtain ⟨e₁, hon, hrest⟩ := run?_cons_eq_some.mp hrun
      rw [started_cons hon, List.append_eq_nil_iff] at hstarted
      rw [stepped_cons hon, ← Nat.add_assoc]
      exact ih (h.on (.inl (hquiet event List.mem_cons_self)) hstarted.1 hon)
        (fun event hmem => hquiet event (List.mem_cons_of_mem _ hmem)) hstarted.2 hrest

theorem queuedFrames (h : Awaits frame frames moved e) : e.queuedFrames = [] := by
  rcases h.request with ⟨hqueue, -⟩ | ⟨hqueue, -⟩
  all_goals rw [Engine.queuedFrames, hqueue]; rfl

/-- Nothing opens the gate, so it is open in the end only if it was open all the time. -/
theorem stepped_of_open {events : List (Event σ)} (h : Awaits frame frames moved e)
    (hquiet : ∀ event ∈ events, event.isQuiet = true) (hstarted : e.started events = [])
    (hrun : e.run? events = some e') (hopen : e'.pause.isOpen = true) : e.stepped events = 0 := by
  induction events generalizing e moved with
  | nil => rfl
  | cons event events ih =>
      obtain ⟨e₁, hon, hrest⟩ := run?_cons_eq_some.mp hrun
      rw [started_cons hon, List.append_eq_nil_iff] at hstarted
      -- A gate that is closed now would be closed in the end.
      have hopen₀ : e.pause.isOpen = true := by
        cases hgate : e.pause.isOpen with
        | true => rfl
        | false =>
            have hclosed := stays_closed
              (fun event hmem => Event.opensGate_of_isQuiet (hquiet event hmem)) hrun
              h.queuedFrames (Gate.eq_closed hgate)
            rw [hclosed] at hopen
            cases hopen
      rw [stepped_cons hon, steppedOn_of_open hopen₀, Nat.zero_add]
      exact ih (h.on (.inl (hquiet event List.mem_cons_self)) hstarted.1 hon)
        (fun event hmem => hquiet event (List.mem_cons_of_mem _ hmem)) hstarted.2 hrest

/-- An engine that halts does not look for a command. -/
theorem not_isLooking (h : Awaits frame frames moved e) (hhalts : e.Halts) :
    e.phase.isLooking = false := by
  rcases hhalts with hphase | hpause
  · cases hp : e.phase <;> simp_all [Phase.isHalting, Phase.isLooking]
  · cases hlook : e.phase.isLooking with
    | false => rfl
    | true =>
        have hopen := h.gate hlook
        rw [hpause] at hopen
        cases hopen

theorem isHalting_of_inTick (h : Awaits frame frames moved e) (hhalts : e.Halts)
    (hin : e.phase.inTick = true) : e.phase.isHalting = true := by
  refine (Phase.isLooking_or_isHalting hin h.phase).resolve_left fun hlook => ?_
  rw [h.not_isLooking hhalts] at hlook
  cases hlook

/-- Only a caller that opens the gate makes an engine go on. -/
theorem halts_on {event : Event σ} (h : Awaits frame frames moved e) (hhalts : e.Halts)
    (hquiet : event.isQuiet = true) (hon : e.on? event = some e') : e'.Halts := by
  rcases hhalts with hphase | hpause
  · cases event with
    | work branch =>
        cases step_of_take? hon with
        | tick hin hstep => exact (tick_of_isHalting hphase hin hstep).2
        | round hround => cases hround <;> simp_all [Phase.isHalting]
        | interrupted hwait =>
            unfold isWaiting at hwait
            split at hwait <;> simp_all [Phase.isHalting]
        | served hp | applied hp => simp [hp, Phase.isHalting] at hphase
    | call asked =>
        cases hon
        exact .inl ((e.receive_leavesWork asked).phase ▸ hphase)
    | pass ms | change world =>
        cases hon
        exact .inl hphase
  · have hrun : e.run? [event] = some e' := run?_cons_eq_some.mpr ⟨e', hon, rfl⟩
    refine .inr (stays_closed (fun event' hmem => ?_) hrun h.queuedFrames hpause)
    rw [List.mem_singleton.mp hmem]
    exact Event.opensGate_of_isQuiet hquiet

/-- As long as the engine halts the request is not lost, if there are frames. -/
theorem followed_on {event : Event σ} (h : Awaits frame frames moved e) (hhalts : e.Halts)
    (hquiet : event.isQuiet = true) (hon : e.on? event = some e')
    (hcount : e.stack = [] ∨ moved + e.queue.length = 1) :
    e'.stack = [] ∨ moved + e.steppedOn event + e'.queue.length = 1 := by
  cases event with
  | work branch =>
      cases step_of_take? hon with
      | tick hphase hstep =>
          rw [steppedOn_of_applying?_none (applying?_of_inTick hphase _), Nat.add_zero,
            (spares_of_inTick hphase hstep).queue]
          rcases hcount with hnil | hone
          · obtain ⟨hstack, -⟩ :=
              tick_of_isHalting (h.isHalting_of_inTick hhalts hphase) hphase hstep
            exact .inl (hstack.trans hnil)
          · exact .inr hone
      | round hround =>
          rw [steppedOn_of_applying?_none hround.applying?]
          cases hround with
          | unready | close => exact .inl rfl
          | begin | drained | request | nothing | ready | tick | empty | rest | emptied | wake =>
              exact hcount
      | interrupted | served =>
          rw [steppedOn_of_applying?_none rfl]
          exact hcount
      | applied hphase hqueue =>
          have hclosed : e.pause.isOpen = false := hhalts.isOpen_of_taken hphase
          rcases h.request with ⟨hnil, -⟩ | ⟨hone, rfl⟩
          · rw [hnil] at hqueue
            cases hqueue
          · rw [hone] at hqueue
            cases hqueue
            rw [steppedOn_of_closed hclosed (applying?_of_taken hphase hone)]
            refine .inr ?_
            show 0 + 1 + ({ e with queue := [] }.apply .step).queue.length = 1
            rw [apply_queue]
            rfl
  | call asked =>
      cases hon
      rcases e.receive_of_feeds hquiet with hsame | ⟨id, f, hmap⟩
      · rw [hsame]
        exact hcount
      · rw [hmap]
        simpa [Engine.mapSourceFedBy, mapFrames, steppedOn] using hcount
  | pass ms | change world =>
      cases hon
      exact hcount

theorem followed {events : List (Event σ)} (h : Awaits frame frames moved e) (hhalts : e.Halts)
    (hquiet : ∀ event ∈ events, event.isQuiet = true) (hstarted : e.started events = [])
    (hrun : e.run? events = some e') (hcount : e.stack = [] ∨ moved + e.queue.length = 1) :
    e'.stack = [] ∨ moved + e.stepped events + e'.queue.length = 1 := by
  induction events generalizing e moved with
  | nil =>
      cases hrun
      exact hcount
  | cons event events ih =>
      obtain ⟨e₁, hon, hrest⟩ := run?_cons_eq_some.mp hrun
      have hquiet₁ := hquiet event List.mem_cons_self
      rw [started_cons hon, List.append_eq_nil_iff] at hstarted
      rw [stepped_cons hon, ← Nat.add_assoc]
      exact ih (h.on (.inl hquiet₁) hstarted.1 hon) (h.halts_on hhalts hquiet₁ hon)
        (fun event hmem => hquiet event (List.mem_cons_of_mem _ hmem)) hstarted.2 hrest
        (h.followed_on hhalts hquiet₁ hon hcount)

end Awaits

/-- A paused engine, in which nothing else is queued, awaits a step as soon as it is asked for. -/
theorem Reachable.stepOver_awaits {e : Engine σ} {frame : Frame} {frames : List Frame}
    (h : e.Reachable) (hpaused : e.published.state = .paused) (hqueue : e.queue = [])
    (hstack : e.stack = frame :: frames) :
    Awaits frame frames 0 e.stepOver ∧ e.stepOver.queue = [.step] := by
  have hrunning : e.phase.inTick = false := by
    cases hphase : e.phase.inTick with
    | false => rfl
    | true => exact absurd (hpaused.symm.trans (h.tells.running hphase)) nofun
  have hlives : e.phase.hasEnded = false := by
    cases hp : e.phase with
    | stopped => exact absurd (hpaused.symm.trans (h.tells.stopped hp)) nofun
    | broken => exact absurd (hpaused.symm.trans (h.tells.broken hp)) nofun
    | _ => rfl
  have hsent : e.stepOver = { e with queue := [.step] } := by
    simp [stepOver, send, hlives, hqueue]
  rw [hsent]
  refine ⟨⟨?_, ?_, .inr ⟨rfl, rfl⟩, ?_⟩, rfl⟩
  · cases hp : e.phase <;> simp_all [Phase.isStarted, Phase.inTick]
  · cases hp : e.phase <;> simp_all [Phase.isLooking, Phase.inTick]
  · exact .inr ⟨frame, frames, hstack, rfl, rfl, List.prefix_refl _⟩

/-- A step is asked for while an engine is paused, and a resume follows. As long as no command is
started, the top frame moves by one if the engine carries out the request behind the closed gate,
and stays where it is otherwise. The first command to be started is the one at that place; by then
the request has counted only if the engine carried it out before the resume. -/
theorem stepOver_resume {e e₁ e₂ : Engine σ} {frame : Frame} {frames : List Frame}
    {before after : List (Event σ)} (h : e.Reachable) (hpaused : e.published.state = .paused)
    (hqueue : e.queue = []) (hstack : e.stack = frame :: frames)
    (hbefore : ∀ event ∈ before, event.isQuiet = true)
    (hafter : ∀ event ∈ after, event.isQuiet = true)
    (hrun₁ : e.stepOver.run? before = some e₁) (hrun₂ : e₁.resume.run? after = some e₂)
    (hnone₁ : e.stepOver.started before = []) (hnone₂ : e₁.resume.started after = []) :
    e.stepOver.stepped before + e₁.resume.stepped after ≤ 1 ∧
      StandsOver frame frames (e.stepOver.stepped before + e₁.resume.stepped after) e₂.stack ∧
      (e.pause = .closed → e₁.stack ≠ [] →
        (e.stepOver.stepped before = 1 ↔ e₁.queue = [])) ∧
      ∀ command, e₂.starting? = some command →
        e₂.current? = some command ∧ e₁.resume.stepped after = 0 := by
  obtain ⟨hasked, hsent⟩ := h.stepOver_awaits hpaused hqueue hstack
  have hfirst := hasked.run hbefore hnone₁ hrun₁
  rw [Nat.zero_add] at hfirst
  have hresumed : Awaits frame frames (e.stepOver.stepped before) e₁.resume :=
    hfirst.on (Or.inr (rfl : Event.call .resume = .call .resume)) rfl rfl
  have hlast := hresumed.run hafter hnone₂ hrun₂
  refine ⟨?_, hlast.stack, fun hpause hframes => ?_, fun command hcommand => ?_⟩
  · rcases hlast.request with ⟨-, hmoved⟩ | ⟨-, hmoved⟩
    · exact hmoved
    · omega
  · have hclosed : e.stepOver.pause = .closed := (send_pause e .step).trans hpause
    have hcount := hasked.followed (.inr hclosed) hbefore hnone₁ hrun₁ (.inr (by rw [hsent]; rfl))
    rw [Nat.zero_add] at hcount
    have hone := hcount.resolve_left hframes
    constructor
    · intro hstepped
      exact List.eq_nil_of_length_eq_zero (by omega)
    · intro hnil
      rw [hnil] at hone
      exact hone
  · have hphase : e₂.phase = .drawing command := by
      unfold starting? at hcommand
      split at hcommand
      · next hphase => exact hphase.trans (congrArg _ (Option.some.inj hcommand))
      · cases hcommand
    have hreachable : e₂.Reachable := by
      have hstep : e.stepOver.Reachable := h.on (.call .step) rfl
      exact ((hstep.run hrun₁).on (.call .resume) rfl).run hrun₂
    have hatWork := hreachable.atWork
    simp only [AtWork, hphase] at hatWork
    exact ⟨hatWork, hresumed.stepped_of_open hafter hnone₂ hrun₂ (hlast.gate (by rw [hphase]; rfl))⟩

def stackedPair : Engine DryRun := queuedPair.ran (onItsOwn 3)

def pausedPair : Engine DryRun := (stackedPair.pauseNow false).ran (onItsOwn 3)

theorem pausedPair_reachable : pausedPair.Reachable := by
  have hstacked : stackedPair.Reachable :=
    queuedPair_reachable.run (run?_eq_some_ran (by rfl))
  have hpause : (stackedPair.pauseNow false).Reachable := hstacked.on (.call (.pause false)) rfl
  exact hpause.run (run?_eq_some_ran (by rfl))

def servesOne : List (Event DryRun) := [.work .serve, .work .proceed]

/-- The engine carries out the request, and then it is resumed: the first line is left out. -/
theorem stepOver_resume_pausedPair :
    ∃ frame, pausedPair.stack = [frame] ∧
      StandsOver frame [] 1 ((pausedPair.stepOver.ran servesOne).resume.ran (onItsOwn 5)).stack ∧
      ((pausedPair.stepOver.ran servesOne).resume.ran (onItsOwn 5)).starting?.map
        Command.text = some "/b" := by
  obtain ⟨frame, hstack⟩ : ∃ frame, pausedPair.stack = [frame] :=
    List.length_eq_one_iff.mp (by rfl)
  have hquiet : ∀ event ∈ servesOne, event.isQuiet = true := by simp [servesOne, Event.isQuiet]
  obtain ⟨-, hstands, -, -⟩ := stepOver_resume pausedPair_reachable (by rfl) (by rfl) hstack
    hquiet (forall_onItsOwn (P := (·.isQuiet = true)) rfl 5) (run?_eq_some_ran (by rfl))
    (run?_eq_some_ran (by rfl)) (by rfl) (by rfl)
  exact ⟨frame, hstack, hstands, by rfl⟩

/-- The engine is resumed before it carries out the request: the first line is the next command. -/
theorem stepOver_passed_pausedPair :
    pausedPair.Reachable ∧ pausedPair.published.state = .paused ∧ pausedPair.pause = .closed ∧
      pausedPair.queue = [] ∧ pausedPair.stack.map Frame.index = [0] ∧
      (pausedPair.stepOver.resume.run? (onItsOwn 8)).isSome = true ∧
      pausedPair.stepOver.resume.started (onItsOwn 8) = [] ∧
      (pausedPair.stepOver.resume.ran (onItsOwn 8)).starting? = pausedPair.current? ∧
      pausedPair.current?.isSome = true ∧
      (pausedPair.stepOver.resume.ran (onItsOwn 8)).stack.map Frame.index = [0] := by
  refine ⟨pausedPair_reachable, ?_⟩
  exact ⟨by rfl, by rfl, by rfl, by rfl, by rfl, by rfl, by rfl, by rfl, by rfl⟩

end Engine

end CraftLang
