import CraftLang.Proofs.Engine.Untroubled
import CraftLang.Proofs.Frame.Completion

/-!
Frames that finish. In an engine that nothing troubles a frame starts the commands that it has to,
one after the other, and goes when it has started all of them. Each of its own steps is a move of
its life or brings the next move nearer, and it has only finitely many moves to make: so it goes at
last, if the engine works and the frames on top of it go.
-/

namespace CraftLang

/-- How many steps an engine in this phase can take before the top frame makes a move. -/
def Phase.distance : Phase → Nat
  | .loopApplied _ => 7
  | .resting _ => 6
  | .top => 5
  | .draining => 4
  | .checkingReady => 3
  | .checkingPause => 2
  | .suspended .. => 1
  | _ => 0

namespace Engine

variable {σ : Type}

def isUntroubled (height : Nat) (e : Engine σ) : List (Event σ) → Bool
  | [] => true
  | event :: events =>
    e.stack.length ≤ height ||
      e.isUntroubledOn event && (e.on? event).all fun e' => e'.isUntroubled height events

/-- A run without an end that nothing troubles until the frame at a height is gone. Until then the
engine works again and again, and frames on top of that one go again. -/
structure Endless (height : Nat) (e : Engine σ) where
  state : Nat → Engine σ
  event : Nat → Event σ
  start : state 0 = e
  on (n : Nat) : (state n).on? (event n) = some (state (n + 1))
  untroubled (n : Nat) : height < (state n).stack.length →
    (state n).isUntroubledOn (event n) = true
  works (n : Nat) : height < (state n).stack.length →
    ∃ m, n ≤ m ∧ ∃ branch, event m = .work branch
  uncovers (n : Nat) : height < (state n).stack.length →
    ∃ m, n ≤ m ∧ (state m).stack.length ≤ height + 1

/-- What an engine does with the frame at a height that has the commands to start and then comes to
its end as `last`. -/
structure Finishes (height : Nat) (commands : List Command) (last : Frame) (e : Engine σ) :
    Prop where
  /-- As long as the frame is there it has started the first of the commands, and it is not gone
  before it has started the last of them. -/
  inOrder {events : List (Event σ)} (huntroubled : e.isUntroubled height events = true)
      (hrun : (e.run? events).isSome = true) :
    if e.staysAbove height events then
      e.during height startedOn events <+: commands ∧ e.during height endedOn events = []
    else
      e.during height startedOn events = commands ∧ e.during height endedOn events = [last]
  /-- Whenever the frame is on top the engine can take a step, at once or after a while. -/
  goesOn {events : List (Event σ)} {e' : Engine σ}
      (huntroubled : e.isUntroubled height events = true)
      (hrun : e.run? events = some e') (hstays : e.staysAbove height events = true)
      (htop : e'.stack.length = height + 1) :
    ∃ ms, (e'.run? [.pass ms, .work .proceed]).isSome = true
  goes (run : e.Endless height) : ∃ n, (run.state n).stack.length ≤ height

/-- A frame that is gone after a run has started all of its commands. -/
theorem Finishes.of_gone {e : Engine σ} {height : Nat} {commands : List Command} {last : Frame}
    {events : List (Event σ)} (h : e.Finishes height commands last)
    (huntroubled : e.isUntroubled height events = true) (hrun : (e.run? events).isSome = true)
    (hgone : e.staysAbove height events = false) :
    e.during height startedOn events = commands ∧ e.during height endedOn events = [last] := by
  have hinOrder := h.inOrder huntroubled hrun
  rwa [if_neg (by simp [hgone])] at hinOrder

/-! ### The end of a frame -/

variable {e e' : Engine σ} {frame last : Frame} {base : List Frame} {commands : List Command}

theorem isUntroubled_cons {height : Nat} {event : Event σ} (hthere : height < e.stack.length)
    (hon : e.on? event = some e') (events : List (Event σ)) :
    e.isUntroubled height (event :: events) = true ↔
      e.isUntroubledOn event = true ∧ e'.isUntroubled height events = true := by
  simp [isUntroubled, hon, Nat.not_le.mpr hthere]

theorem staysAbove_cons {height : Nat} {event : Event σ} (hthere : height < e.stack.length)
    (hon : e.on? event = some e') (events : List (Event σ)) :
    e.staysAbove height (event :: events) = e'.staysAbove height events := by
  simp [staysAbove, hon, hthere]

/-- With the step in which a frame comes to its end no command starts. -/
theorem ends_of_endedOn {event : Event σ} (hended : e.endedOn event ≠ [])
    (hstack : e.stack = frame :: base) :
    e.ends = true ∧ e.endedOn event = [frame] ∧ e.startedOn event = [] := by
  unfold endedOn at hended ⊢
  split at hended
  · cases hends : e.ends with
    | false => simp [hends] at hended
    | true =>
        refine ⟨rfl, by simp [hstack], ?_⟩
        cases hstarting : e.starting? with
        | none => simp [startedOn, hstarting]
        | some command =>
            unfold starting? at hstarting
            split at hstarting
            · next hphase => simp [ends, hphase] at hends
            · cases hstarting
  · exact absurd rfl hended

/-- The frame at a height, which is in the middle of its life, has the commands to start and then
comes to its end as `last`. -/
structure Underway (host : Host σ) (settings : Settings) (height : Nat) (last : Frame) (life : Life)
    (commands : List Command) (e : Engine σ) : Prop where
  reachable : e.Reachable
  steady : Steady host settings e
  there : height < e.stack.length
  lives : Lives height life e
  faces : life.Faces commands last

variable {host : Host σ} {settings : Settings} {height : Nat} {life : Life} {event : Event σ}

theorem Underway.ne_nil (h : Underway host settings height last life commands e) : e.stack ≠ [] :=
  List.ne_nil_of_length_pos (Nat.lt_of_le_of_lt (Nat.zero_le _) h.there)

/-- The frame is on top and at its stage, or others cover it and it looks for its next command. -/
theorem Underway.place (h : Underway host settings height last life commands e) :
    (∃ base, e.stack = life.frame :: base ∧ base.length = height ∧ life.stage = e.phase.stage) ∨
      e.stack.length ≠ height + 1 ∧ life.stage = .seeking := by
  cases h.lives with
  | @top frame base hstack hheight hframe hstage =>
      have hparsed : frame.isProduced = false := by
        rw [← Frame.unfed_isProduced, hframe]
        exact h.faces.1
      rw [Frame.unfed_of_parsed hparsed] at hframe
      exact .inl ⟨base, hframe ▸ hstack, hheight, hstage.symm⟩
  | covered hstack hheight _ hstage =>
      refine .inr ⟨?_, hstage⟩
      rw [hstack, List.length_cons, List.length_append, List.length_cons]
      omega
  | gone hstack => exact absurd h.there (Nat.not_lt.mpr hstack)
  | leaving _ hphase =>
      exact absurd ((Phase.isLeaving_of_isBusy h.steady.busy).symm.trans hphase) Bool.false_ne_true

theorem Underway.top (h : Underway host settings height last life commands e)
    (htop : e.stack.length = height + 1) :
    ∃ base, e.stack = life.frame :: base ∧ life.stage = e.phase.stage := by
  rcases h.place with ⟨base, hstack, -, hstage⟩ | ⟨hcovered, -⟩
  · exact ⟨base, hstack, hstage⟩
  · exact absurd htop hcovered

/-- A frame below others looks for its next command when it is on top again. -/
theorem Underway.seeking (h : Underway host settings height last life commands e)
    (hcovered : e.stack.length ≠ height + 1) : life.stage = .seeking := by
  rcases h.place with ⟨base, hstack, hheight, -⟩ | ⟨-, hseeking⟩
  · rw [hstack, List.length_cons, hheight] at hcovered
    exact absurd rfl hcovered
  · exact hseeking

/-- When the frame comes to its end it has no commands to start any more. -/
theorem Underway.of_ends (h : Underway host settings height last life commands e)
    (htop : e.stack.length = height + 1) (hends : e.ends = true) :
    commands = [] ∧ last = life.frame := by
  obtain ⟨base, hstack, hstage⟩ := h.top htop
  obtain ⟨hparsed, hfaces⟩ := h.faces
  rw [hstage] at hfaces
  unfold ends at hends
  split at hends
  · next hphase =>
      simp only [hphase, Phase.stage] at hfaces
      have hfinished : life.frame.fetchStep.1 = .finished := by simpa [hstack] using hends
      exact hfaces.of_none (Frame.fetchStep_eq_finished hfinished)
  · next call hphase =>
      simpa only [hphase, Phase.stage] using hfaces
  · cases hends

/-- One event takes a course in the life of the frame, unless the frame comes to its end. -/
theorem Underway.on (h : Underway host settings height last life commands e)
    (huntroubled : e.isUntroubledOn event = true) (hon : e.on? event = some e') :
    ∃ life' rest, commands = e.duringOn height startedOn event ++ rest ∧
      Life.Course settings life (e.duringOn height heardOn event)
        (e.duringOn height startedOn event) life' ∧
      (Underway host settings height last life' rest e' ∧ e.duringOn height endedOn event = [] ∨
        e'.stack.length ≤ height ∧ rest = [] ∧ e.duringOn height endedOn event = [last]) := by
  have hqueue : .step ∉ e.queue := by simp [h.steady.free.queue]
  have hfails : event = .work .proceed → e.fails = false := by
    rintro rfl
    simp only [isUntroubledOn, Bool.and_eq_true, Bool.not_eq_true'] at huntroubled
    exact huntroubled.1
  obtain ⟨life', hcourse, hlives, -⟩ :=
    on?_lives h.reachable.atWork hqueue hfails h.lives h.there hon
  obtain ⟨hsteady, hlength⟩ := h.steady.on h.ne_nil huntroubled hon
  rw [h.steady.free.settings] at hcourse
  obtain ⟨rest, hrest, hfaces⟩ := hcourse.faces h.faces
  refine ⟨life', rest, hrest, hcourse, ?_⟩
  have hhere := h.there
  by_cases hended : e.endedOn event = []
  · rw [if_pos hended] at hlength
    have hthere : height < e'.stack.length := Nat.lt_of_lt_of_le h.there hlength
    refine .inl ⟨⟨h.reachable.on event hon, hsteady, hthere, hlives, hfaces⟩, ?_⟩
    simp [duringOn, hended]
  · rw [if_neg hended] at hlength
    by_cases htop : e.stack.length = height + 1
    · -- The frame itself comes to its end.
      obtain ⟨base, hstack, -⟩ := h.top htop
      obtain ⟨hends, hone, hnone⟩ := ends_of_endedOn hended hstack
      obtain ⟨rfl, rfl⟩ := h.of_ends htop hends
      refine .inr ⟨by omega, ?_, by rw [duringOn, if_pos htop, hone]⟩
      simpa [duringOn, hnone] using hrest.symm
    · have hthere : height < e'.stack.length := by omega
      refine .inl ⟨⟨h.reachable.on event hon, hsteady, hthere, hlives, hfaces⟩, ?_⟩
      rw [duringOn, if_neg htop]

/-- In a run the frame starts the first of its commands, and all of them before it is gone. -/
theorem Underway.run {events : List (Event σ)}
    (h : Underway host settings height last life commands e)
    (huntroubled : e.isUntroubled height events = true) (hrun : e.run? events = some e') :
    if e.staysAbove height events then
      ∃ life' rest, commands = e.during height startedOn events ++ rest ∧
        Underway host settings height last life' rest e' ∧ e.during height endedOn events = []
    else
      e.during height startedOn events = commands ∧ e.during height endedOn events = [last] := by
  induction events generalizing e life commands with
  | nil =>
      obtain rfl : e = e' := by simpa using hrun
      have hstays : e.staysAbove height [] = true := by simpa [staysAbove] using h.there
      rw [if_pos hstays]
      exact ⟨life, commands, rfl, h, rfl⟩
  | cons event events ih =>
      obtain ⟨e₁, hon, hlater⟩ := run?_cons_eq_some.mp hrun
      obtain ⟨hevent, hevents⟩ := (isUntroubled_cons h.there hon events).mp huntroubled
      obtain ⟨life₁, rest, rfl, -, hnext⟩ := h.on hevent hon
      rw [staysAbove_cons h.there hon]
      simp only [during_cons _ h.there hon]
      rcases hnext with ⟨hunderway, hnone⟩ | ⟨hgone, rfl, hone⟩
      · have hlast := ih hunderway hevents hlater
        simp only [hnone, List.nil_append]
        cases hstays : e₁.staysAbove height events with
        | true =>
            rw [if_pos hstays] at hlast
            obtain ⟨life', rest', rfl, hthere, hended⟩ := hlast
            exact ⟨life', rest', (List.append_assoc _ _ _).symm, hthere, hended⟩
        | false =>
            simp only [hstays, Bool.false_eq_true, if_false] at hlast ⊢
            exact ⟨by rw [hlast.1], hlast.2⟩
      · have hstays : e₁.staysAbove height events = false := by
          refine Bool.eq_false_iff.mpr fun hstays => ?_
          exact Nat.not_lt.mpr hgone (lt_length_of_staysAbove hstays)
        simp [hstays, hone, during_of_gone _ hgone]

/-! ### Nearer to the end -/

theorem rest_distance (e : Engine σ) (delay : Nat) : (e.rest delay).phase.distance ≤ 6 := by
  unfold rest
  repeat' split
  all_goals simp [goto, Phase.distance]

/-- A command that was carried out is over. -/
theorem settle_stage (e : Engine σ) (result : Except CommandError Outcome) (text : String)
    (delay : Nat) (program : Action Executed) :
    (e.settle result text delay).phase.stage ≠ .running program := by
  intro h
  unfold settle at h
  split at h
  all_goals first
    | cases h
    | rw [rest_stage] at h
      cases h

theorem applyLoop_stage (e : Engine σ) (restart : Bool) (text : String) (delay : Nat) :
    (e.applyLoop restart text delay).phase.stage = .seeking := by
  unfold applyLoop
  repeat' split
  all_goals rfl

/-- A frame whose commands are known finds one, or goes. -/
theorem fetch?_of_parsed (hstack : e.stack = frame :: base) (hparsed : frame.isProduced = false)
    (hfetch : e.fetch? = some e') : (∃ command, e'.phase = .drawing command) ∨ e'.stack = base := by
  obtain ⟨-, hfetched⟩ := Frame.fetchStep_of_parsed hparsed
  cases hlook : frame.fetchStep with
  | mk fetched next =>
      simp only [fetch?, hstack, hlook] at hfetched hfetch
      rcases hfetched with rfl | ⟨command, rfl⟩
      · cases hfetch
        exact .inr (by simp [pop, goto, hstack])
      · cases hfetch
        exact .inl ⟨command, rfl⟩

/-- With a step the frame on top hears something, starts a command or comes to another stage, or the
engine is nearer to such a step. -/
theorem Underway.step {branch : Branch} (h : Underway host settings height last life commands e)
    (htop : e.stack.length = height + 1) (huntroubled : e.isUntroubledOn (.work branch) = true)
    (hon : e.on? (.work branch) = some e') (hthere : height < e'.stack.length) :
    e.heardOn (.work branch) ≠ [] ∨ e.startedOn (.work branch) ≠ [] ∨
      e'.phase.stage ≠ e.phase.stage ∨
      e'.stack.length = e.stack.length ∧ e'.phase.distance < e.phase.distance := by
  obtain ⟨base, hstack, -⟩ := h.top htop
  have hbusy := (h.steady.on h.ne_nil huntroubled hon).1.busy
  cases step_of_take? hon with
  | tick hphase hstep =>
      have hsmooth : e.fails = false ∧ e.isAnswered = true := by
        simpa [isUntroubledOn] using huntroubled
      cases tickStep_of_inTick hphase hstep with
      | fetched hp hfetch =>
          refine .inr (.inr (.inl ?_))
          rcases fetch?_of_parsed hstack h.faces.1 hfetch with ⟨command, hdrawing⟩ | hpopped
          · rw [hdrawing, hp]
            intro hsame
            cases hsame
          · rw [hpopped] at hthere
            rw [hstack, List.length_cons] at htop
            omega
      | @started command hp => exact .inr (.inl (by simp [startedOn, starting?, hp]))
      | settled hp =>
          refine .inr (.inr (.inl ?_))
          rw [hp]
          exact settle_stage _ _ _ _ _
      | @performed effect next text delay hp =>
          refine .inl ?_
          have hreply := hsmooth.2
          simp only [isAnswered, hp] at hreply
          obtain ⟨reply, hreply⟩ := Option.isSome_iff_exists.mp hreply
          simp [heardOn, hp, hreply]
      | woken hp => exact .inr (.inr (.inr ⟨rfl, by simp [goto, hp, Phase.distance]⟩))
      | looped hp =>
          refine .inr (.inr (.inl ?_))
          rw [applyLoop_stage, hp]
          intro hsame
          cases hsame
      | @applied delay hp =>
          have hpause : e.pauseAtLoop = false := by
            have huntilLoop := h.steady.free.untilLoop
            simp only [Bool.or_eq_false_iff] at huntilLoop
            exact huntilLoop.1
          have hrest : e.applyDeferredPause delay = e.rest delay := by
            simp [applyDeferredPause, hpause]
          refine .inr (.inr (.inr ⟨?_, ?_⟩))
          · rw [applyDeferredPause_stack]
          · rw [hrest, hp]
            exact Nat.lt_succ_of_le (rest_distance _ _)
      | @printed call after hp =>
          -- What is printed at a gate is the last that is heard of the frame.
          have hadvances := print_advances hstack hp h.steady.busy hsmooth.2
          have hends : e.ends = true := by
            cases after with
            | pop =>
                have hanswered := hsmooth.2
                simp only [isAnswered, hp] at hanswered
                simpa only [ends, hp] using hanswered
            | pause | clear =>
                have hbusy := h.steady.busy
                rw [hp] at hbusy
                cases hbusy
          have hlength := hadvances.length
          rw [if_pos hends] at hlength
          omega
      | paused hp =>
          have hbusy := h.steady.busy
          rw [hp] at hbusy
          cases hbusy
      | rested hp => exact .inr (.inr (.inr ⟨rfl, by simp [goto, hp, Phase.distance]⟩))
  | round hround =>
      refine .inr (.inr (.inr ?_))
      cases hround with
      | begin hphase =>
          exact ⟨rfl, by simp [goto, hphase, h.steady.free.cancel, Phase.distance]⟩
      | drained hphase | ready hphase | tick hphase | empty hphase | rest hphase =>
          exact ⟨rfl, by simp [goto, hphase, Phase.distance]⟩
      | request _ hsome => exact absurd h.steady.free.queue hsome
      | unready | close => exact absurd hthere (Nat.not_lt_zero _)
      | nothing hphase | emptied hphase | wake hphase =>
          have hbusy := h.steady.busy
          rw [hphase] at hbusy
          cases hbusy
  | interrupted => simp [on?, take?, interrupt?, h.steady.free.cancel] at hon
  | served _ hsome => exact absurd h.steady.free.queue hsome
  | applied _ hqueue =>
      rw [h.steady.free.queue] at hqueue
      cases hqueue

/-- With a step the frame on top comes further in its life, or nearer to its next move. -/
theorem Underway.moves {branch : Branch} (h : Underway host settings height last life commands e)
    (htop : e.stack.length = height + 1) (huntroubled : e.isUntroubledOn (.work branch) = true)
    (hon : e.on? (.work branch) = some e') :
    e'.stack.length ≤ height ∨
      ∃ life' rest, Underway host settings height last life' rest e' ∧
        (Relation.TransGen (Life.After settings) life' life ∨
          life' = life ∧ e'.stack.length = height + 1 ∧ e'.phase.distance < e.phase.distance) := by
  obtain ⟨life', rest, -, hcourse, ⟨hunderway, -⟩ | ⟨hgone, -⟩⟩ := h.on huntroubled hon
  · refine .inr ⟨life', rest, hunderway, ?_⟩
    simp only [duringOn, if_pos htop] at hcourse
    rcases hcourse.eq_or_after with ⟨rfl, hheard, hstarted⟩ | hafter
    · obtain ⟨base, -, hstage⟩ := h.top htop
      rcases h.step htop huntroubled hon hunderway.there with hne | hne | hne | ⟨hlength, hnearer⟩
      · exact absurd hheard hne
      · exact absurd hstarted hne
      · -- The frame is at another stage than before, so it cannot have stood still.
        refine absurd (Eq.trans ?_ hstage) hne
        by_cases htop' : e'.stack.length = height + 1
        · obtain ⟨base', -, hstage'⟩ := hunderway.top htop'
          exact hstage'.symm
        · rw [stage_of_length_ne h.reachable.atWork hon (htop.symm ▸ htop')]
          exact (hunderway.seeking htop').symm
      · exact .inr ⟨rfl, hlength.trans htop, hnearer⟩
    · exact .inl hafter
  · exact .inl hgone

theorem same_of_not_work {event : Event σ} (hevent : ∀ branch, event ≠ .work branch)
    (hon : e.on? event = some e') : e'.phase = e.phase ∧ e'.stack.length = e.stack.length := by
  cases event with
  | work branch => exact absurd rfl (hevent branch)
  | call asked =>
      cases hon
      have hleaves := e.receive_leavesWork asked
      exact ⟨hleaves.phase, by simpa using congrArg List.length hleaves.stack⟩
  | pass ms | change world =>
      cases hon
      exact ⟨rfl, rfl⟩

/-- With the frame on top the engine can take a step, when the time for it has come. -/
theorem Underway.can_step (h : Underway host settings height last life commands e)
    (htop : e.stack.length = height + 1) :
    ∃ ms, (e.run? [.pass ms, .work .proceed]).isSome = true := by
  have hrun (ms : Nat) (hstep : ({ e with now := e.now + ms } : Engine σ).proceed?.isSome = true) :
      ∃ ms, (e.run? [.pass ms, .work .proceed]).isSome = true :=
    ⟨ms, by simpa [run?, on?, take?] using hstep⟩
  have hbusy := h.steady.busy
  cases hphase : e.phase with
  | taken | emptied | blocked | pausing | closing | stopped | broken =>
      rw [hphase] at hbusy
      cases hbusy
  | suspended wakeAt | resting wakeAt =>
      have hdue : wakeAt ≤ e.now + wakeAt := Nat.le_add_left _ _
      refine hrun wakeAt ?_
      simp only [proceed?, hphase, hdue, if_true]
      rfl
  | fetching =>
      obtain ⟨base, hstack, -⟩ := h.top htop
      obtain ⟨-, hfetched⟩ := Frame.fetchStep_of_parsed h.faces.1
      refine hrun 0 ?_
      cases hlook : life.frame.fetchStep with
      | mk fetched next =>
          simp only [proceed?, hphase, fetch?, hstack, hlook] at hfetched ⊢
          rcases hfetched with rfl | ⟨command, rfl⟩ <;> rfl
  | running program => cases program <;> exact hrun 0 (by simp [proceed?, hphase])
  | draining => exact hrun 0 (by simp [proceed?, hphase, h.steady.free.queue])
  | checkingReady => exact hrun 0 (by simp [proceed?, hphase, h.steady.free.ready])
  | checkingPause =>
      refine hrun 0 ?_
      simp only [proceed?, hphase, h.steady.free.pause, if_true]
      split <;> rfl
  | top | drawing | looped | loopApplied | printing => exact hrun 0 (by simp [proceed?, hphase])

/-! ### Runs without an end -/

section

variable {e₀ : Engine σ}

theorem Endless.next {run : e₀.Endless height} {n : Nat}
    (h : Underway host settings height last life commands (run.state n)) :
    (run.state (n + 1)).stack.length ≤ height ∨
      ∃ life' rest, Underway host settings height last life' rest (run.state (n + 1)) ∧
        (life' = life ∨ Relation.TransGen (Life.After settings) life' life) := by
  obtain ⟨life', rest, -, hcourse, ⟨hunderway, -⟩ | ⟨hgone, -⟩⟩ :=
    h.on (run.untroubled n h.there) (run.on n)
  · refine .inr ⟨life', rest, hunderway, ?_⟩
    rcases hcourse.eq_or_after with ⟨hsame, -⟩ | hafter
    · exact .inl hsame
    · exact .inr hafter
  · exact .inl hgone

/-- At any later time the frame is gone, or where it was in its life, or further. -/
theorem Endless.later {run : e₀.Endless height} {n m : Nat} (hle : n ≤ m)
    (h : Underway host settings height last life commands (run.state n)) :
    (∃ k, (run.state k).stack.length ≤ height) ∨
      ∃ life' rest, Underway host settings height last life' rest (run.state m) ∧
        (life' = life ∨ Relation.TransGen (Life.After settings) life' life) := by
  induction hle with
  | refl => exact .inr ⟨life, commands, h, .inl rfl⟩
  | @step m _ ih =>
      rcases ih with hgone | ⟨life₁, rest₁, hunderway₁, hlife₁⟩
      · exact .inl hgone
      · rcases Endless.next hunderway₁ with hgone | ⟨life₂, rest₂, hunderway₂, hlife₂⟩
        · exact .inl ⟨m + 1, hgone⟩
        · refine .inr ⟨life₂, rest₂, hunderway₂, ?_⟩
          rcases hlife₂ with rfl | hafter₂
          · exact hlife₁
          · rcases hlife₁ with rfl | hafter₁
            · exact .inr hafter₂
            · exact .inr (hafter₂.trans hafter₁)

/-- A frame on top makes its next move, if from there on it goes at last. The induction is on the
number of steps up to that move, and within that on the time until the next step. -/
theorem Endless.goes_of_top {run : e₀.Endless height}
    (further : ∀ life', Relation.TransGen (Life.After settings) life' life → ∀ n commands,
      Underway host settings height last life' commands (run.state n) →
        ∃ m, (run.state m).stack.length ≤ height) (n : Nat) (commands : List Command)
    (h : Underway host settings height last life commands (run.state n))
    (htop : (run.state n).stack.length = height + 1) :
    ∃ m, (run.state m).stack.length ≤ height := by
  induction hdistance : (run.state n).phase.distance using Nat.strongRecOn generalizing n commands
    with
  | ind distance ih =>
      have hstep {n : Nat} {commands : List Command} {branch : Branch}
          (h : Underway host settings height last life commands (run.state n))
          (htop : (run.state n).stack.length = height + 1)
          (hdistance : (run.state n).phase.distance = distance)
          (hevent : run.event n = .work branch) : ∃ m, (run.state m).stack.length ≤ height := by
        have huntroubled := run.untroubled n h.there
        have hon := run.on n
        rw [hevent] at huntroubled hon
        rcases h.moves htop huntroubled hon with hgone | ⟨life', rest, hunderway, hmoved⟩
        · exact ⟨n + 1, hgone⟩
        · rcases hmoved with hafter | ⟨rfl, htop', hnearer⟩
          · exact further life' hafter (n + 1) rest hunderway
          · exact ih _ (hdistance ▸ hnearer) (n + 1) rest hunderway htop' rfl
      obtain ⟨m, hle, branch, hwork⟩ := run.works n h.there
      obtain ⟨waits, rfl⟩ := Nat.exists_eq_add_of_le hle
      induction waits generalizing n commands with
      | zero => exact hstep h htop hdistance hwork
      | succ waits ihwaits =>
          by_cases hevent : ∃ branch, run.event n = .work branch
          · obtain ⟨branch, hevent⟩ := hevent
            exact hstep h htop hdistance hevent
          · obtain ⟨hphase, hlength⟩ := same_of_not_work (not_exists.mp hevent) (run.on n)
            rcases Endless.next h with hgone | ⟨life', rest, hunderway, hlife⟩
            · exact ⟨n + 1, hgone⟩
            · rcases hlife with rfl | hafter
              · exact ihwaits (n + 1) rest hunderway (hlength.trans htop) (hphase ▸ hdistance)
                  (Nat.le_add_right _ _) (by rwa [Nat.add_assoc, Nat.add_comm 1 waits])
              · exact further life' hafter (n + 1) rest hunderway

/-- A frame that has only finitely many moves to make goes. -/
theorem Endless.goes {run : e₀.Endless height}
    (hacc : Acc (Relation.TransGen (Life.After settings)) life) (n : Nat) (commands : List Command)
    (h : Underway host settings height last life commands (run.state n)) :
    ∃ m, (run.state m).stack.length ≤ height := by
  induction hacc generalizing n commands with
  | intro life _ ih =>
      obtain ⟨m, hle, hlow⟩ := run.uncovers n h.there
      rcases Endless.later hle h with hgone | ⟨life', rest, hunderway, hlife⟩
      · exact hgone
      · rcases hlife with rfl | hafter
        · have hthere := hunderway.there
          exact Endless.goes_of_top ih m rest hunderway (by omega)
        · exact ih life' hafter m rest hunderway

end

/-- A frame with finitely many moves to make finishes. -/
theorem Underway.finishes (h : Underway host settings height last life commands e)
    (hacc : Acc (Life.After settings) life) : e.Finishes height commands last where
  inOrder huntroubled hrun := by
    obtain ⟨e', hrun⟩ := Option.isSome_iff_exists.mp hrun
    have hlast := h.run huntroubled hrun
    split at hlast
    · next hstays =>
        obtain ⟨life', rest, rfl, -, hended⟩ := hlast
        rw [if_pos hstays]
        exact ⟨List.prefix_append _ _, hended⟩
    · next hgone =>
        rw [if_neg hgone]
        exact hlast
  goesOn huntroubled hrun hstays htop := by
    have hlast := h.run huntroubled hrun
    rw [if_pos hstays] at hlast
    obtain ⟨life', rest, -, hunderway, -⟩ := hlast
    exact hunderway.can_step htop
  goes run := Endless.goes hacc.transGen 0 commands (run.start.symm ▸ h)

/-- An engine rests after a command unless it was cancelled. -/
theorem rest_isBusy {delay : Nat} (h : (e.rest delay).cancel.isCancelled = false) :
    (e.rest delay).phase.isBusy = true := by
  unfold rest at h ⊢
  split at h
  · next hcancel => exact absurd hcancel (Bool.eq_false_iff.mp h)
  · next hcancel =>
      rw [if_neg hcancel]
      split <;> rfl

/-- An engine that nothing disturbs goes on working when a frame has come to its stack. -/
theorem Undisturbed.steady_of_placed (hfree : Undisturbed host settings false e')
    (hplaced : e.placedOn event = [frame]) (hon : e.on? event = some e') :
    Steady host settings e' := by
  refine ⟨hfree, ?_⟩
  have hcancel := hfree.cancel
  cases event with
  | work branch =>
      cases step_of_take? hon with
      | tick hphase hstep =>
          simp only [placedOn, admittedOn, applying?_of_inTick hphase, Option.bind_none,
            Option.toList_none, List.nil_append] at hplaced
          unfold nesting? at hplaced
          split at hplaced
          · next executed text delay hrunning =>
              unfold Executed.frame? at hplaced
              split at hplaced
              · next hresult =>
                  simp only [proceed?, hrunning, hresult, settle, Option.some.injEq] at hstep
                  subst hstep
                  exact rest_isBusy hcancel
              · cases hplaced
          · cases hplaced
      | round hround =>
          simp [placedOn, admittedOn, hround.applying?,
            nesting?_of_not_inTick hround.inTick] at hplaced
      | interrupted hwait =>
          simp [placedOn, admittedOn, applying?, nesting?_of_isWaiting hwait] at hplaced
      | served hphase =>
          have hidle : e.phase.inTick = false := by rw [hphase]; rfl
          simp [placedOn, admittedOn, applying?, nesting?_of_not_inTick hidle] at hplaced
      | @applied drains => cases drains <;> rfl
  | call | pass | change => cases hplaced

end Engine

/-- Wherever the frame comes to a stack on top of others, it starts the commands, and comes to its
end as `last`. -/
def Frame.RunsThrough (frame : Frame) (commands : List Command) (last : Frame) : Prop :=
  ∀ {σ : Type} {host : Host σ} {settings : Settings} {e e₁ : Engine σ} {event : Event σ},
    e.Reachable → e.placedOn event = [frame] → e.on? event = some e₁ →
      Engine.Undisturbed host settings false e₁ → e₁.Finishes e.stack.length commands last

/-- What a frame comes to by its counters alone is what it comes to in an engine. -/
theorem Frame.Completes.runsThrough {frame last : Frame} {commands : List Command}
    (h : frame.Completes commands last) (hparsed : frame.isProduced = false) :
    frame.RunsThrough commands last := by
  intro σ host settings e e₁ event hreach hplaced hon hfree
  obtain ⟨base, hstack, hheight, hlives⟩ := Engine.lives_of_placed hreach.atWork hplaced hon
  have hthere : e.stack.length < e₁.stack.length := by
    rw [hstack, List.length_cons, hheight]
    exact Nat.lt_succ_self _
  rw [unfed_of_parsed hparsed] at hlives
  have hunderway : e₁.Underway host settings e.stack.length last ⟨frame, .seeking⟩ commands :=
    ⟨hreach.on event hon, hfree.steady_of_placed hplaced hon, hthere, hlives, hparsed, h⟩
  exact hunderway.finishes (Life.acc_of_completes hparsed h)

/-- A frame that is the only request in the queue of an engine which may run goes through its
commands as soon as it is taken. -/
theorem Frame.RunsThrough.of_applying {frame last : Frame} {commands : List Command} {σ : Type}
    {e e₁ : Engine σ} {branch : Engine.Branch} (h : frame.RunsThrough commands last)
    (hreach : e.Reachable) (happlying : e.applying? branch = some (.push frame))
    (hqueue : e.queue = [.push frame]) (hstep : e.take? branch = some e₁)
    (hready : e.ready.isOpen = true) (hcancel : e.cancel.isCancelled = false)
    (hloop : (e.pauseAtLoop || e.stopAtLoop) = false) :
    e₁.Finishes e.stack.length commands last := by
  have hplaced : e.placedOn (.work branch) = [frame] := by
    rw [Engine.placedOn, Engine.admittedOn, happlying,
      Engine.nesting?_of_not_inTick (Engine.not_inTick_of_applying? happlying)]
    rfl
  have hsits := Engine.sits_of_applying happlying hqueue hstep hready hcancel
  rw [hloop] at hsits
  exact h hreach hplaced hstep hsits.undisturbed

end CraftLang
