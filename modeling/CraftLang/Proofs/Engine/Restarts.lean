import CraftLang.Proofs.Engine.Arrivals
import CraftLang.Proofs.Engine.Loops
import CraftLang.Proofs.Engine.Undisturbed

/-!
How often a frame starts again. A loop command that is not used up takes its frame back to the first
command, and the frame counts that in a word of 32 bits. Nothing bounds a loop without a count, so a
frame can start again more often than the word can tell: the number that the frame shows is that of
its restarts only as long as it fits, and it is zero again after every `2 ^ 32` of them.
-/

namespace CraftLang

/-- What becomes of a frame: it starts again, which is listed, or it does not go back. -/
inductive Frame.GoesOn (frame : Frame) : List Frame → Frame → Prop
  | onward {frame' : Frame} (hindex : frame.index ≤ frame'.index)
      (hiterations : frame'.iterations = frame.iterations) : GoesOn frame [] frame'
  | again : GoesOn frame [frame] { frame with index := 0, iterations := frame.iterations + 1 }

namespace Frame.GoesOn

variable {frame frame' : Frame} {restarts : List Frame}

theorem refl (frame : Frame) : frame.GoesOn [] frame :=
  .onward (Nat.le_refl _) rfl

theorem advance (frame : Frame) : frame.GoesOn [] frame.advance :=
  .onward (Nat.le_succ _) frame.advance_iterations

/-- What is pending in a source does not matter. -/
theorem of_unfed (h : frame'.unfed = frame.unfed) : frame.GoesOn [] frame' := by
  refine .onward ?_ ?_
  · rw [← unfed_index frame', h, unfed_index]
  · rw [← unfed_iterations frame', h, unfed_iterations]

theorem iterations_eq (h : frame.GoesOn restarts frame') :
    frame'.iterations = frame.iterations + UInt32.ofNat restarts.length := by
  cases h with
  | onward _ hiterations =>
      rw [hiterations]
      exact (UInt32.add_zero _).symm
  | again => rfl

end Frame.GoesOn

namespace Engine

variable {σ : Type} {e e' : Engine σ} {frame : Frame} {above base : List Frame} {event : Event σ}
  {events : List (Event σ)}

def restarts (e : Engine σ) : Bool :=
  match e.phase with
  | .looped true _ _ => !e.stopAtLoop && e.stack.head?.any fun frame => !frame.isProduced
  | _ => false

def restartedOn (e : Engine σ) : Event σ → List Frame
  | .work .proceed => if e.restarts then e.stack.head?.toList else []
  | _ => []

/-- Only a loop makes a frame start again. -/
theorem restartedOn_eq_nil (h : ∀ text delay, e.phase ≠ .looped true text delay)
    (event : Event σ) : e.restartedOn event = [] := by
  have hnone : e.restarts = false := by
    unfold restarts
    split
    · next hphase => exact absurd hphase (h _ _)
    · rfl
  unfold restartedOn
  split
  · simp [hnone]
  · rfl

theorem restartedOn_of_not_inTick (h : e.phase.inTick = false) (event : Event σ) :
    e.restartedOn event = [] := by
  refine restartedOn_eq_nil (fun text delay hphase => ?_) event
  rw [hphase] at h
  cases h

/-- The frame that was at a height goes on there, or it is gone. -/
def GoesOnAt (height : Nat) (frame : Frame) (restarts : List Frame) (e' : Engine σ) : Prop :=
  e'.stack.length ≤ height ∨ ∃ above frame' base,
    e'.stack = above ++ frame' :: base ∧ base.length = height ∧ frame.GoesOn restarts frame'

namespace GoesOnAt

theorem of_top {restarts : List Frame} {frame' : Frame} (hstack : e'.stack = frame' :: base)
    (h : frame.GoesOn restarts frame') : GoesOnAt base.length frame restarts e' :=
  .inr ⟨[], frame', base, hstack, rfl, h⟩

theorem of_nil {height : Nat} {restarts : List Frame} (hstack : e'.stack = []) :
    GoesOnAt height frame restarts e' :=
  .inl (by rw [hstack]; exact Nat.zero_le _)

theorem of_unfed (hstack : e.stack = frame :: base)
    (hsame : e'.stack.map Frame.unfed = e.stack.map Frame.unfed) :
    GoesOnAt base.length frame [] e' := by
  rw [hstack] at hsame
  obtain ⟨frame', base', hstack', hframe, hbase⟩ := List.map_eq_cons_iff.mp hsame
  have hlength : base'.length = base.length := by simpa using congrArg List.length hbase
  exact .inr ⟨[], frame', base', hstack', hlength, .of_unfed hframe⟩

end GoesOnAt

/-! ### One step in a tick -/

theorem fetch?_goesOn (hstack : e.stack = frame :: base) (hfetch : e.fetch? = some e') :
    GoesOnAt base.length frame [] e' := by
  rcases fetch?_stack hfetch with ⟨hnil, -⟩ | ⟨top, rest, hcons, hstack'⟩
  · rw [hstack] at hnil
    cases hnil
  · obtain ⟨rfl, rfl⟩ := List.cons.inj (hstack.symm.trans hcons)
    rcases hstack' with hlooked | hpopped
    · refine .of_top hlooked (.onward ?_ frame.fetchStep_iterations)
      exact Nat.le_of_eq frame.fetchStep_index.symm
    · exact .inl (by rw [hpopped])

theorem settle_goesOn (hstack : e.stack = frame :: base) (executed : Executed) (text : String)
    (delay : Nat) :
    GoesOnAt base.length frame []
      ((e.updateTop (·.setKind executed.kind)).settle executed.result text delay) := by
  obtain ⟨kind, result⟩ := executed
  rw [updateTop_of_cons hstack]
  have hset : frame.GoesOn [] (frame.setKind kind) :=
    .onward (Nat.le_of_eq (frame.setKind_index kind).symm) (frame.setKind_iterations kind)
  have hadvanced : frame.GoesOn [] (frame.setKind kind).advance := by
    refine .onward ?_ ((Frame.advance_iterations _).trans (frame.setKind_iterations kind))
    rw [Frame.advance_index, Frame.setKind_index]
    exact Nat.le_succ _
  cases result with
  | error error => exact .of_top rfl hset
  | ok outcome =>
      cases outcome with
      | loop | pause | gateComplete => exact .of_top rfl hset
      | proceed => exact .of_top (rest_stack _ _) hadvanced
      | skipped => exact .of_top rfl hadvanced
      | push new => exact .inr ⟨[new], _, base, rest_stack _ _, rfl, hadvanced⟩

/-- A loop command is where a frame starts again, unless a deferred stop comes first. -/
theorem applyLoop_goesOn {restart : Bool} {text : String} {delay : Nat}
    (hphase : e.phase = .looped restart text delay) (hstack : e.stack = frame :: base) :
    GoesOnAt base.length frame (e.restartedOn (.work .proceed))
      (e.applyLoop restart text delay) := by
  unfold applyLoop
  cases hstop : e.stopAtLoop with
  | true =>
      have hnone : e.restartedOn (.work .proceed) = [] := by
        cases restart <;> simp [restartedOn, restarts, hphase, hstop]
      rw [hnone]
      exact .of_top hstack (.refl frame)
  | false =>
      cases restart with
      | false =>
          rw [restartedOn_eq_nil (by simp [hphase]), updateTop_of_cons hstack]
          exact .of_top rfl (.advance frame)
      | true =>
          simp only [Bool.false_eq_true, if_false, if_true, hstack, Frame.restart]
          cases hproduced : frame.isProduced with
          | true =>
              -- A frame over lines refuses, and stays at the loop.
              have hnone : e.restartedOn (.work .proceed) = [] := by
                simp [restartedOn, restarts, hphase, hstack, hproduced]
              rw [hnone]
              exact .of_top hstack (.refl frame)
          | false =>
              have hone : e.restartedOn (.work .proceed) = [frame] := by
                simp [restartedOn, restarts, hphase, hstack, hstop, hproduced]
              rw [hone]
              exact .of_top rfl .again

theorem print_goesOn (hstack : e.stack = frame :: base) (call : HostCall) (after : Aftermath) :
    GoesOnAt base.length frame [] (e.print call after) := by
  obtain ⟨world, hprinted | ⟨-, hbroken⟩⟩ := e.print_cases call after
  · rw [hprinted]
    cases after with
    | pause delay => exact .of_top hstack (.refl frame)
    | clear => exact .of_nil rfl
    | pop =>
        have hpopped : ({ e with world }.conclude .pop).stack = base := by
          simp [conclude, pop, goto, hstack]
        exact .inl (by rw [hpopped])
  · rw [hbroken]
    exact .of_top hstack (.refl frame)

theorem tick_goesOn (hstack : e.stack = frame :: base) (hphase : e.phase.inTick = true)
    (hstep : e.proceed? = some e') :
    GoesOnAt base.length frame (e.restartedOn (.work .proceed)) e' := by
  have hstays {e' : Engine σ} (hsame : e'.stack = e.stack) :
      GoesOnAt base.length frame [] e' :=
    .of_top (hsame.trans hstack) (.refl frame)
  cases tickStep_of_inTick hphase hstep with
  | looped hp => exact applyLoop_goesOn hp hstack
  | fetched hp hfetch =>
      rw [restartedOn_eq_nil (by simp [hp])]
      exact fetch?_goesOn hstack hfetch
  | started hp =>
      rw [restartedOn_eq_nil (by simp [hp])]
      exact hstays (e.start_stack _)
  | settled hp =>
      rw [restartedOn_eq_nil (by simp [hp])]
      exact settle_goesOn hstack _ _ _
  | performed hp =>
      rw [restartedOn_eq_nil (by simp [hp])]
      exact hstays (e.perform_stack _ _ _ _)
  | applied hp =>
      rw [restartedOn_eq_nil (by simp [hp])]
      exact hstays (e.applyDeferredPause_stack _)
  | @printed call after hp =>
      rw [restartedOn_eq_nil (by simp [hp])]
      exact print_goesOn hstack call after
  | paused hp =>
      rw [restartedOn_eq_nil (by simp [hp])]
      exact hstays (e.close_stack _)
  | woken hp | rested hp =>
      rw [restartedOn_eq_nil (by simp [hp])]
      exact hstays rfl

/-! ### One event -/

theorem applied_goesOn {request : Request} {queue : List Request} {phase : Phase}
    (hstack : e.stack = frame :: base) :
    GoesOnAt base.length frame [] (({ e with queue }.apply request).goto phase) := by
  cases request with
  | push pushed =>
      have hpushed : pushed :: e.stack = [pushed] ++ frame :: base := by rw [hstack]; rfl
      exact .inr ⟨[pushed], frame, base, hpushed, rfl, .refl frame⟩
  | clear => exact .of_nil rfl
  | step =>
      cases hopen : e.pause.isOpen with
      | true =>
          rw [apply_step_of_open (e := { e with queue }) hopen]
          exact .of_top hstack (.refl frame)
      | false =>
          rw [apply_step_of_closed (e := { e with queue }) hopen,
            updateTop_of_cons (e := { e with queue }) hstack]
          exact .of_top rfl (.advance frame)

theorem top_goesOn (hstack : e.stack = frame :: base) (hon : e.on? event = some e') :
    GoesOnAt base.length frame (e.restartedOn event) e' := by
  cases event with
  | work branch =>
      cases step_of_take? hon with
      | tick hphase hstep => exact tick_goesOn hstack hphase hstep
      | round hround =>
          rw [restartedOn_of_not_inTick hround.inTick]
          cases hround with
          | unready | close => exact .of_nil rfl
          | begin | drained | request | nothing | ready | tick | empty | rest | emptied | wake =>
              exact .of_top hstack (.refl frame)
      | interrupted | served => exact .of_top hstack (.refl frame)
      | applied hphase =>
          rw [restartedOn_of_not_inTick (by rw [hphase]; rfl)]
          exact applied_goesOn hstack
  | call asked =>
      cases hon
      exact .of_unfed hstack (e.receive_leavesWork asked).stack
  | pass ms | change world =>
      cases hon
      exact .of_top hstack (.refl frame)

/-- An event lets the frame at a height start again, if it is on top, or does not move it back. -/
theorem on?_goesOn (hstack : e.stack = above ++ frame :: base) (hon : e.on? event = some e') :
    GoesOnAt base.length frame (e.duringOn base.length restartedOn event) e' := by
  cases above with
  | nil =>
      have hown : e.stack.length = base.length + 1 := by rw [hstack]; rfl
      rw [duringOn, if_pos hown]
      exact top_goesOn hstack hon
  | cons first above =>
      have hother : e.stack.length ≠ base.length + 1 := by
        rw [hstack, List.length_append, List.length_cons, List.length_cons]
        omega
      rw [duringOn, if_neg hother]
      by_cases hgone : e'.stack.length ≤ base.length
      · exact .inl hgone
      · obtain ⟨above', base', hstack', hsame⟩ :=
          below_of_on? hstack (List.cons_ne_nil _ _) hon (Nat.not_le.mp hgone)
        obtain ⟨frame', base'', rfl, hframe, hbase⟩ := List.map_eq_cons_iff.mp hsame
        have hlength : base''.length = base.length := by simpa using congrArg List.length hbase
        exact .inr ⟨above', frame', base'', hstack', hlength, .of_unfed hframe⟩

/-! ### A run -/

/-- As long as a frame is there its iterations go up with its restarts, in words of 32 bits. -/
theorem run?_iterations (hstack : e.stack = above ++ frame :: base)
    (hrun : e.run? events = some e') (hstays : e.staysAbove base.length events = true) :
    ∃ above' frame' base', e'.stack = above' ++ frame' :: base' ∧ base'.length = base.length ∧
      frame'.iterations =
        frame.iterations + UInt32.ofNat (e.during base.length restartedOn events).length := by
  induction events generalizing e above frame base with
  | nil =>
      obtain rfl : e = e' := by simpa using hrun
      exact ⟨above, frame, base, hstack, rfl, (UInt32.add_zero _).symm⟩
  | cons event events ih =>
      obtain ⟨e₁, hon, hrest⟩ := run?_cons_eq_some.mp hrun
      have hthere := lt_length_of_staysAbove hstays
      rw [staysAbove_cons hthere hon] at hstays
      rcases on?_goesOn hstack hon with hgone | ⟨above₁, frame₁, base₁, hstack₁, hlength, hgoes⟩
      · exact absurd (lt_length_of_staysAbove hstays) (Nat.not_lt.mpr hgone)
      · rw [← hlength] at hstays
        obtain ⟨above', frame', base', hstack', hlength', hiterations⟩ := ih hstack₁ hrest hstays
        refine ⟨above', frame', base', hstack', hlength'.trans hlength, ?_⟩
        rw [during_cons _ hthere hon, List.length_append, UInt32.ofNat_add, hiterations,
          hgoes.iterations_eq, hlength, UInt32.add_assoc]

/-- The iterations that a frame shows. They are none when the frame comes to the stack. Whatever
happens while it is there, they are the restarts of the frame modulo `2 ^ 32`; so they are exact
just as long as there are fewer restarts than that, and each restart whose number is a multiple of
that overflows them. With every further event the frame starts again or does not go back. -/
theorem iterations_count_restarts {e₁ : Engine σ} {count : Nat} (he : e.Reachable)
    (hplaced : e.placedOn event = [frame]) (hon : e.on? event = some e₁)
    (hrun : e₁.run? events = some e') (hstays : e₁.staysAbove e.stack.length events = true)
    (hcount : (e₁.during e.stack.length restartedOn events).length = count) :
    frame.iterations = 0 ∧
    ∃ above frame' base, e'.stack = above ++ frame' :: base ∧ base.length = e.stack.length ∧
      frame'.iterations.toNat = count % UInt32.size ∧
      (frame'.iterations.toNat = count ↔ count < UInt32.size) ∧
      (frame'.iterations.toNat + 1 = UInt32.size ↔ UInt32.size ∣ count + 1) ∧
      ∀ next e₂, e'.on? next = some e₂ →
        GoesOnAt e.stack.length frame' (e'.duringOn e.stack.length restartedOn next) e₂ := by
  obtain ⟨base, hstack, hheight, -⟩ := lives_of_placed he.atWork hplaced hon
  have hnew : frame.iterations = 0 :=
    (he.isNew_of_placed hon frame (by rw [hplaced]; exact List.mem_cons_self)).iterations_eq
  have htop : e₁.stack = [] ++ frame :: base := hstack
  rw [← hheight] at hstays hcount
  obtain ⟨above', frame', base', hstack', hlength, hiterations⟩ := run?_iterations htop hrun hstays
  have hnumber : frame'.iterations.toNat = count % UInt32.size := by
    rw [hiterations, hnew, hcount, UInt32.zero_add, UInt32.toNat_ofNat']
  have hsize : UInt32.size = 4294967296 := rfl
  refine ⟨hnew, above', frame', base', hstack', hlength.trans hheight, hnumber, ?_, ?_,
    fun next e₂ hnext => ?_⟩
  · rw [hnumber, hsize]
    omega
  · rw [hnumber, hsize]
    omega
  · rw [← hheight, ← hlength]
    exact on?_goesOn hstack' hnext

set_option maxRecDepth 4000 in
/-- The macro with two loops of one restart each starts again three times. -/
theorem iterations_count_restarts_looped :
    queuedLooped.placedOn (.work .proceed) ≠ [] ∧
      (queuedLooped.ran [.work .proceed]).staysAbove queuedLooped.stack.length (onItsOwn 68) =
      true ∧
      ∃ above frame' base,
        ((queuedLooped.ran [.work .proceed]).ran (onItsOwn 68)).stack = above ++ frame' :: base ∧
        frame'.iterations.toNat = 3 := by
  have hspawn : (spawn DryRun.host {} {} {}).run? _ = some queuedLooped :=
    run?_eq_some_ran (by rfl)
  have hplaced : queuedLooped.placedOn (.work .proceed) =
      [Frame.ofCommands loopedMacro
        (LoopedSegment.body [loopedLine] ++ lastLine ++ [boundedLoop 1])] := by rfl
  have hstays : (queuedLooped.ran [.work .proceed]).staysAbove queuedLooped.stack.length
      (onItsOwn 68) = true := by rfl
  have hcount : ((queuedLooped.ran [.work .proceed]).during queuedLooped.stack.length restartedOn
      (onItsOwn 68)).length = 3 := by rfl
  obtain ⟨-, above, frame', base, hstack, -, -, hexact, -⟩ :=
    iterations_count_restarts ((Reachable.spawn _ _ _ _).run hspawn) hplaced (by rfl)
      (run?_eq_some_ran (by rfl)) hstays hcount
  exact ⟨by rw [hplaced]; exact List.cons_ne_nil _ _, hstays, above, frame', base, hstack,
    hexact.mpr (by decide)⟩

/-! ### A loop without a count -/

theorem staysAbove_append {e₁ : Engine σ} {height : Nat} (hrun : e.run? events = some e₁)
    (hstays : e.staysAbove height events = true) (events' : List (Event σ)) :
    e.staysAbove height (events ++ events') = e₁.staysAbove height events' := by
  induction events generalizing e with
  | nil =>
      obtain rfl : e = e₁ := by simpa using hrun
      rfl
  | cons event events ih =>
      obtain ⟨e₂, hon, hrest⟩ := run?_cons_eq_some.mp hrun
      have hthere := lt_length_of_staysAbove hstays
      rw [staysAbove_cons hthere hon] at hstays
      rw [List.cons_append, staysAbove_cons hthere hon, ih hrest hstays]

theorem during_append {α : Type} {e₁ : Engine σ} {height : Nat}
    (observe : Engine σ → Event σ → List α) (hrun : e.run? events = some e₁)
    (hstays : e.staysAbove height events = true) (events' : List (Event σ)) :
    e.during height observe (events ++ events') =
      e.during height observe events ++ e₁.during height observe events' := by
  induction events generalizing e with
  | nil =>
      obtain rfl : e = e₁ := by simpa using hrun
      have hnone : e.during height observe [] = [] := by simp [during]
      rw [hnone]
      rfl
  | cons event events ih =>
      obtain ⟨e₂, hon, hrest⟩ := run?_cons_eq_some.mp hrun
      have hthere := lt_length_of_staysAbove hstays
      rw [staysAbove_cons hthere hon] at hstays
      rw [List.cons_append, during_cons _ hthere hon, during_cons _ hthere hon, ih hrest hstays,
        List.append_assoc]

def endlessMacro : StoredMacro := { name := "Endless", contents := "/loop <wait.0.001>" }

def queuedEndless : Engine DryRun :=
  (spawn DryRun.host {} {}).ran (.call (.enqueue endlessMacro none) :: onItsOwn 2)

def stackedEndless : Engine DryRun := queuedEndless.ran [.work .proceed]

def endlessAt (now : Nat) (iterations : UInt32) (published : EngineStatus) : Engine DryRun :=
  { stackedEndless with
    now, published, stack := [{ nativeFrame endlessMacro with iterations }] }

def endlessTurn : List (Event DryRun) :=
  onItsOwn 8 ++ [.pass 1, .work .proceed, .work .proceed]

def endlessTurns : Nat → List (Event DryRun)
  | 0 => []
  | turns + 1 => endlessTurn ++ endlessTurns turns

theorem endlessTurn_run (now : Nat) (iterations : UInt32) (published : EngineStatus) :
    (endlessAt now iterations published).staysAbove 0 endlessTurn = true ∧
    ((endlessAt now iterations published).during 0 restartedOn endlessTurn).length = 1 ∧
    ∃ published', (endlessAt now iterations published).run? endlessTurn =
      some (endlessAt (now + 1) (iterations + 1) published') := by
  let published' := ((endlessAt now iterations published).publish .running).published
  let resting := (endlessAt now (iterations + 1) published').goto (.resting (now + 1))
  let rested : Engine DryRun := { resting with now := now + 1 }
  have hloop : (endlessAt now iterations published).run? (onItsOwn 8) = some resting := rfl
  have hstays : (endlessAt now iterations published).staysAbove 0 (onItsOwn 8) = true := rfl
  have hpass : resting.on? (.pass 1) = some rested := rfl
  have hrest : rested.on? (.work .proceed) = some (rested.goto .top) :=
    if_pos (Nat.le_refl (now + 1))
  have hround : (rested.goto .top).on? (.work .proceed) = some (rested.goto .draining) := rfl
  refine ⟨?_, ?_, published', ?_⟩
  · rw [endlessTurn, staysAbove_append hloop hstays, staysAbove_cons Nat.one_pos hpass,
      staysAbove_cons Nat.one_pos hrest, staysAbove_cons Nat.one_pos hround]
    rfl
  · rw [endlessTurn, during_append _ hloop hstays, during_cons _ Nat.one_pos hpass,
      during_cons _ Nat.one_pos hrest, during_cons _ Nat.one_pos hround]
    rfl
  · rw [endlessTurn, run?_append, hloop]
    simp only [Option.bind_some, run?, hpass, hrest, hround]
    rfl

/-- The frame starts again with every turn. -/
theorem endlessTurns_run (turns now : Nat) (iterations : UInt32) (published : EngineStatus) :
    (endlessAt now iterations published).staysAbove 0 (endlessTurns turns) = true ∧
    ((endlessAt now iterations published).during 0 restartedOn (endlessTurns turns)).length =
      turns ∧
    ∃ published', (endlessAt now iterations published).run? (endlessTurns turns) =
      some (endlessAt (now + turns) (iterations + UInt32.ofNat turns) published') := by
  induction turns generalizing now iterations published with
  | zero =>
      have hsame : iterations + UInt32.ofNat 0 = iterations := UInt32.add_zero iterations
      exact ⟨rfl, rfl, published, by rw [hsame]; rfl⟩
  | succ turns ih =>
      obtain ⟨hstays₁, hcount₁, published₁, hrun₁⟩ := endlessTurn_run now iterations published
      obtain ⟨hstays, hcount, published', hrun⟩ := ih (now + 1) (iterations + 1) published₁
      refine ⟨?_, ?_, published', ?_⟩
      · rw [endlessTurns, staysAbove_append hrun₁ hstays₁, hstays]
      · rw [endlessTurns, during_append _ hrun₁ hstays₁, List.length_append, hcount₁, hcount,
          Nat.add_comm]
      · rw [endlessTurns, run?_append, hrun₁, Option.bind_some, hrun, Nat.add_comm turns,
          UInt32.ofNat_add, Nat.add_assoc, UInt32.add_assoc]
        rfl

/-- The frame of the endless macro shows no iterations when it has started again `2 ^ 32` times. -/
theorem iterations_start_over :
    queuedEndless.Reachable ∧
      queuedEndless.placedOn (.work .proceed) = [nativeFrame endlessMacro] ∧
      (nativeFrame endlessMacro).isProduced = false ∧
      queuedEndless.on? (.work .proceed) = some stackedEndless ∧
      stackedEndless.staysAbove 0 (endlessTurns UInt32.size) = true ∧
      (stackedEndless.during 0 restartedOn (endlessTurns UInt32.size)).length = 4294967296 ∧
      ∃ e, stackedEndless.run? (endlessTurns UInt32.size) = some e ∧
        e.stack.map Frame.iterations = [0] := by
  have hspawn : (spawn DryRun.host {} {} {}).run? _ = some queuedEndless :=
    run?_eq_some_ran (by rfl)
  have hstart : stackedEndless = endlessAt 0 0 stackedEndless.published := by rfl
  obtain ⟨hstays, hcount, published, hrun⟩ :=
    endlessTurns_run UInt32.size 0 0 stackedEndless.published
  rw [← hstart] at hstays hcount hrun
  refine ⟨(Reachable.spawn _ _ _ _).run hspawn, by rfl, by rfl, by rfl, hstays, hcount, _, hrun, ?_⟩
  show [0 + UInt32.ofNat UInt32.size] = [0]
  rfl

end Engine

end CraftLang
