import CraftLang.Proofs.Engine.FailedTick
import CraftLang.Proofs.Engine.Recursion
import CraftLang.Proofs.Engine.Restacking
import CraftLang.Proofs.Frame.Life

/-!
Frames among other frames. Other frames can come on top of a frame at any time, and go again. The
frame does not change meanwhile, and what it does when it is on top is what it would do if there
were no other frames.
-/

namespace CraftLang

def Phase.stage : Phase → Stage
  | .drawing command => .found command
  | .running program .. | .suspended _ program .. => .running program
  | .looped restart .. => .looped restart
  | .printing _ .pop => .over
  | _ => .seeking

/-- Whether nothing more is done for any frame: the engine is about to take all of them off the
stack, or it has broken down. -/
def Phase.isLeaving : Phase → Bool
  | .printing _ .clear | .closing | .broken => true
  | _ => false

namespace Engine

variable {σ : Type} {e e' : Engine σ}

/-! ### What a frame hears and does -/

/-- What a command gets for a call at this moment, unless the host fails or the engine is
cancelled. -/
def reply? (e : Engine σ) : (effect : Effect) → Option effect.Reply
  | .host call => (e.ask call).1.toOption
  | .knowsAction name =>
    if e.catalog.isLoaded then some (e.catalog.contains name)
    else (e.ask .craftActions).1.toOption.map fun names => (Catalog.ofNames names).contains name
  | .sleep _ => if e.cancel.isCancelled then none else some ()

/-- What the top frame gets to hear on an event. -/
def heardOn (e : Engine σ) : Event σ → List Told
  | .work .proceed =>
    match e.phase with
    | .fetching => (e.stack.head?.map Frame.heard).getD []
    | .running (.call effect _) _ _ => ((e.reply? effect).map (Told.reply effect)).toList
    | _ => []
  | _ => []

/-- Whether the top frame goes with the next step because it has come to its end, after its last
command or at a gate. At a gate the host is told first. -/
def ends (e : Engine σ) : Bool :=
  match e.phase with
  | .fetching => e.stack.head?.any fun frame => frame.fetchStep.1 == .finished
  | .printing call .pop => (e.ask call).1.toOption.isSome
  | _ => false

def endedOn (e : Engine σ) : Event σ → List Frame
  | .work .proceed => if e.ends then e.stack.head?.toList else []
  | _ => []

/-- What is observed on an event if the frame at a height is on top. -/
def duringOn {α : Type} (height : Nat) (observe : Engine σ → Event σ → List α) (e : Engine σ)
    (event : Event σ) : List α :=
  if e.stack.length = height + 1 then observe e event else []

/-- What is observed on the events of a run while the frame at a height is on top, until that frame
is gone. -/
def during {α : Type} (height : Nat) (observe : Engine σ → Event σ → List α) (e : Engine σ) :
    List (Event σ) → List α
  | [] => []
  | event :: events =>
    if e.stack.length ≤ height then []
    else
      match e.on? event with
      | none => []
      | some e' => e.duringOn height observe event ++ e'.during height observe events

theorem during_of_gone {α : Type} {height : Nat} (observe : Engine σ → Event σ → List α)
    (hgone : e.stack.length ≤ height) (events : List (Event σ)) :
    e.during height observe events = [] := by
  cases events with
  | nil => rfl
  | cons event events => rw [during, if_pos hgone]

theorem during_cons {α : Type} {height : Nat} (observe : Engine σ → Event σ → List α)
    {event : Event σ} (hthere : height < e.stack.length) (hon : e.on? event = some e')
    (events : List (Event σ)) :
    e.during height observe (event :: events) =
      e.duringOn height observe event ++ e'.during height observe events := by
  rw [during, if_neg (Nat.not_le.mpr hthere), hon]

/-- Whether an event neither asks for a step nor lets a tick fail. -/
def isSmoothOn (e : Engine σ) : Event σ → Bool
  | .work .proceed => !e.fails
  | .call .step => false
  | _ => true

def isSmooth (e : Engine σ) : List (Event σ) → Bool
  | [] => true
  | event :: events =>
    e.isSmoothOn event && (e.on? event).all fun e' => e'.isSmooth events

theorem ne_step_of_isSmoothOn {event : Event σ} (h : e.isSmoothOn event = true) :
    event ≠ .call .step := by
  rintro rfl
  cases h

theorem fails_of_isSmoothOn {event : Event σ} (h : e.isSmoothOn event = true)
    (hevent : event = .work .proceed) : e.fails = false := by
  subst hevent
  simpa [isSmoothOn] using h

theorem isSmooth_cons {event : Event σ} (hon : e.on? event = some e') (events : List (Event σ)) :
    e.isSmooth (event :: events) = true ↔
      e.isSmoothOn event = true ∧ e'.isSmooth events = true := by
  simp [isSmooth, hon]

def staysAbove (height : Nat) (e : Engine σ) : List (Event σ) → Bool
  | [] => height < e.stack.length
  | event :: events =>
    height < e.stack.length && (e.on? event).all fun e' => e'.staysAbove height events

theorem lt_length_of_staysAbove {height : Nat} {events : List (Event σ)}
    (h : e.staysAbove height events = true) : height < e.stack.length := by
  cases events <;> simp_all [staysAbove]

/-! ### Where a frame is -/

/-- The engine `e` is where the frame at a height lives: on top of the stack, below other frames, on
its way off the stack with all others, or gone. -/
inductive Lives (height : Nat) (life : Life) (e : Engine σ) : Prop
  | top {frame : Frame} {base : List Frame} (hstack : e.stack = frame :: base)
      (hheight : base.length = height) (hframe : frame.unfed = life.frame)
      (hstage : e.phase.stage = life.stage)
  | covered {first : Frame} {above : List Frame} {frame : Frame} {base : List Frame}
      (hstack : e.stack = first :: (above ++ frame :: base)) (hheight : base.length = height)
      (hframe : frame.unfed = life.frame) (hstage : life.stage = .seeking)
  | leaving (hstack : e.stack.length = height + 1) (hphase : e.phase.isLeaving = true)
  | gone (hstack : e.stack.length ≤ height)

theorem rest_stage (e : Engine σ) (delay : Nat) : (e.rest delay).phase.stage = .seeking := by
  unfold rest
  repeat' split
  all_goals rfl

theorem close_stage (e : Engine σ) (delay : Option Nat) :
    (e.close delay).phase.stage = .seeking := by
  cases delay with
  | none => rfl
  | some delay => exact rest_stage _ _

theorem applyDeferredPause_stage (e : Engine σ) (delay : Nat) :
    (e.applyDeferredPause delay).phase.stage = .seeking := by
  unfold applyDeferredPause
  split
  · rfl
  · exact rest_stage _ _

/-! ### One step in a tick -/

variable {frame : Frame} {base : List Frame}

theorem updateTop_of_cons (hstack : e.stack = frame :: base) (f : Frame → Frame) :
    e.updateTop f = { e with stack := f frame :: base } := by
  unfold updateTop
  rw [hstack]

/-- A frame goes on from the result of its command, unless the command is to be tried again. -/
theorem settle_lives {executed : Executed} (hstack : e.stack = frame :: base)
    (hsuccess : executed.isSuccess = true) (text : String) (delay : Nat) :
    ∃ life, executed.leave? frame.unfed = some life ∧
      Lives base.length life
        ((e.updateTop (·.setKind executed.kind)).settle executed.result text delay) := by
  obtain ⟨kind, result⟩ := executed
  rw [updateTop_of_cons hstack]
  cases result with
  | error error => cases hsuccess
  | ok outcome =>
      cases outcome with
      | pause reason => cases hsuccess
      | proceed =>
          refine ⟨_, rfl, .top (rest_stack _ _) rfl ?_ (rest_stage _ _)⟩
          simp
      | skipped | loop restart | gateComplete =>
          refine ⟨_, rfl, .top rfl rfl ?_ rfl⟩
          simp
      | push pushed =>
          have hcovered (e : Engine σ) (top : Frame) :
              ({ e with stack := pushed :: top :: base }.rest delay).stack =
                pushed :: ([] ++ top :: base) := rest_stack _ _
          refine ⟨_, rfl, .covered (hcovered _ _) rfl ?_ rfl⟩
          simp

theorem start_lives (hstack : e.stack = frame :: base) (command : Command) :
    Lives base.length ⟨frame.unfed, .running (command.execute e.settings)⟩ (e.start command) := by
  unfold start
  split
  · split
    · next hask =>
        rw [eq_of_ask hask]
        exact .top hstack rfl rfl rfl
    · next hask =>
        rw [eq_of_ask hask]
        exact .leaving (congrArg List.length hstack) rfl
  · exact .top hstack rfl rfl rfl

/-- A command goes on with the reply to its call; without one the frame does nothing more. -/
theorem perform_lives (hstack : e.stack = frame :: base) (effect : Effect)
    (next : effect.Reply → Action Executed) (text : String) (delay : Nat) :
    ∃ life, Life.Course e.settings ⟨frame.unfed, .running (.call effect next)⟩
        ((e.reply? effect).map (Told.reply effect)).toList [] life ∧
      Lives base.length life (e.perform effect next text delay) := by
  have htold (reply : effect.Reply) : Life.Course e.settings
      ⟨frame.unfed, .running (.call effect next)⟩ [.reply effect reply] []
      ⟨frame.unfed, .running (next reply)⟩ := .of_move (.told rfl reply)
  cases effect with
  | host call =>
      simp only [perform, reply?]
      split
      · next reply e₁ hask =>
          rw [hask, eq_of_ask hask]
          exact ⟨_, htold reply, .top hstack rfl rfl rfl⟩
      · next hask =>
          rw [hask, eq_of_ask hask]
          exact ⟨_, .refl _, .leaving (congrArg List.length hstack) rfl⟩
  | knowsAction name =>
      simp only [perform, reply?]
      split
      · exact ⟨_, htold _, .top hstack rfl rfl rfl⟩
      · split
        · next names e₁ hask =>
            rw [hask, eq_of_ask hask]
            exact ⟨_, htold _, .top hstack rfl rfl rfl⟩
        · next hask =>
            rw [hask, eq_of_ask hask]
            exact ⟨_, .refl _, .leaving (congrArg List.length hstack) rfl⟩
  | sleep ms =>
      simp only [perform, reply?]
      split
      · exact ⟨_, .refl _, .leaving (congrArg List.length hstack) rfl⟩
      · split
        · exact ⟨_, htold (), .top hstack rfl rfl rfl⟩
        · exact ⟨_, htold (), .top hstack rfl rfl rfl⟩

theorem fetch?_lives (hstack : e.stack = frame :: base) (hphase : e.phase = .fetching)
    (hfails : e.fetchFails = false) (hfetch : e.fetch? = some e') :
    ∃ stage, frame.fetchStep.1.stage? = some stage ∧
      Lives base.length ⟨frame.fetchStep.2.unfed, stage⟩ e' ∧
      (frame.fetchStep.1 = .finished → stage = .over) := by
  cases hlook : frame.fetchStep with
  | mk fetched next =>
      simp only [fetchFails, fetch?, hstack, hlook, List.head?_cons,
        Option.any_some] at hfails hfetch
      cases fetched with
      | command command =>
          cases hfetch
          exact ⟨_, rfl, .top rfl rfl rfl rfl, fun h => by cases h⟩
      | finished =>
          cases hfetch
          refine ⟨_, rfl, .gone ?_, fun _ => rfl⟩
          simp [pop, goto, hstack]
      | failed error => cases hfails
      | again =>
          cases hfetch
          refine ⟨_, rfl, .top rfl rfl rfl ?_, fun h => by cases h⟩
          show e.phase.stage = .seeking
          rw [hphase]
          rfl
      | waiting => cases hfetch

theorem applyLoop_lives (hstack : e.stack = frame :: base) {restart : Bool} {text : String}
    {delay : Nat} (hphase : e.phase = .looped restart text delay) (hfails : e.fails = false) :
    ∃ life, Life.Course e.settings ⟨frame.unfed, .looped restart⟩ [] [] life ∧
      Lives base.length life (e.applyLoop restart text delay) := by
  have hloop {next : Frame} (h : frame.loop? restart = some next) :
      Life.Course e.settings ⟨frame.unfed, .looped restart⟩ [] [] ⟨next.unfed, .seeking⟩ :=
    .of_move (.looped rfl (Frame.loop?_unfed h))
  unfold applyLoop
  split
  · exact ⟨_, .refl _, .leaving (congrArg List.length hstack) rfl⟩
  · next hstop =>
      cases restart with
      | false =>
          rw [updateTop_of_cons hstack]
          exact ⟨_, hloop rfl, .top rfl rfl rfl rfl⟩
      | true =>
          simp only [hstack, if_true]
          split
          · next next hrestart =>
              exact ⟨_, hloop (by simp [Frame.loop?, hrestart, Except.toOption]),
                .top rfl rfl rfl rfl⟩
          · next hrestart =>
              -- Only a frame over a source of lines refuses, and then the tick fails.
              have hproduced : frame.isProduced = true := by
                unfold Frame.restart at hrestart
                split at hrestart
                · assumption
                · cases hrestart
              simp [fails, hphase, hstack, hstop, hproduced] at hfails

/-- The engine goes on after it has printed something, or takes the top frame off the stack. -/
theorem print_lives (hstack : e.stack = frame :: base) {call : HostCall} {after : Aftermath}
    (hphase : e.phase = .printing call after) :
    Lives base.length ⟨frame.unfed, e.phase.stage⟩ (e.print call after) := by
  obtain ⟨world, hprinted | ⟨-, hbroken⟩⟩ := e.print_cases call after
  · rw [hprinted]
    cases after with
    | pause delay => exact .top hstack rfl rfl (by rw [hphase]; rfl)
    | pop => exact .gone (Nat.le_of_eq (by simp [conclude, pop, goto, hstack]))
    | clear => exact .gone (Nat.zero_le _)
  · rw [hbroken]
    exact .leaving (congrArg List.length hstack) rfl

/-- What a step in a tick is in the life of the top frame. -/
theorem tick_lives (hstack : e.stack = frame :: base) (hphase : e.phase.inTick = true)
    (hfails : e.fails = false) (hstep : e.proceed? = some e') :
    ∃ life, Life.Course e.settings ⟨frame.unfed, e.phase.stage⟩ (e.heardOn (.work .proceed))
        (e.startedOn (.work .proceed)) life ∧
      Lives base.length life e' ∧ (e.ends = true → life.stage = .over) := by
  cases tickStep_of_inTick hphase hstep with
  | fetched hp hfetch =>
      have hfound : e.fetchFails = false := by simpa [fails, hp] using hfails
      obtain ⟨stage, hlook, hlives, hover⟩ := fetch?_lives hstack hp hfound hfetch
      refine ⟨_, ?_, hlives, fun hends => hover (by simpa [ends, hp, hstack] using hends)⟩
      simp only [heardOn, startedOn, starting?, hp, hstack]
      exact .of_move (.looked rfl rfl hlook)
  | @started command hp =>
      refine ⟨_, ?_, start_lives hstack command, by simp [ends, hp]⟩
      simp only [heardOn, startedOn, starting?, hp]
      exact .of_move (.started rfl)
  | @settled executed text delay hp =>
      have hsuccess : executed.isSuccess = true := by simpa [fails, hp] using hfails
      obtain ⟨life, hleave, hlives⟩ := settle_lives hstack hsuccess text delay
      refine ⟨life, ?_, hlives, by simp [ends, hp]⟩
      simp only [heardOn, startedOn, starting?, hp]
      exact .of_move (.settled rfl hleave)
  | @performed effect next text delay hp =>
      obtain ⟨life, hcourse, hlives⟩ := perform_lives hstack effect next text delay
      refine ⟨life, ?_, hlives, by simp [ends, hp]⟩
      simp only [heardOn, startedOn, starting?, hp]
      exact hcourse
  | woken hp =>
      refine ⟨⟨frame.unfed, e.phase.stage⟩, ?_, .top hstack rfl rfl (by rw [hp]; rfl),
        by simp [ends, hp]⟩
      simp only [heardOn, startedOn, starting?, hp]
      exact .refl _
  | @looped restart text delay hp =>
      obtain ⟨life, hcourse, hlives⟩ := applyLoop_lives hstack hp hfails
      refine ⟨life, ?_, hlives, by simp [ends, hp]⟩
      simp only [heardOn, startedOn, starting?, hp]
      exact hcourse
  | @applied delay hp =>
      have hsame : (e.applyDeferredPause delay).stack = frame :: base :=
        (applyDeferredPause_stack e delay).trans hstack
      have hstage : (e.applyDeferredPause delay).phase.stage = e.phase.stage := by
        rw [applyDeferredPause_stage, hp]
        rfl
      refine ⟨⟨frame.unfed, e.phase.stage⟩, ?_, .top hsame rfl rfl hstage, by simp [ends, hp]⟩
      simp only [heardOn, startedOn, starting?, hp]
      exact .refl _
  | @printed call after hp =>
      refine ⟨⟨frame.unfed, e.phase.stage⟩, ?_, print_lives hstack hp, fun hends => ?_⟩
      · simp only [heardOn, startedOn, starting?, hp]
        exact .refl _
      · cases after with
        | pop => rw [hp]; rfl
        | pause | clear => simp [ends, hp] at hends
  | @paused delay hp =>
      have hstage : (e.close delay).phase.stage = e.phase.stage := by
        rw [close_stage, hp]
        rfl
      refine ⟨⟨frame.unfed, e.phase.stage⟩, ?_,
        .top ((close_stack e delay).trans hstack) rfl rfl hstage, by simp [ends, hp]⟩
      simp only [heardOn, startedOn, starting?, hp]
      exact .refl _
  | rested hp =>
      refine ⟨⟨frame.unfed, e.phase.stage⟩, ?_, .top hstack rfl rfl (by rw [hp]; rfl),
        by simp [ends, hp]⟩
      simp only [heardOn, startedOn, starting?, hp]
      exact .refl _

/-! ### Below other frames -/

/-- As long as no more than the frames above go, those below do not change. -/
theorem below_of_on? {above : List Frame} {event : Event σ} (hstack : e.stack = above ++ base)
    (habove : above ≠ []) (hon : e.on? event = some e') (hstays : base.length ≤ e'.stack.length) :
    ∃ above' base', e'.stack = above' ++ base' ∧ base'.map Frame.unfed = base.map Frame.unfed := by
  obtain ⟨top, rest, rfl⟩ := List.exists_cons_of_ne_nil habove
  cases event with
  | work branch =>
      have hrestacked := (step_of_take? hon).restacked
      generalize e.placedOn (.work branch) = frames at hrestacked
      cases hrestacked with
      | kept f hstack' =>
          refine ⟨f top :: rest, base, ?_, rfl⟩
          rw [hstack', hstack]
          rfl
      | popped top' hstack' =>
          rw [hstack, List.cons_append] at hstack'
          exact ⟨rest, base, (List.cons.inj hstack').2.symm, rfl⟩
      | cleared hstack' =>
          rw [hstack'] at hstays
          rw [List.length_eq_zero_iff.mp (Nat.le_zero.mp hstays)]
          exact ⟨[], [], hstack', rfl⟩
      | placed frame f hstack' =>
          refine ⟨frame :: f top :: rest, base, ?_, rfl⟩
          rw [hstack', hstack]
          rfl
  | call asked =>
      cases hon
      have hsame := (e.receive_leavesWork asked).stack
      rw [hstack, List.map_append] at hsame
      obtain ⟨above', base', hsplit, -, hbase⟩ := List.map_eq_append_iff.mp hsame
      exact ⟨above', base', hsplit, hbase⟩
  | pass ms | change world =>
      cases hon
      exact ⟨_, base, hstack, rfl⟩

theorem Round.stage (h : Round e e') : e'.phase.stage = .seeking := by
  cases h with
  | begin => cases hcancel : e.cancel.isCancelled <;> simp [goto, Phase.stage]
  | @nothing drains => cases drains <;> rfl
  | drained | request | ready | unready | tick | empty | rest | emptied | wake | close => rfl

theorem stage_of_decided {phase : Phase} (h : phase.isUndecided = false) :
    phase.stage = .seeking := by
  cases phase with
  | printing call after => cases after <;> first | rfl | cases h
  | _ => first | rfl | cases h

/-- When a frame comes or goes, no command is being carried out. -/
theorem stage_of_length_ne {event : Event σ} (hwork : e.AtWork) (hon : e.on? event = some e')
    (hne : e'.stack.length ≠ e.stack.length) : e'.phase.stage = .seeking := by
  cases event with
  | work branch =>
      cases step_of_take? hon with
      | tick hphase hstep =>
          cases tick_shift hphase hwork hstep with
          | none hplaces => exact absurd (by simpa using congrArg List.length hplaces) hne
          | drop _ hdecided | top _ _ _ _ _ hdecided => exact stage_of_decided hdecided
      | round hround => exact hround.stage
      | interrupted | served => rfl
      | @applied drains => cases drains <;> rfl
  | call asked =>
      cases hon
      exact absurd (by simpa using congrArg List.length (e.receive_leavesWork asked).stack) hne
  | pass ms | change world =>
      cases hon
      exact absurd rfl hne

theorem covered_lives {first : Frame} {above : List Frame} {life : Life} {event : Event σ}
    (hwork : e.AtWork) (hstack : e.stack = first :: (above ++ frame :: base))
    (hframe : frame.unfed = life.frame) (hstage : life.stage = .seeking)
    (hon : e.on? event = some e') : Lives base.length life e' := by
  by_cases hgone : e'.stack.length ≤ base.length
  · exact .gone hgone
  · have hsplit : e.stack = (first :: above) ++ (frame :: base) := hstack
    have hstays : (frame :: base).length ≤ e'.stack.length := Nat.not_le.mp hgone
    obtain ⟨above', base', hstack', hsame⟩ :=
      below_of_on? hsplit (List.cons_ne_nil _ _) hon hstays
    obtain ⟨frame', base'', rfl, hframe', hbase⟩ := List.map_eq_cons_iff.mp hsame
    have hheight : base''.length = base.length := by simpa using congrArg List.length hbase
    cases above' with
    | nil =>
        refine .top hstack' hheight (hframe'.trans hframe) ?_
        rw [hstage]
        refine stage_of_length_ne hwork hon ?_
        rw [hstack, hstack', List.nil_append, List.length_cons, List.length_cons,
          List.length_append, List.length_cons]
        omega
    | cons first' above' => exact .covered hstack' hheight (hframe'.trans hframe) hstage

/-! ### One event -/

theorem silent_of_not_inTick (hphase : e.phase.inTick = false) (event : Event σ) :
    e.heardOn event = [] ∧ e.startedOn event = [] ∧ e.endedOn event = [] := by
  cases event with
  | work branch =>
      cases branch <;> cases hp : e.phase <;> rw [hp] at hphase <;> cases hphase <;>
        simp [heardOn, startedOn, starting?, endedOn, ends, hp]
  | call | pass | change => exact ⟨rfl, rfl, rfl⟩

theorem stage_of_not_inTick {phase : Phase} (h : phase.inTick = false) :
    phase.stage = .seeking := by
  cases phase <;> first | rfl | cases h

theorem top_lives_of_round (hstack : e.stack = frame :: base) (h : Round e e') :
    Lives base.length ⟨frame.unfed, e.phase.stage⟩ e' := by
  have hstage : e'.phase.stage = e.phase.stage := by
    rw [h.stage, stage_of_not_inTick h.inTick]
  cases h with
  | unready | close => exact .gone (Nat.zero_le _)
  | begin | drained | request | nothing | ready | tick | empty | rest | emptied | wake =>
      exact .top hstack rfl rfl hstage

theorem top_lives_of_applied {request : Request} {queue : List Request} {phase : Phase}
    (hstack : e.stack = frame :: base) (hrequest : request ≠ .step) :
    Lives base.length ⟨frame.unfed, .seeking⟩ (({ e with queue }.apply request).goto phase) := by
  cases request with
  | push pushed =>
      have hcovered : pushed :: e.stack = pushed :: ([] ++ frame :: base) := by rw [hstack]; rfl
      exact .covered hcovered rfl rfl rfl
  | clear => exact .gone (Nat.zero_le _)
  | step => exact absurd rfl hrequest

theorem top_lives_of_same (hstack : e.stack = frame :: base) (hphase : e'.phase = e.phase)
    (hsame : e'.stack.map Frame.unfed = e.stack.map Frame.unfed) :
    Lives base.length ⟨frame.unfed, e.phase.stage⟩ e' := by
  rw [hstack] at hsame
  obtain ⟨frame', base', hstack', hframe, hbase⟩ := List.map_eq_cons_iff.mp hsame
  exact .top hstack' (by simpa using congrArg List.length hbase) hframe (by rw [hphase])

theorem top_lives {event : Event σ} (hqueue : .step ∉ e.queue)
    (hfails : event = .work .proceed → e.fails = false) (hstack : e.stack = frame :: base)
    (hon : e.on? event = some e') :
    ∃ life, Life.Course e.settings ⟨frame.unfed, e.phase.stage⟩ (e.heardOn event)
        (e.startedOn event) life ∧
      Lives base.length life e' ∧ (e.endedOn event ≠ [] → life.stage = .over) := by
  -- Unless the engine takes a step in a tick, the frame does nothing.
  have hidle (hsilent : e.heardOn event = [] ∧ e.startedOn event = [] ∧ e.endedOn event = [])
      (hlives : Lives base.length ⟨frame.unfed, e.phase.stage⟩ e') :
      ∃ life, Life.Course e.settings ⟨frame.unfed, e.phase.stage⟩ (e.heardOn event)
          (e.startedOn event) life ∧
        Lives base.length life e' ∧ (e.endedOn event ≠ [] → life.stage = .over) := by
    obtain ⟨hheard, hstarted, hended⟩ := hsilent
    exact ⟨_, by rw [hheard, hstarted]; exact .refl _, hlives, fun h => absurd hended h⟩
  cases event with
  | work branch =>
      cases step_of_take? hon with
      | tick hphase hstep =>
          obtain ⟨life, hcourse, hlives, hover⟩ := tick_lives hstack hphase (hfails rfl) hstep
          refine ⟨life, hcourse, hlives, fun hended => hover ?_⟩
          simp only [endedOn] at hended
          split at hended
          · assumption
          · exact absurd rfl hended
      | round hround =>
          exact hidle (silent_of_not_inTick hround.inTick _) (top_lives_of_round hstack hround)
      | interrupted hwait =>
          have hnone : e.starting? = none := by
            unfold starting?
            split
            · next hp => simp [isWaiting, hp] at hwait
            · rfl
          exact hidle ⟨rfl, by simp [startedOn, hnone], rfl⟩
            (.leaving (congrArg List.length hstack) rfl)
      | served hphase =>
          refine hidle (silent_of_not_inTick (by rw [hphase]; rfl) _) (.top hstack rfl rfl ?_)
          rw [hphase]
          rfl
      | applied hphase hrequest =>
          have hout : e.phase.inTick = false := by rw [hphase]; rfl
          refine hidle (silent_of_not_inTick hout _) ?_
          rw [stage_of_not_inTick hout]
          refine top_lives_of_applied hstack fun hstep => hqueue ?_
          rw [hrequest, hstep]
          exact List.mem_cons_self
  | call asked =>
      cases hon
      have hleaves := e.receive_leavesWork asked
      exact hidle ⟨rfl, rfl, rfl⟩ (top_lives_of_same hstack hleaves.phase hleaves.stack)
  | pass ms | change world =>
      cases hon
      exact hidle ⟨rfl, rfl, rfl⟩ (top_lives_of_same hstack rfl rfl)

theorem silent_of_isLeaving (hphase : e.phase.isLeaving = true) (event : Event σ) :
    e.heardOn event = [] ∧ e.startedOn event = [] ∧ e.endedOn event = [] := by
  have hidle : e.heardOn (.work .proceed) = [] ∧ e.starting? = none ∧ e.ends = false := by
    cases hp : e.phase with
    | printing call after =>
        cases after with
        | clear => simp [heardOn, starting?, ends, hp]
        | pause | pop => rw [hp] at hphase; cases hphase
    | closing | broken => simp [heardOn, starting?, ends, hp]
    | _ => rw [hp] at hphase; cases hphase
  cases event with
  | work branch =>
      cases branch with
      | proceed => exact ⟨hidle.1, by simp [startedOn, hidle.2.1], by simp [endedOn, hidle.2.2]⟩
      | interrupt | serve => exact ⟨rfl, by simp [startedOn, hidle.2.1], rfl⟩
  | call | pass | change => exact ⟨rfl, rfl, rfl⟩

/-- Frames on their way off the stack go with the next step, unless the engine breaks down. -/
theorem on?_leaving {height : Nat} {event : Event σ} (hphase : e.phase.isLeaving = true)
    (hstack : e.stack.length = height + 1) (hon : e.on? event = some e') (life : Life) :
    Lives height life e' := by
  cases event with
  | work branch =>
      have hwaiting : e.isWaiting = false := by
        cases hp : e.phase <;> simp_all [Phase.isLeaving, isWaiting]
      obtain ⟨-, hstep⟩ := proceed_of_take? hwaiting hon
      cases hp : e.phase with
      | printing call after =>
          simp only [proceed?, hp, Option.some.injEq] at hstep
          cases after with
          | clear =>
              obtain ⟨world, hprinted | ⟨-, hbroken⟩⟩ := e.print_cases call .clear
              · exact hstep ▸ hprinted ▸ .gone (Nat.zero_le _)
              · exact hstep ▸ hbroken ▸ .leaving hstack rfl
          | pause | pop => rw [hp] at hphase; cases hphase
      | closing =>
          simp only [proceed?, hp, Option.some.injEq] at hstep
          exact hstep ▸ .gone (Nat.zero_le _)
      | broken => simp [proceed?, hp] at hstep
      | _ => rw [hp] at hphase; cases hphase
  | call asked =>
      cases hon
      have hleaves := e.receive_leavesWork asked
      refine .leaving ?_ (by rw [hleaves.phase]; exact hphase)
      simpa [hstack] using congrArg List.length hleaves.stack
  | pass ms | change world =>
      cases hon
      exact .leaving hstack hphase

/-- An event is a part of the life of the frame at a height. -/
theorem on?_lives {height : Nat} {life : Life} {event : Event σ} (hwork : e.AtWork)
    (hqueue : .step ∉ e.queue) (hfails : event = .work .proceed → e.fails = false)
    (hlives : Lives height life e) (hthere : height < e.stack.length)
    (hon : e.on? event = some e') :
    ∃ life', Life.Course e.settings life (e.duringOn height heardOn event)
        (e.duringOn height startedOn event) life' ∧
      Lives height life' e' ∧ (e.duringOn height endedOn event ≠ [] → life'.stage = .over) := by
  cases hlives with
  | top hstack hheight hframe hstage =>
      have hown : e.stack.length = height + 1 := by rw [hstack, List.length_cons, hheight]
      obtain ⟨_, _⟩ := life
      obtain rfl := hframe
      obtain rfl := hstage
      simp only [duringOn, if_pos hown]
      exact hheight ▸ top_lives hqueue hfails hstack hon
  | covered hstack hheight hframe hstage =>
      have hother : e.stack.length ≠ height + 1 := by
        rw [hstack, List.length_cons, List.length_append, List.length_cons]
        omega
      simp only [duringOn, if_neg hother]
      exact ⟨life, .refl _, hheight ▸ covered_lives hwork hstack hframe hstage hon, fun h =>
        absurd rfl h⟩
  | gone hstack => exact absurd hthere (Nat.not_lt.mpr hstack)
  | leaving hstack hphase =>
      obtain ⟨hheard, hstarted, hended⟩ := silent_of_isLeaving hphase event
      simp only [duringOn, hheard, hstarted, hended, ite_self]
      exact ⟨life, .refl _, on?_leaving hphase hstack hon life, fun h => absurd rfl h⟩

/-! ### A run -/

theorem on?_settings {event : Event σ} (hon : e.on? event = some e') :
    e'.settings = e.settings := by
  cases event with
  | work branch =>
      cases step_of_take? hon with
      | tick hphase hstep => exact (spares_of_inTick hphase hstep).settings
      | round hround => cases hround <;> rfl
      | interrupted | served => rfl
      | @applied drains request queue =>
          cases request with
          | push | clear => rfl
          | step => exact (apply_step_spares { e with queue }).settings
  | call asked =>
      cases hon
      exact (e.receive_leavesWork asked).settings
  | pass ms | change world =>
      cases hon
      rfl

/-- A run is a course in the life of the frame at a height. -/
theorem run?_lives {height : Nat} {life : Life} {events : List (Event σ)} (hreach : e.Reachable)
    (hqueue : .step ∉ e.queue) (hsmooth : e.isSmooth events = true) (hlives : Lives height life e)
    (hrun : e.run? events = some e') :
    ∃ life', Life.Course e.settings life (e.during height heardOn events)
        (e.during height startedOn events) life' ∧
      (e.during height endedOn events ≠ [] → life'.stage = .over) := by
  induction events generalizing e life with
  | nil => exact ⟨life, .refl _, fun h => absurd rfl h⟩
  | cons event events ih =>
      by_cases hthere : height < e.stack.length
      · obtain ⟨e₁, hon, hrest⟩ := run?_cons_eq_some.mp hrun
        obtain ⟨hevent, hlater⟩ := (isSmooth_cons hon events).mp hsmooth
        obtain ⟨life₁, hfirst, hlives₁, hover₁⟩ :=
          on?_lives hreach.atWork hqueue (fails_of_isSmoothOn hevent) hlives hthere hon
        obtain ⟨life', hrest_course, hover'⟩ := ih (hreach.on event hon)
          (no_step_queued hqueue (ne_step_of_isSmoothOn hevent) hon) hlater hlives₁ hrest
        rw [on?_settings hon] at hrest_course
        simp only [during_cons _ hthere hon]
        refine ⟨life', hfirst.trans hrest_course, fun hended => ?_⟩
        by_cases hfirst_ended : e.duringOn height endedOn event = []
        · exact hover' (by simpa [hfirst_ended] using hended)
        · -- A frame that has come to its end makes no move after that.
          have hover := hover₁ hfirst_ended
          rwa [hrest_course.eq_of_over hover]
      · simp only [during_of_gone _ (Nat.not_lt.mp hthere)]
        exact ⟨life, .refl _, fun h => absurd rfl h⟩

/-- As long as one of the frames above is there, the frames below do not change. -/
theorem below_of_run {above : List Frame} {events : List (Event σ)}
    (hstack : e.stack = above ++ base) (hrun : e.run? events = some e')
    (hstays : e.staysAbove base.length events = true) :
    ∃ above' base', e'.stack = above' ++ base' ∧ above' ≠ [] ∧
      base'.map Frame.unfed = base.map Frame.unfed := by
  have habove : above ≠ [] := by
    rintro rfl
    have hhere := lt_length_of_staysAbove hstays
    rw [hstack] at hhere
    exact Nat.lt_irrefl _ hhere
  induction events generalizing e above base with
  | nil =>
      obtain rfl : e = e' := by simpa using hrun
      exact ⟨above, base, hstack, habove, rfl⟩
  | cons event events ih =>
      obtain ⟨e₁, hon, hrest⟩ := run?_cons_eq_some.mp hrun
      have hstays₁ : e₁.staysAbove base.length events = true := by
        simpa [staysAbove, hon] using (Bool.and_eq_true_iff.mp hstays).2
      have hhere := lt_length_of_staysAbove hstays₁
      obtain ⟨above₁, base₁, hstack₁, hsame⟩ :=
        below_of_on? hstack habove hon (Nat.le_of_lt hhere)
      have hlength : base₁.length = base.length := by simpa using congrArg List.length hsame
      have habove₁ : above₁ ≠ [] := by
        rintro rfl
        rw [hstack₁, List.nil_append] at hhere
        omega
      rw [← hlength] at hstays₁
      obtain ⟨above', base', hstack', habove', hsame'⟩ := ih hstack₁ hrest hstays₁ habove₁
      exact ⟨above', base', hstack', habove', hsame'.trans hsame⟩

/-- A command that starts is the one at the program counter of the top frame. -/
theorem current?_of_starting? {command : Command} (hwork : e.AtWork)
    (hstarting : e.starting? = some command) : e.current? = some command := by
  unfold starting? at hstarting
  split at hstarting
  · next hphase =>
      cases hstarting
      simpa only [AtWork, hphase] using hwork
  · cases hstarting

/-- A frame that comes to the stack is on top, and has not yet looked for a command. -/
theorem lives_of_placed {event : Event σ} (hwork : e.AtWork) (hplaced : e.placedOn event = [frame])
    (hon : e.on? event = some e') :
    ∃ base, e'.stack = frame :: base ∧ base.length = e.stack.length ∧
      Lives e.stack.length ⟨frame.unfed, .seeking⟩ e' := by
  cases event with
  | work branch =>
      have hrestacked := (step_of_take? hon).restacked
      rw [hplaced] at hrestacked
      cases hrestacked with
      | placed _ f hstack =>
          have hlength : (e.stack.modifyHead f).length = e.stack.length := List.length_modifyHead
          refine ⟨_, hstack, hlength, .top hstack hlength rfl ?_⟩
          refine stage_of_length_ne hwork hon ?_
          rw [hstack, List.length_cons, hlength]
          exact Nat.succ_ne_self _
  | call | pass | change => cases hplaced

/-- Frames do not disturb each other. As long as a frame that has come to the stack is there, those
below it stay as they are, and no command of theirs starts. In a run in which nobody asks for a step
and no tick fails, the frame hears what it hears, and starts the commands that it starts, when it
comes to an empty stack, if what it asks gets the same answers there: the two are the same as far as
both runs go, nothing is missing when the frame has come to its end, and there is nothing more than
for the frame alone when that one has come to its end. -/
theorem preemption_transparent {τ : Type} {e₁ : Engine σ} {alone alone₁ alone' : Engine τ}
    {frame' : Frame} {event : Event σ} {event' : Event τ} {events : List (Event σ)}
    {events' : List (Event τ)} {answers : Answers} (hreach : e.Reachable)
    (hreach' : alone.Reachable) (hsettings : alone.settings = e.settings)
    (hempty : alone.stack = []) (hplaced : e.placedOn event = [frame])
    (hplaced' : alone.placedOn event' = [frame']) (hframe : frame'.unfed = frame.unfed)
    (hqueue : .step ∉ e.queue) (hqueue' : .step ∉ alone.queue) (hon : e.on? event = some e₁)
    (hon' : alone.on? event' = some alone₁) (hsmooth : e₁.isSmooth events = true)
    (hsmooth' : alone₁.isSmooth events' = true) (hrun : e₁.run? events = some e')
    (hrun' : alone₁.run? events' = some alone')
    (hanswers : answers.Explain [] (e₁.during e.stack.length heardOn events))
    (hanswers' : answers.Explain [] (alone₁.during 0 heardOn events')) :
    (e₁.staysAbove e.stack.length events = true →
      ∃ above base, e'.stack = above ++ base ∧ above ≠ [] ∧
        base.map Frame.unfed = e₁.stack.tail.map Frame.unfed ∧
        ∀ command, e'.starting? = some command → e'.current? = some command) ∧
    (e₁.during e.stack.length heardOn events <+: alone₁.during 0 heardOn events' ∧
        e₁.during e.stack.length startedOn events <+: alone₁.during 0 startedOn events' ∨
      alone₁.during 0 heardOn events' <+: e₁.during e.stack.length heardOn events ∧
        alone₁.during 0 startedOn events' <+: e₁.during e.stack.length startedOn events) ∧
    (e₁.during e.stack.length endedOn events ≠ [] →
      alone₁.during 0 heardOn events' <+: e₁.during e.stack.length heardOn events ∧
        alone₁.during 0 startedOn events' <+: e₁.during e.stack.length startedOn events) ∧
    (alone₁.during 0 endedOn events' ≠ [] →
      e₁.during e.stack.length heardOn events <+: alone₁.during 0 heardOn events' ∧
        e₁.during e.stack.length startedOn events <+: alone₁.during 0 startedOn events') := by
  have hreach₁ := hreach.on event hon
  obtain ⟨base, hstack, hheight, hlives⟩ := lives_of_placed hreach.atWork hplaced hon
  obtain ⟨-, -, -, hlives'⟩ := lives_of_placed hreach'.atWork hplaced' hon'
  rw [hempty, List.length_nil, hframe] at hlives'
  have hqueue₁ : .step ∉ e₁.queue := no_step_queued hqueue (by rintro rfl; cases hplaced) hon
  have hqueue₁' : .step ∉ alone₁.queue :=
    no_step_queued hqueue' (by rintro rfl; cases hplaced') hon'
  refine ⟨fun hstays => ?_, ?_⟩
  · rw [← hheight] at hstays
    have hsplit : e₁.stack = [frame] ++ base := hstack
    obtain ⟨above, base', hsplit', habove, hbase⟩ := below_of_run hsplit hrun hstays
    refine ⟨above, base', hsplit', habove, by rw [hbase, hstack]; rfl, fun command hstarting => ?_⟩
    exact current?_of_starting? (hreach₁.run hrun).atWork hstarting
  · obtain ⟨life, hcourse, hover⟩ := run?_lives hreach₁ hqueue₁ hsmooth hlives hrun
    obtain ⟨life', hcourse', hover'⟩ :=
      run?_lives (hreach'.on event' hon') hqueue₁' hsmooth' hlives' hrun'
    rw [on?_settings hon] at hcourse
    rw [on?_settings hon', hsettings] at hcourse'
    obtain ⟨hsame, hended, hended'⟩ := hcourse.comparable hcourse' hanswers hanswers'
    exact ⟨hsame, fun h => hended (hover h), fun h => hended' (hover' h)⟩

def pairMacro : StoredMacro := { name := "Pair", contents := "/x\n/y" }

def outerOnPair : Engine (DryRun × Library) :=
  (spawn DryRun.host.withLibrary {} ({}, { macros := [outerMacro, innerMacro] })).ran
    (.call (.enqueue pairMacro none) :: onItsOwn 3 ++
      [.call (.enqueue outerMacro none), .work .proceed])

def preempted (steps : Nat) : List (Event (DryRun × Library)) :=
  onItsOwn 6 ++ .call (.enqueue pairMacro none) :: onItsOwn steps

def outerHears : List Told :=
  [.reply (.host (.send "/a")) (), .reply (.host (.findMacro "Inner")) [innerMacro],
    .reply (.host (.send "/b")) ()]

def innerAnswers : Answers where
  line _ := .ended
  reply _
    | .host (.send _) => some ()
    | .host (.findMacro _) => some [innerMacro]
    | _ => none

set_option maxRecDepth 2000 in
/-- The outer macro has an inner macro and an unrelated one on top of it for a while, and it starts
the same three commands as alone. -/
theorem preemption_transparent_outerOnPair :
    (∃ above base, (outerOnPair.ran (.work .proceed :: preempted 81)).stack = above ++ base ∧
      above ≠ [] ∧ base.map Frame.unfed = [(nativeFrame pairMacro).unfed]) ∧
    ((outerOnPair.ran [.work .proceed]).during 1 startedOn (preempted 85)).map Command.text =
      ["/a", "/runmacro \"Inner\"", "/b"] ∧
    (outerOnPair.ran [.work .proceed]).during 1 startedOn (preempted 85) <+:
      (queuedOuter.ran [.work .proceed]).during 0 startedOn (onItsOwn 68) ∧
    (queuedOuter.ran [.work .proceed]).during 0 startedOn (onItsOwn 68) <+:
      (outerOnPair.ran [.work .proceed]).during 1 startedOn (preempted 85) := by
  have hspawn : (spawn DryRun.host.withLibrary {}
      ({}, { macros := [outerMacro, innerMacro] })).run? _ = some outerOnPair :=
    run?_eq_some_ran (by rfl)
  have hspawn' : (spawn DryRun.host.withLibrary {}
      ({}, { macros := [outerMacro, innerMacro] })).run? _ = some queuedOuter :=
    run?_eq_some_ran (by rfl)
  have hplaced : outerOnPair.placedOn (.work .proceed) = [nativeFrame outerMacro] := by rfl
  have hplaced' : queuedOuter.placedOn (.work .proceed) = [nativeFrame outerMacro] := by rfl
  have hqueue : .step ∉ outerOnPair.queue := by
    rw [show outerOnPair.queue = [.push (nativeFrame outerMacro)] by rfl]
    exact nofun
  have hqueue' : .step ∉ queuedOuter.queue := by
    rw [show queuedOuter.queue = [.push (nativeFrame outerMacro)] by rfl]
    exact nofun
  have hon : outerOnPair.on? (.work .proceed) = some (outerOnPair.ran [.work .proceed]) := by rfl
  have hon' : queuedOuter.on? (.work .proceed) = some (queuedOuter.ran [.work .proceed]) := by rfl
  have hheard' : (queuedOuter.ran [.work .proceed]).during 0 heardOn (onItsOwn 68) =
    outerHears := by
    rfl
  have hrun' : (queuedOuter.ran [.work .proceed]).run? (onItsOwn 68) = some _ :=
    run?_eq_some_ran (by rfl)
  have hlength : outerOnPair.stack.length = 1 := by rfl
  have hanswers : innerAnswers.Explain [] outerHears := ⟨rfl, rfl, rfl, trivial⟩
  have htransparent (steps : Nat)
      (hsmooth : (outerOnPair.ran [.work .proceed]).isSmooth (preempted steps) = true)
      (hrun : (outerOnPair.ran [.work .proceed]).run? (preempted steps) =
        some (outerOnPair.ran (.work .proceed :: preempted steps)))
      (hheard : (outerOnPair.ran [.work .proceed]).during 1 heardOn (preempted steps) =
        outerHears) :=
    preemption_transparent ((Reachable.spawn _ _ _ _).run hspawn)
      ((Reachable.spawn _ _ _ _).run hspawn') rfl (by rfl) hplaced hplaced' rfl hqueue hqueue' hon
      hon' hsmooth (by rfl) hrun hrun'
        (show innerAnswers.Explain [] _ by rw [hlength, hheard]; exact hanswers)
      (by rw [hheard']; exact hanswers)
  refine ⟨?_, by rfl, ?_⟩
  · obtain ⟨hnest, -⟩ := htransparent 81 (by rfl) (by rfl) (by rfl)
    obtain ⟨above, base, hsplit, habove, hbase, -⟩ := hnest (by rfl)
    exact ⟨above, base, hsplit, habove, hbase⟩
  · obtain ⟨-, -, hended, hended'⟩ := htransparent 85 (by rfl) (by rfl) (by rfl)
    have hone : ((outerOnPair.ran [.work .proceed]).during 1 endedOn (preempted 85)).length =
    1 := by
      rfl
    have hone' : ((queuedOuter.ran [.work .proceed]).during 0 endedOn (onItsOwn 68)).length =
      1 := by
      rfl
    exact ⟨(hended' (List.ne_nil_of_length_eq_add_one hone')).2,
      (hended (List.ne_nil_of_length_eq_add_one hone)).2⟩

end Engine

end CraftLang
