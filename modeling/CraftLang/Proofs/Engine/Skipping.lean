import CraftLang.Proofs.Engine.Accounting
import CraftLang.Proofs.Engine.Arrivals
import CraftLang.Proofs.Engine.Preemption
import CraftLang.Proofs.Engine.Stepping

/-!
Steps past a failure in a frame over lines. A command that fails stays at the place of the frame,
and a step moves on past it. A line that cannot be read is pulled all the same and leaves nothing at
the place of the frame, so a step moves on past the command that comes there next: the first one on
the lines behind the faulty one is pulled and left out. Without steps a frame leaves out no command
that it has pulled.
-/

namespace CraftLang

theorem StandsOver.length_le {frame : Frame} {frames stack : List Frame} {moved : Nat}
    (h : StandsOver frame frames moved stack) : stack.length ≤ frames.length + 1 := by
  rcases h with h | ⟨top, rest, rfl, hrest, -⟩
  · exact Nat.le_succ_of_le h
  · have hlength : rest.length = frames.length := by simpa using congrArg List.length hrest
    exact Nat.le_of_eq (congrArg Nat.succ hlength)

/-- The frames have come down to `frames`, or the one on top of these is over lines and has what
`lines` hold behind the commands that it had in `frame`. -/
def HoldsOver (frame : Frame) (frames : List Frame) (lines : List String) (stack : List Frame) :
    Prop :=
  stack.length ≤ frames.length ∨
    ∃ top ∈ stack.head?, top.isProduced = true ∧ top.commands = frame.commands ++ Frame.heldBy lines

namespace HoldsOver

variable {frame top top' : Frame} {frames rest stack stack' : List Frame}
  {lines lines' : List String}

theorem congr (h : HoldsOver frame frames lines stack)
    (hstack : stack'.map Frame.unfed = stack.map Frame.unfed) :
    HoldsOver frame frames lines stack' := by
  have hlength : stack'.length = stack.length := by simpa using congrArg List.length hstack
  rcases h with h | ⟨top, htop, hproduced, hcommands⟩
  · exact .inl (hlength ▸ h)
  · have hhead : stack'.head?.map Frame.unfed = stack.head?.map Frame.unfed := by
      rw [← List.head?_map, hstack, List.head?_map]
    rw [Option.mem_def.mp htop, Option.map_some, Option.map_eq_some_iff] at hhead
    obtain ⟨top', htop', hunfed⟩ := hhead
    refine .inr ⟨top', htop', ?_, ?_⟩
    · rw [← Frame.unfed_isProduced, hunfed, Frame.unfed_isProduced, hproduced]
    · rw [← Frame.unfed_commands, hunfed, Frame.unfed_commands, hcommands]

/-- What takes the place of the top frame has to be over lines if that was. -/
theorem replace (h : HoldsOver frame frames lines (top :: rest))
    (hproduced : top'.isProduced = top.isProduced)
    (hcommands : top'.commands = top.commands ++ Frame.heldBy lines') :
    HoldsOver frame frames (lines ++ lines') (top' :: rest) := by
  rcases h with h | ⟨found, hfound, hover, hheld⟩
  · exact .inl h
  · obtain rfl := Option.some.inj hfound
    refine .inr ⟨top', rfl, hproduced.trans hover, ?_⟩
    rw [hcommands, hheld, Frame.heldBy_append, List.append_assoc]

end HoldsOver

namespace Engine

variable {σ : Type} {e e' e₁ : Engine σ} {ahead : Nat} {frame : Frame}
  {frames stack stack' : List Frame}

/-! ### Frames in reach of their commands -/

/-- All frames are in reach of their commands, and those in the queue are at their start. -/
structure Reaches (ahead : Nat) (e : Engine σ) : Prop where
  stack : ∀ frame ∈ e.stack, frame.InReach ahead
  queue : ∀ frame ∈ e.queuedFrames, frame.InReach 0

theorem inReach_of_unfed (h : ∀ frame ∈ stack, frame.InReach ahead)
    (hunfed : stack'.map Frame.unfed = stack.map Frame.unfed) :
    ∀ frame ∈ stack', frame.InReach ahead := by
  intro frame' hmem
  have hmap : frame'.unfed ∈ stack.map Frame.unfed := hunfed ▸ List.mem_map_of_mem hmem
  obtain ⟨frame, hframe, heq⟩ := List.mem_map.mp hmap
  exact (h frame hframe).congr heq.symm

/-- A frame that a caller puts into the queue is at its start. -/
theorem receive_queue_inReach (e : Engine σ) (call : Call)
    (h : ∀ frame ∈ e.queuedFrames, frame.InReach 0) :
    ∀ frame ∈ (e.receive call).queuedFrames, frame.InReach 0 := by
  intro frame hmem
  rcases e.receive_queuedFrames_cases call frame hmem with hnew | hold
  · exact hnew.inReach
  · obtain ⟨old, hqueued, hunfed⟩ := List.mem_map.mp hold
    exact (h old hqueued).congr hunfed.symm

theorem fetch?_inReach (h : ∀ frame ∈ e.stack, frame.InReach ahead) (hfetch : e.fetch? = some e') :
    ∀ frame ∈ e'.stack, frame.InReach ahead := by
  rcases fetch?_stack hfetch with ⟨-, hnil⟩ | ⟨top, rest, hstack, hlooked | hpopped⟩
  · rw [hnil]
    exact List.forall_mem_nil _
  · rw [hstack] at h
    obtain ⟨htop, hrest⟩ := List.forall_mem_cons.mp h
    rw [hlooked]
    exact List.forall_mem_cons.mpr ⟨htop.fetchStep, hrest⟩
  · rw [hstack] at h
    rw [hpopped]
    exact (List.forall_mem_cons.mp h).2

/-- Acting on a result moves the top frame past its command, and brings a frame at its start. -/
theorem settle_inReach {command : Command} {executed : Executed}
    (h : ∀ frame ∈ e.stack, frame.InReach ahead) (hcurrent : e.current? = some command)
    (hleads : (command.execute e.settings).Leads (.done executed)) (text : String) (delay : Nat) :
    ∀ frame ∈ ((e.updateTop (·.setKind executed.kind)).settle executed.result text delay).stack,
      frame.InReach ahead := by
  cases hstack : e.stack with
  | nil => simp [current?, hstack] at hcurrent
  | cons top rest =>
      have hcommand : top.commands[top.index]? = some command := by
        simpa [current?, hstack] using hcurrent
      rw [hstack] at h
      obtain ⟨htop, hrest⟩ := List.forall_mem_cons.mp h
      have hset : ∀ frame ∈ top.setKind executed.kind :: rest, frame.InReach ahead :=
        List.forall_mem_cons.mpr ⟨htop.setKind _, hrest⟩
      have hadvanced : ∀ frame ∈ (top.setKind executed.kind).advance :: rest, frame.InReach ahead :=
        List.forall_mem_cons.mpr
          ⟨(htop.setKind _).advance (Frame.setKind_getElem? hcommand _), hrest⟩
      obtain ⟨kind, result⟩ := executed
      rw [updateTop_of_cons hstack]
      cases result with
      | error error => exact hset
      | ok outcome =>
          cases outcome with
          | loop | pause | gateComplete => exact hset
          | skipped => exact hadvanced
          | proceed =>
              simp only [settle, rest_stack]
              exact hadvanced
          | push new =>
              have hnew : new.InReach 0 :=
                (hleads.ends (command.execute_startsAfresh e.settings) new rfl).inReach
              simp only [settle, rest_stack]
              exact List.forall_mem_cons.mpr ⟨hnew.mono (Nat.zero_le _), hadvanced⟩

theorem applyLoop_inReach {command : Command} (h : ∀ frame ∈ e.stack, frame.InReach ahead)
    (hcurrent : e.current? = some command) (restart : Bool) (text : String) (delay : Nat) :
    ∀ frame ∈ (e.applyLoop restart text delay).stack, frame.InReach ahead := by
  cases hstack : e.stack with
  | nil => simp [current?, hstack] at hcurrent
  | cons top rest =>
      have hcommand : top.commands[top.index]? = some command := by
        simpa [current?, hstack] using hcurrent
      obtain ⟨htop, hrest⟩ := List.forall_mem_cons.mp (hstack ▸ h)
      unfold applyLoop
      split
      · exact h
      · split
        · rw [hstack]
          simp only
          unfold Frame.restart
          cases hproduced : top.isProduced with
          | true => exact h
          | false =>
              refine List.forall_mem_cons.mpr ⟨fun hyes => ?_, hrest⟩
              exact absurd (hproduced.symm.trans hyes) Bool.false_ne_true
        · rw [updateTop_of_cons hstack]
          exact List.forall_mem_cons.mpr ⟨htop.advance hcommand, hrest⟩

theorem print_inReach (h : ∀ frame ∈ e.stack, frame.InReach ahead) (call : HostCall)
    (after : Aftermath) : ∀ frame ∈ (e.print call after).stack, frame.InReach ahead := by
  obtain ⟨world, hprinted | ⟨-, hbroken⟩⟩ := e.print_cases call after
  · rw [hprinted]
    cases after with
    | pause delay => exact h
    | clear => exact List.forall_mem_nil _
    | pop =>
        intro frame hmem
        have htail : frame ∈ e.stack.tail := by
          rwa [conclude, goto, pop_stack] at hmem
        exact h frame (List.mem_of_mem_tail htail)
  · rw [hbroken]
    exact h

theorem tick_inReach (h : ∀ frame ∈ e.stack, frame.InReach ahead) (hatWork : e.AtWork)
    (hphase : e.phase.inTick = true) (hstep : e.proceed? = some e') :
    ∀ frame ∈ e'.stack, frame.InReach ahead := by
  have hsame {e' : Engine σ} (hstack : e'.stack = e.stack) :
      ∀ frame ∈ e'.stack, frame.InReach ahead :=
    hstack ▸ h
  cases tickStep_of_inTick hphase hstep with
  | fetched _ hfetch => exact fetch?_inReach h hfetch
  | started => exact hsame (e.start_stack _)
  | settled hp =>
      simp only [AtWork, hp] at hatWork
      obtain ⟨command, hcurrent, -, hleads⟩ := hatWork
      exact settle_inReach h hcurrent hleads _ _
  | performed => exact hsame (e.perform_stack _ _ _ _)
  | woken | rested => exact h
  | looped hp =>
      simp only [AtWork, hp] at hatWork
      obtain ⟨command, kind, hcurrent, -⟩ := hatWork
      exact applyLoop_inReach h hcurrent _ _ _
  | applied => exact hsame (e.applyDeferredPause_stack _)
  | printed => exact print_inReach h _ _
  | paused => exact hsame (e.close_stack _)

/-- A step that is followed gets the top frame one further past its commands. -/
theorem Reaches.applied {drains : Bool} {request : Request} {queue : List Request} {phase : Phase}
    (h : e.Reaches ahead) (htaken : e.phase = .taken drains) (hqueue : e.queue = request :: queue) :
    (({ e with queue }.apply request).goto phase).Reaches
      (ahead + e.steppedOn (.work .proceed)) := by
  have happlying := applying?_of_taken htaken hqueue
  have hframes : request.frame?.toList ++ (({ e with queue }.apply request).goto phase).queuedFrames
      = e.queuedFrames :=
    applied_queuedFrames hqueue (apply_queue _ _)
  have hall := h.queue
  rw [← hframes, List.forall_mem_append] at hall
  refine ⟨?_, hall.2⟩
  cases request with
  | push new =>
      rw [steppedOn, happlying, if_neg (by simp)]
      have hnew : new.InReach 0 := hall.1 new List.mem_cons_self
      exact List.forall_mem_cons.mpr ⟨hnew.mono (Nat.zero_le _), h.stack⟩
  | clear => exact List.forall_mem_nil _
  | step =>
      cases hopen : e.pause.isOpen with
      | true =>
          rw [steppedOn_of_open hopen, apply_step_of_open (e := { e with queue }) hopen]
          exact h.stack
      | false =>
          rw [steppedOn_of_closed hopen happlying,
            apply_step_of_closed (e := { e with queue }) hopen]
          have hstack := h.stack
          cases hframes : e.stack with
          | nil =>
              simp only [updateTop, goto]
              exact List.forall_mem_nil _
          | cons top rest =>
              rw [hframes] at hstack
              obtain ⟨htop, hrest⟩ := List.forall_mem_cons.mp hstack
              simp only [updateTop, goto]
              exact List.forall_mem_cons.mpr ⟨htop.advance_succ, fun frame hmem =>
                (hrest frame hmem).mono (Nat.le_succ _)⟩

/-- Only a step that is followed gets a frame further past its commands. -/
theorem Reaches.on {event : Event σ} (h : e.Reaches ahead) (hatWork : e.AtWork)
    (hon : e.on? event = some e') : e'.Reaches (ahead + e.steppedOn event) := by
  cases event with
  | work branch =>
      cases step_of_take? hon with
      | tick hphase hstep =>
          rw [steppedOn_of_applying?_none (applying?_of_inTick hphase _)]
          refine ⟨tick_inReach h.stack hatWork hphase hstep, ?_⟩
          rw [queuedFrames, (spares_of_inTick hphase hstep).queue]
          exact h.queue
      | round hround =>
          rw [steppedOn_of_applying?_none hround.applying?]
          refine ⟨?_, ?_⟩
          · cases hround with
            | unready | close => exact List.forall_mem_nil _
            | begin | drained | request | nothing | ready | tick | empty | rest | emptied | wake =>
                exact h.stack
          · rcases hround.queue with hqueue | hqueue
            · rw [queuedFrames, hqueue]
              exact h.queue
            · rw [queuedFrames, hqueue]
              exact List.forall_mem_nil _
      | interrupted | served =>
          rw [steppedOn_of_applying?_none rfl]
          exact ⟨h.stack, h.queue⟩
      | applied hphase hqueue => exact h.applied hphase hqueue
  | call asked =>
      cases hon
      exact ⟨inReach_of_unfed h.stack (e.receive_leavesWork asked).stack,
        e.receive_queue_inReach asked h.queue⟩
  | pass ms | change world =>
      cases hon
      exact ⟨h.stack, h.queue⟩

theorem Reaches.run {events : List (Event σ)} (h : e.Reaches ahead) (he : e.Reachable)
    (hrun : e.run? events = some e') : e'.Reaches (ahead + e.stepped events) := by
  induction events generalizing e ahead with
  | nil =>
      cases hrun
      exact h
  | cons event events ih =>
      obtain ⟨e₁, hon, hrest⟩ := run?_cons_eq_some.mp hrun
      rw [stepped_cons hon, ← Nat.add_assoc]
      exact ih (h.on he.atWork hon) (he.on event hon) hrest

theorem spawn_reaches (host : Host σ) (settings : Settings) (world : σ) (catalog : Catalog) :
    (spawn host settings world catalog).Reaches 0 :=
  ⟨List.forall_mem_nil _, List.forall_mem_nil _⟩

/-! ### Lines that are drawn -/

/-- The lines that the engine takes from the source of its top frame on an event. -/
def drawnOn (e : Engine σ) : Event σ → List String
  | .work .proceed =>
    match e.phase with
    | .fetching => (e.stack.head?.map Frame.drawn).getD []
    | _ => []
  | _ => []

/-- The lines that the engine takes from the sources of its top frames in the course of a run. -/
def drawn (e : Engine σ) : List (Event σ) → List String
  | [] => []
  | event :: events =>
    match e.on? event with
    | none => []
    | some e' => e.drawnOn event ++ e'.drawn events

theorem drawn_cons {event : Event σ} (hon : e.on? event = some e₁) (events : List (Event σ)) :
    e.drawn (event :: events) = e.drawnOn event ++ e₁.drawn events := by
  simp only [drawn, hon]

theorem drawnOn_of_not_isLooking (h : e.phase.isLooking = false) (event : Event σ) :
    e.drawnOn event = [] := by
  unfold drawnOn
  split
  · split
    · next hphase =>
        rw [hphase] at h
        cases h
    · rfl
  · rfl

theorem startedOn_of_not_isLooking (h : e.phase.isLooking = false) (event : Event σ) :
    e.startedOn event = [] := by
  cases event with
  | work branch => cases hp : e.phase <;> simp_all [startedOn, starting?, Phase.isLooking]
  | call | pass | change => rfl

namespace Awaits

variable {moved : Nat} {lines : List String}

theorem holdsOver_fetch? (h : Awaits frame frames moved e)
    (hholds : HoldsOver frame frames lines e.stack) (hfetch : e.fetch? = some e') :
    HoldsOver frame frames (lines ++ (e.stack.head?.map Frame.drawn).getD []) e'.stack := by
  rcases fetch?_stack hfetch with ⟨-, hnil⟩ | ⟨top, rest, hstack, hlooked | hpopped⟩
  · rw [hnil]
    exact .inl (Nat.zero_le _)
  · rw [hstack] at hholds ⊢
    rw [hlooked]
    exact hholds.replace top.fetchStep_isProduced top.commands_fetchStep
  · have hlength := h.stack.length_le
    rw [hstack, List.length_cons] at hlength
    rw [hpopped]
    exact .inl (Nat.le_of_succ_le_succ hlength)

/-- The one request that there is takes no command off the top frame. -/
theorem holdsOver_taken {request : Request} {queue : List Request} {phase : Phase}
    (h : Awaits frame frames moved e) (hqueue : e.queue = request :: queue)
    (hholds : HoldsOver frame frames lines e.stack) :
    HoldsOver frame frames lines (({ e with queue }.apply request).goto phase).stack := by
  obtain ⟨hnil, -⟩ | ⟨hone, -⟩ := h.request
  · rw [hnil] at hqueue
    cases hqueue
  · rw [hone] at hqueue
    cases hqueue
    cases hopen : e.pause.isOpen with
    | true =>
        rw [apply_step_of_open (e := { e with queue := [] }) hopen]
        exact hholds
    | false =>
        rw [apply_step_of_closed (e := { e with queue := [] }) hopen]
        cases hstack : e.stack with
        | nil => exact .inl (by simp [updateTop, goto])
        | cons top rest =>
            rw [hstack] at hholds
            have hsame : HoldsOver frame frames (lines ++ []) (top.advance :: rest) :=
              hholds.replace rfl (List.append_nil _).symm
            rwa [List.append_nil] at hsame

/-- What is printed is that no command could be had. -/
theorem holdsOver_print {call : HostCall} {after : Aftermath} (h : Awaits frame frames moved e)
    (hp : e.phase = .printing call after) (hholds : HoldsOver frame frames lines e.stack) :
    HoldsOver frame frames lines (e.print call after).stack := by
  obtain rfl := h.after_of_printing hp
  obtain ⟨world, hprinted | ⟨-, hbroken⟩⟩ := e.print_cases call (.pause none)
  · exact hprinted ▸ hholds
  · exact hbroken ▸ hholds

/-- As long as nothing is started, the top frame takes in the commands on the lines that it draws,
and those alone. -/
theorem holdsOver_on {event : Event σ} (h : Awaits frame frames moved e)
    (hquiet : event.isQuiet = true) (hstarted : e.startedOn event = [])
    (hon : e.on? event = some e') (hholds : HoldsOver frame frames lines e.stack) :
    HoldsOver frame frames (lines ++ e.drawnOn event) e'.stack := by
  cases event with
  | work branch =>
      cases step_of_take? hon with
      | tick hphase hstep =>
          cases tickStep_of_inTick hphase hstep with
          | fetched hp hfetch =>
              simp only [drawnOn, hp]
              exact h.holdsOver_fetch? hholds hfetch
          | started hp => simp [startedOn, starting?, hp] at hstarted
          | printed hp =>
              have hnone : e.drawnOn (.work .proceed) = [] := by simp [drawnOn, hp]
              rw [hnone, List.append_nil]
              exact h.holdsOver_print hp hholds
          | paused hp =>
              have hnone : e.drawnOn (.work .proceed) = [] := by simp [drawnOn, hp]
              rw [hnone, List.append_nil, close_stack]
              exact hholds
          | settled hp | performed hp | woken hp | looped hp | applied hp | rested hp =>
              exact absurd h.phase (by simp [hp, Phase.isStarted])
      | round hround =>
          rw [drawnOn_of_not_isLooking (Phase.not_isLooking_of_not_inTick hround.inTick),
            List.append_nil]
          cases hround with
          | unready | close => exact .inl (Nat.zero_le _)
          | begin | drained | request | nothing | ready | tick | empty | rest | emptied | wake =>
              exact hholds
      | interrupted | served =>
          show HoldsOver frame frames (lines ++ []) e.stack
          rw [List.append_nil]
          exact hholds
      | applied hphase hqueue =>
          rw [drawnOn_of_not_isLooking (by rw [hphase]; rfl), List.append_nil]
          exact h.holdsOver_taken hqueue hholds
  | call asked =>
      cases hon
      have hnone : e.drawnOn (.call asked) = [] := rfl
      rw [hnone, List.append_nil]
      exact hholds.congr (e.receive_leavesWork asked).stack
  | pass ms =>
      cases hon
      have hnone : e.drawnOn (.pass ms) = [] := rfl
      rw [hnone, List.append_nil]
      exact hholds
  | change world =>
      cases hon
      have hnone : e.drawnOn (.change world) = [] := rfl
      rw [hnone, List.append_nil]
      exact hholds

theorem holdsOver_run {events : List (Event σ)} (h : Awaits frame frames moved e)
    (hquiet : ∀ event ∈ events, event.isQuiet = true) (hstarted : e.started events = [])
    (hrun : e.run? events = some e') (hholds : HoldsOver frame frames lines e.stack) :
    HoldsOver frame frames (lines ++ e.drawn events) e'.stack := by
  induction events generalizing e moved lines with
  | nil =>
      cases hrun
      exact (List.append_nil lines).symm ▸ hholds
  | cons event events ih =>
      obtain ⟨e₁, hon, hrest⟩ := run?_cons_eq_some.mp hrun
      have hquiet₁ := hquiet event List.mem_cons_self
      rw [started_cons hon, List.append_eq_nil_iff] at hstarted
      rw [drawn_cons hon, ← List.append_assoc]
      exact ih (h.on (.inl hquiet₁) hstarted.1 hon)
        (fun event hmem => hquiet event (List.mem_cons_of_mem _ hmem)) hstarted.2 hrest
        (h.holdsOver_on hquiet₁ hstarted.1 hon hholds)

/-- Before somebody opens the gate nothing is started and no line is drawn. -/
theorem behind {events : List (Event σ)} (h : Awaits frame frames moved e) (hhalts : e.Halts)
    (hquiet : ∀ event ∈ events, event.isQuiet = true) (hrun : e.run? events = some e') :
    e.started events = [] ∧ e.drawn events = [] ∧ e'.Halts := by
  induction events generalizing e moved with
  | nil =>
      cases hrun
      exact ⟨rfl, rfl, hhalts⟩
  | cons event events ih =>
      obtain ⟨e₁, hon, hrest⟩ := run?_cons_eq_some.mp hrun
      have hquiet₁ := hquiet event List.mem_cons_self
      have hlook := h.not_isLooking hhalts
      have hstarted : e.startedOn event = [] := startedOn_of_not_isLooking hlook event
      obtain ⟨hnone, hdry, hhalts'⟩ := ih (h.on (.inl hquiet₁) hstarted hon)
        (h.halts_on hhalts hquiet₁ hon)
        (fun event hmem => hquiet event (List.mem_cons_of_mem _ hmem))
        hrest
      rw [started_cons hon, drawn_cons hon, hstarted, drawnOn_of_not_isLooking hlook, hnone, hdry]
      exact ⟨rfl, rfl, hhalts'⟩

/-- A step that is asked for while nothing is queued is all that is awaited. -/
theorem stepOver (h : Awaits frame frames 0 e) (hqueue : e.queue = [])
    (hphase : e.phase.hasEnded = false) :
    Awaits frame frames 0 e.stepOver ∧ e.stepOver.queue = [.step] := by
  have hsent : e.stepOver = { e with queue := [.step] } := by
    simp [Engine.stepOver, send, hphase, hqueue]
  rw [hsent]
  exact ⟨⟨h.phase, h.gate, .inr ⟨rfl, rfl⟩, h.stack⟩, rfl⟩

end Awaits

/-- A run without a step in it, and with none in the queue at its start, follows none. -/
theorem stepped_of_no_step {events : List (Event σ)} (hqueue : .step ∉ e.queue)
    (hevents : ∀ event ∈ events, event.isQuiet = true) (hrun : e.run? events = some e') :
    e.stepped events = 0 ∧ .step ∉ e'.queue := by
  induction events generalizing e with
  | nil =>
      cases hrun
      exact ⟨rfl, hqueue⟩
  | cons event events ih =>
      obtain ⟨e₁, hon, hrest⟩ := run?_cons_eq_some.mp hrun
      have hother : event ≠ .call .step := by
        rintro rfl
        cases hevents _ List.mem_cons_self
      have hnone : e.steppedOn event = 0 := by
        cases event with
        | work branch =>
            have happlying : e.applying? branch ≠ some .step := by
              intro happlying
              unfold applying? at happlying
              split at happlying
              · exact hqueue (List.mem_of_mem_head? happlying)
              · cases happlying
            rw [steppedOn, if_neg fun h => happlying h.2]
        | call | pass | change => rfl
      rw [stepped_cons hon, hnone, Nat.zero_add]
      exact ih (no_step_queued hqueue hother hon)
        (fun event hmem => hevents event (List.mem_cons_of_mem _ hmem)) hrest

/-! ### Ticks that fail -/

theorem inTick_of_fails (h : e.fails = true) : e.phase.inTick = true := by
  unfold fails at h
  split at h
  · next hphase => rw [hphase]; rfl
  · next hphase => rw [hphase]; rfl
  · next hphase => rw [hphase]; rfl
  · cases h

/-- A tick fails because no command can be had, and then its frame has none at its place; or it
fails at the command that the frame has there. Next it prints a message and closes the pause
gate. -/
theorem fails_place (hatWork : e.AtWork) (hfails : e.fails = true) (hstep : e.proceed? = some e')
    (hstack : e'.stack = frame :: frames) :
    (∃ message, e'.phase = .printing message (.pause none)) ∧
      (frame.commands[frame.index]? = none ↔ e.phase = .fetching) := by
  unfold fails at hfails
  split at hfails
  · next hp =>
      simp only [proceed?, hp] at hstep
      unfold fetchFails at hfails
      unfold fetch? at hstep
      cases hframes : e.stack with
      | nil => simp [hframes] at hfails
      | cons top rest =>
          simp only [hframes, List.head?_cons, Option.any_some] at hfails hstep
          cases hlook : top.fetchStep with
          | mk fetched top' =>
              cases fetched with
              | failed error =>
                  simp only [hlook, Option.some.injEq] at hstep
                  subst hstep
                  obtain ⟨rfl, rfl⟩ := List.cons.inj hstack
                  exact ⟨⟨_, rfl⟩, iff_of_true (Frame.fetchStep_eq_failed hlook) hp⟩
              | command | finished | again | waiting => simp [hlook] at hfails
  · next executed text delay hp =>
      simp only [AtWork, hp] at hatWork
      obtain ⟨command, hcurrent, rfl, hleads⟩ := hatWork
      have hfailed : executed.isSuccess = false := by simpa using hfails
      obtain ⟨message, -, hsettle⟩ :=
        settle_of_failure hcurrent hleads hfailed command.text delay
      simp only [proceed?, hp, Option.some.injEq] at hstep
      rw [hsettle] at hstep
      subst hstep
      have hframes : e.stack = frame :: frames := hstack
      refine ⟨⟨message, rfl⟩, iff_of_false ?_ (by simp [hp])⟩
      simp only [current?, hframes] at hcurrent
      simp [show frame.commands[frame.index]? = some command from hcurrent]
  · next restart text delay hp =>
      simp only [AtWork, hp] at hatWork
      obtain ⟨command, kind, hcurrent, -⟩ := hatWork
      simp only [proceed?, hp, Option.some.injEq] at hstep
      simp only [Bool.and_eq_true, Bool.not_eq_true'] at hfails
      obtain ⟨⟨hstay, rfl⟩, hproduced⟩ := hfails
      cases hframes : e.stack with
      | nil => simp [hframes] at hproduced
      | cons top rest =>
          have hover : top.isProduced = true := by simpa [hframes] using hproduced
          simp only [applyLoop, hstay, hframes, Frame.restart, hover, if_true, Bool.false_eq_true,
            if_false] at hstep
          subst hstep
          have hsame : e.stack = frame :: frames := hstack
          refine ⟨⟨_, rfl⟩, iff_of_false ?_ (by simp [hp])⟩
          simp only [current?, hsame] at hcurrent
          simp [show frame.commands[frame.index]? = some { command with kind } from hcurrent]
  · cases hfails

end Engine

/-- Of the commands on `lines` the frame, moved by `moved`, comes to `command`, and the ones before
are passed over: so many as lie between the commands that it has and that place. -/
def Frame.Passes (frame : Frame) (moved : Nat) (lines : List String) (command : Command) : Prop :=
  ∃ passed, Frame.heldBy lines = passed ++ [command] ∧
    frame.commands.length + passed.length = frame.index + moved

namespace Engine

variable {σ : Type} {e e' e₁ : Engine σ} {ahead moved : Nat} {frame : Frame} {frames : List Frame}

/-- The command that is started next is the last on the lines that were drawn for it. -/
theorem Awaits.passes {command : Command} {lines : List String} (h : Awaits frame frames moved e)
    (hreaches : e.Reaches ahead) (hatWork : e.AtWork) (hstarting : e.starting? = some command)
    (hholds : HoldsOver frame frames lines e.stack)
    (hplace : frame.commands.length ≤ frame.index + moved) :
    e.stack.length ≤ frames.length ∨ frame.Passes moved lines command := by
  have hphase : e.phase = .drawing command := by
    unfold starting? at hstarting
    split at hstarting
    · next hphase => exact hphase.trans (congrArg _ (Option.some.inj hstarting))
    · cases hstarting
  rcases h.stack with hgone | ⟨top, rest, hstack, -, hindex, -⟩
  · exact .inl hgone
  · rcases hholds with hgone | ⟨found, hfound, hover, hcommands⟩
    · exact .inl hgone
    · rw [hstack] at hfound
      obtain rfl := Option.some.inj hfound
      simp only [AtWork, hphase, current?, hstack] at hatWork
      have hcommand : top.commands[top.index]? = some command := hatWork
      obtain ⟨hheld, -⟩ := hreaches.stack top (hstack ▸ List.mem_cons_self) hover
      -- The command is the last of the frame, and it is none of those that were there before.
      obtain ⟨hlt, -⟩ := List.getElem?_eq_some_iff.mp hcommand
      have hlength := congrArg List.length hcommands
      rw [List.length_append] at hlength
      rw [hcommands, List.getElem?_append_right (by omega)] at hcommand
      have hlast : command ∈ (Frame.heldBy lines).getLast? := by
        rw [Option.mem_def, List.getLast?_eq_getElem?, ← hcommand]
        exact congrArg _ (by omega)
      refine .inr ⟨(Frame.heldBy lines).dropLast, (List.dropLast_append_getLast? _ hlast).symm, ?_⟩
      rw [List.length_dropLast]
      omega

/-- A step that has left the queue of an engine that halts was followed. -/
theorem Awaits.followed_stepOver {before : List (Event σ)} (h : Awaits frame frames 0 e)
    (hhalts : e.Halts) (hqueue : e.queue = []) (hphase : e.phase.hasEnded = false)
    (hquiet : ∀ event ∈ before, event.isQuiet = true) (hrun : e.stepOver.run? before = some e')
    (hqueue' : e'.queue = []) (hholds : HoldsOver frame frames [] e.stack) :
    Awaits frame frames 1 e' ∧ HoldsOver frame frames [] e'.stack := by
  obtain ⟨hasked, hsent⟩ := h.stepOver hqueue hphase
  have hhalts' : e.stepOver.Halts :=
    hhalts.imp (fun hhalting => (e.receive_leavesWork .step).phase ▸ hhalting)
      (send_pause e .step).trans
  obtain ⟨hnone, hdry, -⟩ := hasked.behind hhalts' hquiet hrun
  have hlast := hasked.run hquiet hnone hrun
  have hcount := hasked.followed hhalts' hquiet hnone hrun (.inr (by rw [hsent]; rfl))
  have hheld := hasked.holdsOver_run hquiet hnone hrun
    (hholds.congr (e.receive_leavesWork .step).stack)
  rw [hdry] at hheld
  refine ⟨⟨hlast.phase, hlast.gate, .inl ⟨hqueue', Nat.le_refl _⟩, ?_⟩, hheld⟩
  rcases hcount with hnil | hone
  · exact .inl (by simp [hnil])
  · have hstepped : 0 + e.stepOver.stepped before = 1 := by simpa [hqueue'] using hone
    exact hstepped ▸ hlast.stack

/-- The first command that is started after a resume. -/
theorem Awaits.passes_resumed {after : List (Event σ)} {command : Command}
    (h : Awaits frame frames moved e) (he : e.Reachable) (hreaches : e.Reaches ahead)
    (hholds : HoldsOver frame frames [] e.stack)
    (hquiet : ∀ event ∈ after, event.isQuiet = true) (hrun : e.resume.run? after = some e')
    (hnone : e.resume.started after = []) (hstarting : e'.starting? = some command)
    (hplace : frame.commands.length ≤ frame.index + moved) :
    e'.stack.length ≤ frames.length ∨ frame.Passes moved (e.resume.drawn after) command := by
  have hon : e.on? (.call .resume) = some e.resume := rfl
  have hresumed : Awaits frame frames moved e.resume := h.on (.inr rfl) rfl hon
  have hreachable : e.resume.Reachable := he.on _ hon
  have hlast := hresumed.run hquiet hnone hrun
  have hopen : e'.pause.isOpen = true := by
    refine hlast.gate ?_
    unfold starting? at hstarting
    split at hstarting
    · next hphase => rw [hphase]; rfl
    · cases hstarting
  rw [hresumed.stepped_of_open hquiet hnone hrun hopen] at hlast
  have hreaches' := (hreaches.on he.atWork hon).run hreachable hrun
  have hholds' := hresumed.holdsOver_run hquiet hnone hrun hholds
  exact hlast.passes hreaches' (hreachable.run hrun).atWork hstarting hholds' hplace

/-- A tick fails at the top frame, which is over lines. The frame has no command at its place if
none could be had, and otherwise it has one there and none behind it; without steps before, it has
no command that it was moved past without need. Resumed behind a line that could not be read, it
goes on with the first command on the lines behind that one. With a step in between it goes on one
command further: behind a command that failed that is the first one on the lines which follow, but
behind a line that could not be read that first one is left out as well. -/
theorem stepOver_past_failure (host : Host σ) (settings : Settings) (world : σ) (catalog : Catalog)
    {events pausing : List (Event σ)} {e₀ e e₁ : Engine σ}
    (hrun : (spawn host settings world catalog).run? events = some e₀) (hfails : e₀.fails = true)
    (hstep : e₀.proceed? = some e) (hqueue : e.queue = []) (hstack : e.stack = frame :: frames)
    (hproduced : frame.isProduced = true) (hpausing : ∀ event ∈ pausing, event.isQuiet = true)
    (hrun₁ : e.run? pausing = some e₁) :
    (frame.commands.length ≤ frame.index + 1 ∧
      frame.index ≤ frame.commands.length + (spawn host settings world catalog).stepped events ∧
      (frame.commands[frame.index]? = none ↔ e₀.phase = .fetching)) ∧
    (∀ after e' command, (∀ event ∈ after, event.isQuiet = true) →
      e₁.resume.run? after = some e' → e₁.resume.started after = [] →
      e'.starting? = some command → e₀.phase = .fetching →
        e'.stack.length ≤ frames.length ∨ frame.Passes 0 (e₁.resume.drawn after) command) ∧
    ∀ before e₂ after e' command, (∀ event ∈ before, event.isQuiet = true) →
      e₁.stepOver.run? before = some e₂ → e₂.queue = [] →
      (∀ event ∈ after, event.isQuiet = true) →
      e₂.resume.run? after = some e' → e₂.resume.started after = [] →
      e'.starting? = some command →
        e'.stack.length ≤ frames.length ∨ frame.Passes 1 (e₂.resume.drawn after) command := by
  have hspawn : (spawn host settings world catalog).Reachable := .spawn _ _ _ _
  have he₀ : e₀.Reachable := hspawn.run hrun
  have hon : e₀.on? (.work .proceed) = some e := hstep
  have he : e.Reachable := he₀.on _ hon
  obtain ⟨⟨message, hphase⟩, hplace⟩ := fails_place he₀.atWork hfails hstep hstack
  -- The step that fails takes no request, so it gets no frame further.
  have hreaches : e.Reaches ((spawn host settings world catalog).stepped events) := by
    have hreaches₀ := (spawn_reaches host settings world catalog).run hspawn hrun
    have hlater := hreaches₀.on he₀.atWork hon
    rwa [steppedOn_of_applying?_none (applying?_of_inTick (inTick_of_fails hfails) _), Nat.zero_add,
      Nat.add_zero] at hlater
  obtain ⟨hheld, hindex⟩ := hreaches.stack frame (hstack ▸ List.mem_cons_self) hproduced
  have hawaits : Awaits frame frames 0 e := by
    refine ⟨by rw [hphase]; rfl, fun hlook => ?_, .inl ⟨hqueue, Nat.zero_le _⟩, ?_⟩
    · rw [hphase] at hlook
      cases hlook
    · exact .inr ⟨frame, frames, hstack, rfl, rfl, List.prefix_refl _⟩
  have hhalts : e.Halts := .inl (by rw [hphase]; rfl)
  have hholds : HoldsOver frame frames [] e.stack :=
    .inr ⟨frame, hstack ▸ rfl, hproduced, (List.append_nil _).symm⟩
  -- Up to the closed gate, and behind it, nothing happens to the frame.
  obtain ⟨hnone, hdry, hhalts₁⟩ := hawaits.behind hhalts hpausing hrun₁
  obtain ⟨hstill, hunasked⟩ :=
    stepped_of_no_step (by rw [hqueue]; exact List.not_mem_nil) hpausing hrun₁
  have he₁ : e₁.Reachable := he.run hrun₁
  have hreaches₁ := hreaches.run he hrun₁
  have hawaits₁ := hawaits.run hpausing hnone hrun₁
  rw [hstill] at hawaits₁ hreaches₁
  have hholds₁ := hawaits.holdsOver_run hpausing hnone hrun₁ hholds
  rw [hdry] at hholds₁
  refine ⟨⟨hheld, hindex, hplace⟩, ?_, ?_⟩
  · intro after e' command hafter hrun' hnone' hstarting hfetching
    refine hawaits₁.passes_resumed he₁ hreaches₁ hholds₁ hafter hrun' hnone' hstarting ?_
    exact List.getElem?_eq_none_iff.mp (hplace.mpr hfetching)
  · intro before e₂ after e' command hbefore hrun₂ hqueue₂ hafter hrun' hnone' hstarting
    have hqueue₁ : e₁.queue = [] := by
      rcases hawaits₁.request with ⟨hnil, -⟩ | ⟨hone, -⟩
      · exact hnil
      · rw [hone] at hunasked
        exact absurd List.mem_cons_self hunasked
    have hstepOver : e₁.on? (.call .step) = some e₁.stepOver := rfl
    have he₂ : e₂.Reachable := (he₁.on _ hstepOver).run hrun₂
    cases hended : e₁.phase.hasEnded with
    | true =>
        -- An engine that has ended starts nothing.
        have hasked : e₁.stepOver.phase = e₁.phase := (e₁.receive_leavesWork .step).phase
        obtain ⟨hphase₂, -⟩ := run?_of_hasEnded (by rw [hasked, hended]) hrun₂
        have hphase₂ : e₂.resume.phase = e₁.phase := hphase₂.trans hasked
        obtain ⟨hphase', -⟩ := run?_of_hasEnded (by rw [hphase₂, hended]) hrun'
        rw [← hphase₂, ← hphase'] at hended
        unfold starting? at hstarting
        split at hstarting
        · next hphase => rw [hphase] at hended; cases hended
        · cases hstarting
    | false =>
        obtain ⟨hawaits₂, hholds₂⟩ := hawaits₁.followed_stepOver hhalts₁ hqueue₁ hended hbefore
          hrun₂ hqueue₂ hholds₁
        have hreaches₂ := (hreaches₁.on he₁.atWork hstepOver).run (he₁.on _ hstepOver) hrun₂
        exact hawaits₂.passes_resumed he₂ hreaches₂ hholds₂ hafter hrun' hnone' hstarting hheld

def runningFaulty (steps : Nat) : List (Event DryRun) :=
  .call (.enqueueSource "Faulty"
    (.ofItems [.line "not a command", .line "/echo a", .line "/echo b"])) :: onItsOwn steps

/-- The engine after so many steps of that run. The seventh one fails. -/
def faultyAfter (steps : Nat) : Engine DryRun :=
  (spawn DryRun.host {} {}).ran (runningFaulty steps)

def steppedFaulty : Engine DryRun :=
  ((faultyAfter 7).ran (onItsOwn 6)).stepOver.ran servesOne

/-- The step passes over the second line. -/
theorem stepOver_past_failure_faultyLine :
    ∃ frame command, (faultyAfter 7).stack = [frame] ∧ command.text = "/echo b" ∧
      frame.Passes 1 (steppedFaulty.resume.drawn (onItsOwn 7)) command := by
  obtain ⟨frame, hstack⟩ : ∃ frame, (faultyAfter 7).stack = [frame] :=
    List.length_eq_one_iff.mp (by rfl)
  have hproduced : some true = (faultyAfter 7).stack.head?.map Frame.isProduced := by rfl
  rw [hstack] at hproduced
  obtain ⟨command, hstarting⟩ := Option.isSome_iff_exists.mp
    (show ((steppedFaulty.resume.ran (onItsOwn 7)).starting?).isSome = true by rfl)
  have htext : (steppedFaulty.resume.ran (onItsOwn 7)).starting?.map Command.text =
      some "/echo b" := by rfl
  rw [hstarting, Option.map_some, Option.some.injEq] at htext
  have hserve : ∀ event ∈ servesOne, event.isQuiet = true := by simp [servesOne, Event.isQuiet]
  have hquiet := forall_onItsOwn (σ := DryRun) (P := (·.isQuiet = true)) rfl
  have hrun : (spawn DryRun.host {} {}).run? (runningFaulty 6) = some (faultyAfter 6) :=
    run?_eq_some_ran (by rfl)
  have hfails : (faultyAfter 6).fails = true := by rfl
  obtain ⟨-, -, hstep⟩ := stepOver_past_failure DryRun.host {} {} {} hrun hfails (by rfl) (by rfl)
    hstack (Option.some.inj hproduced).symm (hquiet 6) (run?_eq_some_ran (by rfl))
  rcases hstep servesOne steppedFaulty (onItsOwn 7) _ command hserve
    (run?_eq_some_ran (by rfl)) (by rfl) (hquiet 7) (run?_eq_some_ran (by rfl)) (by rfl)
    hstarting with hgone | hpasses
  · exact absurd hgone (by decide)
  · exact ⟨frame, command, hstack, htext, hpasses⟩

/-- A line that can be read is pulled and left out, though the one step that was asked for had a
faulty line to pass. -/
theorem stepOver_skips_readable_line :
    (faultyAfter 6).fails = true ∧
      (spawn DryRun.host {} {}).stepped (runningFaulty 13) = 0 ∧
      ((faultyAfter 7).ran (onItsOwn 6)).stepOver.stepped servesOne = 1 ∧
      steppedFaulty.resume.drawn (onItsOwn 7) = ["/echo a", "/echo b"] ∧
      (Frame.heldBy ["/echo a", "/echo b"]).map Command.text = ["/echo a", "/echo b"] ∧
      (steppedFaulty.resume.started (onItsOwn 16)).map Command.text = ["/echo b"] ∧
      (steppedFaulty.resume.ran (onItsOwn 16)).stack.length = 0 := by
  refine ⟨by rfl, by rfl, by rfl, by rfl, by rfl, by rfl, by rfl⟩

end Engine

end CraftLang
