import CraftLang.Proofs.Command.Counters
import CraftLang.Proofs.Command.Success
import CraftLang.Proofs.Engine.Accounting
import CraftLang.Proofs.Engine.Cancellation
import CraftLang.Proofs.Engine.Stepping

/-!
Loops in frames over lines. Such a frame refuses to start over, so the engine reports the loop and
pauses, with the frame at the loop as before. But the counter of the loop has taken its turn by
then, and a resume carries the loop out again with what is left: a loop without a count is refused
every time, a loop with a count only that often, and then the frame goes on behind it.
-/

namespace CraftLang

namespace LoopCounter

variable {counter : LoopCounter} {turns : Nat}

/-- A loop is exhausted at the turn after as many as it has left. -/
theorem remaining_of_exhausted (h : ∀ count, counter.remaining = some count → turns ≤ count)
    (hturn : (counter.after turns).next.1.restarts = false) : counter.remaining = some turns := by
  have hleft := remaining_after h
  cases hcount : counter.remaining with
  | none =>
      rw [hcount] at hleft
      simp [next, show (counter.after turns).remaining = none from hleft, Turn.restarts] at hturn
  | some count =>
      rw [hcount, Option.map_some] at hleft
      have hle := h count hcount
      cases hleast : count - turns with
      | zero => exact congrArg some (by omega)
      | succ left =>
          rw [hleast] at hleft
          simp [next, hleft, Turn.restarts] at hturn

/-- As long as a loop starts over it has not had all of its turns. -/
theorem lt_of_restarts (hturn : (counter.after turns).next.1.restarts = true)
    (h : ∀ count, counter.remaining = some count → turns ≤ count) :
    ∀ count, counter.remaining = some count → turns < count := by
  intro count hcount
  have hleft := remaining_after h
  rw [hcount, Option.map_some] at hleft
  refine Nat.lt_of_le_of_ne (h count hcount) fun heq => ?_
  subst heq
  rw [Nat.sub_self] at hleft
  simp [next, hleft, Turn.restarts] at hturn

end LoopCounter

def HostCall.error? : HostCall → Option String
  | .printError text => some text
  | _ => none

/-- Whether a phase lies between two commands: the last one is over, with all that there is to tell
of it, and the next one is not started. -/
def Phase.isBetween : Phase → Bool
  | .running .. | .suspended .. | .looped .. | .loopApplied _ | .printing .. | .pausing _
  | .resting _ | .broken => false
  | _ => true

/-- Whether an event leaves the frames of an engine where they are, as far as callers are concerned:
they pause and resume, feed sources, and tell that the host is ready or that all is over. -/
def Event.isPatient {σ : Type} : Event σ → Bool
  | .call (.enqueue ..) | .call (.enqueueSource ..) | .call (.runByName ..) | .call (.stop _)
  | .call .step => false
  | _ => true

namespace Frame

/-- The report of a loop that the frame refuses. -/
def refusal (frame : Frame) (text : String) : String :=
  (CommandError.loopUnsupported frame.name).message ++ " (" ++ text ++ ", step " ++
    Decimal.natText (frame.index + 1) ++ ")"

@[simp] theorem unfed_name (frame : Frame) : frame.unfed.name = frame.name := by
  obtain ⟨_, body, _, _⟩ := frame
  cases body <;> rfl

@[simp] theorem setKind_name (frame : Frame) (kind : CommandKind) :
    (frame.setKind kind).name = frame.name := by
  obtain ⟨_, body, _, _⟩ := frame
  cases body <;> rfl

/-- Only the last instruction that is put in place counts. -/
theorem setKind_setKind (frame : Frame) (kind kind' : CommandKind) :
    (frame.setKind kind).setKind kind' = frame.setKind kind' := by
  have hmodify (commands : List Command) :
      (commands.modify frame.index ({ · with kind })).modify frame.index
          ({ · with kind := kind' }) =
        commands.modify frame.index ({ · with kind := kind' }) := by
    rw [List.modify_modify_eq]
    rfl
  obtain ⟨_, body, _, _⟩ := frame
  cases body <;> simp only [setKind, hmodify]

end Frame

namespace Engine

variable {σ : Type} {e e' e₁ : Engine σ}

def erredOn (e : Engine σ) : Event σ → List String
  | .work branch => (e.callsOf branch).filterMap HostCall.error?
  | _ => []

def erred (e : Engine σ) : List (Event σ) → List String
  | [] => []
  | event :: events =>
    match e.on? event with
    | none => []
    | some e' => e.erredOn event ++ e'.erred events

theorem erred_cons {event : Event σ} (hon : e.on? event = some e₁) (events : List (Event σ)) :
    e.erred (event :: events) = e.erredOn event ++ e₁.erred events := by
  simp only [erred, hon]

/-- A patient event puts nothing into the queue and defers no stop. -/
theorem receive_of_isPatient {call : Call} (h : (Event.call (σ := σ) call).isPatient = true) :
    (e.queue = [] → (e.receive call).queue = []) ∧ (e.receive call).stopAtLoop = e.stopAtLoop := by
  cases call with
  | enqueue | enqueueSource | runByName | stop | step => cases h
  | pause atLoop => cases atLoop <;> exact ⟨id, rfl⟩
  | resume | setReady | shutdown => exact ⟨id, rfl⟩
  | feed id item =>
      rcases e.feed_snd id item with hsame | ⟨f, hmap⟩
      · rw [receive, hsame]
        exact ⟨fun hqueue => hqueue, rfl⟩
      · rw [receive, hmap]
        exact ⟨fun hqueue => by simp [mapSourceFedBy, mapFrames, hqueue], rfl⟩
  | closeChannel id =>
      refine ⟨fun hqueue => ?_, rfl⟩
      simp [receive, closeChannel, mapSourceFedBy, mapFrames, hqueue]

/-! ### The loop of a frame -/

section Loop

variable {frame : Frame} {frames : List Frame} {command : Command} {counter : LoopCounter}
  {stack stack' : List Frame} {turns : Nat} {told : List String}

/-- The frames `frames` with `frame` on top, whose loop has taken so many turns. -/
def Turned (frame : Frame) (frames : List Frame) (counter : LoopCounter) (turns : Nat)
    (stack : List Frame) : Prop :=
  stack.map Frame.unfed = (frame.setKind (.loop (counter.after turns)) :: frames).map Frame.unfed

/-- The frame was at its loop so many times and has refused it each time. -/
def Refused (frame : Frame) (frames : List Frame) (command : Command) (counter : LoopCounter)
    (turns : Nat) (told : List String) (stack : List Frame) : Prop :=
  Turned frame frames counter turns stack ∧
    (∀ count, counter.remaining = some count → turns ≤ count) ∧
    told = List.replicate turns (frame.refusal command.text)

/-- The frame has refused its loop as often as it was left to it, and then moved on behind it; what
has become of it since is left open. -/
def Passed (frame : Frame) (frames : List Frame) (command : Command) (counter : LoopCounter)
    (turns : Nat) (told : List String) (stack : List Frame) : Prop :=
  ∃ count, counter.remaining = some count ∧ turns = count + 1 ∧
    List.replicate count (frame.refusal command.text) <+: told ∧
    StandsOver (frame.setKind (.loop (counter.after turns))) frames 1 stack

/-- The frame has refused its loop once more, and the call that tells so is still to be made. -/
def Refusing (frame : Frame) (frames : List Frame) (command : Command) (counter : LoopCounter)
    (turns : Nat) (told : List String) (call : HostCall) (stack : List Frame) : Prop :=
  ∃ before, turns = before + 1 ∧ call.error? = some (frame.refusal command.text) ∧
    Turned frame frames counter turns stack ∧
    (∀ count, counter.remaining = some count → turns ≤ count) ∧
    told = List.replicate before (frame.refusal command.text)

/-- What holds between the turns of a loop and in the course of them. A host that breaks down at the
loop puts an end to that. -/
def Retries (frame : Frame) (frames : List Frame) (command : Command) (counter : LoopCounter)
    (turns : Nat) (told : List String) (e : Engine σ) : Prop :=
  match e.phase with
  | .running _ text _ =>
    ∃ before, turns = before + 1 ∧ text = command.text ∧
      Refused frame frames command counter before told e.stack
  | .looped restart text _ =>
    ∃ before, turns = before + 1 ∧ text = command.text ∧
      restart = (counter.after before).next.1.restarts ∧
      Turned frame frames counter turns e.stack ∧
      told = List.replicate before (frame.refusal command.text)
  | .suspended .. | .printing _ .pop => False
  | .loopApplied _ | .resting _ | .printing _ (.pause (some _)) | .pausing (some _) =>
    Passed frame frames command counter turns told e.stack
  | .printing call (.pause none) =>
    Refusing frame frames command counter turns told call e.stack ∨
      Passed frame frames command counter turns told e.stack
  | .printing _ .clear | .broken => True
  | _ =>
    Refused frame frames command counter turns told e.stack ∨
      Passed frame frames command counter turns told e.stack

/-- An engine with a loop in a frame over lines, as long as its callers are patient. -/
structure Refuses (frame : Frame) (frames : List Frame) (command : Command)
    (counter : LoopCounter) (turns : Nat) (told : List String) (e : Engine σ) : Prop where
  queue : e.queue = []
  stopAtLoop : e.stopAtLoop = false
  place : e.stack = [] ∨ Retries frame frames command counter turns told e

theorem Turned.congr (h : Turned frame frames counter turns stack)
    (hstack : stack'.map Frame.unfed = stack.map Frame.unfed) :
    Turned frame frames counter turns stack' :=
  hstack.trans h

theorem Passed.congr (h : Passed frame frames command counter turns told stack)
    (hstack : stack'.map Frame.unfed = stack.map Frame.unfed) :
    Passed frame frames command counter turns told stack' := by
  obtain ⟨count, hcount, hturns, htold, hstands⟩ := h
  exact ⟨count, hcount, hturns, htold, hstands.congr hstack⟩

/-- More that is told does not matter any more. -/
theorem Passed.append (h : Passed frame frames command counter turns told stack)
    (more : List String) : Passed frame frames command counter turns (told ++ more) stack := by
  obtain ⟨count, hcount, hturns, htold, hstands⟩ := h
  exact ⟨count, hcount, hturns, htold.trans (List.prefix_append _ _), hstands⟩

/-- The frame on top is at its loop, with the counter as it is after its turns. -/
theorem Turned.top (h : Turned frame frames counter turns stack)
    (hcommand : frame.commands[frame.index]? = some command) :
    ∃ top rest, stack = top :: rest ∧ rest.map Frame.unfed = frames.map Frame.unfed ∧
      top.unfed = (frame.setKind (.loop (counter.after turns))).unfed ∧
      top.index = frame.index ∧ top.isProduced = frame.isProduced ∧ top.name = frame.name ∧
      top.commands = (frame.setKind (.loop (counter.after turns))).commands ∧
      top.commands[top.index]? = some { command with kind := .loop (counter.after turns) } := by
  cases stack with
  | nil => cases h
  | cons top rest =>
      obtain ⟨htop, hrest⟩ := List.cons.inj h
      have hindex : top.index = frame.index := by
        rw [← Frame.unfed_index, htop, Frame.unfed_index, Frame.setKind_index]
      have hproduced : top.isProduced = frame.isProduced := by
        rw [← Frame.unfed_isProduced, htop, Frame.unfed_isProduced, Frame.setKind_isProduced]
      have hname : top.name = frame.name := by
        rw [← Frame.unfed_name, htop, Frame.unfed_name, Frame.setKind_name]
      have hcommands : top.commands = (frame.setKind (.loop (counter.after turns))).commands := by
        rw [← Frame.unfed_commands, htop, Frame.unfed_commands]
      refine ⟨top, rest, rfl, hrest, htop, hindex, hproduced, hname, hcommands, ?_⟩
      rw [hcommands, hindex, ← Frame.setKind_index frame]
      exact Frame.setKind_getElem? hcommand _

theorem Refusing.congr {call : HostCall}
    (h : Refusing frame frames command counter turns told call stack)
    (hstack : stack'.map Frame.unfed = stack.map Frame.unfed) :
    Refusing frame frames command counter turns told call stack' := by
  obtain ⟨before, hturns, hcall, hturned, hleft, htold⟩ := h
  exact ⟨before, hturns, hcall, hturned.congr hstack, hleft, htold⟩

/-- As soon as it is told the frame is between two turns. -/
theorem Refusing.refused {call : HostCall}
    (h : Refusing frame frames command counter turns told call stack) :
    Refused frame frames command counter turns
      (told ++ [call].filterMap HostCall.error?) stack := by
  obtain ⟨before, rfl, hcall, hturned, hleft, rfl⟩ := h
  refine ⟨hturned, hleft, ?_⟩
  rw [List.filterMap_cons_some hcall, List.filterMap_nil, ← List.replicate_succ']

theorem Turned.current? (h : Turned frame frames counter turns e.stack)
    (hcommand : frame.commands[frame.index]? = some command) :
    e.current? = some { command with kind := .loop (counter.after turns) } := by
  obtain ⟨top, rest, hstack, -, -, -, -, -, -, hcurrent⟩ := h.top hcommand
  rw [Engine.current?, hstack]
  exact hcurrent

/-! ### Steps -/

theorem rest_stopAtLoop (e : Engine σ) (delay : Nat) :
    (e.rest delay).stopAtLoop = e.stopAtLoop := by
  unfold rest
  repeat' split
  all_goals rfl

theorem close_stopAtLoop (e : Engine σ) (delay : Option Nat) :
    (e.close delay).stopAtLoop = e.stopAtLoop := by
  cases delay with
  | none => rfl
  | some delay => exact rest_stopAtLoop _ _

theorem applyDeferredPause_stopAtLoop (e : Engine σ) (delay : Nat) :
    (e.applyDeferredPause delay).stopAtLoop = e.stopAtLoop := by
  unfold applyDeferredPause
  split
  · rfl
  · exact rest_stopAtLoop _ _

/-- With no frame and no request an engine has nothing to do. -/
theorem stays_empty {event : Event σ} (hatWork : e.AtWork) (hqueue : e.queue = [])
    (hstack : e.stack = []) (hstop : e.stopAtLoop = false) (hpatient : event.isPatient = true)
    (hon : e.on? event = some e') :
    e'.stack = [] ∧ e'.stopAtLoop = false ∧ e.startedOn event = [] := by
  have hcurrent : e.current? = none := by rw [Engine.current?, hstack]; rfl
  cases event with
  | work branch =>
      have hnone : e.starting? = none := by
        unfold starting?
        split
        · next hp =>
            simp only [AtWork, hp, hcurrent] at hatWork
            cases hatWork
        · rfl
      rw [startedOn, hnone]
      cases step_of_take? hon with
      | tick hphase hstep =>
          cases tickStep_of_inTick hphase hstep with
          | fetched hp hfetch =>
              rw [fetch?, hstack] at hfetch
              cases hfetch
              exact ⟨hstack, hstop, rfl⟩
          | started hp | settled hp | performed hp | woken hp | looped hp =>
              simp [AtWork, hp, hcurrent] at hatWork
          | applied =>
              exact ⟨(e.applyDeferredPause_stack _).trans hstack,
                (e.applyDeferredPause_stopAtLoop _).trans hstop, rfl⟩
          | @printed call after =>
              obtain ⟨world, hprinted | ⟨-, hbroken⟩⟩ := e.print_cases call after
              · rw [hprinted]
                cases after with
                | pause delay => exact ⟨hstack, hstop, rfl⟩
                | pop => simp [conclude, pop, goto, hstack, hstop]
                | clear => exact ⟨rfl, hstop, rfl⟩
              · rw [hbroken]
                exact ⟨hstack, hstop, rfl⟩
          | paused =>
              exact ⟨(e.close_stack _).trans hstack, (e.close_stopAtLoop _).trans hstop, rfl⟩
          | rested => exact ⟨hstack, hstop, rfl⟩
      | round hround =>
          cases hround with
          | unready | close => exact ⟨rfl, hstop, rfl⟩
          | begin | drained | request | nothing | ready | tick | empty | rest | emptied | wake =>
              exact ⟨hstack, hstop, rfl⟩
      | interrupted | served => exact ⟨hstack, hstop, rfl⟩
      | applied _ hrequest =>
          rw [hqueue] at hrequest
          cases hrequest
  | call asked =>
      cases hon
      have hunfed := (e.receive_leavesWork asked).stack
      rw [hstack, List.map_nil, List.map_eq_nil_iff] at hunfed
      exact ⟨hunfed, (receive_of_isPatient hpatient).2.trans hstop, rfl⟩
  | pass ms | change world =>
      cases hon
      exact ⟨hstack, hstop, rfl⟩

/-- A look for a command leaves a frame at its place, or takes it off. -/
theorem fetch?_standsOver {moved : Nat} (h : StandsOver frame frames moved e.stack)
    (hfetch : e.fetch? = some e') : StandsOver frame frames moved e'.stack := by
  rcases fetch?_stack hfetch with ⟨hnil, hnil'⟩ | ⟨top, rest, hstack, hlooked | hpopped⟩
  · rw [hnil', ← hnil]
    exact h
  · rw [hstack] at h
    rw [hlooked]
    exact h.replace 0 top.fetchStep_index top.fetchStep_commands
  · rw [hstack] at h
    rw [hpopped]
    exact h.pop

/-- A look for a command goes on, or to the start of the command, or it ends with a report or at the
top of a round. -/
theorem fetch?_cases (hphase : e.phase = .fetching) (hfetch : e.fetch? = some e') :
    (e'.phase = .top ∨ e'.phase = .fetching ∨ (∃ command, e'.phase = .drawing command) ∨
      ∃ call, e'.phase = .printing call (.pause none)) ∧ e'.stopAtLoop = e.stopAtLoop := by
  unfold Engine.fetch? at hfetch
  split at hfetch
  · cases hfetch
    exact ⟨.inl rfl, rfl⟩
  · next top rest hstack =>
      split at hfetch <;> cases hfetch
      · exact ⟨.inr (.inr (.inl ⟨_, rfl⟩)), rfl⟩
      · refine ⟨.inl rfl, ?_⟩
        simp [pop, goto, hstack]
      · exact ⟨.inr (.inr (.inr ⟨_, rfl⟩)), rfl⟩
      · exact ⟨.inr (.inl hphase), rfl⟩

/-- Between the turns a frame at its loop finds it. -/
theorem Refused.fetch? (h : Refused frame frames command counter turns told e.stack)
    (hcommand : frame.commands[frame.index]? = some command) (hfetch : e.fetch? = some e') :
    e'.stack = e.stack ∧ ∃ command, e'.phase = .drawing command := by
  obtain ⟨top, rest, hstack, -, -, -, -, -, -, hcurrent⟩ := h.1.top hcommand
  have hlook : top.fetchStep =
      (.command { command with kind := .loop (counter.after turns) }, top) := by
    simp only [Frame.fetchStep, hcurrent]
  simp only [Engine.fetch?, hstack, hlook, Option.some.injEq] at hfetch
  rw [← hfetch, hstack]
  exact ⟨rfl, _, rfl⟩

theorem Retries.fetch? (h : Retries frame frames command counter turns told e)
    (hphase : e.phase = .fetching) (hcommand : frame.commands[frame.index]? = some command)
    (hfetch : e.fetch? = some e') : Retries frame frames command counter turns told e' := by
  simp only [Retries, hphase] at h
  rcases h with h | ⟨count, hcount, hturns, htold, hstands⟩
  · obtain ⟨hstack, _, hnext⟩ := h.fetch? hcommand hfetch
    rw [Retries, hnext, hstack]
    exact .inl h
  · have hpassed : Passed frame frames command counter turns told e'.stack :=
      ⟨count, hcount, hturns, htold, fetch?_standsOver hstands hfetch⟩
    obtain ⟨hnext, -⟩ := fetch?_cases hphase hfetch
    unfold Retries
    rcases hnext with hnext | hnext | ⟨_, hnext⟩ | ⟨_, hnext⟩
    all_goals
      rw [hnext]
      exact .inr hpassed

/-- The start of the loop. It has one turn more by then, which is still to be taken. -/
theorem Retries.start {found : Command} (h : Retries frame frames command counter turns told e)
    (hphase : e.phase = .drawing found) (hcommand : frame.commands[frame.index]? = some command)
    (hatWork : e.AtWork) (hstop : e.stopAtLoop = false)
    (hwithin : ∀ count, counter.remaining = some count → turns < count + 1) :
    found = { command with kind := .loop (counter.after turns) } ∧
      (e.start found).stopAtLoop = false ∧
      Retries frame frames command counter (turns + 1)
        (told ++ (startCalls found).filterMap HostCall.error?) (e.start found) := by
  simp only [Retries, hphase] at h
  rcases h with h | ⟨count, hcount, hturns, -⟩
  · have hcurrent := h.1.current? hcommand
    simp only [AtWork, hphase] at hatWork
    have hfound : found = { command with kind := .loop (counter.after turns) } :=
      Option.some.inj (hatWork.symm.trans hcurrent)
    have htext : found.text = command.text := by rw [hfound]
    refine ⟨hfound, ?_⟩
    have hsilent : (startCalls found).filterMap HostCall.error? = [] := by
      unfold startCalls
      split <;> rfl
    rw [hsilent, List.append_nil]
    unfold Engine.start
    split
    · split
      · next hask =>
          rw [eq_of_ask hask]
          exact ⟨hstop, turns, rfl, htext, h⟩
      · next hask =>
          rw [eq_of_ask hask]
          exact ⟨hstop, trivial⟩
    · exact ⟨hstop, turns, rfl, htext, h⟩
  · exact absurd (hwithin count hcount) (by omega)

/-- The result of a turn: the counter has moved on, and the loop is to go by it. -/
theorem Retries.settle {executed : Executed} {text : String} {delay : Nat}
    (h : Retries frame frames command counter turns told e)
    (hphase : e.phase = .running (.done executed) text delay)
    (hcommand : frame.commands[frame.index]? = some command) (hatWork : e.AtWork) :
    ((e.updateTop (·.setKind executed.kind)).settle executed.result text delay).stopAtLoop =
        e.stopAtLoop ∧
      Retries frame frames command counter turns told
        ((e.updateTop (·.setKind executed.kind)).settle executed.result text delay) := by
  simp only [Retries, hphase] at h
  obtain ⟨before, rfl, htext, hturned, -, htold⟩ := h
  simp only [AtWork, hphase] at hatWork
  obtain ⟨found, hfound, -, hleads⟩ := hatWork
  obtain rfl : { command with kind := .loop (counter.after before) } = found :=
    Option.some.inj ((hturned.current? hcommand).symm.trans hfound)
  have hyields := hleads.ends (Command.execute_yields e.settings _)
  simp only [Program.ends_done, Command.Yields] at hyields
  obtain ⟨top, rest, hstack, hrest, htop, -⟩ := hturned.top hcommand
  subst hyields
  refine ⟨?_, before, rfl, htext, rfl, ?_, htold⟩
  · simp [updateTop, Engine.settle, goto, hstack]
  · have hnext : (top.setKind (.loop (counter.after (before + 1)))).unfed =
        (frame.setKind (.loop (counter.after (before + 1)))).unfed := by
      rw [Frame.unfed_setKind, htop, ← Frame.unfed_setKind, Frame.setKind_setKind]
    have hstack' : ((e.updateTop (·.setKind (.loop (counter.after before).next.2))).goto
        (.looped (counter.after before).next.1.restarts text delay)).stack =
          top.setKind (.loop (counter.after (before + 1))) :: rest := by
      simp [updateTop, goto, hstack, LoopCounter.after]
    show Turned frame frames counter (before + 1) (Engine.stack (goto _ _))
    rw [hstack', Turned, List.map_cons, List.map_cons, hnext, hrest]

/-- On its way a loop may echo how often it is to start over, and no more than that. -/
theorem Retries.perform {effect : Effect} {next : effect.Reply → Action Executed} {text : String}
    {delay : Nat} (h : Retries frame frames command counter turns told e)
    (hphase : e.phase = .running (.call effect next) text delay)
    (hcommand : frame.commands[frame.index]? = some command) (hatWork : e.AtWork) :
    (e.perform effect next text delay).stopAtLoop = e.stopAtLoop ∧
      Retries frame frames command counter turns
        (told ++ (e.effectCalls effect).filterMap HostCall.error?)
        (e.perform effect next text delay) := by
  simp only [Retries, hphase] at h
  obtain ⟨before, rfl, htext, hrefused⟩ := h
  simp only [AtWork, hphase] at hatWork
  obtain ⟨found, hfound, -, hleads⟩ := hatWork
  obtain rfl : { command with kind := .loop (counter.after before) } = found :=
    Option.some.inj ((hrefused.1.current? hcommand).symm.trans hfound)
  have hasks := Execute.loop_asks (Q := fun effect => ∃ text, effect = .host (.printEcho text))
    (fun text => ⟨text, rfl⟩) command.modifiers (counter.after before)
  obtain ⟨⟨echo, rfl⟩, -⟩ := hleads.asks hasks
  have hsilent : (e.effectCalls (.host (.printEcho echo))).filterMap HostCall.error? = [] := rfl
  rw [hsilent, List.append_nil]
  simp only [Engine.perform]
  split
  · next hask =>
      rw [eq_of_ask hask]
      exact ⟨rfl, before, rfl, htext, hrefused⟩
  · next hask =>
      rw [eq_of_ask hask]
      exact ⟨rfl, trivial⟩

/-- A loop that is to start over is refused, and one that is exhausted is left behind. -/
theorem Retries.applyLoop {restart : Bool} {text : String} {delay : Nat}
    (h : Retries frame frames command counter turns told e)
    (hphase : e.phase = .looped restart text delay)
    (hcommand : frame.commands[frame.index]? = some command) (hproduced : frame.isProduced = true)
    (hstop : e.stopAtLoop = false)
    (hwithin : ∀ count, counter.remaining = some count → turns ≤ count + 1) :
    (e.applyLoop restart text delay).stopAtLoop = false ∧
      Retries frame frames command counter turns told (e.applyLoop restart text delay) := by
  simp only [Retries, hphase] at h
  obtain ⟨before, rfl, rfl, hrestart, hturned, rfl⟩ := h
  obtain ⟨top, rest, hstack, hrest, htop, hindex, hover, hname, hcommands, -⟩ :=
    hturned.top hcommand
  cases restart with
  | true =>
      have hrefused : top.restart = .error (.loopUnsupported frame.name) := by
        rw [Frame.restart, hover, hproduced, if_pos rfl, hname]
      have hcall : (e.reportCall (.loopUnsupported frame.name) command.text).error? =
          some (frame.refusal command.text) := by
        simp only [reportCall, HostCall.error?, Frame.refusal, hstack, List.head?_cons,
          Option.map_some, Option.getD_some, hindex]
      have happlied : e.applyLoop true command.text delay =
          e.report (.loopUnsupported frame.name) command.text := by
        simp only [Engine.applyLoop, hstop, Bool.false_eq_true, if_false, if_true, hstack, hrefused]
      rw [happlied]
      refine ⟨hstop, .inl ⟨before, rfl, hcall, hturned, ?_, rfl⟩⟩
      exact LoopCounter.lt_of_restarts hrestart.symm
        fun count hcount => Nat.le_of_succ_le_succ (hwithin count hcount)
  | false =>
      have hexhausted : counter.remaining = some before :=
        LoopCounter.remaining_of_exhausted
          (fun count hcount => Nat.le_of_succ_le_succ (hwithin count hcount)) hrestart.symm
      have happlied : e.applyLoop false command.text delay =
          { e with stack := top.advance :: rest }.goto (.loopApplied delay) := by
        simp only [Engine.applyLoop, hstop, Bool.false_eq_true, if_false, updateTop, hstack]
      rw [happlied]
      refine ⟨hstop, before, hexhausted, rfl, List.prefix_refl _,
        .inr ⟨_, _, rfl, hrest, ?_, ?_⟩⟩
      · rw [Frame.advance_index, hindex, Frame.setKind_index]
      · exact hcommands ▸ List.prefix_refl _

/-- What is printed is that the loop was refused, or it comes after the loop. -/
theorem Retries.print {call : HostCall} {after : Aftermath}
    (h : Retries frame frames command counter turns told e)
    (hphase : e.phase = .printing call after) :
    (e.print call after).stopAtLoop = e.stopAtLoop ∧
      ((e.print call after).stack = [] ∨
        Retries frame frames command counter turns
          (told ++ [call].filterMap HostCall.error?) (e.print call after)) := by
  obtain ⟨world, hprinted | ⟨-, hbroken⟩⟩ := e.print_cases call after
  · rw [hprinted]
    rcases after with (_ | delay) | - | -
    · simp only [Retries, hphase] at h
      exact ⟨rfl, .inr (h.imp (·.refused) (·.append _))⟩
    · simp only [Retries, hphase] at h
      exact ⟨rfl, .inr (h.append _)⟩
    · simp only [Retries, hphase] at h
    · exact ⟨rfl, .inl rfl⟩
  · rw [hbroken]
    exact ⟨rfl, .inr trivial⟩

theorem Passed.rest (h : Passed frame frames command counter turns told e.stack) (delay : Nat) :
    Retries frame frames command counter turns told (e.rest delay) := by
  unfold Engine.rest
  repeat' split
  · exact .inr h
  · exact .inr h
  · exact h

theorem Retries.close {delay : Option Nat} (h : Retries frame frames command counter turns told e)
    (hphase : e.phase = .pausing delay) :
    Retries frame frames command counter turns told (e.close delay) := by
  simp only [Retries, hphase] at h
  cases delay with
  | none => exact h
  | some delay => exact Passed.rest (e := { e with pause := .closed }) h delay

/-- What a step in a tick does to a loop, and to what was told of it. -/
theorem Retries.tick (h : Retries frame frames command counter turns told e) (hatWork : e.AtWork)
    (hcommand : frame.commands[frame.index]? = some command) (hproduced : frame.isProduced = true)
    (hstop : e.stopAtLoop = false) (hphase : e.phase.inTick = true)
    (hstep : e.proceed? = some e')
    (hwithin : ∀ count, counter.remaining = some count →
      turns + e.starting?.toList.length ≤ count + 1) :
    e'.stopAtLoop = false ∧
      (∀ found ∈ e.starting?.toList,
        found = { command with kind := .loop (counter.after turns) }) ∧
      (e'.stack = [] ∨
        Retries frame frames command counter (turns + e.starting?.toList.length)
          (told ++ e.hostCalls.filterMap HostCall.error?) e') := by
  cases tickStep_of_inTick hphase hstep with
  | started hp =>
      rename_i found
      have hstarting : e.starting?.toList = [found] := by rw [starting?, hp]; rfl
      rw [hstarting] at hwithin ⊢
      obtain ⟨hfound, hstop', hplace⟩ := h.start hp hcommand hatWork hstop hwithin
      rw [List.forall_mem_singleton, hostCalls, hp]
      exact ⟨hstop', hfound, .inr hplace⟩
  | fetched hp hfetch =>
      have hstarting : e.starting?.toList = [] := by rw [starting?, hp]; rfl
      rw [hstarting, hostCalls, hp, List.filterMap_nil, List.append_nil]
      exact ⟨(fetch?_cases hp hfetch).2.trans hstop, List.forall_mem_nil _,
        .inr (h.fetch? hp hcommand hfetch)⟩
  | settled hp =>
      have hstarting : e.starting?.toList = [] := by rw [starting?, hp]; rfl
      obtain ⟨hstop', hplace⟩ := h.settle hp hcommand hatWork
      rw [hstarting, hostCalls, hp, List.filterMap_nil, List.append_nil]
      exact ⟨hstop'.trans hstop, List.forall_mem_nil _, .inr hplace⟩
  | performed hp =>
      have hstarting : e.starting?.toList = [] := by rw [starting?, hp]; rfl
      obtain ⟨hstop', hplace⟩ := h.perform hp hcommand hatWork
      rw [hstarting, hostCalls, hp]
      exact ⟨hstop'.trans hstop, List.forall_mem_nil _, .inr hplace⟩
  | woken hp => simp only [Retries, hp] at h
  | looped hp =>
      have hstarting : e.starting?.toList = [] := by rw [starting?, hp]; rfl
      rw [hstarting] at hwithin ⊢
      obtain ⟨hstop', hplace⟩ := h.applyLoop hp hcommand hproduced hstop hwithin
      rw [hostCalls, hp, List.filterMap_nil, List.append_nil]
      exact ⟨hstop', List.forall_mem_nil _, .inr hplace⟩
  | applied hp =>
      have hstarting : e.starting?.toList = [] := by rw [starting?, hp]; rfl
      simp only [Retries, hp] at h
      rw [hstarting, hostCalls, hp, List.filterMap_nil, List.append_nil]
      refine ⟨(e.applyDeferredPause_stopAtLoop _).trans hstop, List.forall_mem_nil _, .inr ?_⟩
      unfold applyDeferredPause
      split
      · exact h
      · exact h.rest _
  | printed hp =>
      have hstarting : e.starting?.toList = [] := by rw [starting?, hp]; rfl
      obtain ⟨hstop', hplace⟩ := h.print hp
      rw [hstarting, hostCalls, hp]
      exact ⟨hstop'.trans hstop, List.forall_mem_nil _, hplace⟩
  | paused hp =>
      have hstarting : e.starting?.toList = [] := by rw [starting?, hp]; rfl
      rw [hstarting, hostCalls, hp, List.filterMap_nil, List.append_nil]
      exact ⟨(e.close_stopAtLoop _).trans hstop, List.forall_mem_nil _, .inr (h.close hp)⟩
  | rested hp =>
      have hstarting : e.starting?.toList = [] := by rw [starting?, hp]; rfl
      simp only [Retries, hp] at h
      rw [hstarting]
      exact ⟨hstop, List.forall_mem_nil _, .inr (.inr (h.append _))⟩

theorem retries_iff (hphase : e.phase.isBetween = true) :
    Retries frame frames command counter turns told e ↔
      Refused frame frames command counter turns told e.stack ∨
        Passed frame frames command counter turns told e.stack := by
  unfold Retries
  split
  all_goals first | exact Iff.rfl | simp_all [Phase.isBetween]

/-- Outside of a tick nothing happens to a loop. -/
theorem Retries.between (h : Retries frame frames command counter turns told e)
    (hphase : e.phase.isBetween = true) (hphase' : e'.phase.isBetween = true)
    (hstack : e'.stack.map Frame.unfed = e.stack.map Frame.unfed) :
    Retries frame frames command counter turns told e' := by
  rw [retries_iff hphase] at h
  rw [retries_iff hphase']
  exact h.imp (fun hrefused => ⟨hrefused.1.congr hstack, hrefused.2⟩) (·.congr hstack)

/-- What callers feed to a frame does not matter for its loop. -/
theorem Retries.congr (h : Retries frame frames command counter turns told e)
    (hphase : e'.phase = e.phase) (hstack : e'.stack.map Frame.unfed = e.stack.map Frame.unfed) :
    Retries frame frames command counter turns told e' := by
  unfold Retries at h ⊢
  rw [hphase]
  split at h
  · obtain ⟨before, hturns, htext, hturned, htold⟩ := h
    exact ⟨before, hturns, htext, hturned.congr hstack, htold⟩
  · obtain ⟨before, hturns, htext, hrestart, hturned, htold⟩ := h
    exact ⟨before, hturns, htext, hrestart, hturned.congr hstack, htold⟩
  · exact h
  · exact h
  · exact h.congr hstack
  · exact h.congr hstack
  · exact h.congr hstack
  · exact h.congr hstack
  · exact h.imp (·.congr hstack) (·.congr hstack)
  · trivial
  · trivial
  · exact h.imp (fun hrefused => ⟨hrefused.1.congr hstack, hrefused.2⟩) (·.congr hstack)

/-- A round lies between two commands. -/
theorem Round.isBetween (h : Round e e') :
    e.phase.isBetween = true ∧ e'.phase.isBetween = true := by
  cases h with
  | begin hphase => rw [hphase]; exact ⟨rfl, by cases e.cancel.isCancelled <;> rfl⟩
  | @nothing drains hphase => rw [hphase]; exact ⟨rfl, by cases drains <;> rfl⟩
  | drained hphase | request hphase | ready hphase | unready hphase | tick hphase | empty hphase
  | rest hphase | emptied hphase | wake hphase | close hphase => rw [hphase]; exact ⟨rfl, rfl⟩

/-- A wait that ends early is not one of the loop itself. -/
theorem Retries.interrupted (h : Retries frame frames command counter turns told e)
    (hwait : e.isWaiting = true) :
    Retries frame frames command counter turns told (e.goto .closing) := by
  show Refused frame frames command counter turns told e.stack ∨
    Passed frame frames command counter turns told e.stack
  unfold isWaiting at hwait
  split at hwait
  · next hp =>
      simp only [Retries, hp] at h
      exact h
  · next hp =>
      simp only [Retries, hp] at h
      exact h
  · next hp => simp only [Retries, hp] at h
  · next hp =>
      simp only [Retries, hp] at h
      exact .inr h
  · cases hwait

/-- As long as callers are patient the queue stays empty. -/
theorem patient_queue {event : Event σ} (hqueue : e.queue = [])
    (hpatient : event.isPatient = true) (hon : e.on? event = some e') : e'.queue = [] := by
  cases event with
  | work branch =>
      cases step_of_take? hon with
      | tick hphase hstep => exact (spares_of_inTick hphase hstep).queue.trans hqueue
      | round hround =>
          rcases hround.queue with hsame | hnil
          · exact hsame.trans hqueue
          · exact hnil
      | interrupted | served => exact hqueue
      | applied _ hrequest =>
          rw [hqueue] at hrequest
          cases hrequest
  | call asked =>
      cases hon
      exact (receive_of_isPatient hpatient).1 hqueue
  | pass ms | change world =>
      cases hon
      exact hqueue

/-- What an event does to a loop, and to what was told of it. -/
theorem Refuses.on {event : Event σ} (h : Refuses frame frames command counter turns told e)
    (hatWork : e.AtWork) (hcommand : frame.commands[frame.index]? = some command)
    (hproduced : frame.isProduced = true) (hpatient : event.isPatient = true)
    (hwithin : ∀ count, counter.remaining = some count →
      turns + (e.startedOn event).length ≤ count + 1)
    (hon : e.on? event = some e') :
    Refuses frame frames command counter (turns + (e.startedOn event).length)
        (told ++ e.erredOn event) e' ∧
      ∀ found ∈ e.startedOn event,
        found = { command with kind := .loop (counter.after turns) } := by
  have hqueue : e'.queue = [] := patient_queue h.queue hpatient hon
  rcases h.place with hstack | hplace
  · obtain ⟨hstack', hstop', hstarted⟩ :=
      stays_empty hatWork h.queue hstack h.stopAtLoop hpatient hon
    rw [hstarted]
    exact ⟨⟨hqueue, hstop', .inl hstack'⟩, List.forall_mem_nil _⟩
  · cases event with
    | work branch =>
        cases step_of_take? hon with
        | tick hphase hstep =>
            obtain ⟨hstop', hfound, hplace'⟩ :=
              hplace.tick hatWork hcommand hproduced h.stopAtLoop hphase hstep hwithin
            exact ⟨⟨hqueue, hstop', hplace'⟩, hfound⟩
        | round hround =>
            obtain ⟨hbefore, hafter⟩ := hround.isBetween
            have hnone : e.startedOn (.work .proceed) = [] :=
              startedOn_of_not_inTick hround.inTick _
            rw [hnone, erredOn, callsOf, hround.world.2, List.filterMap_nil, List.append_nil]
            refine ⟨?_, List.forall_mem_nil _⟩
            cases hround with
            | unready | close => exact ⟨hqueue, h.stopAtLoop, .inl rfl⟩
            | begin | drained | request | nothing | ready | tick | empty | rest | emptied | wake =>
                exact ⟨hqueue, h.stopAtLoop, .inr (hplace.between hbefore hafter rfl)⟩
        | interrupted hwait =>
            have hnone : e.startedOn (.work .interrupt) = [] := by
              unfold isWaiting at hwait
              rw [startedOn, starting?]
              split at hwait
              · next hp => rw [hp]; rfl
              · next hp => rw [hp]; rfl
              · next hp => rw [hp]; rfl
              · next hp => rw [hp]; rfl
              · cases hwait
            rw [hnone, erredOn, callsOf, List.filterMap_nil, List.append_nil]
            exact ⟨⟨hqueue, h.stopAtLoop, .inr (hplace.interrupted hwait)⟩, List.forall_mem_nil _⟩
        | served _ hrequest => exact absurd h.queue hrequest
        | applied _ hrequest =>
            rw [h.queue] at hrequest
            cases hrequest
    | call asked =>
        cases hon
        have hleaves := e.receive_leavesWork asked
        have hnone : e.erredOn (.call asked) = [] := rfl
        rw [hnone, List.append_nil]
        exact ⟨⟨hqueue, (receive_of_isPatient hpatient).2.trans h.stopAtLoop,
          .inr (hplace.congr hleaves.phase hleaves.stack)⟩, List.forall_mem_nil _⟩
    | pass ms =>
        cases hon
        have hnone : e.erredOn (.pass ms) = [] := rfl
        rw [hnone, List.append_nil]
        exact ⟨⟨h.queue, h.stopAtLoop, .inr (hplace.congr rfl rfl)⟩, List.forall_mem_nil _⟩
    | change world =>
        cases hon
        have hnone : e.erredOn (.change world) = [] := rfl
        rw [hnone, List.append_nil]
        exact ⟨⟨h.queue, h.stopAtLoop, .inr (hplace.congr rfl rfl)⟩, List.forall_mem_nil _⟩

/-! ### Runs -/

/-- What a patient run does to a loop: it takes one turn with each start. -/
theorem Refuses.run {events : List (Event σ)}
    (h : Refuses frame frames command counter turns told e) (he : e.Reachable)
    (hcommand : frame.commands[frame.index]? = some command) (hproduced : frame.isProduced = true)
    (hpatient : ∀ event ∈ events, event.isPatient = true)
    (hwithin : ∀ count, counter.remaining = some count →
      turns + (e.started events).length ≤ count + 1)
    (hrun : e.run? events = some e') :
    Refuses frame frames command counter (turns + (e.started events).length)
        (told ++ e.erred events) e' ∧
      e.started events = (List.range' turns (e.started events).length).map
        fun turn => { command with kind := .loop (counter.after turn) } := by
  induction events generalizing e turns told with
  | nil =>
      cases hrun
      rw [erred, List.append_nil]
      exact ⟨h, rfl⟩
  | cons event events ih =>
      obtain ⟨e₁, hon, hrest⟩ := run?_cons_eq_some.mp hrun
      rw [started_cons hon, List.length_append] at hwithin ⊢
      obtain ⟨hfirst, hfound⟩ := h.on he.atWork hcommand hproduced
        (hpatient event List.mem_cons_self)
        (fun count hcount => by have := hwithin count hcount; omega) hon
      obtain ⟨hlast, hlater⟩ := ih hfirst (he.on event hon)
        (fun event hmem => hpatient event (List.mem_cons_of_mem _ hmem))
        (fun count hcount => by have := hwithin count hcount; omega) hrest
      rw [erred_cons hon, ← List.append_assoc, ← Nat.add_assoc]
      refine ⟨hlast, ?_⟩
      have hone : (e.startedOn event).length ≤ 1 :=
        Nat.le_trans (e.startedOn_le_mayStart event) (Bool.toNat_le _)
      cases hstarted : e.startedOn event with
      | nil =>
          rw [hstarted] at hlater
          rw [List.length_nil, Nat.zero_add]
          exact hlater
      | cons found more =>
          rw [hstarted] at hlater hfound hone
          obtain rfl : more = [] := List.length_eq_zero_iff.mp (by simpa using hone)
          rw [List.length_singleton, Nat.add_comm 1, List.range'_succ, List.map_cons,
            ← hfound found List.mem_cons_self]
          exact congrArg (found :: ·) hlater

/-- Loops in a frame over lines. As long as callers only pause, resume, feed sources and tell
whether the host is ready, an engine whose frame is at a loop starts that loop alone, with its
counter one turn further each time. Up to the count that the counter had, every turn is refused: it
is reported, and the frames are what they were but for the counter of the loop. The turn after those
is not refused any more, and the frame moves on behind its loop. A loop without a count is refused
for ever. -/
theorem loop_refused {events : List (Event σ)} (he : e.Reachable)
    (hphase : e.phase.isBetween = true) (hqueue : e.queue = []) (hstop : e.stopAtLoop = false)
    (hstack : e.stack = frame :: frames) (hproduced : frame.isProduced = true)
    (hcommand : frame.commands[frame.index]? = some command) (hkind : command.kind = .loop counter)
    (hpatient : ∀ event ∈ events, event.isPatient = true) (hrun : e.run? events = some e')
    (hturns : (e.started events).length = turns)
    (hwithin : ∀ count, counter.remaining = some count → turns ≤ count + 1) :
    e.started events = (List.range turns).map
        (fun turn => { command with kind := .loop (counter.after turn) }) ∧
      (e'.stack ≠ [] → e'.phase.isBetween = true →
        ((∀ count, counter.remaining = some count → turns ≤ count) →
          Refused frame frames command counter turns (e.erred events) e'.stack) ∧
        (∀ count, counter.remaining = some count → turns = count + 1 →
          Passed frame frames command counter turns (e.erred events) e'.stack)) := by
  have hstart : Refuses frame frames command counter 0 [] e := by
    refine ⟨hqueue, hstop, .inr ((retries_iff hphase).mpr (.inl ?_))⟩
    have hsame : frame.setKind (.loop (counter.after 0)) = frame := by
      rw [LoopCounter.after, ← hkind]
      exact Frame.setKind_self hcommand
    refine ⟨?_, fun _ _ => Nat.zero_le _, rfl⟩
    rw [Turned, hsame, hstack]
  obtain ⟨hlast, hstarted⟩ := hstart.run he hcommand hproduced hpatient
    (by rw [Nat.zero_add, hturns]; exact hwithin) hrun
  rw [Nat.zero_add, hturns, List.nil_append] at hlast
  rw [hturns, ← List.range_eq_range'] at hstarted
  refine ⟨hstarted, fun hframes hphase' => ?_⟩
  have hplace : Refused frame frames command counter turns (e.erred events) e'.stack ∨
      Passed frame frames command counter turns (e.erred events) e'.stack :=
    (retries_iff hphase').mp (hlast.place.resolve_left hframes)
  refine ⟨fun hleft => ?_, fun count hcount hexhausted => ?_⟩
  · refine hplace.resolve_right ?_
    rintro ⟨count, hcount, hexhausted, -⟩
    have := hleft count hcount
    omega
  · refine hplace.resolve_left ?_
    rintro ⟨-, hleft, -⟩
    have := hleft count hcount
    omega

end Loop

/-- A dry run that is about to look at the loop of two lines that were put in. -/
def loopingPair : Engine DryRun :=
  (spawn DryRun.host {} {}).ran
    (.call (.enqueueSource "Pair" (.ofItems [.line "/loop 1", .line "/echo a"])) :: onItsOwn 7)

def resumedOnce (steps : Nat) : List (Event DryRun) :=
  onItsOwn 10 ++ .call .resume :: onItsOwn steps

/-- The first turn of the loop is refused, and the second one is not. -/
theorem loop_refused_loopingPair :
    ∃ frame command counter, loopingPair.stack = [frame] ∧ counter.remaining = some 1 ∧
      Refused frame [] command counter 1 (loopingPair.erred (onItsOwn 10))
        (loopingPair.ran (onItsOwn 10)).stack ∧
      Passed frame [] command counter 2 (loopingPair.erred (resumedOnce 10))
        (loopingPair.ran (resumedOnce 10)).stack := by
  have hreachable : loopingPair.Reachable :=
    (Reachable.spawn DryRun.host {} {} {}).run (run?_eq_some_ran (by rfl))
  obtain ⟨frame, hstack⟩ : ∃ frame, loopingPair.stack = [frame] :=
    List.length_eq_one_iff.mp (by rfl)
  have hproduced : some true = loopingPair.stack.head?.map Frame.isProduced := by rfl
  have hkind : loopingPair.current?.map Command.kind = some (.loop (.ofCount (some 1))) := by rfl
  rw [Option.map_eq_some_iff] at hkind
  obtain ⟨command, hcommand, hkind⟩ := hkind
  rw [hstack] at hproduced
  rw [Engine.current?, hstack] at hcommand
  have hwork : ∀ event ∈ onItsOwn 10, (event : Event DryRun).isPatient = true :=
    forall_onItsOwn (P := (·.isPatient = true)) rfl 10
  have hresumed : ∀ event ∈ resumedOnce 10, event.isPatient = true := by
    intro event hmem
    rcases List.mem_append.mp hmem with hmem | hmem
    · exact hwork event hmem
    · rcases List.mem_cons.mp hmem with rfl | hmem
      · rfl
      · exact forall_onItsOwn (P := (·.isPatient = true)) rfl 10 event hmem
  have hcount {turns : Nat} (h : turns ≤ 2) :
      ∀ count, (LoopCounter.ofCount (some 1)).remaining = some count → turns ≤ count + 1 := by
    rintro count ⟨⟩
    exact h
  have hturn : (loopingPair.started (onItsOwn 10)).length = 1 := by rfl
  have hturns : (loopingPair.started (resumedOnce 10)).length = 2 := by rfl
  obtain ⟨-, hfirst⟩ := loop_refused hreachable (by rfl) (by rfl) (by rfl) hstack
    (Option.some.inj hproduced).symm hcommand hkind hwork (run?_eq_some_ran (by rfl)) hturn
    (hcount (by decide))
  obtain ⟨-, hsecond⟩ := loop_refused hreachable (by rfl) (by rfl) (by rfl) hstack
    (Option.some.inj hproduced).symm hcommand hkind hresumed (run?_eq_some_ran (by rfl)) hturns
    (hcount (by decide))
  obtain ⟨hrefused, -⟩ := hfirst (List.ne_nil_of_length_pos (by decide)) (by rfl)
  obtain ⟨-, hpassed⟩ := hsecond (List.ne_nil_of_length_pos (by decide)) (by rfl)
  refine ⟨frame, command, _, hstack, rfl, hrefused ?_, hpassed 1 rfl rfl⟩
  rintro count ⟨⟩
  exact Nat.le_refl 1

/-- A loop that was refused is passed over when it is tried again. -/
theorem loop_passed_on_retry :
    (loopingPair.started (onItsOwn 10)).map Command.text = ["/loop 1"] ∧
      loopingPair.erred (onItsOwn 10) =
        ["looping is not supported by Pair (/loop 1, step 1)"] ∧
      (loopingPair.ran (onItsOwn 10)).stack.map Frame.index = [0] ∧
      (loopingPair.started (resumedOnce 17)).map Command.text = ["/loop 1", "/loop 1", "/echo a"] ∧
      loopingPair.erred (resumedOnce 17) =
        ["looping is not supported by Pair (/loop 1, step 1)"] := by
  exact ⟨by rfl, by rfl, by rfl, by rfl, by rfl⟩

end Engine

end CraftLang
