import CraftLang.Host.DryRun
import CraftLang.Proofs.Engine.HostCalls
import CraftLang.Proofs.Engine.Places

/-!
Ticks that fail. A tick fails if no command can be had from the top frame, if the command comes to
an error or to a pause, or if its loop is refused. Then the engine prints a message and closes its
pause gate, and nothing else: for a frame whose commands are known everything is left as it was when
the tick began. If the host breaks down at the message the tick does not end, and neither does
anything come after it.
-/

namespace CraftLang

namespace Engine

variable {σ : Type}

def printedOn (e : Engine σ) : Event σ → List HostCall
  | .work branch => (e.callsOf branch).filter HostCall.isPrint
  | _ => []

/-- `Tick e₀ printed e` says that the engine `e` is in the tick that began in `e₀`, and that it has
printed `printed` since. Callers can come in between all steps of the tick. -/
inductive Tick (e₀ : Engine σ) : List HostCall → Engine σ → Prop
  | start (hphase : e₀.phase = .fetching) : Tick e₀ [] e₀
  | on {printed : List HostCall} {e e' : Engine σ} (event : Event σ) (h : Tick e₀ printed e)
      (hon : e.on? event = some e') (hphase : e'.phase.inTick = true) :
      Tick e₀ (printed ++ e.printedOn event) e'

def fetchFails (e : Engine σ) : Bool :=
  e.stack.head?.any fun frame =>
    match frame.fetchStep.1 with
    | .failed _ => true
    | _ => false

def fails (e : Engine σ) : Bool :=
  match e.phase with
  | .fetching => e.fetchFails
  | .running (.done executed) _ _ => !executed.isSuccess
  | .looped restart _ _ =>
    !e.stopAtLoop && restart && (e.stack.head?.map Frame.isProduced).getD false
  | _ => false

theorem Tick.inTick {e₀ e : Engine σ} {printed : List HostCall} (h : Tick e₀ printed e) :
    e.phase.inTick = true := by
  cases h with
  | start hphase => rw [hphase]; rfl
  | on _ _ _ hphase => exact hphase

theorem Tick.reachable {e₀ e : Engine σ} {printed : List HostCall} (h : Tick e₀ printed e)
    (he₀ : e₀.Reachable) : e.Reachable := by
  induction h with
  | start => exact he₀
  | on event _ hon _ ih => exact ih.on event hon

def TopIsParsed (e : Engine σ) : Prop :=
  ∃ frame frames, e.stack = frame :: frames ∧ frame.isProduced = false

/-- Nothing has happened to the frames; only what is pending in their sources can have changed. -/
structure Untouched (e₀ e : Engine σ) : Prop where
  stack : e.stack.map Frame.unfed = e₀.stack.map Frame.unfed
  retired : e.retired = e₀.retired

/-- What holds in a tick up to its result, and after it if that is a failure: the frames are as they
were, and if something was printed, the command is on the way to a success. -/
def Keeps (e₀ : Engine σ) (printed : List HostCall) (e : Engine σ) : Prop :=
  match e.phase with
  | .fetching | .drawing _ => printed = [] ∧ Untouched e₀ e
  | .running program _ _ | .suspended _ program _ _ =>
    (printed = [] ∨ program.Ends fun executed => executed.isSuccess = true) ∧ Untouched e₀ e
  | .looped .. => e.TopIsParsed
  | .printing message (.pause none) =>
    message.isPrint = true ∧ printed = [] ∧ Untouched e₀ e
  | .pausing none => (∃ message, message.isPrint = true ∧ printed = [message]) ∧ Untouched e₀ e
  | _ => True

/-! ### One step -/

theorem TopIsParsed.congr {e e' : Engine σ} (h : e.TopIsParsed)
    (hstack : e'.stack.map Frame.unfed = e.stack.map Frame.unfed) : e'.TopIsParsed := by
  obtain ⟨frame, frames, heq, hparsed⟩ := h
  rw [heq, List.map_cons] at hstack
  cases hstack' : e'.stack with
  | nil => simp [hstack'] at hstack
  | cons top rest =>
      rw [hstack', List.map_cons] at hstack
      obtain ⟨htop, -⟩ := List.cons.inj hstack
      refine ⟨top, rest, hstack', ?_⟩
      rw [← Frame.unfed_isProduced, htop, Frame.unfed_isProduced, hparsed]

theorem Untouched.trans {e₀ e e' : Engine σ} (h : Untouched e₀ e) (h' : Untouched e e') :
    Untouched e₀ e' :=
  ⟨h'.stack.trans h.stack, h'.retired.trans h.retired⟩

theorem TopIsParsed.setKind {e : Engine σ} (h : e.TopIsParsed) (kind : CommandKind) :
    (e.updateTop (·.setKind kind)).TopIsParsed := by
  obtain ⟨frame, frames, hstack, hparsed⟩ := h
  refine ⟨frame.setKind kind, frames, ?_, (frame.setKind_isProduced kind).trans hparsed⟩
  rw [updateTop_stack, hstack, List.modifyHead_cons]

theorem TopIsParsed.fetchFails {e : Engine σ} (h : e.TopIsParsed) : e.fetchFails = false := by
  obtain ⟨frame, frames, hstack, hparsed⟩ := h
  obtain ⟨-, hfetched⟩ := Frame.fetchStep_of_parsed hparsed
  rw [Engine.fetchFails, hstack, List.head?_cons, Option.any_some]
  rcases hfetched with hfinished | ⟨command, hcommand⟩
  · rw [hfinished]
  · rw [hcommand]

theorem TopIsParsed.fetch? {e e' : Engine σ} (h : e.TopIsParsed) (hstep : e.fetch? = some e') :
    e' = e.pop.goto .top ∨ ∃ command, e' = e.goto (.drawing command) := by
  obtain ⟨frame, frames, hstack, hparsed⟩ := h
  obtain ⟨hsame, hfetched⟩ := Frame.fetchStep_of_parsed hparsed
  simp only [Engine.fetch?, hstack] at hstep
  rcases hfetched with hfinished | ⟨command, hcommand⟩
  · have hfetch : frame.fetchStep = (.finished, frame) := Prod.ext hfinished hsame
    simp only [hfetch, Option.some.injEq] at hstep
    exact .inl hstep.symm
  · have hfetch : frame.fetchStep = (.command command, frame) := Prod.ext hcommand hsame
    simp only [hfetch, Option.some.injEq] at hstep
    refine .inr ⟨command, ?_⟩
    rw [← hstep, ← hstack]

theorem start_keeps {e₀ e : Engine σ} {command : Command} (h : Untouched e₀ e) :
    Keeps e₀ ((startCalls command).filter HostCall.isPrint) (e.start command) := by
  have hquiet : (startCalls command).filter HostCall.isPrint = [] := by
    unfold startCalls
    split <;> rfl
  rw [hquiet]
  simp only [start]
  split
  · split
    · next hask =>
        rw [eq_of_ask hask]
        exact ⟨.inl rfl, h.stack, h.retired⟩
    · trivial
  · exact ⟨.inl rfl, h.stack, h.retired⟩

theorem perform_keeps {e₀ e : Engine σ} {printed : List HostCall} {effect : Effect}
    {next : effect.Reply → Action Executed} {text : String} {delay : Nat} (h : Untouched e₀ e)
    (hends : printed = [] ∧ effect.isPrint = false ∨
      ∀ reply, (next reply).Ends fun executed => executed.isSuccess = true) :
    Keeps e₀ (printed ++ (e.effectCalls effect).filter HostCall.isPrint)
      (e.perform effect next text delay) := by
  have hnext (reply : effect.Reply) (calls : List HostCall)
      (hcalls : effect.isPrint = false → calls.filter HostCall.isPrint = []) :
      printed ++ calls.filter HostCall.isPrint = [] ∨
        (next reply).Ends fun executed => executed.isSuccess = true := by
    rcases hends with ⟨hprinted, hsilent⟩ | hends
    · exact .inl (by rw [hprinted, hcalls hsilent]; rfl)
    · exact .inr (hends reply)
  cases effect with
  | host call =>
      simp only [perform, effectCalls]
      split
      · next reply _ hask =>
          rw [eq_of_ask hask]
          refine ⟨hnext reply [call] fun hsilent => ?_, h.stack, h.retired⟩
          rw [List.filter_cons_of_neg (by simpa [Effect.isPrint] using hsilent)]
          rfl
      · trivial
  | knowsAction name =>
      simp only [perform, effectCalls]
      by_cases hloaded : e.catalog.isLoaded = true
      · simp only [hloaded, if_true]
        exact ⟨hnext _ [] fun _ => rfl, h.stack, h.retired⟩
      · simp only [hloaded, if_false, Bool.false_eq_true]
        split
        · next hask =>
            rw [eq_of_ask hask]
            exact ⟨hnext _ [.craftActions] fun _ => rfl, h.stack, h.retired⟩
        · trivial
  | sleep ms =>
      simp only [perform, effectCalls]
      split
      · trivial
      · split
        · exact ⟨hnext () [] fun _ => rfl, h.stack, h.retired⟩
        · exact ⟨hnext () [] fun _ => rfl, h.stack, h.retired⟩

theorem rest_keeps (e₀ e : Engine σ) (printed : List HostCall) (delay : Nat) :
    Keeps e₀ printed (e.rest delay) := by
  unfold rest
  repeat' split
  all_goals trivial

theorem updateTop_of_fixed {e : Engine σ} {f : Frame → Frame}
    (h : ∀ frame ∈ e.stack.head?, f frame = frame) : e.updateTop f = e := by
  unfold updateTop
  split
  · rfl
  · next frame frames hstack =>
      rw [h frame (by rw [hstack]; rfl), ← hstack]

/-- A command that fails leaves its frame as it is. -/
theorem settle_of_failure {e : Engine σ} {executed : Executed} {command : Command}
    (hcurrent : e.current? = some command)
    (hleads : (command.execute e.settings).Leads (.done executed))
    (hfailed : executed.isSuccess = false) (text : String) (delay : Nat) :
    ∃ message, message.isPrint = true ∧
      (e.updateTop (·.setKind executed.kind)).settle executed.result text delay =
        e.goto (.printing message (.pause none)) := by
  have hkind : executed.kind = command.kind :=
    hleads.ends (command.execute_kind e.settings) hfailed
  -- Only loops and gates change their counters, and these do not fail.
  have hsame : e.updateTop (·.setKind executed.kind) = e := by
    refine updateTop_of_fixed fun frame hframe => ?_
    rw [Option.mem_def] at hframe
    have hcommand : frame.commands[frame.index]? = some command := by
      simpa [current?, hframe] using hcurrent
    rw [hkind, Frame.setKind_self hcommand]
  rw [hsame]
  obtain ⟨kind, result⟩ := executed
  cases result with
  | error error => exact ⟨_, rfl, rfl⟩
  | ok outcome =>
      cases outcome with
      | pause reason => exact ⟨_, HostCall.notice_isPrint _ _, rfl⟩
      | proceed | skipped | loop | gateComplete | push => cases hfailed

theorem settle_keeps {e₀ e : Engine σ} {printed : List HostCall} {executed : Executed}
    {command : Command} (htop : e.TopIsParsed) (hcurrent : e.current? = some command)
    (hleads : (command.execute e.settings).Leads (.done executed))
    (hprinted : printed = [] ∨ executed.isSuccess = true) (h : Untouched e₀ e) (text : String)
    (delay : Nat) :
    Keeps e₀ printed
      ((e.updateTop (·.setKind executed.kind)).settle executed.result text delay) := by
  cases hsuccess : executed.isSuccess with
  | false =>
      obtain ⟨message, hprint, hsettle⟩ :=
        settle_of_failure hcurrent hleads hsuccess text delay
      rw [hsettle]
      exact ⟨hprint, hprinted.resolve_right (by simp [hsuccess]), h.stack, h.retired⟩
  | true =>
      obtain ⟨kind, result⟩ := executed
      cases result with
      | error error => cases hsuccess
      | ok outcome =>
          cases outcome with
          | proceed | push frame => exact rest_keeps _ _ _ _
          | skipped | gateComplete => trivial
          | loop restart => exact htop.setKind kind
          | pause reason => cases hsuccess

/-- The loop of a frame whose commands are known is not refused. -/
theorem applyLoop_keeps {e₀ e : Engine σ} {printed : List HostCall} (htop : e.TopIsParsed)
    (restart : Bool) (text : String) (delay : Nat) :
    Keeps e₀ printed (e.applyLoop restart text delay) := by
  obtain ⟨frame, frames, hstack, hparsed⟩ := htop
  unfold applyLoop
  simp only [hstack, Frame.restart, hparsed]
  repeat' split
  all_goals trivial

theorem print_keeps {e₀ e : Engine σ} {printed : List HostCall} {call : HostCall}
    {after : Aftermath} (hp : e.phase = .printing call after) (h : Keeps e₀ printed e) :
    Keeps e₀ (printed ++ e.printedOn (.work .proceed)) (e.print call after) := by
  simp only [Keeps, hp] at h
  obtain ⟨world, hprinted | ⟨-, hbroken⟩⟩ := e.print_cases call after
  · rw [hprinted]
    cases after with
    | pop | clear => trivial
    | pause delay =>
        cases delay with
        | some delay => trivial
        | none =>
            obtain ⟨hprint, hnone, hsame⟩ := h
            have hall : printed ++ e.printedOn (.work .proceed) = [call] := by
              simp [printedOn, callsOf, hostCalls, hp, hnone, hprint]
            exact ⟨⟨call, hprint, hall⟩, hsame.stack, hsame.retired⟩
  · rw [hbroken]
    trivial

theorem close_keeps (e₀ e : Engine σ) (printed : List HostCall) (delay : Option Nat) :
    Keeps e₀ printed (e.close delay) := by
  cases delay with
  | none => trivial
  | some delay => exact rest_keeps _ _ _ _

theorem tick_keeps {e₀ e e' : Engine σ} {printed : List HostCall} (hatWork : e.AtWork)
    (htop : e₀.TopIsParsed) (h : Keeps e₀ printed e) (hphase : e.phase.inTick = true)
    (hstep : e.proceed? = some e') (hin : e'.phase.inTick = true) :
    Keeps e₀ (printed ++ e.printedOn (.work .proceed)) e' := by
  cases tickStep_of_inTick hphase hstep with
  | fetched hp hfetch =>
      have hnone : e.printedOn (.work .proceed) = [] := by simp [printedOn, callsOf, hostCalls, hp]
      simp only [Keeps, hp] at h
      rcases (htop.congr h.2.stack).fetch? hfetch with rfl | ⟨command, rfl⟩
      · cases hin
      · rw [h.1, hnone]
        exact ⟨rfl, h.2.stack, h.2.retired⟩
  | started hp =>
      simp only [Keeps, hp] at h
      simp only [printedOn, callsOf, hostCalls, hp, h.1]
      exact start_keeps h.2
  | settled hp =>
      simp only [Keeps, hp] at h
      simp only [AtWork, hp] at hatWork
      obtain ⟨command, hcurrent, -, hleads⟩ := hatWork
      simp only [printedOn, callsOf, hostCalls, hp, List.filter_nil, List.append_nil]
      exact settle_keeps (htop.congr h.2.stack) hcurrent hleads h.1 h.2 _ _
  | performed hp =>
      simp only [Keeps, hp] at h
      simp only [AtWork, hp] at hatWork
      obtain ⟨command, -, -, hleads⟩ := hatWork
      simp only [printedOn, callsOf, hostCalls, hp]
      -- The call prints nothing, or the command has no way to fail any more.
      refine perform_keeps h.2 ?_
      rcases command.execute_isSilent_or_ends e.settings with hsilent | hends
      · rcases h.1 with hprinted | hends
        · exact .inl ⟨hprinted, (hleads.asks hsilent).1⟩
        · exact .inr hends
      · exact .inr (hleads.ends hends)
  | woken hp =>
      simp only [Keeps, hp] at h
      simp only [printedOn, callsOf, hostCalls, hp, List.filter_nil, List.append_nil]
      exact ⟨h.1, h.2.stack, h.2.retired⟩
  | looped hp =>
      simp only [Keeps, hp] at h
      exact applyLoop_keeps h _ _ _
  | applied =>
      unfold applyDeferredPause
      split
      · trivial
      · exact rest_keeps _ _ _ _
  | printed hp => exact print_keeps hp h
  | paused => exact close_keeps _ _ _ _
  | rested => trivial

theorem Keeps.congr {e₀ e e' : Engine σ} {printed : List HostCall} (he : Keeps e₀ printed e)
    (hphase : e'.phase = e.phase) (h : Untouched e e') : Keeps e₀ printed e' := by
  unfold Keeps at he ⊢
  rw [hphase]
  split at he
  · exact ⟨he.1, he.2.trans h⟩
  · exact ⟨he.1, he.2.trans h⟩
  · exact ⟨he.1, he.2.trans h⟩
  · exact ⟨he.1, he.2.trans h⟩
  · exact he.congr h.stack
  · exact ⟨he.1, he.2.1, he.2.2.trans h⟩
  · exact ⟨he.1, he.2.trans h⟩
  · trivial

/-! ### Whole ticks -/

theorem Tick.keeps {e₀ e : Engine σ} {printed : List HostCall} (he₀ : e₀.Reachable)
    (htop : e₀.TopIsParsed) (h : Tick e₀ printed e) : Keeps e₀ printed e := by
  induction h with
  | start hphase =>
      simp only [Keeps, hphase]
      exact ⟨trivial, rfl, rfl⟩
  | @on printed e e' event h hon hin ih =>
      cases event with
      | work branch =>
          cases step_of_take? hon with
          | tick hphase hstep =>
              exact tick_keeps (h.reachable he₀).atWork htop ih hphase hstep hin
          -- The other steps do not lie in a tick.
          | round hround => exact absurd (h.inTick.symm.trans hround.inTick) nofun
          | interrupted | served => cases hin
          | @applied drains => cases drains <;> cases hin
      | call asked =>
          cases hon
          have hleaves := e.receive_leavesWork asked
          show Keeps e₀ (printed ++ []) _
          rw [List.append_nil]
          exact ih.congr hleaves.phase ⟨hleaves.stack, hleaves.retired⟩
      | pass ms | change world =>
          cases hon
          show Keeps e₀ (printed ++ []) _
          rw [List.append_nil]
          exact ih.congr rfl ⟨rfl, rfl⟩

/-- As long as no program counter has moved, the frames stand where they stood at the start. -/
theorem Tick.places {e₀ e : Engine σ} {printed : List HostCall} (he₀ : e₀.Reachable)
    (h : Tick e₀ printed e) (hphase : e.phase.isUndecided = true) :
    e.stack.map Frame.place = e₀.stack.map Frame.place := by
  induction h with
  | start => rfl
  | @on printed e e' event h hon hin ih =>
      cases event with
      | work branch =>
          cases step_of_take? hon with
          | tick htick hstep =>
              cases tick_shift htick (h.reachable he₀).atWork hstep with
              -- From a phase in which a program counter may have moved there is no way back.
              | none hplaces hbefore =>
                  rcases hbefore with hbefore | hafter
                  · exact hplaces.trans (ih hbefore)
                  · exact absurd (hafter.symm.trans hphase) nofun
              | drop _ hafter | top _ _ _ _ _ hafter =>
                  exact absurd (hafter.symm.trans hphase) nofun
          | round hround => exact absurd (h.inTick.symm.trans hround.inTick) nofun
          | interrupted | served => cases hin
          | @applied drains => cases drains <;> cases hin
      | call asked =>
          cases hon
          have hleaves := e.receive_leavesWork asked
          exact (place_of_unfed hleaves.stack).trans (ih (hleaves.phase ▸ hphase))
      | pass ms | change world =>
          cases hon
          exact ih hphase

/-- How a tick fails that began in `e₀` and in which `printed` was printed so far, if the engine
goes from `e` to `e'`: it prints one message and closes the pause gate, and the frames are as they
were when it began. -/
structure FailsInPlace (e₀ : Engine σ) (printed : List HostCall) (e e' : Engine σ) : Prop where
  comes : e.fails = true → Untouched e₀ e' ∧ printed = [] ∧
    ∃ message, message.isPrint = true ∧ e'.phase = .printing message (.pause none)
  /-- Only a host that breaks down at the message keeps the tick from its end. -/
  prints : ∀ message, e.phase = .printing message (.pause none) → Untouched e₀ e' ∧
    message.isPrint = true ∧ printed = [] ∧ e.printedOn (.work .proceed) = [message] ∧
    (e'.phase = .pausing none ∨
      (e.ask message).1.toOption = none ∧ e'.phase = .broken ∧ ∀ branch, e'.take? branch = none)
  ends : e.phase = .pausing none → Untouched e₀ e' ∧ e'.pause = .closed ∧ e'.phase = .top ∧
    ∃ message, message.isPrint = true ∧ printed = [message]

theorem Tick.failed {e₀ e e' : Engine σ} {printed : List HostCall} {branch : Branch}
    (he₀ : e₀.Reachable) (htop : e₀.TopIsParsed) (h : Tick e₀ printed e)
    (hfails : e.fails = true) (hstep : e.take? branch = some e') :
    Untouched e₀ e' ∧ printed = [] ∧
      ∃ message, message.isPrint = true ∧ e'.phase = .printing message (.pause none) := by
  have hkeeps := h.keeps he₀ htop
  have hatWork := (h.reachable he₀).atWork
  unfold fails at hfails
  split at hfails
  · next hp =>
      simp only [Keeps, hp] at hkeeps
      rw [(htop.congr hkeeps.2.stack).fetchFails] at hfails
      cases hfails
  · next executed text delay hp =>
      simp only [Keeps, hp] at hkeeps
      simp only [AtWork, hp] at hatWork
      obtain ⟨command, hcurrent, rfl, hleads⟩ := hatWork
      have hfailed : executed.isSuccess = false := by simpa using hfails
      obtain ⟨message, hprint, hsettle⟩ :=
        settle_of_failure hcurrent hleads hfailed command.text delay
      -- What has printed something in this tick is on the way to a success.
      have hprinted : printed = [] := by
        rcases hkeeps.1 with hprinted | hends
        · exact hprinted
        · exact absurd (hfailed.symm.trans hends) Bool.false_ne_true
      obtain ⟨rfl, hproceed⟩ := proceed_of_take? (by simp [isWaiting, hp]) hstep
      simp only [proceed?, hp, Option.some.injEq] at hproceed
      rw [← hproceed, hsettle]
      exact ⟨⟨hkeeps.2.stack, hkeeps.2.retired⟩, hprinted, message, hprint, rfl⟩
  · next restart text delay hp =>
      -- The top frame has all its commands, so its loop is not refused.
      simp only [Keeps, hp] at hkeeps
      obtain ⟨frame, frames, hstack, hparsed⟩ := hkeeps
      simp [hstack, hparsed] at hfails
  · cases hfails

theorem Tick.failsInPlace {e₀ e e' : Engine σ} {printed : List HostCall} {branch : Branch}
    (he₀ : e₀.Reachable) (htop : e₀.TopIsParsed) (h : Tick e₀ printed e)
    (hstep : e.take? branch = some e') : FailsInPlace e₀ printed e e' where
  comes hfails := h.failed he₀ htop hfails hstep
  prints message hp := by
    have hkeeps := h.keeps he₀ htop
    simp only [Keeps, hp] at hkeeps
    obtain ⟨hprint, hnone, hsame⟩ := hkeeps
    have hcalls : e.printedOn (.work .proceed) = [message] := by
      simp [printedOn, callsOf, hostCalls, hp, hprint]
    obtain ⟨rfl, hproceed⟩ := proceed_of_take? (by simp [isWaiting, hp]) hstep
    simp only [proceed?, hp, Option.some.injEq] at hproceed
    obtain ⟨world, hprinted | ⟨hfails, hbroken⟩⟩ := e.print_cases message (.pause none)
    · rw [← hproceed, hprinted]
      exact ⟨⟨hsame.stack, hsame.retired⟩, hprint, hnone, hcalls, .inl rfl⟩
    · rw [← hproceed, hbroken]
      refine ⟨⟨hsame.stack, hsame.retired⟩, hprint, hnone, hcalls, .inr ⟨hfails, rfl, ?_⟩⟩
      exact take?_of_hasEnded rfl
  ends hp := by
    have hkeeps := h.keeps he₀ htop
    simp only [Keeps, hp] at hkeeps
    obtain ⟨rfl, hproceed⟩ := proceed_of_take? (by simp [isWaiting, hp]) hstep
    simp only [proceed?, hp, Option.some.injEq] at hproceed
    rw [← hproceed]
    exact ⟨⟨hkeeps.2.stack, hkeeps.2.retired⟩, rfl, rfl, hkeeps.1⟩

/-- An engine in a tick came into it by a start. -/
theorem Reachable.tick {e : Engine σ} (h : e.Reachable) (hphase : e.phase.inTick = true) :
    ∃ e₀ printed, e₀.Reachable ∧ Tick e₀ printed e := by
  induction h with
  | spawn => exact absurd hphase Bool.false_ne_true
  | @on e e' event he hon ih =>
      cases hin : e.phase.inTick with
      | true =>
          obtain ⟨e₀, printed, he₀, htick⟩ := ih hin
          exact ⟨e₀, _, he₀, htick.on event hon hphase⟩
      | false =>
          have hfetching : e'.phase = .fetching := by
            cases event with
            | work branch =>
                cases step_of_take? hon with
                | tick hbefore => exact absurd (hin.symm.trans hbefore) nofun
                | round hround => exact hround.inTick_next hphase
                | interrupted | served => cases hphase
                | @applied drains => cases drains <;> cases hphase
            | call asked =>
                cases hon
                rw [(e.receive_leavesWork asked).phase, hin] at hphase
                cases hphase
            | pass ms | change world =>
                cases hon
                exact absurd (hin.symm.trans hphase) nofun
          exact ⟨e', [], he.on event hon, .start hfetching⟩

theorem phase_of_result? {e : Engine σ} {result : Except CommandError Outcome}
    (h : e.result? = some result) : e.phase.inTick = true ∧ e.phase.isUndecided = true := by
  unfold result? at h
  split at h
  · next hp => rw [hp]; exact ⟨rfl, rfl⟩
  · next hp => rw [hp]; exact ⟨rfl, rfl⟩
  · cases h

theorem topIsParsed_of_place {e : Engine σ} {height : Nat} {frame : Frame}
    (hheight : height + 1 = e.stack.length)
    (hplace : (e.stack.reverse[height]?).map Frame.place = some frame.place)
    (hparsed : frame.isProduced = false) : e.TopIsParsed := by
  cases hstack : e.stack with
  | nil => simp [hstack] at hheight
  | cons top rest =>
      have hrest : height = rest.reverse.length := by simpa [hstack] using hheight
      have htop : top.place = frame.place := by
        simpa [hstack, hrest] using hplace
      exact ⟨top, rest, hstack, (congrArg Prod.snd htop).trans hparsed⟩

theorem step_mem_map_unfed {queue : List Request} :
    .step ∈ queue.map Request.unfed ↔ .step ∈ queue := by
  simp

theorem no_step_queued {e e' : Engine σ} {event : Event σ} (hqueue : .step ∉ e.queue)
    (hevent : event ≠ .call .step) (hon : e.on? event = some e') : .step ∉ e'.queue := by
  cases event with
  | work branch =>
      cases step_of_take? hon with
      | tick hphase hstep =>
          rw [(spares_of_inTick hphase hstep).queue]
          exact hqueue
      | round hround =>
          rcases hround.queue with hsame | hnil
          · rw [hsame]
            exact hqueue
          · rw [hnil]
            exact List.not_mem_nil
      | interrupted | served => exact hqueue
      | @applied drains request queue _ hrequest =>
          have hrest : ({ e with queue }.apply request).queue = queue := apply_queue _ _
          show .step ∉ ({ e with queue }.apply request).queue
          rw [hrest]
          exact fun hmem => hqueue (hrequest ▸ List.mem_cons_of_mem _ hmem)
  | call asked =>
      cases hon
      rw [← step_mem_map_unfed] at hqueue ⊢
      rcases e.receive_queue asked with hsame | ⟨request, hsends, hlonger⟩
      · rw [hsame]
        exact hqueue
      · rw [hlonger, List.mem_append, List.mem_singleton]
        rintro (hmem | heq)
        · exact hqueue hmem
        · have hstep : request = .step := Request.unfed_eq_step.mp heq.symm
          subst hstep
          cases asked with
          | step => exact hevent rfl
          | stop atLoop => cases atLoop <;> cases hsends
          | enqueue | enqueueSource | runByName => obtain ⟨_, h⟩ := hsends; cases h
          | pause | resume | setReady | shutdown | feed | closeChannel => cases hsends
  | pass ms | change world =>
      cases hon
      exact hqueue

/-- A command that fails changes nothing and is not passed over. If a tick fails for a frame whose
commands are known, one message is printed, and when the tick ends the frames are as they were when
it began and the pause gate is closed. If the host breaks down at the message the tick does not end,
and the engine is gone with its frames as they were. So in a run in which nobody asks for a step,
the program counter of such a frame moves only in a tick that began there and whose command has
succeeded. -/
theorem failures_keep_place (host : Host σ) (settings : Settings) (world : σ) (catalog : Catalog)
    {events : List (Event σ)} {e : Engine σ}
    (hrun : (spawn host settings world catalog).run? events = some e) :
    (∀ e₀ printed branch e', e₀.Reachable → e₀.TopIsParsed → Tick e₀ printed e →
      e.take? branch = some e' → FailsInPlace e₀ printed e e') ∧
    ((∀ event ∈ events, event ≠ .call .step) → ∀ event e' height frame, event ≠ .call .step →
      e.on? event = some e' → e.stack.reverse[height]? = some frame →
      frame.isProduced = false → MovesAt e.stack e'.stack height →
        ∃ e₀ printed result, e₀.Reachable ∧ Tick e₀ printed e ∧ e₀.TopIsParsed ∧
          height + 1 = e₀.stack.length ∧
          (e₀.stack.reverse[height]?).map Frame.place = some frame.place ∧
          e.result? = some result ∧ Outcome.isSuccess result = true) := by
  have hreach : e.Reachable := (Reachable.spawn host settings world catalog).run hrun
  refine ⟨fun e₀ printed branch e' he₀ htop htick hstep =>
    htick.failsInPlace he₀ htop hstep, ?_⟩
  intro hevents event e' height frame hevent hon hframe hparsed hmoves
  have hqueue : .step ∉ e.queue := by
    refine run?_keeps (P := fun e => .step ∉ e.queue) ?_ List.not_mem_nil hrun
    exact fun event hmem _ _ hqueue hon => no_step_queued hqueue (hevents event hmem) hon
  cases event with
  | work branch =>
      obtain ⟨hheight, result, hresult, hsuccess⟩ :=
        take?_movesAt hreach.atWork hqueue hon hmoves
      obtain ⟨hin, hundecided⟩ := phase_of_result? hresult
      obtain ⟨e₀, printed, he₀, htick⟩ := hreach.tick hin
      have hplaces := htick.places he₀ hundecided
      have hlength : e.stack.length = e₀.stack.length := by
        simpa using congrArg List.length hplaces
      have hplace : (e₀.stack.reverse[height]?).map Frame.place = some frame.place := by
        rw [← List.getElem?_map, List.map_reverse, ← hplaces, ← List.map_reverse,
          List.getElem?_map, hframe, Option.map_some]
      refine ⟨e₀, printed, result, he₀, htick, ?_, by omega, hplace, hresult, hsuccess⟩
      exact topIsParsed_of_place (by omega) hplace hparsed
  | call asked =>
      cases hon
      exact absurd hmoves
        (not_movesAt_of_places (place_of_unfed (e.receive_leavesWork asked).stack))
  | pass ms | change world =>
      cases hon
      exact absurd hmoves (not_movesAt_of_places rfl)

/-- What happens to a dry run of a macro whose second line runs a macro that is not there. -/
def runningOuter (steps : Nat) : List (Event DryRun) :=
  .call (.enqueue { name := "Outer", contents := "/a\n/runmacro \"Missing\"" } none) ::
    onItsOwn steps

def outerAfter (steps : Nat) : Engine DryRun :=
  (spawn DryRun.host {} {}).ran (runningOuter steps)

theorem no_step_runningOuter (steps : Nat) :
    ∀ event ∈ runningOuter steps, event ≠ .call .step := by
  intro event hmem
  rcases List.mem_cons.mp hmem with rfl | hmem
  · exact nofun
  · exact forall_onItsOwn (P := (· ≠ .call .step)) nofun steps event hmem

/-- The second line fails with one message, and the first one has been passed in a tick that
succeeded. -/
theorem failures_keep_place_outer :
    (∃ e₀ message, Tick e₀ [message] (outerAfter 19) ∧ Untouched e₀ (outerAfter 20) ∧
      (outerAfter 20).pause = .closed) ∧
    ∃ e₀ printed result, Tick e₀ printed (outerAfter 9) ∧ (outerAfter 9).result? = some result ∧
      Outcome.isSuccess result = true ∧ MovesAt (outerAfter 9).stack (outerAfter 10).stack 0 := by
  have hrun₁ : (spawn DryRun.host {} {}).run? (runningOuter 19) = some (outerAfter 19) :=
    run?_eq_some_ran (by rfl)
  have hrun₂ : (spawn DryRun.host {} {}).run? (runningOuter 9) = some (outerAfter 9) :=
    run?_eq_some_ran (by rfl)
  refine ⟨?_, ?_⟩
  · obtain ⟨hfails, -⟩ := failures_keep_place DryRun.host {} {} {} hrun₁
    have hreach := (Reachable.spawn DryRun.host {} {} {}).run hrun₁
    obtain ⟨e₀, printed, he₀, htick⟩ := hreach.tick (by rfl)
    have hplaces : [(1, false)] = e₀.stack.map Frame.place := htick.places he₀ (by rfl)
    have htop : e₀.TopIsParsed := by
      cases hstack : e₀.stack with
      | nil => simp [hstack] at hplaces
      | cons top rest =>
          rw [hstack, List.map_cons] at hplaces
          exact ⟨top, rest, hstack, (congrArg Prod.snd (List.cons.inj hplaces).1).symm⟩
    obtain ⟨hsame, hpause, -, message, -, rfl⟩ :=
      (hfails e₀ printed .proceed (outerAfter 20) he₀ htop htick (by rfl)).ends (by rfl)
    exact ⟨e₀, message, htick, hsame, hpause⟩
  · obtain ⟨-, hkept⟩ := failures_keep_place DryRun.host {} {} {} hrun₂
    obtain ⟨frame, hframe⟩ := Option.isSome_iff_exists.mp
      (show ((outerAfter 9).stack.reverse[0]?).isSome = true by rfl)
    obtain ⟨frame', hframe'⟩ := Option.isSome_iff_exists.mp
      (show ((outerAfter 10).stack.reverse[0]?).isSome = true by rfl)
    have hplace : some (0, false) = ((outerAfter 9).stack.reverse[0]?).map Frame.place := by rfl
    have hindex : some 1 = ((outerAfter 10).stack.reverse[0]?).map Frame.index := by rfl
    rw [hframe, Option.map_some, Option.some.injEq] at hplace
    rw [hframe', Option.map_some, Option.some.injEq] at hindex
    have hmoves : MovesAt (outerAfter 9).stack (outerAfter 10).stack 0 := by
      refine ⟨frame, frame', hframe, hframe', ?_⟩
      rw [← hindex, show frame.index = 0 from (congrArg Prod.fst hplace).symm]
      exact Nat.one_ne_zero
    obtain ⟨e₀, printed, result, -, htick, -, -, -, hresult, hsuccess⟩ :=
      hkept (no_step_runningOuter 9) (.work .proceed) (outerAfter 10) 0 frame nofun (by rfl)
        hframe (congrArg Prod.snd hplace).symm hmoves
    exact ⟨e₀, printed, result, htick, hresult, hsuccess, hmoves⟩

end Engine

end CraftLang
