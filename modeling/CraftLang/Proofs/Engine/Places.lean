import CraftLang.Proofs.Engine.AtWork

/-!
Where the frames stand. Program counters move at two points of a tick only, when the engine acts
on the result of a command and when a loop has its effect, and besides that when a step is asked
for. Frames are told apart by their height in the stack.
-/

namespace CraftLang

/-- Whether a phase lies in a tick that has moved no program counter so far. A tick that has failed
moves none, and neither does one that has come to the end of its frame. -/
def Phase.isUndecided : Phase → Bool
  | .fetching | .drawing _ | .running .. | .suspended .. | .looped .. | .printing _ (.pause none)
  | .printing _ .pop | .pausing none => true
  | _ => false

def Frame.place (frame : Frame) : Nat × Bool := (frame.index, frame.isProduced)

theorem place_of_unfed {stack stack' : List Frame}
    (h : stack'.map Frame.unfed = stack.map Frame.unfed) :
    stack'.map Frame.place = stack.map Frame.place := by
  have hunfed (stack : List Frame) :
      (stack.map Frame.unfed).map Frame.place = stack.map Frame.place := by
    simp [Frame.place]
  rw [← hunfed, h, hunfed]

namespace Engine

variable {σ : Type}

/-! ### Stacks in a tick -/

theorem rest_stack (e : Engine σ) (delay : Nat) : (e.rest delay).stack = e.stack := by
  unfold rest
  repeat' split
  all_goals rfl

theorem pop_stack (e : Engine σ) : e.pop.stack = e.stack.tail := by
  unfold pop
  cases hstack : e.stack with
  | nil => exact hstack
  | cons frame frames => rfl

theorem rest_isUndecided (e : Engine σ) (delay : Nat) :
    (e.rest delay).phase.isUndecided = false := by
  unfold rest
  repeat' split
  all_goals rfl

theorem applyDeferredPause_isUndecided (e : Engine σ) (delay : Nat) :
    (e.applyDeferredPause delay).phase.isUndecided = false := by
  unfold applyDeferredPause
  split
  · rfl
  · exact rest_isUndecided _ _

theorem close_isUndecided (e : Engine σ) (delay : Option Nat) :
    (e.close delay).phase.isUndecided = false := by
  cases delay with
  | none => rfl
  | some delay => exact rest_isUndecided _ _

theorem start_stack (e : Engine σ) (command : Command) : (e.start command).stack = e.stack := by
  unfold start
  split
  · split
    all_goals next hask => exact (stack_of_ask hask :)
  · rfl

theorem perform_stack (e : Engine σ) (effect : Effect) (next : effect.Reply → Action Executed)
    (text : String) (delay : Nat) : (e.perform effect next text delay).stack = e.stack := by
  cases effect with
  | host call =>
      simp only [perform]
      split
      all_goals next hask => exact (stack_of_ask hask :)
  | knowsAction name =>
      simp only [perform]
      split
      · rfl
      · split
        all_goals next hask => exact (stack_of_ask hask :)
  | sleep ms =>
      simp only [perform]
      repeat' split
      all_goals rfl

theorem close_stack (e : Engine σ) (delay : Option Nat) : (e.close delay).stack = e.stack := by
  cases delay with
  | none => rfl
  | some delay => exact rest_stack _ _

theorem applyDeferredPause_stack (e : Engine σ) (delay : Nat) :
    (e.applyDeferredPause delay).stack = e.stack := by
  unfold applyDeferredPause
  split
  · rfl
  · exact rest_stack _ _

theorem updateTop_stack (e : Engine σ) (f : Frame → Frame) :
    (e.updateTop f).stack = e.stack.modifyHead f := by
  unfold updateTop
  cases hstack : e.stack with
  | nil => exact hstack
  | cons frame frames => rfl

theorem updateTop_places {e : Engine σ} {f : Frame → Frame}
    (h : ∀ frame, (f frame).place = frame.place) :
    (e.updateTop f).stack.map Frame.place = e.stack.map Frame.place := by
  rw [updateTop_stack]
  cases e.stack with
  | nil => rfl
  | cons frame frames => simp [h]

/-- Looking for a command moves nothing; at the end of its commands the top frame goes. -/
theorem fetch?_places {e e' : Engine σ} (h : e.fetch? = some e') :
    e'.stack.map Frame.place = e.stack.map Frame.place ∨ e' = e.pop.goto .top := by
  unfold fetch? at h
  split at h
  · cases h
    exact .inl rfl
  · next frame frames hstack =>
      have hplace : frame.fetchStep.2.place = frame.place :=
        Prod.ext frame.fetchStep_index frame.fetchStep_isProduced
      split at h <;> cases h
      · next hfetch =>
          rw [hfetch] at hplace
          exact .inl (by simp [goto, hstack, hplace])
      · exact .inr rfl
      · next hfetch =>
          rw [hfetch] at hplace
          exact .inl (by simp [report, goto, hstack, hplace])
      · next hfetch =>
          rw [hfetch] at hplace
          exact .inl (by simp [hstack, hplace])

def result? (e : Engine σ) : Option (Except CommandError Outcome) :=
  match e.phase with
  | .running (.done executed) _ _ => some executed.result
  | .looped restart _ _ => some (.ok (.loop restart))
  | _ => none

inductive Shift (e e' : Engine σ) : Prop
  | none (hplaces : e'.stack.map Frame.place = e.stack.map Frame.place)
      (hphase : e.phase.isUndecided = true ∨ e'.phase.isUndecided = false)
  /-- The top frame goes, or all of them. -/
  | drop (hstack : e'.stack = [] ∨ ∃ top, e.stack = top :: e'.stack)
      (hphase : e'.phase.isUndecided = false)
  /-- The top frame moves on, and a new one can come on top of it. -/
  | top (new : List Frame) {result : Except CommandError Outcome} {top top' : Frame}
      {rest : List Frame} (hresult : e.result? = some result)
      (hsuccess : Outcome.isSuccess result = true)
      (hstack : e.stack = top :: rest) (hstack' : e'.stack = new ++ top' :: rest)
      (hphase : e'.phase.isUndecided = false)

theorem pop_shift {e : Engine σ} (phase : Phase) (h : phase.isUndecided = false) :
    Shift e (e.pop.goto phase) := by
  unfold pop
  split
  · exact .none rfl (.inr h)
  · next hstack => exact .drop (.inr ⟨_, hstack⟩) h

theorem Shift.ofSuccess {e e' : Engine σ} {result : Except CommandError Outcome}
    {f : Frame → Frame} (new : List Frame) (hresult : e.result? = some result)
    (hsuccess : Outcome.isSuccess result = true) (hframes : e.stack ≠ [])
    (hstack' : e'.stack = new ++ e.stack.modifyHead f) (hphase : e'.phase.isUndecided = false) :
    Shift e e' := by
  cases hstack : e.stack with
  | nil => exact absurd hstack hframes
  | cons top rest =>
      rw [hstack, List.modifyHead_cons] at hstack'
      exact .top new hresult hsuccess hstack hstack' hphase

theorem settle_shift {e : Engine σ} {executed : Executed} {text : String} {delay : Nat}
    (hp : e.phase = .running (.done executed) text delay) (hframes : e.stack ≠ []) :
    Shift e ((e.updateTop (·.setKind executed.kind)).settle executed.result text delay) := by
  have hresult : e.result? = some executed.result := by rw [result?, hp]
  have hundecided : e.phase.isUndecided = true := by rw [hp]; rfl
  have hplaces : (e.updateTop (·.setKind executed.kind)).stack.map Frame.place =
      e.stack.map Frame.place := updateTop_places fun frame => by simp [Frame.place]
  have htop (f : Frame → Frame) :
      ((e.updateTop (·.setKind executed.kind)).updateTop f).stack =
        e.stack.modifyHead fun frame => f (frame.setKind executed.kind) := by
    rw [updateTop_stack, updateTop_stack]
    cases e.stack <;> rfl
  obtain ⟨kind, result⟩ := executed
  cases result with
  | error error => exact .none hplaces (.inl hundecided)
  | ok outcome =>
      cases outcome with
      | pause reason | loop restart | gateComplete => exact .none hplaces (.inl hundecided)
      | proceed =>
          exact .ofSuccess [] hresult rfl hframes
            ((rest_stack _ _).trans (htop Frame.advance)) (rest_isUndecided _ _)
      | skipped => exact .ofSuccess [] hresult rfl hframes (htop Frame.advance) rfl
      | push frame =>
          exact .ofSuccess [frame] hresult rfl hframes
            ((rest_stack _ _).trans (congrArg (frame :: ·) (htop Frame.advance)))
            (rest_isUndecided _ _)

theorem applyLoop_shift {e : Engine σ} {restart : Bool} {text : String} {delay : Nat}
    (hp : e.phase = .looped restart text delay) : Shift e (e.applyLoop restart text delay) := by
  have hresult : e.result? = some (.ok (.loop restart)) := by rw [result?, hp]
  have hundecided : e.phase.isUndecided = true := by rw [hp]; rfl
  unfold applyLoop
  split
  · exact .none rfl (.inl hundecided)
  · split
    · split
      · exact .none rfl (.inl hundecided)
      · next hstack =>
          split
          · exact .top [] hresult rfl hstack rfl rfl
          · exact .none rfl (.inl hundecided)
    · cases hstack : e.stack with
      | nil => exact .drop (.inl (by simp [updateTop, hstack, goto])) rfl
      | cons top rest =>
          exact .ofSuccess [] hresult rfl (by simp [hstack]) (updateTop_stack e Frame.advance) rfl

theorem print_shift {e : Engine σ} {call : HostCall} {after : Aftermath}
    (hp : e.phase = .printing call after) : Shift e (e.print call after) := by
  obtain ⟨world, hprinted | ⟨-, hbroken⟩⟩ := e.print_cases call after
  · rw [hprinted]
    cases after with
    | pause delay =>
        cases delay with
        | none => exact .none rfl (.inl (by rw [hp]; rfl))
        | some delay => exact .none rfl (.inr rfl)
    | clear => exact .drop (.inl rfl) rfl
    | pop =>
        cases hstack : e.stack with
        | nil => exact .none (by simp [conclude, pop, goto, hstack]) (.inr rfl)
        | cons top rest => exact .drop (.inr ⟨top, by simp [conclude, pop, goto, hstack]⟩) rfl
  · rw [hbroken]
    exact .none rfl (.inr rfl)

/-- A step in a tick moves no program counter, or it moves the top one for a success. -/
theorem tick_shift {e e' : Engine σ} (hin : e.phase.inTick = true)
    (hatWork : e.AtWork) (hstep : e.proceed? = some e') : Shift e e' := by
  cases tickStep_of_inTick hin hstep with
  | fetched hp hfetch =>
      rcases fetch?_places hfetch with hplaces | rfl
      · exact .none hplaces (.inl (by rw [hp]; rfl))
      · exact pop_shift _ rfl
  | started hp => exact .none (by rw [start_stack]) (.inl (by rw [hp]; rfl))
  | settled hp =>
      simp only [AtWork, hp] at hatWork
      obtain ⟨command, hcurrent, -⟩ := hatWork
      refine settle_shift hp fun hnil => ?_
      simp [current?, hnil] at hcurrent
  | performed hp => exact .none (by rw [perform_stack]) (.inl (by rw [hp]; rfl))
  | woken hp => exact .none rfl (.inl (by rw [hp]; rfl))
  | looped hp => exact applyLoop_shift hp
  | applied =>
      exact .none (by rw [applyDeferredPause_stack]) (.inr (applyDeferredPause_isUndecided _ _))
  | printed hp => exact print_shift hp
  | paused => exact .none (by rw [close_stack]) (.inr (close_isUndecided _ _))
  | rested => exact .none rfl (.inr rfl)

/-! ### Program counters -/

/-- The frame at a height in a stack has another program counter in another stack. -/
def MovesAt (stack stack' : List Frame) (height : Nat) : Prop :=
  ∃ frame frame', stack.reverse[height]? = some frame ∧ stack'.reverse[height]? = some frame' ∧
    frame'.index ≠ frame.index

theorem MovesAt.lt_length {stack stack' : List Frame} {height : Nat}
    (h : MovesAt stack stack' height) : height < stack.length ∧ height < stack'.length := by
  obtain ⟨frame, frame', hframe, hframe', -⟩ := h
  obtain ⟨hlt, -⟩ := List.getElem?_eq_some_iff.mp hframe
  obtain ⟨hlt', -⟩ := List.getElem?_eq_some_iff.mp hframe'
  exact ⟨by simpa using hlt, by simpa using hlt'⟩

theorem not_movesAt_of_places {stack stack' : List Frame} {height : Nat}
    (h : stack'.map Frame.place = stack.map Frame.place) : ¬MovesAt stack stack' height := by
  rintro ⟨frame, frame', hframe, hframe', hne⟩
  have hplace := congrArg (fun places => places.reverse[height]?) h
  simp only [← List.map_reverse, List.getElem?_map, hframe, hframe', Option.map_some,
    Option.some.injEq] at hplace
  exact hne (congrArg Prod.fst hplace)

theorem MovesAt.length_le {base : List Frame} {height : Nat} (above above' : List Frame)
    (h : MovesAt (above ++ base) (above' ++ base) height) : base.length ≤ height := by
  by_cases hlt : height < base.length
  · obtain ⟨frame, frame', hframe, hframe', hne⟩ := h
    rw [List.reverse_append, List.getElem?_append_left (by simpa using hlt)] at hframe hframe'
    rw [hframe, Option.some.injEq] at hframe'
    exact absurd (congrArg Frame.index hframe'.symm) hne
  · omega

theorem Shift.movesAt {e e' : Engine σ} {height : Nat} (h : Shift e e')
    (hmoves : MovesAt e.stack e'.stack height) :
    height + 1 = e.stack.length ∧
      ∃ result, e.result? = some result ∧ Outcome.isSuccess result = true := by
  cases h with
  | none hplaces => exact absurd hmoves (not_movesAt_of_places hplaces)
  | drop hstack =>
      have hbound := hmoves.lt_length.2
      rcases hstack with hnil | ⟨top, hstack⟩
      · rw [hnil] at hbound
        exact absurd hbound (Nat.not_lt_zero _)
      · rw [hstack] at hmoves
        have hle := MovesAt.length_le [top] [] hmoves
        omega
  | top new hresult hsuccess hstack hstack' =>
      rw [hstack, hstack', ← List.singleton_append, List.append_cons] at hmoves
      have hle := MovesAt.length_le _ _ hmoves
      have hbound := hmoves.lt_length.1
      rw [List.length_append, List.length_singleton] at hbound
      refine ⟨?_, _, hresult, hsuccess⟩
      rw [hstack, List.length_cons]
      omega

/-- A step of an engine that was asked for no steps moves no program counter but for a success. -/
theorem take?_movesAt {e e' : Engine σ} {branch : Branch} {height : Nat} (hatWork : e.AtWork)
    (hqueue : .step ∉ e.queue) (hstep : e.take? branch = some e')
    (hmoves : MovesAt e.stack e'.stack height) :
    height + 1 = e.stack.length ∧
      ∃ result, e.result? = some result ∧ Outcome.isSuccess result = true := by
  cases step_of_take? hstep with
  | tick hphase hproceed => exact (tick_shift hphase hatWork hproceed).movesAt hmoves
  | round hround =>
      exfalso
      cases hround with
      | unready | close => exact absurd hmoves.lt_length.2 (Nat.not_lt_zero _)
      | begin | drained | request | nothing | ready | tick | empty | rest | emptied | wake =>
          exact not_movesAt_of_places rfl hmoves
  | interrupted | served => exact absurd hmoves (not_movesAt_of_places rfl)
  | @applied drains request queue hphase hrequest =>
      exfalso
      cases request with
      | push frame =>
          have hbound := hmoves.lt_length.1
          have hle := MovesAt.length_le [] [frame] hmoves
          exact absurd hbound (Nat.not_lt_of_le hle)
      | clear => exact absurd hmoves.lt_length.2 (Nat.not_lt_zero _)
      | step => exact hqueue (by rw [hrequest]; exact List.mem_cons_self)

end Engine

end CraftLang
