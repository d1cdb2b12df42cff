import CraftLang.Proofs.Command.Success
import CraftLang.Proofs.Frame.Life

/-!
Frames that come to their end. As long as every command succeeds, the counters of a frame decide
where it goes: what the host replies, and what its nested macros do, makes no difference. A frame
that comes to its end in this way has only finitely many moves to make.
-/

namespace CraftLang

namespace Frame

/-- The frame after a command that succeeded, unless the command ends it. -/
def onward? (frame : Frame) (command : Command) : Option Frame :=
  match command.kind with
  | .loop counter =>
    let moved := frame.setKind (.loop counter.next.2)
    if counter.next.1.restarts then
      some { moved with index := 0, iterations := moved.iterations + 1 }
    else some moved.advance
  | .gate counter =>
    match counter.next.1 with
    | .opened _ => some (frame.setKind (.gate counter.next.2)).advance
    | .complete => none
  | _ => some frame.advance

def ended (frame : Frame) (command : Command) : Frame :=
  match command.kind with
  | .gate counter => frame.setKind (.gate counter.next.2)
  | _ => frame

/-- The frame carries out the commands, with the counters they have by then, and comes to its end
as `last`. -/
inductive Completes : Frame → List Command → Frame → Prop
  | finished {frame : Frame} (hnone : frame.commands[frame.index]? = none) :
      Completes frame [] frame
  | ended {frame : Frame} {command : Command}
      (hcommand : frame.commands[frame.index]? = some command)
      (honward : frame.onward? command = none) : Completes frame [command] (frame.ended command)
  | turn {frame next last : Frame} {command : Command} {commands : List Command}
      (hcommand : frame.commands[frame.index]? = some command)
      (honward : frame.onward? command = some next) (hrest : Completes next commands last) :
      Completes frame (command :: commands) last

def Leaves (frame : Frame) (command : Command) (commands : List Command) (last : Frame) : Prop :=
  match frame.onward? command with
  | none => commands = [] ∧ last = frame.ended command
  | some next => next.Completes commands last

variable {frame next last : Frame} {command : Command} {commands : List Command}

theorem Completes.leaves (h : frame.Completes commands last)
    (hcommand : frame.commands[frame.index]? = some command) :
    ∃ rest, commands = command :: rest ∧ frame.Leaves command rest last := by
  cases h with
  | finished hnone =>
      rw [hnone] at hcommand
      cases hcommand
  | ended hsame honward =>
      obtain rfl := Option.some.inj (hsame.symm.trans hcommand)
      exact ⟨[], rfl, by simp [Leaves, honward]⟩
  | turn hsame honward hrest =>
      obtain rfl := Option.some.inj (hsame.symm.trans hcommand)
      exact ⟨_, rfl, by simpa [Leaves, honward] using hrest⟩

theorem Completes.of_none (h : frame.Completes commands last)
    (hnone : frame.commands[frame.index]? = none) : commands = [] ∧ last = frame := by
  cases h with
  | finished => exact ⟨rfl, rfl⟩
  | ended hcommand | turn hcommand =>
      rw [hnone] at hcommand
      cases hcommand

theorem fetchStep_eq_finished (h : frame.fetchStep.1 = .finished) :
    frame.commands[frame.index]? = none := by
  unfold fetchStep at h
  split at h
  · cases h
  · assumption

theorem onward?_isProduced (h : frame.onward? command = some next) :
    next.isProduced = frame.isProduced := by
  unfold onward? at h
  split at h
  · simp only at h
    split at h <;> cases h
    · exact setKind_isProduced frame _
    · exact setKind_isProduced frame _
  · split at h <;> cases h
    exact setKind_isProduced frame _
  · cases h
    rfl

theorem unfed_of_parsed (h : frame.isProduced = false) : frame.unfed = frame := by
  obtain ⟨stored, body, index, iterations⟩ := frame
  cases body with
  | parsed commands => rfl
  | produced source yielded pulled exhausted => cases h

end Frame

theorem Frame.onward?_of_isPlain {frame : Frame} {command : Command}
    (h : command.isPlain = true) : frame.onward? command = some frame.advance := by
  unfold Command.isPlain at h
  unfold onward?
  cases hkind : command.kind with
  | loop | gate => simp [hkind] at h
  | _ => rfl

/-- A command that is neither a loop nor a gate keeps its instruction. -/
theorem Command.Yields.of_isPlain {command : Command} {executed : Executed}
    (h : command.Yields executed) (hplain : command.isPlain = true) :
    executed.kind = command.kind ∧ Outcome.isPlain executed.result = true := by
  unfold isPlain at hplain
  unfold Yields at h
  split at hplain
  · cases hplain
  · cases hplain
  · split at h <;> simp_all

/-- A command that succeeds takes its frame onward, through the restart of a loop if there is
one. -/
theorem Executed.leave?_of_yields {executed : Executed} {frame : Frame} {command : Command}
    {life : Life} (hparsed : frame.isProduced = false)
    (hcommand : frame.commands[frame.index]? = some command) (hyields : command.Yields executed)
    (hleave : executed.leave? frame = some life) :
    match frame.onward? command with
    | none => life = ⟨frame.ended command, .over⟩
    | some next => life = ⟨next, .seeking⟩ ∨
        ∃ moved restart, life = ⟨moved, .looped restart⟩ ∧ moved.loop? restart = some next := by
  cases hplain : command.isPlain with
  | true =>
      obtain ⟨hkind, hresult⟩ := hyields.of_isPlain hplain
      rw [Frame.onward?_of_isPlain hplain]
      refine .inl ?_
      unfold leave? at hleave
      rw [hkind, Frame.setKind_self hcommand] at hleave
      obtain ⟨kind, result⟩ := executed
      cases result with
      | error error => cases hleave
      | ok outcome =>
          cases outcome with
          | proceed | skipped | push frame =>
              cases hleave
              rfl
          | loop restart | gateComplete => cases hresult
          | pause reason => cases hleave
  | false =>
      unfold Command.isPlain at hplain
      unfold Command.Yields at hyields
      unfold Frame.onward?
      cases hkind : command.kind with
      | loop counter =>
          simp only [hkind] at hyields ⊢
          subst hyields
          cases hleave
          have hmoved : (frame.setKind (.loop counter.next.2)).isProduced = false := by
            rw [Frame.setKind_isProduced, hparsed]
          cases hrestarts : counter.next.1.restarts with
          | true =>
              refine .inr ⟨_, true, rfl, ?_⟩
              simp [Frame.loop?, Frame.restart, hmoved, Except.toOption]
          | false => exact .inr ⟨_, false, rfl, rfl⟩
      | gate counter =>
          simp only [hkind] at hyields ⊢
          subst hyields
          cases hpass : counter.next.1 with
          | opened remaining =>
              simp only [leave?, hpass, GateCounter.Pass.outcome] at hleave
              cases hleave
              exact .inl rfl
          | complete =>
              simp only [leave?, hpass, GateCounter.Pass.outcome] at hleave
              cases hleave
              simp only [Frame.ended, hkind]
      | _ => simp [hkind] at hplain

namespace Life

variable {settings : Settings}

/-- A life in which every command succeeds from now on has these commands to start, and its frame
comes to its end as `last`. -/
def Faces (life : Life) (commands : List Command) (last : Frame) : Prop :=
  life.frame.isProduced = false ∧
    match life.stage with
    | .seeking => life.frame.Completes commands last
    | .found command => ∃ rest, commands = command :: rest ∧
        life.frame.commands[life.frame.index]? = some command ∧ life.frame.Leaves command rest last
    | .running program => ∃ command, life.frame.commands[life.frame.index]? = some command ∧
        program.Ends command.Yields ∧ life.frame.Leaves command commands last
    | .looped restart => ∃ next, life.frame.loop? restart = some next ∧
        next.Completes commands last
    | .over => commands = [] ∧ last = life.frame

theorem leave?_isProduced {executed : Executed} {frame : Frame} {life : Life}
    (h : executed.leave? frame = some life) : life.frame.isProduced = frame.isProduced := by
  unfold Executed.leave? at h
  simp only at h
  split at h <;> cases h
  all_goals exact Frame.setKind_isProduced frame _

theorem loop?_isProduced {frame next : Frame} {restart : Bool}
    (h : frame.loop? restart = some next) : next.isProduced = frame.isProduced := by
  cases restart with
  | true =>
      simp only [Frame.loop?, Frame.restart, if_true] at h
      split at h <;> cases h
      rfl
  | false =>
      cases h
      rfl

theorem Faces.of_leave? {frame last : Frame} {command : Command} {commands : List Command}
    {executed : Executed} {life : Life} (hparsed : frame.isProduced = false)
    (hcommand : frame.commands[frame.index]? = some command) (hyields : command.Yields executed)
    (hleaves : frame.Leaves command commands last) (hleave : executed.leave? frame = some life) :
    life.Faces commands last := by
  refine ⟨(leave?_isProduced hleave).trans hparsed, ?_⟩
  have honward := Executed.leave?_of_yields hparsed hcommand hyields hleave
  unfold Frame.Leaves at hleaves
  cases hnext : frame.onward? command with
  | none =>
      simp only [hnext] at honward hleaves
      rw [honward]
      exact hleaves
  | some next =>
      simp only [hnext] at honward hleaves
      rcases honward with rfl | ⟨moved, restart, rfl, hloop⟩
      · exact hleaves
      · exact ⟨next, hloop, hleaves⟩

/-- A frame whose commands are known finds the one at its program counter, or is at its end. -/
theorem Move.of_seeking {frame : Frame} {life : Life} {told : List Told} {started : List Command}
    (hparsed : frame.isProduced = false) (h : Move settings ⟨frame, .seeking⟩ told started life) :
    started = [] ∧ (frame.commands[frame.index]? = none ∧ life = ⟨frame, .over⟩ ∨
      ∃ command, frame.commands[frame.index]? = some command ∧ life = ⟨frame, .found command⟩) := by
  cases h with
  | @looked source stage _ hframe hfetch =>
      have hsource : source.isProduced = false := by
        rw [← Frame.unfed_isProduced, ← hframe, hparsed]
      obtain rfl : frame = source := hframe.trans (Frame.unfed_of_parsed hsource)
      obtain ⟨hsame, hfetched⟩ := Frame.fetchStep_of_parsed hsource
      rw [hsame, Frame.unfed_of_parsed hsource]
      refine ⟨rfl, ?_⟩
      rcases hfetched with hfinished | ⟨command, hfound⟩
      · rw [hfinished] at hfetch
        cases hfetch
        exact .inl ⟨Frame.fetchStep_eq_finished hfinished, rfl⟩
      · rw [hfound] at hfetch
        cases hfetch
        exact .inr ⟨command, (Frame.fetchStep_eq_command (Prod.ext hfound rfl)).2, rfl⟩
  | started hstage | told hstage | settled hstage | looped hstage => cases hstage

/-- A move takes from the commands that are to be started the one that it starts. -/
theorem Move.faces {life life' : Life} {told : List Told} {started commands : List Command}
    {last : Frame} (h : Move settings life told started life') (hfaces : life.Faces commands last) :
    ∃ rest, commands = started ++ rest ∧ life'.Faces rest last := by
  obtain ⟨frame, stage⟩ := life
  obtain ⟨hparsed, hstage⟩ := hfaces
  cases h with
  | @looked source _ hseeking hframe hfetch =>
      obtain rfl : stage = .seeking := hseeking
      have hmove : Move settings ⟨frame, .seeking⟩ source.heard [] _ := .looked rfl hframe hfetch
      obtain ⟨-, hnone | hfound⟩ := hmove.of_seeking hparsed
      · obtain ⟨hnone, hlife⟩ := hnone
        rw [hlife]
        exact ⟨commands, rfl, hparsed, hstage.of_none hnone⟩
      · obtain ⟨command, hcommand, hlife⟩ := hfound
        obtain ⟨rest, rfl, hleaves⟩ := hstage.leaves hcommand
        rw [hlife]
        exact ⟨_, rfl, hparsed, rest, rfl, hcommand, hleaves⟩
  | @started command hfound =>
      obtain rfl : stage = .found command := hfound
      obtain ⟨rest, rfl, hcommand, hleaves⟩ := hstage
      exact ⟨rest, rfl, hparsed, command, hcommand, command.execute_yields settings, hleaves⟩
  | @told effect next hrunning reply =>
      obtain rfl : stage = _ := hrunning
      obtain ⟨command, hcommand, hends, hleaves⟩ := hstage
      exact ⟨commands, rfl, hparsed, command, hcommand, hends reply, hleaves⟩
  | @settled _ executed hrunning hleave =>
      obtain rfl : stage = _ := hrunning
      obtain ⟨command, hcommand, hends, hleaves⟩ := hstage
      exact ⟨commands, rfl, .of_leave? hparsed hcommand hends hleaves hleave⟩
  | @looped next restart hlooped hloop =>
      obtain rfl : stage = _ := hlooped
      obtain ⟨next', hloop', hrest⟩ := hstage
      obtain rfl := Option.some.inj (hloop.symm.trans hloop')
      exact ⟨commands, rfl, (loop?_isProduced hloop).trans hparsed, hrest⟩

theorem Course.faces {life life' : Life} {told : List Told} {started commands : List Command}
    {last : Frame} (h : Course settings life told started life')
    (hfaces : life.Faces commands last) :
    ∃ rest, commands = started ++ rest ∧ life'.Faces rest last := by
  induction h generalizing commands with
  | refl => exact ⟨commands, rfl, hfaces⟩
  | step hmove _ ih =>
      obtain ⟨middle, rfl, hmiddle⟩ := hmove.faces hfaces
      obtain ⟨rest, rfl, hrest⟩ := ih hmiddle
      exact ⟨rest, (List.append_assoc _ _ _).symm, hrest⟩

/-! ### Finitely many moves -/

/-- One life comes right after another one. -/
def After (settings : Settings) (life' life : Life) : Prop :=
  ∃ told started, Move settings life told started life'

/-- In a course a frame does nothing at all, or it makes moves. -/
theorem Course.eq_or_after {life life' : Life} {told : List Told} {commands : List Command}
    (h : Course settings life told commands life') :
    life' = life ∧ told = [] ∧ commands = [] ∨ Relation.TransGen (After settings) life' life := by
  induction h with
  | refl => exact .inl ⟨rfl, rfl, rfl⟩
  | step hmove _ ih =>
      have hafter : After settings _ _ := ⟨_, _, hmove⟩
      rcases ih with ⟨rfl, -, -⟩ | ih
      · exact .inr (.single hafter)
      · exact .inr (ih.tail hafter)

theorem acc_of_over {life : Life} (h : life.stage = .over) : Acc (After settings) life :=
  ⟨_, fun _ ⟨_, _, hmove⟩ => absurd h hmove.stage_ne_over⟩

/-- A command comes to an end, whatever it hears. -/
theorem acc_running {frame : Frame} {P : Executed → Prop} {program : Action Executed}
    (hends : program.Ends P)
    (hleave : ∀ executed life, P executed → executed.leave? frame = some life →
      Acc (After settings) life) : Acc (After settings) ⟨frame, .running program⟩ := by
  induction program with
  | done executed =>
      refine ⟨_, fun life ⟨told, started, hmove⟩ => ?_⟩
      cases hmove with
      | settled hrunning hdone =>
          cases hrunning
          exact hleave executed life hends hdone
      | looked hstage | started hstage | told hstage | looped hstage => cases hstage
  | call effect next ih =>
      refine ⟨_, fun life ⟨told, started, hmove⟩ => ?_⟩
      cases hmove with
      | told hrunning reply =>
          cases hrunning
          exact ih reply (hends reply)
      | looked hstage | started hstage | settled hstage | looped hstage => cases hstage

theorem acc_leave? {frame : Frame} {command : Command} {executed : Executed} {life : Life}
    (hparsed : frame.isProduced = false) (hcommand : frame.commands[frame.index]? = some command)
    (honward : ∀ next, frame.onward? command = some next → Acc (After settings) ⟨next, .seeking⟩)
    (hyields : command.Yields executed) (hleave : executed.leave? frame = some life) :
    Acc (After settings) life := by
  have hlife := Executed.leave?_of_yields hparsed hcommand hyields hleave
  cases hnext : frame.onward? command with
  | none =>
      simp only [hnext] at hlife
      exact acc_of_over (by rw [hlife])
  | some next =>
      simp only [hnext] at hlife
      rcases hlife with rfl | ⟨moved, restart, rfl, hloop⟩
      · exact honward next hnext
      · refine ⟨_, fun life ⟨told, started, hmove⟩ => ?_⟩
        cases hmove with
        | looped hlooped hloop' =>
            cases hlooped
            obtain rfl := Option.some.inj (hloop.symm.trans hloop')
            exact honward _ hnext
        | looked hstage | started hstage | told hstage | settled hstage => cases hstage

theorem acc_seeking {frame : Frame} (hparsed : frame.isProduced = false)
    (honward : ∀ command next, frame.commands[frame.index]? = some command →
      frame.onward? command = some next → Acc (After settings) ⟨next, .seeking⟩) :
    Acc (After settings) ⟨frame, .seeking⟩ := by
  have hfound {command : Command} (hcommand : frame.commands[frame.index]? = some command) :
      Acc (After settings) ⟨frame, .found command⟩ := by
    refine ⟨_, fun life ⟨told, started, hmove⟩ => ?_⟩
    cases hmove with
    | started hstage =>
        cases hstage
        refine acc_running (command.execute_yields settings) fun executed life hyields hleave => ?_
        exact acc_leave? hparsed hcommand (honward command · hcommand) hyields hleave
    | looked hstage | told hstage | settled hstage | looped hstage => cases hstage
  refine ⟨_, fun life ⟨told, started, hmove⟩ => ?_⟩
  obtain ⟨-, ⟨-, rfl⟩ | ⟨command, hcommand, rfl⟩⟩ := hmove.of_seeking hparsed
  · exact acc_of_over rfl
  · exact hfound hcommand

/-- A frame that completes its commands has only finitely many moves to make. -/
theorem acc_of_completes {frame last : Frame} {commands : List Command}
    (hparsed : frame.isProduced = false) (h : frame.Completes commands last) :
    Acc (After settings) ⟨frame, .seeking⟩ := by
  induction h with
  | finished hnone =>
      refine acc_seeking hparsed fun command next hcommand _ => ?_
      rw [hnone] at hcommand
      cases hcommand
  | ended hcommand hends =>
      refine acc_seeking hparsed fun command next hsame honward => ?_
      obtain rfl := Option.some.inj (hcommand.symm.trans hsame)
      rw [hends] at honward
      cases honward
  | turn hcommand hnext hrest ih =>
      refine acc_seeking hparsed fun command next hsame honward => ?_
      obtain rfl := Option.some.inj (hcommand.symm.trans hsame)
      obtain rfl := Option.some.inj (hnext.symm.trans honward)
      exact ih ((Frame.onward?_isProduced hnext).trans hparsed)

end Life

end CraftLang
