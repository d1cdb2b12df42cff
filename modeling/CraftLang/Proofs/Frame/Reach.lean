import CraftLang.Proofs.Command.Outcomes
import CraftLang.Proofs.Frame.Pulling

/-!
How far a frame over lines is from the commands that it has. It pulls a line only when there is no
command at its place, so it never has a command behind the one at its place; and it gets past the
commands that it has only if it is moved on where there is none.
-/

namespace CraftLang

def Told.line? : Told → Option String
  | .line (.line text) => some text
  | _ => none

namespace Frame

variable {frame frame' : Frame} {ahead ahead' : Nat}

def drawn (frame : Frame) : List String :=
  frame.heard.filterMap Told.line?

/-- A frame over lines has no command behind the one at its place, and is moved on past its commands
by no more than `ahead`. -/
def InReach (ahead : Nat) (frame : Frame) : Prop :=
  frame.isProduced = true →
    frame.commands.length ≤ frame.index + 1 ∧ frame.index ≤ frame.commands.length + ahead

theorem InReach.mono (h : frame.InReach ahead) (hle : ahead ≤ ahead') : frame.InReach ahead' :=
  fun hproduced => (h hproduced).imp_right fun hplace => hplace.trans (Nat.add_le_add_left hle _)

/-- What is pending in the source does not matter. -/
theorem InReach.congr (h : frame.InReach ahead) (hunfed : frame'.unfed = frame.unfed) :
    frame'.InReach ahead := by
  intro hproduced
  rw [← unfed_isProduced, hunfed, unfed_isProduced] at hproduced
  rw [← unfed_commands frame', ← unfed_index frame', hunfed, unfed_commands, unfed_index]
  exact h hproduced

theorem inReach_ofCommands (stored : StoredMacro) (commands : List Command) :
    (ofCommands stored commands).InReach ahead :=
  nofun

theorem inReach_ofSource (stored : StoredMacro) (source : LineSource) :
    (ofSource stored source).InReach ahead :=
  fun _ => ⟨Nat.zero_le _, Nat.zero_le _⟩

theorem InReach.setKind (h : frame.InReach ahead) (kind : CommandKind) :
    (frame.setKind kind).InReach ahead := by
  intro hproduced
  rw [setKind_isProduced] at hproduced
  rw [setKind_commands, setKind_index, List.length_modify]
  exact h hproduced

/-- A frame that is moved on past a command stays in reach. -/
theorem InReach.advance (h : frame.InReach ahead) {command : Command}
    (hcommand : frame.commands[frame.index]? = some command) : frame.advance.InReach ahead := by
  intro hproduced
  obtain ⟨hheld, -⟩ := h hproduced
  obtain ⟨hlt, -⟩ := List.getElem?_eq_some_iff.mp hcommand
  exact ⟨Nat.le_succ_of_le hheld, Nat.le_add_right_of_le hlt⟩

/-- Wherever a frame is moved on, it gets one further at most. -/
theorem InReach.advance_succ (h : frame.InReach ahead) : frame.advance.InReach (ahead + 1) := by
  intro hproduced
  obtain ⟨hheld, hplace⟩ := h hproduced
  exact ⟨Nat.le_succ_of_le hheld, Nat.succ_le_succ hplace⟩

/-! ### Looks for a command -/

/-- A look for a command takes in the commands on the lines that it takes from the source, and no
others. -/
theorem commands_fetchStep (frame : Frame) :
    frame.fetchStep.2.commands = frame.commands ++ heldBy frame.drawn := by
  have hsame (commands : List Command) : commands = commands ++ heldBy [] :=
    (List.append_nil commands).symm
  obtain ⟨stored, body, index, iterations⟩ := frame
  cases body with
  | parsed commands =>
      have hdrawn : drawn ⟨stored, .parsed commands, index, iterations⟩ = [] := by
        simp [drawn, heard]
      rw [(fetchStep_of_parsed rfl).1, hdrawn]
      exact hsame _
  | produced source yielded pulled exhausted =>
      simp only [drawn, heard, fetchStep, commands]
      cases hfound : yielded[index]? with
      | some command => exact hsame yielded
      | none =>
          cases exhausted with
          | true => exact hsame yielded
          | false =>
              rcases hpull : source.pull with ⟨text | message | - | -, rest⟩
              · have hheld : heldBy [text] = ((Source.readLine text.toList pulled).toOption.map
                    Option.toList).getD [] := by
                  rw [heldBy, List.flatMap_singleton, Source.commandsOn?,
                    Source.readLine_congr rfl 0 pulled]
                have hline : [Told.line (.line text)].filterMap Told.line? = [text] := rfl
                simp only [hpull, hline, hheld]
                cases Source.readLine text.toList pulled with
                | ok command => rfl
                | error e => exact (List.append_nil yielded).symm
              · simp only [hpull]
                exact hsame yielded
              · simp only [hpull]
                exact hsame yielded
              · simp only [hpull]
                exact hsame yielded

/-- A look takes one line at most, which has one command at most, and only where there is none. -/
theorem length_heldBy_drawn (frame : Frame) :
    (heldBy frame.drawn).length = 0 ∨
      frame.commands.length ≤ frame.index ∧ (heldBy frame.drawn).length ≤ 1 := by
  have hone (line : String) : (heldBy [line]).length ≤ 1 := by
    rw [heldBy, List.flatMap_singleton, Source.commandsOn?]
    cases (Source.readLine line.toList 0).toOption with
    | none => exact Nat.zero_le _
    | some command => cases command <;> simp
  unfold drawn heard
  split
  · next source _ _ hnone _ =>
      refine (Nat.eq_zero_or_pos _).imp_right fun _ => ⟨List.getElem?_eq_none_iff.mp hnone, ?_⟩
      cases source.pull.1 with
      | line text => exact hone text
      | failed | ended | waiting => exact Nat.zero_le _
  · exact .inl rfl

theorem InReach.fetchStep (h : frame.InReach ahead) : frame.fetchStep.2.InReach ahead := by
  intro hproduced
  rw [fetchStep_isProduced] at hproduced
  obtain ⟨hheld, hplace⟩ := h hproduced
  rw [commands_fetchStep, fetchStep_index, List.length_append]
  rcases frame.length_heldBy_drawn with hnone | ⟨hend, hone⟩
  · omega
  · omega

/-- Where a look fails there is no command. -/
theorem fetchStep_eq_failed {error : CommandError} (h : frame.fetchStep = (.failed error, frame')) :
    frame'.commands[frame'.index]? = none := by
  obtain ⟨stored, body, index, iterations⟩ := frame
  unfold Frame.fetchStep at h
  split at h
  · cases h
  · next hnone =>
      cases body with
      | parsed commands => cases h
      | produced source yielded pulled exhausted =>
          simp only at h
          repeat' split at h
          all_goals
            cases h
            try exact hnone

/-! ### New frames -/

/-- A frame as it is built, from the commands of a source or over a source of lines. -/
inductive IsNew : Frame → Prop
  | ofCommands (stored : StoredMacro) (commands : List Command) :
  IsNew (.ofCommands stored commands)
  | ofSource (stored : StoredMacro) (source : LineSource) : IsNew (.ofSource stored source)

namespace IsNew

theorem iterations_eq (h : frame.IsNew) : frame.iterations = 0 := by
  cases h <;> rfl

theorem inReach (h : frame.IsNew) : frame.InReach 0 := by
  cases h with
  | ofCommands => exact inReach_ofCommands _ _
  | ofSource => exact inReach_ofSource _ _

/-- What is fed to a frame before it runs does not make it older. -/
theorem of_unfed (h : frame.IsNew) (hunfed : frame'.unfed = frame.unfed) : frame'.IsNew := by
  obtain ⟨source, rfl⟩ := eq_mapSource_of_unfed hunfed
  cases h with
  | ofCommands stored commands => exact .ofCommands stored commands
  | ofSource stored => exact .ofSource stored source

end IsNew

/-- The frame for a stored macro is built for it. -/
theorem ofStored_isNew (config : CraftLoopConfig) (stored : StoredMacro) (loops : Option Int) :
    (ofStored config stored loops).Ends fun result =>
      ∀ frame, result = .ok frame → frame.IsNew := by
  unfold ofStored
  split
  · rw [Program.ends_pure, ofNative]
    split
    · exact nofun
    · split
      · exact nofun
      · rintro frame ⟨⟩
        exact .ofCommands _ _
  · intro (source : Option LineSource)
    cases source with
    | none => exact nofun
    | some source =>
        rintro frame ⟨⟩
        exact .ofSource _ _

end Frame

/-! ### Frames that commands put on the stack -/

/-- The frame that a result puts on the stack, if there is one, is new. -/
def Outcome.StartsAfresh (result : Except CommandError Outcome) : Prop :=
  ∀ frame, result = .ok (.push frame) → frame.IsNew

namespace Execute

open CraftLang.Action Outcome

def StartsAfresh (program : Action (Except CommandError Outcome)) : Prop :=
  program.Ends Outcome.StartsAfresh

theorem proceedIf_startsAfresh (success : Bool) (error : CommandError) :
    Outcome.StartsAfresh (proceedIf success error) := by
  cases success <;> exact nofun

theorem pauseUnless_startsAfresh (isMet : Bool) (reason : PauseReason) :
    Outcome.StartsAfresh (pauseUnless isMet reason) := by
  cases isMet <;> exact nofun

theorem attempt_startsAfresh (call : HostCall) (success : call.Reply → Bool)
    (error : CommandError) :
    StartsAfresh (attempt call success error) :=
  fun reply => proceedIf_startsAfresh (success reply) error

theorem await_startsAfresh (maxMs pollMs : Nat) (target : WaitTarget) (probe : Action Bool) :
    StartsAfresh (await maxMs pollMs target probe) :=
  .bind (Program.ends_of_forall fun _ => proceedIf_startsAfresh _ _)

theorem require_startsAfresh (maxMs pollMs : Nat) (reason : PauseReason) (probe : Action Bool) :
    StartsAfresh (require maxMs pollMs reason probe) :=
  .bind (Program.ends_of_forall fun _ => pauseUnless_startsAfresh _ _)

theorem recipe_startsAfresh (name : String) : StartsAfresh (recipe name) := by
  intro (found : Option Nat)
  cases found with
  | none => exact nofun
  | some id => exact fun success => proceedIf_startsAfresh success _

theorem confirm_startsAfresh (settings : Settings) (modifiers : Modifiers) (name : String)
    (before : Option Nat) : StartsAfresh (confirm settings modifiers name before) := by
  refine Program.Ends.bind (Program.ends_of_forall fun registered => ?_)
  cases registered with
  | true => exact nofun
  | false =>
      show StartsAfresh (if settings.stopOnActionTimeout = true then _ else _)
      split
      · exact nofun
      · exact fun _ => nofun

theorem action_startsAfresh (settings : Settings) (modifiers : Modifiers) (name : String) :
    StartsAfresh (action settings modifiers name) := by
  refine Program.Ends.bind (Program.ends_of_forall fun met => ?_)
  cases met with
  | false => exact nofun
  | true =>
      intro state _
      show StartsAfresh (if _ then _ else _)
      split
      · exact nofun
      · intro (known : Bool)
        cases known with
        | true => exact confirm_startsAfresh _ _ _ _
        | false => exact nofun

theorem runMacro_startsAfresh (settings : Settings) (name : String) :
    StartsAfresh (runMacro settings name) := by
  refine Program.Ends.bind (Program.ends_of_forall fun found => ?_)
  cases found with
  | error e => exact nofun
  | ok stored =>
      refine Program.Ends.bind ((Frame.ofStored_isNew settings.craftLoop stored none).mono ?_)
      intro result hresult
      cases result with
      | error e => exact nofun
      | ok frame =>
          rintro frame ⟨⟩
          exact hresult frame rfl

theorem keeping_startsAfresh {program : Action (Except CommandError Outcome)}
    (h : StartsAfresh program) (kind : CommandKind) :
    (keeping kind program).Ends fun executed => Outcome.StartsAfresh executed.result :=
  .bind (h.mono fun _ => id)

theorem loop_startsAfresh (modifiers : Modifiers) (counter : LoopCounter) :
    (loop modifiers counter).Ends fun executed => Outcome.StartsAfresh executed.result := by
  unfold loop
  obtain ⟨turn, next⟩ := counter.next
  cases turn with
  | restart remaining =>
      cases remaining with
      | none => exact nofun
      | some n => exact .bind (Program.ends_of_forall fun _ => nofun)
  | exhausted => exact .bind (Program.ends_of_forall fun _ => nofun)

theorem gate_startsAfresh (modifiers : Modifiers) (counter : GateCounter) :
    (gate modifiers counter).Ends fun executed => Outcome.StartsAfresh executed.result := by
  unfold gate
  obtain ⟨pass, next⟩ := counter.next
  cases pass with
  | opened remaining => exact .bind (Program.ends_of_forall fun _ => nofun)
  | complete => exact nofun

end Execute

open Execute in
/-- A frame that a command puts on the stack is new. -/
theorem Command.execute_startsAfresh (settings : Settings) (command : Command) :
    (command.execute settings).Ends fun executed => Outcome.StartsAfresh executed.result := by
  unfold execute
  cases command.kind with
  | native line =>
      refine keeping_startsAfresh ?_ _
      exact fun _ => nofun
  | action name => exact keeping_startsAfresh (action_startsAfresh _ _ _) _
  | click name | target name | send name | item name =>
      exact keeping_startsAfresh (attempt_startsAfresh _ _ _) _
  | wait =>
      refine keeping_startsAfresh ?_ _
      exact nofun
  | waitAddon addon | require status => exact keeping_startsAfresh (await_startsAfresh _ _ _ _) _
  | requireQuality quality | requireStats craftsmanship control cp =>
      exact keeping_startsAfresh (require_startsAfresh _ _ _ _) _
  | requireRepair | requireSpiritbond =>
      refine keeping_startsAfresh ?_ _
      exact fun _ => pauseUnless_startsAfresh _ _
  | runMacro name => exact keeping_startsAfresh (runMacro_startsAfresh _ _) _
  | recipe name => exact keeping_startsAfresh (recipe_startsAfresh _) _
  | loop counter => exact loop_startsAfresh _ _
  | gate counter => exact gate_startsAfresh _ _

end CraftLang
