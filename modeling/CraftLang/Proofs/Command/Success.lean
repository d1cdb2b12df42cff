import CraftLang.Proofs.Command.Outcomes

/-!
What a command comes to if it succeeds. A loop and a gate go by their counters, whatever the host
replies; any other command stays as it is, and the macro goes on after it.
-/

namespace CraftLang

def Command.isPlain (command : Command) : Bool :=
  match command.kind with
  | .loop _ | .gate _ => false
  | _ => true

def LoopCounter.Turn.restarts : LoopCounter.Turn → Bool
  | .restart _ => true
  | .exhausted => false

def GateCounter.Pass.outcome : GateCounter.Pass → Outcome
  | .opened _ => .proceed
  | .complete => .gateComplete

def Outcome.isPlain : Except CommandError Outcome → Bool
  | .ok (.loop _) | .ok .gateComplete => false
  | _ => true

/-- What a command can come to. -/
def Command.Yields (command : Command) (executed : Executed) : Prop :=
  match command.kind with
  | .loop counter => executed = ⟨.loop counter.next.2, .ok (.loop counter.next.1.restarts)⟩
  | .gate counter => executed = ⟨.gate counter.next.2, .ok counter.next.1.outcome⟩
  | kind => executed.kind = kind ∧ Outcome.isPlain executed.result = true

namespace Execute

open CraftLang.Action

def IsPlain (program : Action (Except CommandError Outcome)) : Prop :=
  program.Ends fun result => Outcome.isPlain result = true

theorem isPlain_proceedIf (success : Bool) (error : CommandError) :
    Outcome.isPlain (proceedIf success error) = true := by
  cases success <;> rfl

theorem isPlain_pauseUnless (isMet : Bool) (reason : PauseReason) :
    Outcome.isPlain (pauseUnless isMet reason) = true := by
  cases isMet <;> rfl

theorem attempt_isPlain (call : HostCall) (success : call.Reply → Bool) (error : CommandError) :
    IsPlain (attempt call success error) :=
  fun reply => isPlain_proceedIf (success reply) error

theorem await_isPlain (maxMs pollMs : Nat) (target : WaitTarget) (probe : Action Bool) :
    IsPlain (await maxMs pollMs target probe) :=
  .bind (Program.ends_of_forall fun _ => isPlain_proceedIf _ _)

theorem require_isPlain (maxMs pollMs : Nat) (reason : PauseReason) (probe : Action Bool) :
    IsPlain (require maxMs pollMs reason probe) :=
  .bind (Program.ends_of_forall fun _ => isPlain_pauseUnless _ _)

theorem recipe_isPlain (name : String) : IsPlain (recipe name) := by
  intro (found : Option Nat)
  cases found with
  | none => exact rfl
  | some id => exact fun success => isPlain_proceedIf success _

theorem runMacro_isPlain (settings : Settings) (name : String) :
    IsPlain (runMacro settings name) := by
  refine Program.Ends.bind (Program.ends_of_forall fun found => ?_)
  cases found with
  | error e => exact rfl
  | ok stored =>
      refine Program.Ends.bind (Program.ends_of_forall fun frame => ?_)
      cases frame <;> exact rfl

theorem confirm_isPlain (settings : Settings) (modifiers : Modifiers) (name : String)
    (before : Option Nat) : IsPlain (confirm settings modifiers name before) := by
  refine Program.Ends.bind (Program.ends_of_forall fun registered => ?_)
  cases registered with
  | true => exact rfl
  | false =>
      show IsPlain (if settings.stopOnActionTimeout = true then _ else _)
      split
      · exact rfl
      · exact fun _ => rfl

theorem action_isPlain (settings : Settings) (modifiers : Modifiers) (name : String) :
    IsPlain (action settings modifiers name) := by
  refine Program.Ends.bind (Program.ends_of_forall fun met => ?_)
  cases met with
  | false => exact rfl
  | true =>
      intro state _
      show IsPlain (if _ then _ else _)
      split
      · exact rfl
      · intro (known : Bool)
        cases known with
        | true => exact confirm_isPlain _ _ _ _
        | false => exact rfl

theorem keeping_yields {command : Command} {kind : CommandKind}
    {program : Action (Except CommandError Outcome)} (hkind : command.kind = kind)
    (hplain : command.isPlain = true) (h : IsPlain program) :
    (keeping kind program).Ends command.Yields := by
  refine Program.Ends.bind (h.mono fun result hresult => ?_)
  unfold Command.isPlain at hplain
  rw [hkind] at hplain
  simp only [Program.ends_pure, Command.Yields, hkind]
  split
  · cases hplain
  · cases hplain
  · exact ⟨rfl, hresult⟩

end Execute

namespace Command

open Execute

/-- A command comes to what its counter says, or leaves the macro to go on. -/
theorem execute_yields (settings : Settings) (command : Command) :
    (command.execute settings).Ends command.Yields := by
  have hkeeping {kind : CommandKind} {program : Action (Except CommandError Outcome)}
      (hkind : command.kind = kind) (hplain : command.isPlain = true) (h : IsPlain program) :=
    keeping_yields hkind hplain h
  unfold execute
  cases hkind : command.kind with
  | native line => exact hkeeping hkind (by rw [isPlain, hkind]) fun _ => rfl
  | action name => exact hkeeping hkind (by rw [isPlain, hkind]) (action_isPlain _ _ _)
  | click name | target name | send name | item name =>
      exact hkeeping hkind (by rw [isPlain, hkind]) (attempt_isPlain _ _ _)
  | wait => exact hkeeping hkind (by rw [isPlain, hkind]) rfl
  | waitAddon addon | require status =>
      exact hkeeping hkind (by rw [isPlain, hkind]) (await_isPlain _ _ _ _)
  | requireQuality quality | requireStats craftsmanship control cp =>
      exact hkeeping hkind (by rw [isPlain, hkind]) (require_isPlain _ _ _ _)
  | requireRepair | requireSpiritbond =>
      exact hkeeping hkind (by rw [isPlain, hkind]) fun _ => isPlain_pauseUnless _ _
  | runMacro name => exact hkeeping hkind (by rw [isPlain, hkind]) (runMacro_isPlain _ _)
  | recipe name => exact hkeeping hkind (by rw [isPlain, hkind]) (recipe_isPlain _)
  | loop counter =>
      have hyields : command.Yields ⟨.loop counter.next.2,
        .ok (.loop counter.next.1.restarts)⟩ := by
        simp only [Yields, hkind]
      simp only [loop]
      cases hturn : counter.next.1 with
      | restart remaining =>
          rw [hturn] at hyields
          cases remaining with
          | none => exact hyields
          | some n => exact .bind (Program.ends_of_forall fun _ => hyields)
      | exhausted =>
          rw [hturn] at hyields
          exact .bind (Program.ends_of_forall fun _ => hyields)
  | gate counter =>
      have hyields : command.Yields ⟨.gate counter.next.2, .ok counter.next.1.outcome⟩ := by
        simp only [Yields, hkind]
      simp only [gate]
      cases hpass : counter.next.1 with
      | opened remaining =>
          rw [hpass] at hyields
          exact .bind (Program.ends_of_forall fun _ => hyields)
      | complete =>
          rw [hpass] at hyields
          exact hyields

end Command

end CraftLang
