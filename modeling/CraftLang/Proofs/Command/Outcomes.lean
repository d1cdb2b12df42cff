import CraftLang.Command.Execute
import CraftLang.Proofs.Program.Paths

/-!
What commands ask for and what they come to. A command asks the host for nothing random, and prints
in few cases. It fails with an error or with a pause; then it has printed nothing, and its
instruction has stayed as it was: only loops and gates have counters, and these never fail.
-/

namespace CraftLang

def HostCall.isPrint : HostCall → Bool
  | .printInfo _ | .printEcho _ | .printError _ => true
  | _ => false

theorem HostCall.notice_isPrint (text : String) (severity : Severity) :
    (HostCall.notice text severity).isPrint = true := by
  cases severity <;> rfl

def Effect.isPrint : Effect → Bool
  | .host call => call.isPrint
  | _ => false

def HostCall.isDraw : HostCall → Bool
  | .draw _ => true
  | _ => false

def Effect.isDraw : Effect → Bool
  | .host call => call.isDraw
  | _ => false

def Outcome.isSuccess : Except CommandError Outcome → Bool
  | .error _ | .ok (.pause _) => false
  | _ => true

def Executed.isSuccess (executed : Executed) : Bool := Outcome.isSuccess executed.result

def Action.IsSilent {α : Type} (action : Action α) : Prop :=
  action.Asks fun effect => effect.isPrint = false

/-! ### What the parts of commands ask for -/

section Asks

open Program

variable {Q : Effect → Prop} {probe : Action Bool}

/-- A poll asks for what its probe asks for, and sleeps. -/
theorem Action.pollFrom_asks (hprobe : probe.Asks Q) (hsleep : ∀ ms, Q (.sleep ms))
    (maxMs intervalMs tries waitedMs : Nat) :
    (pollFrom probe maxMs intervalMs tries waitedMs).Asks Q := by
  induction tries generalizing waitedMs with
  | zero => trivial
  | succ tries ih =>
      refine hprobe.bind fun holds => ?_
      split
      · exact asks_pure _
      · split
        · exact asks_pure _
        · exact Asks.bind (.ask (hsleep _)) fun _ => ih _

theorem Action.pollUntil_asks (hprobe : probe.Asks Q) (hsleep : ∀ ms, Q (.sleep ms))
    (maxMs intervalMs : Nat) : (pollUntil maxMs intervalMs probe).Asks Q :=
  pollFrom_asks hprobe hsleep _ _ _ _

theorem Frame.ofStored_asks {stored : StoredMacro} (h : Q (.host (.startScript stored)))
    (config : CraftLoopConfig) (loops : Option Int) : (ofStored config stored loops).Asks Q := by
  unfold ofStored
  split
  · exact asks_pure _
  · refine Asks.bind (.ask h) fun source => ?_
    split
    all_goals exact asks_pure _

namespace Execute

theorem resolveMacro_asks {name : String} (h : Q (.host (.findMacro name))) :
    (resolveMacro name).Asks Q := by
  refine Asks.bind (.ask h) fun found => ?_
  split
  all_goals exact asks_pure _

theorem runMacro_asks {name : String} (hfind : Q (.host (.findMacro name)))
    (hscript : ∀ stored, Q (.host (.startScript stored))) (settings : Settings) :
    (runMacro settings name).Asks Q := by
  refine (resolveMacro_asks hfind).bind fun found => ?_
  split
  · exact asks_pure _
  · refine (Frame.ofStored_asks (hscript _) _ _).bind fun frame => ?_
    split
    all_goals exact asks_pure _

theorem recipe_asks {name : String} (hfind : Q (.host (.findRecipe name)))
    (hopen : ∀ id, Q (.host (.openRecipe id))) : (recipe name).Asks Q := by
  refine Asks.bind (.ask hfind) fun found => ?_
  split
  · exact asks_pure _
  · exact Asks.bind (.ask (hopen _)) fun _ => asks_pure _

theorem attempt_asks {call : HostCall} (h : Q (.host call)) (success : call.Reply → Bool)
    (error : CommandError) : (attempt call success error).Asks Q :=
  Asks.bind (.ask h) fun _ => asks_pure _

theorem await_asks (h : probe.Asks Q) (hsleep : ∀ ms, Q (.sleep ms)) (maxMs pollMs : Nat)
    (target : WaitTarget) : (await maxMs pollMs target probe).Asks Q :=
  (Action.pollUntil_asks h hsleep _ _).bind fun _ => asks_pure _

theorem require_asks (h : probe.Asks Q) (hsleep : ∀ ms, Q (.sleep ms)) (maxMs pollMs : Nat)
    (reason : PauseReason) : (require maxMs pollMs reason probe).Asks Q :=
  (Action.pollUntil_asks h hsleep _ _).bind fun _ => asks_pure _

theorem conditionMet_asks (h : Q (.host .craftState)) (condition : Option ConditionGate) :
    (conditionMet condition).Asks Q := by
  unfold conditionMet
  split
  · exact asks_pure _
  · exact Asks.bind (.ask h) fun _ => asks_pure _

/-- A warning is printed only if an action that nobody confirms is no error. -/
theorem confirm_asks {settings : Settings} (hstate : Q (.host .craftState))
    (hsleep : ∀ ms, Q (.sleep ms))
    (hnotice : settings.stopOnActionTimeout = false → ∀ text, Q (.host (.printInfo text)))
    (modifiers : Modifiers) (name : String) (before : Option Nat) :
    (confirm settings modifiers name before).Asks Q := by
  refine (Action.pollUntil_asks ?_ hsleep _ _).bind fun registered => ?_
  · exact Asks.bind (.ask hstate) fun _ => asks_pure _
  · split
    · exact asks_pure _
    · split
      · exact asks_pure _
      · next hstop =>
          exact Asks.bind (.ask (hnotice (Bool.eq_false_iff.mpr hstop) _)) fun _ => asks_pure _

theorem action_asks {settings : Settings} (hstate : Q (.host .craftState))
    (hsend : ∀ text, Q (.host (.send text))) (hknows : ∀ name, Q (.knowsAction name))
    (hsleep : ∀ ms, Q (.sleep ms))
    (hnotice : settings.stopOnActionTimeout = false → ∀ text, Q (.host (.printInfo text)))
    (modifiers : Modifiers) (name : String) : (action settings modifiers name).Asks Q := by
  refine (conditionMet_asks hstate _).bind fun met => ?_
  split
  · refine Asks.bind (.ask hstate) fun state => Asks.bind (.ask (hsend _)) fun _ => ?_
    split
    · exact asks_pure _
    · refine Asks.bind (.ask (hknows name)) fun known => ?_
      split
      · exact confirm_asks hstate hsleep hnotice _ _ _
      · exact asks_pure _
  · exact asks_pure _

theorem echoIf_asks (h : ∀ text, Q (.host (.printEcho text))) (wanted : Bool) (text : String) :
    (echoIf wanted text).Asks Q := by
  cases wanted with
  | true => exact .ask (h text)
  | false => exact asks_pure _

/-- A loop asks for nothing but an echo. -/
theorem loop_asks (h : ∀ text, Q (.host (.printEcho text))) (modifiers : Modifiers)
    (counter : LoopCounter) : (loop modifiers counter).Asks Q := by
  unfold loop
  obtain ⟨turn, next⟩ := counter.next
  cases turn with
  | restart remaining =>
      cases remaining with
      | none => exact asks_pure _
      | some left => exact (echoIf_asks h _ _).bind fun _ => asks_pure _
  | exhausted => exact (echoIf_asks h _ _).bind fun _ => asks_pure _

theorem gate_asks (h : ∀ text, Q (.host (.printEcho text))) (modifiers : Modifiers)
    (counter : GateCounter) : (gate modifiers counter).Asks Q := by
  unfold gate
  obtain ⟨pass, next⟩ := counter.next
  cases pass with
  | opened remaining => exact (echoIf_asks h _ _).bind fun _ => asks_pure _
  | complete => exact asks_pure _

/-- An instruction without counter asks for what its program asks for. -/
theorem keeping_asks {program : Action (Except CommandError Outcome)} (h : program.Asks Q)
    (kind : CommandKind) : (keeping kind program).Asks Q :=
  h.bind fun _ => asks_pure _

end Execute

/-- Whether a command can print something that is no report. An action does if it is no error that
nobody confirms it. -/
def Command.mayPrint (settings : Settings) (command : Command) : Bool :=
  match command.kind with
  | .loop _ | .gate _ => true
  | .action _ => !settings.stopOnActionTimeout
  | _ => false

open Execute in
/-- A command asks the host for nothing that is random, and prints echoes and warnings at most. -/
theorem Command.execute_asks (settings : Settings) (command : Command)
    (hsleep : ∀ ms, Q (.sleep ms)) (hknows : ∀ name, Q (.knowsAction name))
    (hcall : ∀ call : HostCall, call.isPrint = false → call.isDraw = false → Q (.host call))
    (hprint : command.mayPrint settings = true →
      ∀ text, Q (.host (.printEcho text)) ∧ Q (.host (.printInfo text))) :
    (command.execute settings).Asks Q := by
  unfold Command.mayPrint at hprint
  unfold execute
  cases hkind : command.kind with
  | native line => exact keeping_asks (Asks.bind (.ask (hcall _ rfl rfl)) fun _ => asks_pure _) _
  | action name =>
      rw [hkind] at hprint
      exact keeping_asks (action_asks (hcall _ rfl rfl) (fun _ => hcall _ rfl rfl) hknows hsleep
        (fun hstop text => (hprint (by rw [hstop]; rfl) text).2) _ _) _
  | click name | target name | send name | item name =>
      exact keeping_asks (attempt_asks (hcall _ rfl rfl) _ _) _
  | wait => exact keeping_asks (asks_pure _) _
  | waitAddon addon | require status =>
      exact keeping_asks (await_asks (.ask (hcall _ rfl rfl)) hsleep _ _ _) _
  | requireQuality quality | requireStats craftsmanship control cp =>
      exact keeping_asks (require_asks
        (Asks.bind (.ask (hcall _ rfl rfl)) fun _ => asks_pure _) hsleep _ _ _) _
  | requireRepair | requireSpiritbond =>
      exact keeping_asks (Asks.bind (.ask (hcall _ rfl rfl)) fun _ => asks_pure _) _
  | loop counter =>
      rw [hkind] at hprint
      exact loop_asks (fun text => (hprint rfl text).1) _ _
  | gate counter =>
      rw [hkind] at hprint
      exact gate_asks (fun text => (hprint rfl text).1) _ _
  | runMacro name =>
      exact keeping_asks (runMacro_asks (hcall _ rfl rfl) (fun _ => hcall _ rfl rfl) _) _
  | recipe name =>
      exact keeping_asks (recipe_asks (hcall _ rfl rfl) fun _ => hcall _ rfl rfl) _

end Asks

/-! ### Results of the parts -/

namespace Execute

open CraftLang.Action

/-- An action of which every result lets the macro go on. -/
def Succeeds (program : Action (Except CommandError Outcome)) : Prop :=
  program.Ends fun result => Outcome.isSuccess result = true

/-- If an action that nobody confirms is no error, a warning is printed, and the macro goes on. -/
theorem confirm_succeeds {settings : Settings} (hstop : settings.stopOnActionTimeout = false)
    (modifiers : Modifiers) (name : String) (before : Option Nat) :
    Succeeds (confirm settings modifiers name before) := by
  refine Program.Ends.bind (Program.ends_of_forall fun registered => ?_)
  rw [hstop]
  cases registered with
  | true => exact rfl
  | false => exact fun _ => rfl

theorem action_succeeds {settings : Settings} (hstop : settings.stopOnActionTimeout = false)
    (modifiers : Modifiers) (name : String) : Succeeds (action settings modifiers name) := by
  refine Program.Ends.bind (Program.ends_of_forall fun met => ?_)
  split
  · intro state _
    show Succeeds (if _ then _ else _)
    split
    · exact rfl
    · intro (known : Bool)
      show Succeeds (if known = true then _ else _)
      split
      · exact confirm_succeeds hstop _ _ _
      · exact rfl
  · exact rfl

/-! ### All commands -/

/-- An instruction without counter comes to what its program comes to. -/
theorem keeping_ends {program : Action (Except CommandError Outcome)} (h : Succeeds program)
    (kind : CommandKind) :
    (keeping kind program).Ends fun executed => executed.isSuccess = true :=
  .bind (h.mono fun _ => id)

theorem keeping_kind (kind : CommandKind) (program : Action (Except CommandError Outcome)) :
    (keeping kind program).Ends fun executed => executed.kind = kind :=
  .bind (Program.ends_of_forall fun _ => rfl)

theorem loop_ends (modifiers : Modifiers) (counter : LoopCounter) :
    (loop modifiers counter).Ends fun executed => executed.isSuccess = true := by
  unfold loop
  obtain ⟨turn, next⟩ := counter.next
  cases turn with
  | restart remaining =>
      cases remaining with
      | none => exact rfl
      | some n => exact .bind (Program.ends_of_forall fun _ => rfl)
  | exhausted => exact .bind (Program.ends_of_forall fun _ => rfl)

theorem gate_ends (modifiers : Modifiers) (counter : GateCounter) :
    (gate modifiers counter).Ends fun executed => executed.isSuccess = true := by
  unfold gate
  obtain ⟨pass, next⟩ := counter.next
  cases pass with
  | opened remaining => exact .bind (Program.ends_of_forall fun _ => rfl)
  | complete => exact rfl

end Execute

namespace Command

open CraftLang.Action Execute

/-- A command that can fail prints nothing itself. -/
theorem execute_isSilent_or_ends (settings : Settings) (command : Command) :
    (command.execute settings).IsSilent ∨
      (command.execute settings).Ends fun executed => executed.isSuccess = true := by
  cases hprint : command.mayPrint settings with
  | false =>
      exact .inl (command.execute_asks settings (fun _ => rfl) (fun _ => rfl) (fun _ h _ => h)
        fun h => absurd (hprint.symm.trans h) nofun)
  | true =>
      unfold mayPrint at hprint
      unfold execute
      split at hprint
      · next counter hkind =>
          rw [hkind]
          exact .inr (loop_ends _ _)
      · next counter hkind =>
          rw [hkind]
          exact .inr (gate_ends _ _)
      · next name hkind =>
          rw [hkind]
          exact .inr (keeping_ends (action_succeeds (by simpa using hprint) _ _) _)
      · cases hprint

/-- A command does not draw its delay itself. -/
theorem execute_draws_nothing (settings : Settings) (command : Command) :
    (command.execute settings).Asks fun effect => effect.isDraw = false :=
  command.execute_asks settings (fun _ => rfl) (fun _ => rfl) (fun _ _ h => h)
    fun _ _ => ⟨rfl, rfl⟩

/-- A command that fails is as it was. -/
theorem execute_kind (settings : Settings) (command : Command) :
    (command.execute settings).Ends fun executed =>
      executed.isSuccess = false → executed.kind = command.kind := by
  unfold execute
  cases hkind : command.kind with
  | loop counter =>
      exact (loop_ends _ _).mono fun _ h hfailed => absurd (h.symm.trans hfailed) nofun
  | gate counter =>
      exact (gate_ends _ _).mono fun _ h hfailed => absurd (h.symm.trans hfailed) nofun
  | native | action | click | wait | waitAddon | require | requireQuality | requireStats
  | requireRepair | requireSpiritbond | target | send | runMacro | item | recipe =>
      exact (keeping_kind _ _).mono fun _ h _ => h

end Command

end CraftLang
