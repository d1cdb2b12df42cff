import CraftLang.Host.DryRun
import CraftLang.Proofs.Command.Outcomes
import CraftLang.Proofs.Command.Polling

/-!
The craft of a dry run. Whatever is asked of the host, a craft in progress is neither finished nor
worn out, and each of its steps has cost the same durability. An action that is sent during a craft
ends it or takes it to the next step, and does so before the next look, so that no command that uses
an action ever has to wait for it.
-/

namespace CraftLang

variable {σ α β : Type}

def Effect.isSleep : Effect → Bool
  | .sleep _ => true
  | _ => false

/-! ### Actions that are done at once -/

namespace Action

structure IsDoneAtOnce (host : Host σ) (action : Action α) (timeline : Timeline σ) (value : α)
    (after : Timeline σ) : Prop where
  run_eq : timeline.run host action = (.ok value, after)
  quiet : ∀ effect ∈ timeline.performed host action,
    effect.isSleep = false ∧ effect.isPrint = false

namespace IsDoneAtOnce

variable {host : Host σ} {timeline after last : Timeline σ}

theorem done (host : Host σ) (timeline : Timeline σ) (value : α) :
    IsDoneAtOnce host (pure value) timeline value timeline :=
  ⟨rfl, fun _ h => nomatch h⟩

theorem ask {effect : Effect} {reply : effect.Reply}
    (hperform : timeline.perform host effect = (.ok reply, after))
    (hsleep : effect.isSleep = false) (hprint : effect.isPrint = false) :
    IsDoneAtOnce host (Program.ask effect) timeline reply after where
  run_eq := by rw [Program.ask, Timeline.run, hperform]; rfl
  quiet := by
    rw [Program.ask, Timeline.performed, hperform]
    rintro _ (_ | ⟨_, ⟨⟩⟩)
    exact ⟨hsleep, hprint⟩

theorem bind {action : Action α} {next : α → Action β} {value : α} {result : β}
    (h : IsDoneAtOnce host action timeline value after)
    (hnext : IsDoneAtOnce host (next value) after result last) :
    IsDoneAtOnce host (action >>= next) timeline result last where
  run_eq := by rw [Timeline.run_bind, h.run_eq]; exact hnext.run_eq
  quiet effect heffect := by
    rw [Timeline.performed_bind, h.run_eq] at heffect
    exact (List.mem_append.mp heffect).elim (h.quiet effect) (hnext.quiet effect)

/-- A poll whose first try holds is done with it, whatever its limits are. -/
theorem pollUntil {probe : Action Bool} (h : IsDoneAtOnce host probe timeline true after)
    (maxMs intervalMs : Nat) :
    IsDoneAtOnce host (Action.pollUntil maxMs intervalMs probe) timeline true after := by
  obtain ⟨tries, htries⟩ : ∃ tries, UInt64.size = tries + 1 := ⟨_, rfl⟩
  rw [Action.pollUntil, htries, pollFrom]
  exact h.bind (done host after true)

theorem keeping {program : Action (Except CommandError Outcome)}
    {result : Except CommandError Outcome} (h : IsDoneAtOnce host program timeline result after)
    (kind : CommandKind) :
    IsDoneAtOnce host (Execute.keeping kind program) timeline ⟨kind, result⟩ after :=
  h.bind (done _ _ _)

end IsDoneAtOnce

end Action

namespace DryRun

open CraftLang.Action

/-! ### The craft -/

/-- A craft that goes on: each of its steps so far has cost ten of eighty. -/
structure InProgress (craft : CraftState) : Prop where
  progress_lt : craft.progress < craft.maxProgress
  quality_le : craft.quality ≤ craft.maxQuality
  durability_pos : 0 < craft.durability
  step_pos : 0 < craft.step
  worn : craft.durability + 10 * (craft.step - 1) = 80

def Sound (run : DryRun) : Prop := ∀ craft, run.craft = some craft → InProgress craft

/-- The states that a dry run can come to: by calls to its host, and as its surroundings are
arranged from outside. -/
inductive Reachable : DryRun → Prop
  | fresh : Reachable {}
  | answer {run : DryRun} (now : Nat) (call : HostCall) :
      Reachable run → Reachable (host.answer now call run).2
  | arrange {run : DryRun} (ready : Bool) (stats : CharacterStats) (statuses : List String)
      (needsRepair spiritbondReady : Bool) :
      Reachable run →
        Reachable { run with ready, stats, statuses, needsRepair, spiritbondReady }

theorem inProgress_freshCraft : InProgress freshCraft := by
  constructor <;> decide

@[simp] theorem step_actOn (name : String) (craft : CraftState) :
    (actOn name craft).step = craft.step + 1 := by
  unfold actOn
  split
  · rfl
  · split <;> rfl

@[simp] theorem durability_actOn (name : String) (craft : CraftState) :
    (actOn name craft).durability = craft.durability - 10 := by
  unfold actOn
  split
  · rfl
  · split <;> rfl

theorem quality_actOn_le {craft : CraftState} (h : craft.quality ≤ craft.maxQuality)
    (name : String) : (actOn name craft).quality ≤ (actOn name craft).maxQuality := by
  unfold actOn
  split
  · exact h
  · split
    · exact Nat.min_le_right _ _
    · exact h

/-- A craft that an action does not end goes on. -/
theorem InProgress.actOn {craft : CraftState} (h : InProgress craft) {name : String}
    (hover : isOver (DryRun.actOn name craft) = false) : InProgress (DryRun.actOn name craft) := by
  simp only [isOver, Bool.or_eq_false_iff, decide_eq_false_iff_not, Nat.not_le, beq_eq_false_iff_ne,
    durability_actOn] at hover
  obtain ⟨hprogress, hdurability⟩ := hover
  have hworn := h.worn
  have hstep := h.step_pos
  refine ⟨hprogress, quality_actOn_le h.quality_le name, ?_, ?_, ?_⟩
  · rw [durability_actOn]
    omega
  · rw [step_actOn]
    omega
  · rw [durability_actOn, step_actOn]
    omega

theorem Sound.act {run : DryRun} (h : run.Sound) (name : String) : (run.act name).Sound := by
  unfold DryRun.act
  split
  · exact h
  · next craft hcraft =>
      intro craft' hcraft'
      cases hover : isOver (actOn name craft) with
      | true => simp [hover] at hcraft'
      | false =>
          obtain rfl : actOn name craft = craft' := by simpa [hover] using hcraft'
          exact (h craft hcraft).actOn hover

theorem Sound.record {run : DryRun} (h : run.Sound) (line : String) : (run.record line).Sound := h

theorem Sound.send {run : DryRun} (h : run.Sound) (text : String) : (run.send text).Sound := by
  unfold DryRun.send
  split
  · exact (h.record _).act _
  · exact h

theorem Sound.click {run : DryRun} (h : run.Sound) (name : String) : (run.click name).Sound := by
  unfold DryRun.click
  split
  · rintro craft ⟨⟩
    exact inProgress_freshCraft
  · exact h

/-- No call makes a craft unsound: only what is sent and what is clicked touches it. -/
theorem Sound.answer {run : DryRun} (h : run.Sound) (now : Nat) (call : HostCall) :
    (host.answer now call run).2.Sound := by
  cases call with
  | send text => exact h.send text
  | sendClick name => exact h.click name
  | _ => exact h

theorem Reachable.sound {run : DryRun} (h : Reachable run) : run.Sound := by
  induction h with
  | fresh => exact fun _ h => nomatch h
  | answer now call _ ih => exact ih.answer now call
  | arrange _ _ _ _ _ _ ih => exact ih

/-! ### Actions during a craft -/

/-- The line that carries out an action is one that takes effect. -/
theorem sentAction?_actionLine (name : String) :
    ∃ inner, sentAction? (Execute.actionLine name) = some inner := by
  have hline : (Execute.actionLine name).toList =
      '/' :: 'a' :: 'c' :: ' ' :: '\x22' :: name.toList ++ ['\x22'] := by
    simp [Execute.actionLine]
  rw [sentAction?, hline]
  exact ⟨_, rfl⟩

/-- An action ends the craft, or makes a step of it. -/
theorem step_act_ne {run : DryRun} {craft : CraftState} (h : run.craft = some craft)
    (name : String) : (run.act name).craft.map CraftState.step ≠ some craft.step := by
  rw [act, h]
  cases hover : isOver (actOn name craft) with
  | true => simp
  | false => simp

theorem step_send_ne {run : DryRun} {craft : CraftState} (h : run.craft = some craft)
    (name : String) :
    (run.send (Execute.actionLine name)).craft.map CraftState.step ≠ some craft.step := by
  obtain ⟨inner, hinner⟩ := sentAction?_actionLine name
  have hcraft : (run.record ("> " ++ Execute.actionLine name)).craft = some craft := h
  rw [send, hinner]
  exact step_act_ne hcraft inner

/-! ### Commands that use an action -/

def letsThrough (craft : Option CraftState) (condition : Option ConditionGate) : Bool :=
  condition.all (·.isMet ((craft.map CraftState.condition).getD ""))

def after (run : DryRun) (name : String) (condition : Option ConditionGate) : DryRun :=
  if letsThrough run.craft condition then run.send (Execute.actionLine name) else run

theorem Reachable.after {run : DryRun} (h : Reachable run) (name : String)
    (condition : Option ConditionGate) : Reachable (run.after name condition) := by
  unfold DryRun.after
  split
  · exact h.answer 0 (.send _)
  · exact h

section Command

variable (settings : Settings) (modifiers : Modifiers) (name : String)
  (timeline : Timeline (DryRun × Library))

/-- The calls that the host answers for itself, without the library. -/
theorem isDoneAtOnce_craftState :
    IsDoneAtOnce host.withLibrary (Action.host .craftState) timeline timeline.world.1.craft
      timeline :=
  .ask rfl rfl rfl

theorem isDoneAtOnce_send (text : String) :
    IsDoneAtOnce host.withLibrary (Action.host (.send text)) timeline ()
      { timeline with world := (timeline.world.1.send text, timeline.world.2) } :=
  .ask rfl rfl rfl

/-- A name is looked up in a catalog that may have to be loaded first. -/
theorem isDoneAtOnce_knowsAction :
    ∃ known catalog, IsDoneAtOnce host.withLibrary (Action.knowsAction name) timeline known
      { timeline with catalog } := by
  cases hloaded : timeline.catalog.isLoaded with
  | true =>
      refine ⟨timeline.catalog.contains name, timeline.catalog, .ask ?_ rfl rfl⟩
      rw [Timeline.perform, hloaded]
      rfl
  | false =>
      refine ⟨(Catalog.ofNames craftActions).contains name, Catalog.ofNames craftActions,
        .ask ?_ rfl rfl⟩
      rw [Timeline.perform, hloaded]
      rfl

theorem isDoneAtOnce_conditionMet (condition : Option ConditionGate) :
    IsDoneAtOnce host.withLibrary (Execute.conditionMet condition) timeline
      (letsThrough timeline.world.1.craft condition) timeline := by
  cases condition with
  | none => exact .done _ _ _
  | some gate => exact (isDoneAtOnce_craftState timeline).bind (.done _ _ _)

/-- The first look finds another step than the one before the action. -/
theorem isDoneAtOnce_confirm {before : Option Nat}
    (h : timeline.world.1.craft.map CraftState.step ≠ before) :
    IsDoneAtOnce host.withLibrary (Execute.confirm settings modifiers name before) timeline
      (.ok .proceed) timeline := by
  refine IsDoneAtOnce.bind (.pollUntil ((isDoneAtOnce_craftState timeline).bind ?_) _ _)
    (.done _ _ _)
  have htrue : (timeline.world.1.craft.map CraftState.step != before) = true := bne_iff_ne.mpr h
  rw [htrue]
  exact .done _ _ _

/-- What follows after an action was sent, if that has shown its effect. -/
theorem isDoneAtOnce_sent {before : Option Nat}
    (h : before.isNone = false → timeline.world.1.craft.map CraftState.step ≠ before) :
    ∃ catalog, IsDoneAtOnce host.withLibrary
      (if modifiers.unconfirmed || before.isNone then pure (.ok .proceed)
        else Action.knowsAction name >>= fun known =>
          if known then Execute.confirm settings modifiers name before else pure (.ok .proceed))
      timeline (.ok .proceed) { timeline with catalog } := by
  split
  · exact ⟨timeline.catalog, .done _ _ _⟩
  · next hconfirmed =>
      obtain ⟨-, hbefore⟩ := Bool.or_eq_false_iff.mp (Bool.eq_false_iff.mpr hconfirmed)
      obtain ⟨known, catalog, hknows⟩ := isDoneAtOnce_knowsAction name timeline
      refine ⟨catalog, hknows.bind ?_⟩
      cases known with
      | true => exact isDoneAtOnce_confirm _ _ _ _ (h hbefore)
      | false => exact .done _ _ _

/-- What an action comes to: it is sent if its condition lets it through. -/
theorem isDoneAtOnce_action :
    ∃ catalog, IsDoneAtOnce host.withLibrary (Execute.action settings modifiers name) timeline
      (.ok (if letsThrough timeline.world.1.craft modifiers.condition then .proceed else .skipped))
      { timeline with
        world := (timeline.world.1.after name modifiers.condition, timeline.world.2),
          catalog } := by
  have hmet := isDoneAtOnce_conditionMet timeline modifiers.condition
  unfold after
  cases hlets : letsThrough timeline.world.1.craft modifiers.condition with
  | false =>
      rw [hlets] at hmet
      exact ⟨timeline.catalog, hmet.bind (.done _ _ _)⟩
  | true =>
      rw [hlets] at hmet
      have hstep : (timeline.world.1.craft.map CraftState.step).isNone = false →
          (timeline.world.1.send (Execute.actionLine name)).craft.map CraftState.step ≠
            timeline.world.1.craft.map CraftState.step := by
        intro hsome
        cases hcraft : timeline.world.1.craft with
        | none => simp [hcraft] at hsome
        | some craft => exact step_send_ne hcraft name
      obtain ⟨catalog, hsent⟩ := isDoneAtOnce_sent settings modifiers name { timeline with
        world := (timeline.world.1.send (Execute.actionLine name), timeline.world.2) } hstep
      exact ⟨catalog, hmet.bind ((isDoneAtOnce_craftState timeline).bind
        ((isDoneAtOnce_send timeline _).bind hsent))⟩

end Command

/-- Whatever a dry run has come to, its craft is one that goes on, and a command that uses an action
is done at once: the action is sent or the command is skipped, as its condition says. Neither the
limits of the wait, nor what is to be done at their end, nor a cancellation makes a difference. -/
theorem actions_never_wait {run : DryRun} (hrun : Reachable run) :
    run.Sound ∧
    ∀ (settings : Settings) (command : Command) (name : String)
      (timeline : Timeline (DryRun × Library)),
      command.kind = .action name → timeline.world.1 = run →
      let condition := command.modifiers.condition
      Reachable (run.after name condition) ∧
      (∃ catalog, timeline.run host.withLibrary (command.execute settings) =
        (.ok ⟨.action name, .ok (if letsThrough run.craft condition then .proceed else .skipped)⟩,
          { timeline with world := (run.after name condition, timeline.world.2), catalog })) ∧
      ∀ effect ∈ timeline.performed host.withLibrary (command.execute settings),
        effect.isSleep = false ∧ effect.isPrint = false := by
  refine ⟨hrun.sound, ?_⟩
  rintro settings command name timeline hkind rfl
  refine ⟨hrun.after name _, ?_⟩
  obtain ⟨catalog, haction⟩ := isDoneAtOnce_action settings command.modifiers name timeline
  have hdone := haction.keeping (.action name)
  rw [Command.execute, hkind]
  exact ⟨⟨catalog, hdone.run_eq⟩, hdone.quiet⟩

/-- A touch that may not wait at all, in a run that is cancelled. -/
theorem actions_never_wait_basic_touch :
    Reachable (({} : DryRun).click "synthesize") ∧
    ∃ catalog,
      ({ world := (({} : DryRun).click "synthesize", {}), cancelAt := some 0 } :
        Timeline (DryRun × Library)).run host.withLibrary
          (Command.execute { stopOnActionTimeout := true }
            ⟨"/ac Basic Touch", { maxWaitMs := some 0 }, .action "Basic Touch"⟩) =
        (.ok ⟨.action "Basic Touch", .ok .proceed⟩,
          { world := ((({} : DryRun).click "synthesize").send "/ac \"Basic Touch\"", {})
            catalog, cancelAt := some 0 }) := by
  have hrun : Reachable (({} : DryRun).click "synthesize") :=
    .answer 0 (.sendClick "synthesize") .fresh
  refine ⟨hrun, ?_⟩
  obtain ⟨-, ⟨catalog, h⟩, -⟩ := (actions_never_wait hrun).2 { stopOnActionTimeout := true }
    ⟨"/ac Basic Touch", { maxWaitMs := some 0 }, .action "Basic Touch"⟩ "Basic Touch"
    { world := (({} : DryRun).click "synthesize", {}), cancelAt := some 0 } rfl rfl
  exact ⟨catalog, h⟩

end DryRun

end CraftLang
