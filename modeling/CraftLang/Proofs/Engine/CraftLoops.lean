import CraftLang.Proofs.Engine.Loops
import CraftLang.Proofs.Source.Expansion

/-!
Craft loops in a running engine. Whatever the scaffold, the body of a craft loop is carried out as
often as crafts are asked for, and each craft that is not open yet is opened before it.
-/

namespace CraftLang

namespace CraftLoop

/-- The commands of a craft loop other than its gate and its loop, as they are carried out for so
many crafts. Inside a synthesis the first craft is open already. -/
def craftTrace (config : CraftLoopConfig) (crafts : Nat) (body : List Command) : List Command :=
  if config.useTemplate then (List.replicate crafts (openCommands (some 5) ++ body)).flatten
  else if config.fromRecipeNote then
    (List.replicate crafts (openCommands config.maxWait ++ body)).flatten
  else body ++ (List.replicate (crafts - 1) (openCommands config.maxWait ++ body)).flatten

theorem isPlain_of_mem_openCommands {maxWait : Option Nat} :
    ∀ command ∈ openCommands maxWait, command.isPlain = true := by
  intro command hmem
  simp only [openCommands, List.mem_cons, List.not_mem_nil, or_false] at hmem
  rcases hmem with rfl | rfl | rfl <;> rfl

theorem flatten_replicate_append {α : Type} (xs ys : List α) (n : Nat) :
    (List.replicate n (xs ++ ys)).flatten ++ xs = xs ++ (List.replicate n (ys ++ xs)).flatten := by
  induction n with
  | zero => simp
  | succ n ih => simp [List.replicate_succ, ih]

/-- A gate that is set to so many crafts less one, before or after the body. -/
theorem completes_gateCommand {front back : List Command} (count : Nat) (echo echo' : Bool)
    (hfront : ∀ command ∈ front, command.isPlain = true)
    (hback : ∀ command ∈ back, command.isPlain = true) (stored : StoredMacro) :
    ∃ commands last,
      (Frame.ofCommands stored (front ++ gateCommand count echo ::
        (back ++ [loopCommand echo']))).Completes commands last ∧
      commands.filter Command.isPlain =
        (List.replicate (count + 1) (front ++ back)).flatten ++ front := by
  have hgate : (gateCommand count echo).kind = .gate ⟨count, (count + 1 : Nat) - 1⟩ := by
    simp [gateCommand, GateCounter.ofCount]
  exact Frame.completes_gate (gateCommand count echo) hfront hback hgate rfl stored 0

theorem completes_surround {config : CraftLoopConfig} {body : List Command} {n : Nat}
    (hpos : 1 ≤ n) (hplain : ∀ command ∈ body, command.isPlain = true) (stored : StoredMacro) :
    ∃ commands last,
      (Frame.ofCommands stored (surround config body (.times n))).Completes commands last ∧
      commands.filter Command.isPlain =
        if config.fromRecipeNote then
          (List.replicate n (openCommands config.maxWait ++ body)).flatten
        else body ++ (List.replicate (n - 1) (openCommands config.maxWait ++ body)).flatten := by
  have hopen : ∀ command ∈ openCommands config.maxWait ++ body, command.isPlain = true :=
    List.forall_mem_append.mpr ⟨isPlain_of_mem_openCommands, hplain⟩
  have honce {commands : List Command} (hcommands : ∀ command ∈ commands, command.isPlain = true) :
      ∃ started last, (Frame.ofCommands stored commands).Completes started last ∧
        started.filter Command.isPlain = commands := by
    obtain ⟨started, last, hcompletes, htrace, -⟩ :=
      (Frame.covers_nil.append hcommands).completes stored 0
    exact ⟨started, last, hcompletes, htrace⟩
  simp only [surround]
  split
  · split
    · next hone =>
        subst hone
        simpa using honce hopen
    · have hfront : ∀ command ∈ ([] : List Command), command.isPlain = true :=
        List.forall_mem_nil _
      have hcrafts : n - 1 + 1 = n := by omega
      obtain ⟨commands, last, hcompletes, htrace⟩ :=
        completes_gateCommand (n - 1) config.echo config.echo hfront hopen stored
      refine ⟨commands, last, by simpa using hcompletes, ?_⟩
      simpa [hcrafts] using htrace
  · split
    · next hone =>
        subst hone
        simpa using honce hplain
    · have hback : ∀ command ∈ openCommands config.maxWait, command.isPlain = true :=
        isPlain_of_mem_openCommands
      have hcrafts : n - 2 + 1 = n - 1 := by omega
      obtain ⟨commands, last, hcompletes, htrace⟩ :=
        completes_gateCommand (n - 2) config.echo config.echo hplain hback stored
      refine ⟨commands, last, by simpa using hcompletes, ?_⟩
      rw [htrace, hcrafts, flatten_replicate_append]

theorem completes_expandCommands {config : CraftLoopConfig} {body : List Command} {n : Nat}
    (hpos : 1 ≤ n) (hsmall : n ≤ Grammar.countLimit)
    (htemplate : config.useTemplate = true → config.template = ({} : CraftLoopConfig).template)
    (hplain : ∀ command ∈ body, command.isPlain = true) (stored : StoredMacro) :
    ∃ commands last,
      (Frame.ofCommands stored (expandCommands config (.times n) body)).Completes commands last ∧
      commands.filter Command.isPlain = craftTrace config n body := by
  simp only [expandCommands, craftTrace]
  split
  · next huse =>
      have hopen : ∀ command ∈ openCommands (some 5) ++ body, command.isPlain = true :=
        List.forall_mem_append.mpr ⟨isPlain_of_mem_openCommands, hplain⟩
      have hfront : ∀ command ∈ ([] : List Command), command.isPlain = true := List.forall_mem_nil _
      have hcrafts : n - 1 + 1 = n := by omega
      obtain ⟨-, hcommands⟩ := isTemplate_default (show n - 1 < Grammar.countLimit by omega)
      obtain ⟨commands, last, hcompletes, htrace⟩ :=
        completes_gateCommand (n - 1) false false hfront hopen stored
      refine ⟨commands, last, ?_, by simpa [hcrafts] using htrace⟩
      rw [htemplate huse, Repeat.templateCount, hcommands]
      simpa using hcompletes
  · exact completes_surround hpos hplain stored

end CraftLoop

/-- A craft loop carries out its body as often as crafts are asked for. -/
theorem Frame.craftLoop_runs {config : CraftLoopConfig} {stored : StoredMacro}
    {loops : Option Int} {n : Nat} {body : List Command} (hnative : stored.language = .native)
    (hcraft : stored.craftLoop = true) (hcount : loops.getD stored.craftCount = n) (hpos : 1 ≤ n)
    (hsmall : n ≤ 2147483647)
    (htemplate : config.useTemplate = true → config.template = ({} : CraftLoopConfig).template)
    (hread : readSource stored.contents = .ok body)
    (hplain : ∀ command ∈ body, command.isPlain = true) :
    ∃ frame commands last, Frame.ofStored config stored loops = pure (.ok frame) ∧
      frame.RunsThrough commands last ∧
      commands.filter Command.isPlain = CraftLoop.craftTrace config n body := by
  have hlimit : Grammar.countLimit = 4294967296 := rfl
  have hrepeats : CraftLoop.repeats n = .times n := by
    have hbounded : ¬(n : Int) = -1 := by omega
    rw [CraftLoop.repeats, if_neg hbounded, Int.toNat_natCast]
  have hfilled : config.useTemplate = true →
      CraftLoop.IsTemplate config.template.toList (CraftLoop.repeats n).templateCount := by
    intro huse
    rw [htemplate huse, hrepeats]
    exact (CraftLoop.isTemplate_default (show n - 1 < Grammar.countLimit by omega)).1
  obtain ⟨text, hexpand, -, hcommands⟩ :=
    CraftLoop.commandsOf?_expand (.inr (by omega)) (by omega) hfilled stored.contents
  rw [readSource_eq_ok_iff.mp hread, hrepeats] at hcommands
  obtain ⟨commands, last, hcompletes, htrace⟩ :=
    CraftLoop.completes_expandCommands hpos (by omega) htemplate hplain stored
  refine ⟨_, commands, last, ?_, hcompletes.runsThrough rfl, htrace⟩
  have hsource : readSource (String.ofList text) =
      .ok (CraftLoop.expandCommands config (.times n) body) := by
    rw [readSource_eq_ok_iff, String.toList_ofList]
    exact hcommands
  rw [ofStored_native hnative]
  simp only [ofNative, sourceOf, hcraft, if_true, hcount, hexpand, hsource]

def craftMacro : StoredMacro :=
  { name := "Craft", contents := "/a", craftLoop := true, craftCount := 2 }

def insideSynthesis : Settings := { craftLoop := { fromRecipeNote := false } }

def queuedCraft : Engine DryRun :=
  (Engine.spawn DryRun.host insideSynthesis {}).ran
    (.call (.enqueue craftMacro none) :: Engine.onItsOwn 2)

set_option maxRecDepth 2000 in
/-- The second craft is opened between the two bodies, and then the macro is gone. -/
theorem Frame.craftLoop_runs_inside :
    (((queuedCraft.ran [.work .proceed]).during 0 Engine.startedOn
          (Engine.onItsOwn 63)).filter Command.isPlain).map Command.text =
        ["/a", "/waitaddon \"RecipeNote\"", "/click \"synthesize\"", "/waitaddon \"Synthesis\"",
          "/a"] ∧
      ((queuedCraft.ran [.work .proceed]).during 0 Engine.endedOn (Engine.onItsOwn 63)).length =
        1 := by
  have hread : readSource craftMacro.contents =
      .ok [{ text := "/a", modifiers := {}, kind := .native "/a" }] := by rfl
  have hcount : (none : Option Int).getD craftMacro.craftCount = (2 : Nat) := rfl
  have htemplate : insideSynthesis.craftLoop.useTemplate = true →
      insideSynthesis.craftLoop.template = ({} : CraftLoopConfig).template := fun _ => rfl
  obtain ⟨frame, commands, last, hframe, hthrough, htrace⟩ :=
    craftLoop_runs rfl rfl hcount (by decide) (by decide) htemplate hread (by decide)
  have hqueued : (Engine.spawn DryRun.host insideSynthesis {}).enqueue craftMacro none = _ :=
    Engine.enqueue_eq hframe
  have hqueue : queuedCraft.queue = [.push frame] :=
    congrArg (fun result => result.2.queue) hqueued
  have hspawn : (Engine.spawn DryRun.host insideSynthesis {}).run? _ = some queuedCraft :=
    Engine.run?_eq_some_ran (by rfl)
  have happlying : queuedCraft.applying? .proceed = queuedCraft.queue.head? := by rfl
  rw [hqueue] at happlying
  have hfinishes : (queuedCraft.ran [.work .proceed]).Finishes 0 commands last :=
    hthrough.of_applying ((Engine.Reachable.spawn _ _ _ _).run hspawn) happlying hqueue (by rfl)
      (by rfl) (by rfl) (by rfl)
  have hall : (queuedCraft.ran [.work .proceed]).during 0 Engine.startedOn (Engine.onItsOwn 63) =
        commands ∧
      (queuedCraft.ran [.work .proceed]).during 0 Engine.endedOn (Engine.onItsOwn 63) = [last] :=
    hfinishes.of_gone (by rfl) (by rfl) (by rfl)
  obtain ⟨hstarted, hended⟩ := hall
  refine ⟨?_, by rw [hended]; rfl⟩
  rw [hstarted, htrace]
  rfl

end CraftLang
