import CraftLang.Proofs.Engine.Unnoticed
import CraftLang.Proofs.Engine.Untroubled

/-!
The core of an engine: what its work comes from. The clock, the pause gate and the published status
have a say in when an engine goes on, and it passes through many places between two ticks; but in
what it does next they have no part. So the work of an engine is the work of its core, with steps at
which nothing is done between the others.
-/

namespace CraftLang

inductive Deed where
  | started (command : Command)
  | called (call : HostCall)

/-- The phase without the time up to which it waits. All places between two ticks are one. -/
def Phase.core : Phase → Phase
  | .draining | .taken _ | .checkingReady | .checkingPause | .emptied | .blocked _ => .top
  | phase => phase.untimed

namespace Engine

variable {σ : Type}

def under (e : Engine σ) (pause : Gate) (published : EngineStatus) : Engine σ :=
  { e with pause, published }

/-- The engine with its clock at the start, its pause gate open and nothing published. -/
def core (e : Engine σ) : Engine σ :=
  { e.under .opened { state := .idle } with now := 0, phase := e.phase.core }

def deedsOn (e : Engine σ) : Event σ → List Deed
  | .work branch => e.starting?.toList.map .started ++ (e.callsOf branch).map .called
  | _ => []

def deeds (e : Engine σ) : List (Event σ) → List Deed
  | [] => []
  | event :: events =>
    match e.on? event with
    | none => []
    | some e' => e.deedsOn event ++ e'.deeds events

variable {e e' e₁ : Engine σ}

theorem deeds_cons {event : Event σ} (hon : e.on? event = some e₁) (events : List (Event σ)) :
    e.deeds (event :: events) = e.deedsOn event ++ e₁.deeds events := by
  simp only [deeds, hon]

theorem deeds_append {events : List (Event σ)} (hrun : e.run? events = some e₁)
    (events' : List (Event σ)) :
    e.deeds (events ++ events') = e.deeds events ++ e₁.deeds events' := by
  induction events generalizing e with
  | nil =>
      cases hrun
      rfl
  | cons event events ih =>
      obtain ⟨e₂, hon, hrest⟩ := run?_cons_eq_some.mp hrun
      rw [List.cons_append, deeds_cons hon, deeds_cons hon, ih hrest, List.append_assoc]

/-! ### Ticks do not look at the pause gate -/

theorem unnoticed_under (pause : Gate) (published : EngineStatus) :
    Unnoticed fun e : Engine σ => e.under pause published where
  phase _ := rfl
  stack _ := rfl
  cancel _ := rfl
  catalog _ := rfl
  settings _ := rfl
  now _ := rfl
  goto _ _ := rfl
  ask _ _ := rfl
  learn _ _ := rfl
  restack _ _ _ := rfl

/-- A step of a tick is the same under any gate, and only the gate after it can differ. -/
theorem proceed?_under (hphase : e.phase.inTick = true) (pause : Gate) (published : EngineStatus) :
    (e.under pause published).proceed?.map (·.under pause published) =
      e.proceed?.map (·.under pause published) := by
  have hunnoticed := unnoticed_under (σ := σ) pause published
  by_cases hpausing : ∃ delay, e.phase = .pausing delay
  · -- Here the tick closes the gate itself.
    obtain ⟨delay, hp⟩ := hpausing
    have hp' : (e.under pause published).phase = .pausing delay := hp
    simp only [proceed?, hp, hp', Option.map_some]
    cases delay with
    | none => rfl
    | some delay =>
        have hrest (gate : Gate) (status : EngineStatus) :
            ((e.under gate status).rest delay).under pause published =
              (e.rest delay).under pause published := by
          rw [(unnoticed_under gate status).rest]
          rfl
        exact congrArg some ((hrest .closed published).trans (hrest .closed e.published).symm)
  · rw [hunnoticed.tick hphase (fun _ _ _ _ => hunnoticed.applyLoop _ _ _ rfl rfl)
      (fun _ _ => hunnoticed.applyDeferredPause _ rfl rfl)
      fun delay hp => absurd ⟨delay, hp⟩ hpausing]
    cases e.proceed? <;> rfl

/-! ### Cores -/

/-- The core is what it is under any gate and at any time. -/
theorem core_under (e : Engine σ) (pause : Gate) (published : EngineStatus) :
    (e.under pause published).core = e.core := rfl

theorem core_untimed (e : Engine σ) : e.untimed.core = e.core := by
  obtain ⟨host, settings, world, catalog, now, pause, ready, cancel, pauseAtLoop, stopAtLoop,
    queue, published, stack, retired, phase⟩ := e
  cases phase <;> rfl

theorem core_core (e : Engine σ) : e.core.core = e.core := by
  obtain ⟨host, settings, world, catalog, now, pause, ready, cancel, pauseAtLoop, stopAtLoop,
    queue, published, stack, retired, phase⟩ := e
  cases phase <;> rfl

theorem core_of_untimed (h : e.untimed = e₁.untimed) : e.core = e₁.core := by
  rw [← core_untimed, h, core_untimed]

@[simp] theorem core_inTick (e : Engine σ) : e.core.phase.inTick = e.phase.inTick := by
  show e.phase.core.inTick = e.phase.inTick
  cases e.phase <;> rfl

theorem core_of_inTick (h : e.phase.inTick = true) :
    e.core = (e.under .opened { state := .idle }).untimed := by
  obtain ⟨host, settings, world, catalog, now, pause, ready, cancel, pauseAtLoop, stopAtLoop,
    queue, published, stack, retired, phase⟩ := e
  cases phase <;> first | rfl | cases h

theorem hostCalls_untimed (e : Engine σ) : e.untimed.hostCalls = e.hostCalls := by
  obtain ⟨host, settings, world, catalog, now, pause, ready, cancel, pauseAtLoop, stopAtLoop,
    queue, published, stack, retired, phase⟩ := e
  cases phase <;> rfl

theorem fails_untimed (e : Engine σ) : e.untimed.fails = e.fails := by
  obtain ⟨host, settings, world, catalog, now, pause, ready, cancel, pauseAtLoop, stopAtLoop,
    queue, published, stack, retired, phase⟩ := e
  cases phase <;> rfl

theorem isAnswered_untimed (h : e.host.IsTimeless) : e.untimed.isAnswered = e.isAnswered := by
  cases hp : e.phase with
  | drawing command =>
      simp only [isAnswered, untimed_phase, hp, Phase.untimed, ask_untimed h]
  | running program text delay =>
      cases program with
      | done executed => simp only [isAnswered, untimed_phase, hp, Phase.untimed]
      | call effect next =>
          simp only [isAnswered, untimed_phase, hp, Phase.untimed]
          cases effect with
          | host call => simp only [reply?, ask_untimed h]
          | knowsAction name => simp only [reply?, untimed_catalog, ask_untimed h]
          | sleep ms => rfl
  | printing call after => simp only [isAnswered, untimed_phase, hp, Phase.untimed, ask_untimed h]
  | top | draining | taken | checkingReady | checkingPause | emptied | blocked | closing | stopped
  | broken | fetching | suspended | looped | loopApplied | pausing | resting =>
      simp only [isAnswered, untimed_phase, hp, Phase.untimed]

/-- Between two ticks nothing is done, and nothing can go wrong. -/
theorem idle_of_not_inTick (h : e.phase.inTick = false) :
    e.deedsOn (.work .proceed) = [] ∧ e.fails = false ∧ e.isAnswered = true := by
  cases hp : e.phase <;> rw [hp] at h <;> cases h <;>
    simp [deedsOn, starting?, callsOf, hostCalls, fails, isAnswered, hp]

/-- What is the same between any two ticks, and in a tick at any time and under any gate, is decided
by the core. -/
theorem core_congr {α : Type} {f : Engine σ → α} {idle : α}
    (hidle : ∀ e : Engine σ, e.phase.inTick = false → f e = idle)
    (hsame : f (e.under .opened { state := .idle }).untimed = f e) : f e.core = f e := by
  cases htick : e.phase.inTick with
  | false => rw [hidle e htick, hidle e.core (by rw [core_inTick, htick])]
  | true => rw [core_of_inTick htick, hsame]

theorem deedsOn_core (e : Engine σ) :
    e.core.deedsOn (.work .proceed) = e.deedsOn (.work .proceed) := by
  refine core_congr (f := (deedsOn · (.work .proceed)))
    (fun _ htick => (idle_of_not_inTick htick).1) ?_
  have hcalls := hostCalls_untimed (e.under .opened { state := .idle })
  have hstarting := starting?_of_untimed (untimed_untimed (e.under .opened { state := .idle }))
  simp only [deedsOn, callsOf, hcalls, hstarting]
  rfl

theorem fails_core (e : Engine σ) : e.core.fails = e.fails :=
  core_congr (f := fails) (fun _ htick => (idle_of_not_inTick htick).2.1) (fails_untimed _)

theorem isAnswered_core (h : e.host.IsTimeless) : e.core.isAnswered = e.isAnswered :=
  core_congr (f := isAnswered) (fun _ htick => (idle_of_not_inTick htick).2.2)
    (isAnswered_untimed (e := e.under .opened { state := .idle }) h)

/-! ### The work of cores -/

/-- The next step of the work of a core. It is a step of a tick, or the way to the next tick. -/
def workStep? (c : Engine σ) : Option (Engine σ) :=
  if c.phase.inTick then c.proceed?.map core
  else if c.stack.isEmpty then none
  else if c.ready.isOpen then some (c.goto .fetching).core
  else some c.clear.core

theorem workStep?_of_not_inTick (h : e.phase.inTick = false) :
    e.core.workStep? =
      if e.stack.isEmpty then none
      else if e.ready.isOpen then some (e.goto .fetching).core
      else some e.clear.core := by
  have hclear : e.core.clear.core = e.clear.core := core_core e.clear
  rw [workStep?, core_inTick, h, if_neg Bool.false_ne_true, hclear]
  rfl

/-- `Works c deeds c'` says that the work of the core `c` leads to `c'`, and that `deeds` are done
on the way. -/
inductive Works : Engine σ → List Deed → Engine σ → Prop
  | refl (c : Engine σ) : Works c [] c
  | step {c c₁ c' : Engine σ} {deeds : List Deed} (hstep : c.workStep? = some c₁)
      (hrest : Works c₁ deeds c') : Works c (c.deedsOn (.work .proceed) ++ deeds) c'

theorem Works.trans {c c₁ c' : Engine σ} {deeds deeds' : List Deed} (h : Works c deeds c₁)
    (h' : Works c₁ deeds' c') : Works c (deeds ++ deeds') c' := by
  induction h with
  | refl => exact h'
  | step hstep _ ih =>
      rw [List.append_assoc]
      exact .step hstep (ih h')

/-- Work that has come to its end has come there on the only way there is. -/
theorem Works.unique {c c₁ c₂ : Engine σ} {deeds₁ deeds₂ : List Deed} (h₁ : Works c deeds₁ c₁)
    (h₂ : Works c deeds₂ c₂) (hend₁ : c₁.workStep? = none) (hend₂ : c₂.workStep? = none) :
    deeds₁ = deeds₂ ∧ c₁ = c₂ := by
  induction h₁ generalizing deeds₂ with
  | refl c =>
      cases h₂ with
      | refl => exact ⟨rfl, rfl⟩
      | step hstep => exact absurd (hend₁.symm.trans hstep) nofun
  | step hstep _ ih =>
      cases h₂ with
      | refl => exact absurd (hend₂.symm.trans hstep) nofun
      | step hstep₂ hrest₂ =>
          obtain rfl := Option.some.inj (hstep.symm.trans hstep₂)
          obtain ⟨rfl, hsame⟩ := ih hrest₂ hend₁
          exact ⟨rfl, hsame⟩

def Smooth (c : Engine σ) : Prop :=
  ∀ deeds c', Works c deeds c' → c'.fails = false ∧ c'.isAnswered = true

theorem Smooth.step {c c' : Engine σ} (h : Smooth c) (hstep : c.workStep? = some c') : Smooth c' :=
  fun _ _ hworks => h _ _ (.step hstep hworks)

theorem Smooth.works {c c' : Engine σ} {deeds : List Deed} (h : Smooth c)
    (hworks : Works c deeds c') : Smooth c' :=
  fun _ _ hrest => h _ _ (hworks.trans hrest)

/-- Whether the work of a core comes to its end in fewer steps than `fuel`, and smoothly. -/
def endsSmoothly : Nat → Engine σ → Bool
  | 0, _ => false
  | fuel + 1, c =>
    !c.fails && c.isAnswered &&
      match c.workStep? with
      | none => true
      | some c' => endsSmoothly fuel c'

theorem smooth_of_endsSmoothly (fuel : Nat) {c : Engine σ} (h : endsSmoothly fuel c = true) :
    Smooth c := by
  intro deeds c' hworks
  induction hworks generalizing fuel with
  | refl c =>
      cases fuel with
      | zero => cases h
      | succ fuel =>
          simp only [endsSmoothly, Bool.and_eq_true, Bool.not_eq_true'] at h
          exact h.1
  | step hstep _ ih =>
      cases fuel with
      | zero => cases h
      | succ fuel =>
          simp only [endsSmoothly, hstep, Bool.and_eq_true] at h
          exact ih fuel h.2

/-- A step of a tick is a step of the work. -/
theorem workStep?_of_tick (htimeless : e.host.IsTimeless) (hqueue : e.queue = [])
    (hphase : e.phase.inTick = true) (hstep : e.proceed? = some e') :
    e.core.workStep? = some e'.core := by
  have hunder := proceed?_under hphase .opened { state := .idle }
  have hdue : e.IsDue := isDue_of_proceed? hstep
  have huntimed := proceed?_untimed (e := e.under .opened { state := .idle }) htimeless hqueue hdue
  rw [hstep, Option.map_some] at hunder
  obtain ⟨e₁, hnext₁, hsame₁⟩ := Option.map_eq_some_iff.mp hunder
  rw [hnext₁, ← core_of_inTick hphase] at huntimed
  obtain ⟨c, hnext, hsame⟩ := Option.map_eq_some_iff.mp huntimed
  have hcore : c.core = e'.core := by
    rw [core_of_untimed hsame, ← core_under e₁ .opened { state := .idle }, hsame₁, core_under]
  rw [workStep?, core_inTick, if_pos hphase, hnext, Option.map_some, hcore]

/-- A step of the work in a tick is one that the engine can take, after some waiting. -/
theorem later_of_workStep? (hsecluded : Secluded e) (hphase : e.phase.inTick = true)
    (hwork : e.core.workStep?.isSome = true) :
    ∃ ms e', { e with now := e.now + ms }.proceed? = some e' := by
  obtain ⟨c, hproceed⟩ : ∃ c, e.core.proceed? = some c := by
    rw [workStep?, core_inTick, if_pos hphase, Option.isSome_map] at hwork
    exact Option.isSome_iff_exists.mp hwork
  have hsame : (e.under .opened { state := .idle }).untimed = e.core.untimed := by
    rw [core_of_inTick hphase, untimed_untimed]
  have hcalm : Secluded e.core := ⟨hsecluded.host, hsecluded.cancel, hsecluded.queue⟩
  obtain ⟨ms, e₁, hlater⟩ := hcalm.later hsame hproceed
  have hback := proceed?_under (e := ({ e with now := e.now + ms } : Engine σ)) hphase
    .opened { state := .idle }
  have hsome : ({ e with now := e.now + ms } : Engine σ).proceed?.isSome = true := by
    rw [← Option.isSome_map (f := (·.under .opened { state := .idle })), ← hback, Option.isSome_map]
    exact Option.isSome_of_eq_some hlater
  exact ⟨ms, Option.isSome_iff_exists.mp hsome⟩

end Engine

end CraftLang
