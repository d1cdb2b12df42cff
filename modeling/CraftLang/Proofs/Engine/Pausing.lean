import CraftLang.Proofs.Engine.Cores

/-!
Pauses. Callers who pause an engine at once, and resume it later, have a say in when it goes on and
in nothing else. Each event of such a run is a step of the work of its core, or nothing to it; and
an engine that may run does not miss a step. So with pauses and without them the same work is done,
as far as it is done at all.
-/

namespace CraftLang

/-- Whether an event is the engine's own, or the call of someone who pauses it at once or resumes
it. -/
def Event.isPausing {σ : Type} : Event σ → Bool
  | .work _ | .pass _ | .call (.pause false) | .call .resume => true
  | _ => false

theorem Event.isPausing_of_isOwn {σ : Type} {event : Event σ} (h : event.isOwn = true) :
    event.isPausing = true := by
  cases event <;> first | rfl | cases h

theorem Event.pause_or_resume {σ : Type} {asked : Call}
    (h : (Event.call asked : Event σ).isPausing = true) :
    asked = .pause false ∨ asked = .resume := by
  cases asked with
  | pause atLoop => cases atLoop <;> first | exact .inl rfl | cases h
  | resume => exact .inr rfl
  | enqueue | enqueueSource | runByName | stop | step | setReady | shutdown | feed | closeChannel =>
      cases h

def Phase.toTick : Phase → Nat
  | .blocked _ => 4
  | .top => 3
  | .draining => 2
  | .checkingReady => 1
  | _ => 0

namespace Engine

variable {σ : Type} {e e' : Engine σ}

/-- What holds in the places of an engine that nobody asks for anything but to pause. It works on
its frames if there are any, and only if the host is ready. -/
def AtPlace (e : Engine σ) : Prop :=
  match e.phase with
  | .top | .draining | .checkingReady | .blocked false => True
  | .checkingPause => e.ready.isOpen = true
  | .emptied | .blocked true => e.stack = []
  | phase => phase.isBusy = true ∧ e.stack ≠ []

/-- An engine that nobody asks for anything but to pause at once. -/
structure Calm (e : Engine σ) : Prop where
  secluded : Secluded e
  pauseAtLoop : e.pauseAtLoop = false
  stopAtLoop : e.stopAtLoop = false
  place : e.AtPlace

/-- The pause gate keeps nobody from work. -/
def CanRun (e : Engine σ) : Prop :=
  e.pause.isOpen = true ∨ e.stack = []

/-- The engine can take no step, now or later. -/
def AtRest (e : Engine σ) : Prop :=
  ∀ ms branch, { e with now := e.now + ms }.take? branch = none

/-- As long as the engine is left to itself it comes to no command that fails or pauses, and the
host answers it. -/
def StaysUntroubled (e : Engine σ) : Prop :=
  ∀ events e', (∀ event ∈ events, event.isOwn = true) → e.run? events = some e' →
    e'.fails = false ∧ e'.isAnswered = true

/-! ### One event -/

theorem AtPlace.tick (h : e.AtPlace) (hphase : e.phase.inTick = true) :
    e.phase.isBusy = true ∧ e.stack ≠ [] := by
  unfold AtPlace at h
  cases hp : e.phase <;> rw [hp] at h hphase <;> first | exact h | cases hphase

theorem atPlace_of_tick (hbusy : e.phase.isBusy = true) (hstack : e.stack ≠ [])
    (hphase : e.phase.inTick = true) : e.AtPlace := by
  unfold AtPlace
  cases hp : e.phase <;> rw [hp] at hbusy hphase <;> first | exact ⟨hbusy, hstack⟩ | cases hphase

theorem atPlace_top (hphase : e.phase = .top) : e.AtPlace := by
  simp only [AtPlace, hphase]

/-- A tick goes on, or it ends at the top of the next round. -/
theorem phase_of_tick (hphase : e.phase.inTick = true) (hstep : e.proceed? = some e')
    (hbusy : e'.phase.isBusy = true) : e'.phase = .top ∨ e'.phase.inTick = true := by
  by_cases hfetch : e.phase = .fetching
  · simp only [proceed?, hfetch, fetch?] at hstep
    split at hstep
    · cases hstep
      exact .inl rfl
    · split at hstep <;> cases hstep
      · exact .inr rfl
      · exact .inl rfl
      · exact .inr rfl
      · exact .inr rfl
  · rcases isLate_of_inTick hphase hfetch hstep with hlate | ⟨hbroken, -⟩
    · cases hp : e'.phase <;> rw [hp] at hlate hbusy <;>
        first
          | exact .inl rfl
          | exact .inr rfl
          | exact Bool.noConfusion hlate
          | exact Bool.noConfusion hbusy
    · rw [hbroken] at hbusy
      cases hbusy

/-- Where its frame ends, a tick ends as well. -/
theorem phase_of_ends (hends : e.ends = true) (hstep : e.proceed? = some e') :
    e'.phase = .top := by
  unfold ends at hends
  split at hends
  · next hp =>
      cases hstack : e.stack with
      | nil => simp [hstack] at hends
      | cons frame frames =>
          rcases hlook : frame.fetchStep with ⟨fetched, frame'⟩
          simp only [hstack, List.head?_cons, Option.any_some, hlook, beq_iff_eq] at hends
          subst hends
          simp only [proceed?, hp, fetch?, hstack, hlook, Option.some.injEq] at hstep
          rw [← hstep]
          rfl
  · next call hp =>
      simp only [proceed?, hp, Option.some.injEq] at hstep
      obtain ⟨world, hprinted | ⟨hfails, -⟩⟩ := e.print_cases call .pop
      · rw [← hstep, hprinted]
        rfl
      · rw [hfails] at hends
        cases hends
  · cases hends

theorem Calm.tick (h : Calm e) (hphase : e.phase.inTick = true) (hfails : e.fails = false)
    (hanswered : e.isAnswered = true) (hstep : e.proceed? = some e') :
    Calm e' ∧ e'.pause = e.pause := by
  obtain ⟨hbusy, hframes⟩ := h.place.tick hphase
  obtain ⟨frame, base, hcons⟩ := List.exists_cons_of_ne_nil hframes
  have hadvances := tick_advances h.secluded.cancel h.pauseAtLoop h.stopAtLoop hcons hphase hbusy
    hfails hanswered hstep
  have hplace : e'.AtPlace := by
    have hlength := hadvances.length
    cases hends : e.ends with
    | true => exact atPlace_top (phase_of_ends hends hstep)
    | false =>
        have hstack : e'.stack ≠ [] := by
          intro hnil
          simp [hends, hnil, hcons] at hlength
        rcases phase_of_tick hphase hstep hadvances.busy with htop | htick
        · exact atPlace_top htop
        · exact atPlace_of_tick hadvances.busy hstack htick
  exact ⟨⟨h.secluded.proceed? hstep, hadvances.pauseAtLoop.trans h.pauseAtLoop,
    hadvances.stopAtLoop.trans h.stopAtLoop, hplace⟩, hadvances.pause⟩

theorem core_goto {phase : Phase} (h : phase.core = e.phase.core) :
    (e.goto phase).core = e.core := by
  show ({ e.under .opened { state := .idle } with now := 0, phase := phase.core } : Engine σ) = _
  rw [h]
  rfl

theorem core_clear_of_nil (h : e.stack = []) : e.clear.core = e.core := by
  simp only [clear, h, List.length_nil, Nat.add_zero]
  rw [← h]

theorem Calm.of_round (h : Calm e) (hround : Round e e') (hplace : e'.AtPlace) : Calm e' := by
  obtain ⟨⟨hhost, hcancel, hqueue⟩, hpause, hstop, -⟩ := h
  cases hround with
  | begin | drained | request | nothing | ready | unready | tick | empty | rest | emptied | wake =>
      exact ⟨⟨hhost, hcancel, hqueue⟩, hpause, hstop, hplace⟩
  | close => exact ⟨⟨hhost, hcancel, rfl⟩, hpause, hstop, hplace⟩

/-- A step between two ticks is a step of the work, or it is nothing to the core and leads nearer to
the next tick. -/
theorem Calm.round (h : Calm e) (hround : Round e e') :
    Calm e' ∧ (e.CanRun → e'.CanRun) ∧
      (e.core.workStep? = some e'.core ∨
        e'.core = e.core ∧ (e.CanRun → e.stack ≠ [] → e'.phase.toTick < e.phase.toTick)) := by
  have hcalm := h.of_round hround
  have hwork := workStep?_of_not_inTick hround.inTick
  have hplace := h.place
  unfold AtPlace at hplace
  have honward {phase : Phase} (hcore : phase.core = e.phase.core)
      (hnearer : phase.toTick < e.phase.toTick) :
      e.core.workStep? = some (e.goto phase).core ∨ (e.goto phase).core = e.core ∧
        (e.CanRun → e.stack ≠ [] → (e.goto phase).phase.toTick < e.phase.toTick) :=
    .inr ⟨core_goto hcore, fun _ _ => hnearer⟩
  cases hround with
  | begin hphase =>
      rw [h.secluded.cancel, if_neg Bool.false_ne_true] at hcalm ⊢
      exact ⟨hcalm trivial, id, honward (by rw [hphase]; rfl) (by rw [hphase]; decide)⟩
  | drained hphase =>
      exact ⟨hcalm trivial, id, honward (by rw [hphase]; rfl) (by rw [hphase]; decide)⟩
  | request _ hqueue => exact absurd h.secluded.queue hqueue
  | nothing hphase =>
      rw [hphase] at hplace
      exact absurd hplace.1 nofun
  | ready hphase hready =>
      exact ⟨hcalm hready, id, honward (by rw [hphase]; rfl) (by rw [hphase]; decide)⟩
  | wake hphase =>
      exact ⟨hcalm trivial, id,
        honward (by rw [hphase]; rfl) (by rw [hphase]; exact Nat.lt_succ_self 3)⟩
  | unready hphase hready =>
      have hcore : ((e.clear.publish .notReady).goto (.blocked true)).core = e.clear.core :=
        core_goto (e := e.clear.publish .notReady) (hphase ▸ rfl : Phase.top = e.phase.core)
      refine ⟨hcalm rfl, fun _ => .inr rfl, ?_⟩
      rw [hcore]
      by_cases hstack : e.stack = []
      · exact .inr ⟨core_clear_of_nil hstack, fun _ hne => absurd hstack hne⟩
      · left
        simpa [hstack, hready] using hwork
  | tick hphase hopen hstack =>
      have hready : e.ready.isOpen = true := by simpa [hphase] using hplace
      refine ⟨hcalm ⟨rfl, hstack⟩, id, .inl ?_⟩
      show e.core.workStep? = some (e.goto .fetching).core
      simpa [hstack, hready] using hwork
  | empty hphase hopen hstack =>
      exact ⟨hcalm hstack, id,
        .inr ⟨core_goto (by rw [hphase]; rfl), fun _ hne => absurd hstack hne⟩⟩
  | rest hphase hclosed =>
      refine ⟨hcalm trivial, id, .inr ⟨?_, fun hcan hne => ?_⟩⟩
      · exact core_goto (e := e.publish _) (hphase ▸ rfl : Phase.top = e.phase.core)
      · rcases hcan with hopen | hnil
        · exact absurd (hclosed.symm.trans hopen) nofun
        · exact absurd hnil hne
  | emptied hphase =>
      have hstack : e.stack = [] := by simpa [hphase] using hplace
      refine ⟨hcalm trivial, fun _ => .inr hstack, .inr ⟨?_, fun _ hne => absurd hstack hne⟩⟩
      exact core_goto (e := { e with pause := .closed }) (hphase ▸ rfl : Phase.top = e.phase.core)
  | close hphase =>
      rw [hphase] at hplace
      exact absurd hplace.1 nofun

/-- A step of an untroubled engine is a step of the work, or it is nothing to the core and leads
nearer to the next tick. -/
theorem Calm.proceed? (h : Calm e) (huntroubled : e.fails = false ∧ e.isAnswered = true)
    (hstep : e.proceed? = some e') :
    Calm e' ∧ (e.CanRun → e'.CanRun) ∧
      (e.core.workStep? = some e'.core ∨
        e'.core = e.core ∧ e.deedsOn (.work .proceed) = [] ∧
          (e.CanRun → e.stack ≠ [] → e'.phase.toTick < e.phase.toTick)) := by
  cases step_of_proceed hstep with
  | tick hphase =>
      obtain ⟨hcalm, hpause⟩ := h.tick hphase huntroubled.1 huntroubled.2 hstep
      refine ⟨hcalm, fun hcan => ?_, .inl ?_⟩
      · exact .inl (hpause ▸ hcan.resolve_right (h.place.tick hphase).2)
      · exact workStep?_of_tick h.secluded.host h.secluded.queue hphase hstep
  | round hround =>
      obtain ⟨hcalm, hcan, hwork⟩ := h.round hround
      obtain ⟨hidle, -⟩ := idle_of_not_inTick hround.inTick
      exact ⟨hcalm, hcan, hwork.imp_right fun ⟨hcore, hnearer⟩ => ⟨hcore, hidle, hnearer⟩⟩
  | applied _ hqueue => exact absurd (h.secluded.queue.symm.trans hqueue) nofun

/-- An event is a step of the work, or nothing to the core. -/
theorem Calm.on {event : Event σ} (h : Calm e)
    (huntroubled : e.fails = false ∧ e.isAnswered = true) (hpausing : event.isPausing = true)
    (hon : e.on? event = some e') :
    Calm e' ∧ (event.isOwn = true → e.CanRun → e'.CanRun) ∧
      (e.core.workStep? = some e'.core ∧ e.deedsOn event = e.core.deedsOn (.work .proceed) ∨
        e'.core = e.core ∧ e.deedsOn event = []) := by
  cases event with
  | work branch =>
      have hproceed : branch = .proceed := by
        cases step_of_take? hon with
        | tick | round | applied => rfl
        | interrupted => simp [on?, take?, interrupt?, h.secluded.cancel] at hon
        | served _ hqueue => exact absurd h.secluded.queue hqueue
      subst hproceed
      obtain ⟨hcalm, hcan, hwork⟩ := h.proceed? huntroubled hon
      refine ⟨hcalm, fun _ => hcan, ?_⟩
      rcases hwork with hstep | ⟨hcore, hidle, -⟩
      · exact .inl ⟨hstep, (deedsOn_core e).symm⟩
      · exact .inr ⟨hcore, hidle⟩
  | pass ms =>
      cases hon
      obtain ⟨⟨hhost, hcancel, hqueue⟩, hpause, hstop, hplace⟩ := h
      exact ⟨⟨⟨hhost, hcancel, hqueue⟩, hpause, hstop, hplace⟩, fun _ => id, .inr ⟨rfl, rfl⟩⟩
  | call asked =>
      obtain ⟨⟨hhost, hcancel, hqueue⟩, hpause, hstop, hplace⟩ := h
      rcases Event.pause_or_resume hpausing with rfl | rfl
      all_goals
        cases hon
        exact ⟨⟨⟨hhost, hcancel, hqueue⟩, hpause, hstop, hplace⟩,
          fun hown => absurd hown Bool.false_ne_true, .inr ⟨rfl, rfl⟩⟩
  | change world => cases hpausing

/-! ### Runs -/

theorem untroubled_congr (h : Calm e) (h' : Calm e') (hcore : e.core = e'.core)
    (huntroubled : e'.fails = false ∧ e'.isAnswered = true) :
    e.fails = false ∧ e.isAnswered = true := by
  rw [← fails_core, ← isAnswered_core h.secluded.host, hcore, fails_core,
    isAnswered_core h'.secluded.host]
  exact huntroubled

theorem Calm.untroubled (h : Calm e) (hsmooth : Smooth e.core) :
    e.fails = false ∧ e.isAnswered = true := by
  rw [← fails_core, ← isAnswered_core h.secluded.host]
  exact hsmooth [] e.core (.refl _)

/-- After an event the work that is left goes smoothly, as before. -/
theorem Calm.next {event : Event σ} (h : Calm e) (hsmooth : Smooth e.core)
    (hpausing : event.isPausing = true) (hon : e.on? event = some e') :
    Calm e' ∧ Smooth e'.core ∧ (event.isOwn = true → e.CanRun → e'.CanRun) ∧
      (e.core.workStep? = some e'.core ∧ e.deedsOn event = e.core.deedsOn (.work .proceed) ∨
        e'.core = e.core ∧ e.deedsOn event = []) := by
  obtain ⟨hcalm, hcan, hwork⟩ := h.on (h.untroubled hsmooth) hpausing hon
  refine ⟨hcalm, ?_, hcan, hwork⟩
  rcases hwork with ⟨hstep, -⟩ | ⟨hcore, -⟩
  · exact hsmooth.step hstep
  · exact hcore ▸ hsmooth

/-- A run with pauses leads to where the work of the core leads. -/
theorem Calm.run {events : List (Event σ)} (h : Calm e) (hsmooth : Smooth e.core)
    (hpausing : ∀ event ∈ events, event.isPausing = true) (hrun : e.run? events = some e') :
    Calm e' ∧ Works e.core (e.deeds events) e'.core := by
  induction events generalizing e with
  | nil =>
      cases hrun
      exact ⟨h, .refl _⟩
  | cons event events ih =>
      obtain ⟨e₁, hon, hrest⟩ := run?_cons_eq_some.mp hrun
      have hpausing' : ∀ event ∈ events, event.isPausing = true :=
        fun event hmem => hpausing event (List.mem_cons_of_mem _ hmem)
      obtain ⟨hcalm, hsmooth₁, -, hwork⟩ := h.next hsmooth (hpausing event List.mem_cons_self) hon
      obtain ⟨hcalm', hworks⟩ := ih hcalm hsmooth₁ hpausing' hrest
      refine ⟨hcalm', ?_⟩
      rw [deeds_cons hon]
      rcases hwork with ⟨hstep, hdeeds⟩ | ⟨hcore, hdeeds⟩
      · exact hdeeds ▸ .step hstep hworks
      · rw [hdeeds, List.nil_append, ← hcore]
        exact hworks

/-- By itself the engine comes from `e` to `e'`, the core of which is `c`, and it can run there. On
the way it does `deeds`. -/
structure ComesTo (e : Engine σ) (deeds : List Deed) (c : Engine σ) (events : List (Event σ))
    (e' : Engine σ) : Prop where
  own : ∀ event ∈ events, event.isOwn = true
  run : e.run? events = some e'
  deeds : e.deeds events = deeds
  core : e'.core = c
  calm : Calm e'
  canRun : e'.CanRun

theorem ComesTo.refl (h : Calm e) (hcan : e.CanRun) : ComesTo e [] e.core [] e :=
  ⟨nofun, rfl, rfl, rfl, h, hcan⟩

theorem ComesTo.trans {e₁ c₁ c : Engine σ} {deeds deeds' : List Deed}
    {events events' : List (Event σ)} (h : ComesTo e deeds c₁ events e₁)
    (h' : ComesTo e₁ deeds' c events' e') :
    ComesTo e (deeds ++ deeds') c (events ++ events') e' where
  own := fun event hmem => (List.mem_append.mp hmem).elim (h.own event) (h'.own event)
  run := by rw [run?_append, h.run, Option.bind_some, h'.run]
  deeds := by rw [deeds_append h.run, h.deeds, h'.deeds]
  core := h'.core
  calm := h'.calm
  canRun := h'.canRun

/-- As long as there is work an engine that may run can take a step, after some waiting. -/
theorem Calm.able {c : Engine σ} (h : Calm e) (hcan : e.CanRun)
    (hwork : e.core.workStep? = some c) :
    e.stack ≠ [] ∧ ∃ ms e', { e with now := e.now + ms }.proceed? = some e' := by
  cases hphase : e.phase.inTick with
  | true =>
      refine ⟨(h.place.tick hphase).2, ?_⟩
      exact later_of_workStep? h.secluded hphase (by rw [hwork]; rfl)
  | false =>
      have hstack : e.stack ≠ [] := by
        intro hnil
        rw [workStep?_of_not_inTick hphase, hnil] at hwork
        cases hwork
      have hopen := hcan.resolve_right hstack
      have hplace := h.place
      refine ⟨hstack, 0, ?_⟩
      show ∃ e', e.proceed? = some e'
      unfold AtPlace at hplace
      cases hp : e.phase with
      | fetching | drawing | running | suspended | looped | loopApplied | printing | pausing
      | resting =>
          rw [hp] at hphase
          cases hphase
      | taken | closing | stopped | broken =>
          rw [hp] at hplace
          exact absurd hplace.1 nofun
      | top | draining | checkingReady | checkingPause | emptied =>
          simp only [Engine.proceed?, hp]
          repeat' split
          all_goals exact ⟨_, rfl⟩
      | blocked forReady =>
          cases forReady with
          | true =>
              rw [hp] at hplace
              exact absurd hplace hstack
          | false => simp [Engine.proceed?, hp, hopen]

theorem comesTo_of_proceed? {ms : Nat} (hcalm : Calm e') (hcan : e'.CanRun)
    (hstep : { e with now := e.now + ms }.proceed? = some e') :
    ComesTo e (({ e with now := e.now + ms } : Engine σ).deedsOn (.work .proceed)) e'.core
      [.pass ms, .work .proceed] e' where
  own := by simp [Event.isOwn]
  run := run?_cons_eq_some.mpr ⟨_, rfl, run?_cons_eq_some.mpr ⟨e', hstep, rfl⟩⟩
  deeds := by
    have hpass : e.on? (.pass ms) = some { e with now := e.now + ms } := rfl
    have hon : ({ e with now := e.now + ms } : Engine σ).on? (.work .proceed) = some e' := hstep
    rw [deeds_cons hpass, deeds_cons hon]
    exact List.append_nil _
  core := rfl
  calm := hcalm
  canRun := hcan

/-- An engine that may run comes to the next step of its work by itself. -/
theorem Calm.goesOn {c : Engine σ} (h : Calm e) (hcan : e.CanRun)
    (huntroubled : e.fails = false ∧ e.isAnswered = true) (hwork : e.core.workStep? = some c) :
    ∃ events e', ComesTo e (e.core.deedsOn (.work .proceed)) c events e' := by
  -- The induction is on the way to the next tick.
  induction hfar : e.phase.toTick using Nat.strongRecOn generalizing e with
  | ind far ih =>
      obtain ⟨hstack, ms, e₁, hstep⟩ := h.able hcan hwork
      -- Time passes first, which is nothing to the core.
      have hpass : e.on? (.pass ms) = some { e with now := e.now + ms } := rfl
      obtain ⟨hwaited, hcanWaited, -⟩ := h.on huntroubled rfl hpass
      have hcore : ({ e with now := e.now + ms } : Engine σ).core = e.core := rfl
      obtain ⟨hcalm, hcan₁, hmoved⟩ :=
        hwaited.proceed? (untroubled_congr hwaited h hcore huntroubled) hstep
      have hfirst := comesTo_of_proceed? hcalm (hcan₁ (hcanWaited rfl hcan)) hstep
      rcases hmoved with hmoved | ⟨hsilent, hidle, hnearer⟩
      · obtain rfl := Option.some.inj (hwork.symm.trans hmoved)
        rw [← deedsOn_core] at hfirst
        exact ⟨_, e₁, hfirst⟩
      · have hsame : e₁.core = e.core := hsilent
        obtain ⟨events, e', hrest⟩ :=
          ih e₁.phase.toTick (hfar ▸ hnearer (hcanWaited rfl hcan) hstack)
          hcalm hfirst.canRun (untroubled_congr hcalm h hsame huntroubled) (hsame ▸ hwork) rfl
        rw [hidle] at hfirst
        rw [hsame] at hrest
        exact ⟨_, e', hfirst.trans hrest⟩

/-- An engine that may run comes by itself wherever the work of its core leads. -/
theorem Calm.follows {c : Engine σ} {deeds : List Deed} (h : Calm e) (hcan : e.CanRun)
    (hsmooth : Smooth e.core) (hworks : Works e.core deeds c) :
    ∃ events e', ComesTo e deeds c events e' := by
  generalize hcore : e.core = c₀ at hworks
  induction hworks generalizing e with
  | refl =>
      subst hcore
      exact ⟨[], e, .refl h hcan⟩
  | @step _ c₁ _ _ hstep _ ih =>
      subst hcore
      obtain ⟨events, e₁, hfirst⟩ := h.goesOn hcan (h.untroubled hsmooth) hstep
      obtain ⟨events', e', hrest⟩ :=
        ih hfirst.calm hfirst.canRun (hfirst.core ▸ hsmooth.step hstep) hfirst.core
      exact ⟨_, e', hfirst.trans hrest⟩

/-- What troubles the work of the core would trouble the engine by itself. -/
theorem StaysUntroubled.smooth (huntroubled : StaysUntroubled e) (h : Calm e) (hcan : e.CanRun) :
    Smooth e.core := by
  intro deeds c hworks
  generalize hcore : e.core = c₀ at hworks
  induction hworks generalizing e with
  | refl =>
      subst hcore
      rw [fails_core, isAnswered_core h.secluded.host]
      exact huntroubled [] e nofun rfl
  | @step _ c₁ _ _ hstep _ ih =>
      subst hcore
      obtain ⟨events, e₁, hfirst⟩ := h.goesOn hcan (huntroubled [] e nofun rfl) hstep
      refine ih (fun events' e' hown hrun => ?_) hfirst.calm hfirst.canRun hfirst.core
      refine huntroubled (events ++ events') e' ?_ ?_
      · exact fun event hmem => (List.mem_append.mp hmem).elim (hfirst.own event) (hown event)
      · rw [run?_append, hfirst.run, Option.bind_some, hrun]

theorem Calm.staysUntroubled (h : Calm e) (hsmooth : Smooth e.core) : StaysUntroubled e := by
  intro events e' hown hrun
  obtain ⟨hcalm, hworks⟩ :=
    h.run hsmooth (fun event hmem => Event.isPausing_of_isOwn (hown event hmem)) hrun
  exact hcalm.untroubled (hsmooth.works hworks)

/-- Wherever the work of the core leads, the engine has come there in the course of a run with
pauses, or it comes there by itself after the run. -/
theorem Calm.meets {c : Engine σ} {deeds : List Deed} {events : List (Event σ)} (h : Calm e)
    (hsmooth : Smooth e.core) (hpausing : ∀ event ∈ events, event.isPausing = true)
    (hrun : e.run? events = some e') (hcan : e'.CanRun) (hworks : Works e.core deeds c) :
    ∃ done d, (done <+: events ∨
        ∃ more, (∀ event ∈ more, event.isOwn = true) ∧ done = events ++ more) ∧
      e.run? done = some d ∧ e.deeds done = deeds ∧ d.core = c := by
  induction events generalizing e deeds with
  | nil =>
      cases hrun
      obtain ⟨more, d, hcomes⟩ := h.follows hcan hsmooth hworks
      exact ⟨more, d, .inr ⟨more, hcomes.own, rfl⟩, hcomes.run, hcomes.deeds, hcomes.core⟩
  | cons event events ih =>
      obtain ⟨e₁, hon, hrest⟩ := run?_cons_eq_some.mp hrun
      have hpausing' : ∀ event ∈ events, event.isPausing = true :=
        fun event hmem => hpausing event (List.mem_cons_of_mem _ hmem)
      obtain ⟨hcalm, hsmooth₁, -, hwork⟩ := h.next hsmooth (hpausing event List.mem_cons_self) hon
      -- What is met after the event is met in the whole run.
      have hmeets {deeds' : List Deed} (hworks₁ : Works e₁.core deeds' c) :
          ∃ done d, (done <+: event :: events ∨
              ∃ more, (∀ event ∈ more, event.isOwn = true) ∧ done = event :: events ++ more) ∧
            e.run? done = some d ∧ e.deeds done = e.deedsOn event ++ deeds' ∧ d.core = c := by
        obtain ⟨done, d, hdone, hrun', hdeeds, hcore⟩ := ih hcalm hsmooth₁ hpausing' hrest hworks₁
        refine ⟨event :: done, d, ?_, run?_cons_eq_some.mpr ⟨e₁, hon, hrun'⟩, ?_, hcore⟩
        · rcases hdone with hprefix | ⟨more, hown, rfl⟩
          · exact .inl ((List.prefix_cons_inj event).mpr hprefix)
          · exact .inr ⟨more, hown, rfl⟩
        · rw [deeds_cons hon, hdeeds]
      rcases hwork with ⟨hstep, hdeeds⟩ | ⟨hcore, hdeeds⟩
      · generalize hc : e.core = c₀ at hworks
        cases hworks with
        | refl => exact ⟨[], e, .inl List.nil_prefix, rfl, rfl, hc⟩
        | step hstep' hrest' =>
            subst hc
            obtain rfl := Option.some.inj (hstep.symm.trans hstep')
            rw [← hdeeds]
            exact hmeets hrest'
      · have hmet := hmeets (hcore ▸ hworks)
        rwa [hdeeds, List.nil_append] at hmet

/-! ### With pauses and without them -/

def IsResumed (events : List (Event σ)) : Prop :=
  ∀ before after, events = before ++ .call (.pause false) :: after → .call .resume ∈ after

theorem IsResumed.of_cons {event : Event σ} {events : List (Event σ)}
    (h : IsResumed (event :: events)) : IsResumed events := by
  rintro before after rfl
  exact h (event :: before) after rfl

theorem isResumed_of_isOwn {events : List (Event σ)}
    (hown : ∀ event ∈ events, event.isOwn = true) : IsResumed events := by
  rintro before after rfl
  exact absurd (hown (.call (.pause false)) (by simp)) nofun

/-- The last of the calls is a resume. -/
theorem isResumed_of_last {events rest : List (Event σ)}
    (hown : ∀ event ∈ rest, event.isOwn = true) :
    IsResumed (events ++ .call .resume :: rest) := by
  intro before after heq
  rcases List.append_eq_append_iff.mp heq with ⟨between, -, hlast⟩ | ⟨between, -, hlast⟩
  · -- No pause comes after it.
    rcases List.cons_eq_append_iff.mp hlast with ⟨-, hsame⟩ | ⟨own, -, rfl⟩
    · cases hsame
    · exact absurd (hown (.call (.pause false)) (by simp)) nofun
  · rcases List.cons_eq_append_iff.mp hlast with ⟨-, hsame⟩ | ⟨own, -, rfl⟩
    · cases hsame
    · simp

/-- Where each pause is over in the end, the engine can run in the end. -/
theorem Calm.canRun {events : List (Event σ)} (h : Calm e) (hsmooth : Smooth e.core)
    (hpausing : ∀ event ∈ events, event.isPausing = true) (hresumed : IsResumed events)
    (hrun : e.run? events = some e') (hcan : e.CanRun ∨ .call .resume ∈ events) : e'.CanRun := by
  -- While the gate is closed, what carries the induction is that a resume is still to come.
  induction events generalizing e with
  | nil =>
      cases hrun
      exact hcan.resolve_right List.not_mem_nil
  | cons event events ih =>
      obtain ⟨e₁, hon, hrest⟩ := run?_cons_eq_some.mp hrun
      have hmem := hpausing event List.mem_cons_self
      obtain ⟨hcalm, hsmooth₁, hkeeps, -⟩ := h.next hsmooth hmem hon
      refine ih hcalm hsmooth₁ (fun event hmem => hpausing event (List.mem_cons_of_mem _ hmem))
        hresumed.of_cons hrest ?_
      cases event with
      | work | pass =>
          rcases hcan with hcan | hlater
          · exact .inl (hkeeps rfl hcan)
          · exact .inr ((List.mem_cons.mp hlater).resolve_left nofun)
      | call asked =>
          rcases Event.pause_or_resume hmem with rfl | rfl
          · exact .inr (hresumed [] events rfl)
          · cases hon
            exact .inl (.inl rfl)
      | change => cases hmem

/-- An engine that takes the only request from its queue, a frame, is calm then and may run. -/
theorem calm_of_applying {e₀ : Engine σ} {branch : Branch} {frame : Frame}
    (happlying : e.applying? branch = some (.push frame)) (hqueue : e.queue = [.push frame])
    (hstep : e.take? branch = some e₀) (hcancel : e.cancel.isCancelled = false)
    (hpause : e.pauseAtLoop = false) (hstop : e.stopAtLoop = false)
    (htimeless : e.host.IsTimeless) : Calm e₀ ∧ e₀.CanRun := by
  obtain ⟨drains, queue, hphase, hqueue', rfl⟩ := eq_of_applying? happlying hstep
  obtain ⟨-, rfl⟩ := List.cons.inj (hqueue.symm.trans hqueue')
  refine ⟨⟨⟨htimeless, hcancel, rfl⟩, hpause, hstop, ?_⟩, .inl rfl⟩
  cases drains <;> exact trivial

/-- An engine at rest that may run has no more work to do. -/
theorem AtRest.workStep? (h : AtRest e) (hcalm : Calm e) (hcan : e.CanRun) :
    e.core.workStep? = none := by
  cases hwork : e.core.workStep? with
  | none => rfl
  | some c =>
      obtain ⟨-, ms, e', hstep⟩ := hcalm.able hcan hwork
      exact absurd ((h ms .proceed).symm.trans hstep) nofun

/-- Two runs from `e₀` that come to the same: the same commands are started and the same calls made
to the host, in the same order, and in the end the frames are the same, and the host. -/
structure SameWork (e₀ : Engine σ) (events : List (Event σ)) (e : Engine σ)
    (events' : List (Event σ)) (e' : Engine σ) : Prop where
  deeds : e₀.deeds events' = e₀.deeds events
  stack : e'.stack = e.stack
  retired : e'.retired = e.retired
  world : e'.world = e.world

theorem SameWork.of_core {e₀ : Engine σ} {events events' : List (Event σ)}
    (hdeeds : e₀.deeds events' = e₀.deeds events) (hcore : e'.core = e.core) :
    SameWork e₀ events e events' e' where
  deeds := hdeeds
  stack := (congrArg Engine.stack hcore :)
  retired := (congrArg Engine.retired hcore :)
  world := (congrArg Engine.world hcore :)

/-- A program does not see pauses that are over. Let an engine take a frame from its queue, such
that no command fails or pauses and the host answers as long as the engine is left to itself. In a
run in which it is paused at once and resumed any number of times, the last of these calls a resume,
it does what it does by itself in some other run. Whatever it does by itself, it has done in the
course of this run, or it does after it; and where both come to rest, they come to the same. -/
theorem pauses_unseen {e₀ : Engine σ} {branch : Branch} {frame : Frame} {events : List (Event σ)}
    (happlying : e.applying? branch = some (.push frame)) (hqueue : e.queue = [.push frame])
    (hstep : e.take? branch = some e₀) (hcancel : e.cancel.isCancelled = false)
    (hpause : e.pauseAtLoop = false) (hstop : e.stopAtLoop = false)
    (htimeless : e.host.IsTimeless) (huntroubled : StaysUntroubled e₀)
    (hpausing : ∀ event ∈ events, event.isPausing = true) (hresumed : IsResumed events)
    (hrun : e₀.run? events = some e') :
    (∃ plain a, (∀ event ∈ plain, event.isOwn = true) ∧ e₀.run? plain = some a ∧
      SameWork e₀ events e' plain a) ∧
    ∀ plain a, (∀ event ∈ plain, event.isOwn = true) → e₀.run? plain = some a →
      (∃ done d, (done <+: events ∨
          ∃ more, (∀ event ∈ more, event.isOwn = true) ∧ done = events ++ more) ∧
        e₀.run? done = some d ∧ SameWork e₀ plain a done d) ∧
      (AtRest a → AtRest e' → SameWork e₀ plain a events e') := by
  obtain ⟨hcalm, hcan⟩ :=
    calm_of_applying happlying hqueue hstep hcancel hpause hstop htimeless
  have hsmooth := huntroubled.smooth hcalm hcan
  obtain ⟨hcalm', hworks⟩ := hcalm.run hsmooth hpausing hrun
  have hcan' := hcalm.canRun hsmooth hpausing hresumed hrun (.inl hcan)
  refine ⟨?_, fun plain a hown hplain => ?_⟩
  · obtain ⟨plain, a, hcomes⟩ := hcalm.follows hcan hsmooth hworks
    exact ⟨plain, a, hcomes.own, hcomes.run, .of_core hcomes.deeds hcomes.core⟩
  · have hownPausing : ∀ event ∈ plain, event.isPausing = true :=
      fun event hmem => Event.isPausing_of_isOwn (hown event hmem)
    obtain ⟨hcalmA, hworksA⟩ := hcalm.run hsmooth hownPausing hplain
    refine ⟨?_, fun hrestA hrest => ?_⟩
    · obtain ⟨done, d, hdone, hrunD, hdeeds, hcore⟩ :=
        hcalm.meets hsmooth hpausing hrun hcan' hworksA
      exact ⟨done, d, hdone, hrunD, .of_core hdeeds hcore⟩
    · have hcanA := hcalm.canRun hsmooth hownPausing (isResumed_of_isOwn hown) hplain (.inl hcan)
      obtain ⟨hdeeds, hcore⟩ :=
        hworks.unique hworksA (hrest.workStep? hcalm' hcan') (hrestA.workStep? hcalmA hcanA)
      exact .of_core hdeeds hcore

/-- A run in which the engine is paused in the first turn of the inner macro, and paused once more
while it waits for the resume. -/
def pausedTwice : List (Event (DryRun × Library)) :=
  onItsOwn 20 ++ [.call (.pause false)] ++ onItsOwn 7 ++ [.call (.pause false)] ++
    .call .resume :: onItsOwn 54

theorem pauses_unseen_queuedOuter :
    ((queuedOuter.ran [.work .proceed]).ran (pausedTwice.take 28)).published.state = .paused ∧
    ((queuedOuter.ran [.work .proceed]).started pausedTwice).map Command.text =
      ["/a", "/runmacro \"Inner\"", "/c", "/loop 1", "/c", "/loop 1", "/b"] ∧
    SameWork (queuedOuter.ran [.work .proceed])
      (onItsOwn 76) ((queuedOuter.ran [.work .proceed]).ran (onItsOwn 76))
      pausedTwice ((queuedOuter.ran [.work .proceed]).ran pausedTwice) := by
  have happlying : queuedOuter.applying? .proceed = some (.push (nativeFrame outerMacro)) := by rfl
  have hqueue : queuedOuter.queue = [.push (nativeFrame outerMacro)] := by rfl
  have hstep : queuedOuter.take? .proceed = some (queuedOuter.ran [.work .proceed]) := by rfl
  have htimeless := withLibrary_isTimeless dryRun_isTimeless
  obtain ⟨hcalm, -⟩ := calm_of_applying happlying hqueue hstep (by rfl) (by rfl) (by rfl) htimeless
  have hsmooth : Smooth (queuedOuter.ran [.work .proceed]).core :=
    smooth_of_endsSmoothly 50 (by rfl)
  have hpausing : ∀ event ∈ pausedTwice, event.isPausing = true :=
    List.all_eq_true.mp (by rfl)
  have hresumed : IsResumed pausedTwice :=
    isResumed_of_last (forall_onItsOwn (P := (·.isOwn = true)) rfl 54)
  obtain ⟨-, hevery⟩ := pauses_unseen happlying hqueue hstep (by rfl) (by rfl) (by rfl) htimeless
    (hcalm.staysUntroubled hsmooth) hpausing hresumed (run?_eq_some_ran (by rfl))
  obtain ⟨-, hsame⟩ := hevery (onItsOwn 76) _ (forall_onItsOwn (P := (·.isOwn = true)) rfl 76)
    (run?_eq_some_ran (by rfl))
  refine ⟨by rfl, by rfl, hsame ?_ ?_⟩
  · intro ms branch
    cases branch <;> rfl
  · intro ms branch
    cases branch <;> rfl

end Engine

end CraftLang
