import CraftLang.Proofs.Engine.Readiness
import CraftLang.Proofs.Engine.Sights

/-!
Engines that are alike but for their pause gates. Without frames an engine looks at its gate only at
the end of its round, so up to there two of them go abreast, whatever callers do; and a call that
sets the gate makes them the same.
-/

namespace CraftLang

def Event.isStep {σ : Type} : Event σ → Bool
  | .work _ => true
  | _ => false

def Event.setsPause {σ : Type} : Event σ → Bool
  | .call asked => asked.setsPause
  | _ => false

/-- Whether an engine without frames does not look at its pause gate in this phase. -/
def Phase.isGateless : Phase → Bool
  | .top | .draining | .taken _ | .checkingReady | .blocked true | .closing | .stopped => true
  | _ => false

namespace Engine

variable {σ : Type} {e e' e₁ : Engine σ}

/-! ### Courses -/

/-- From `e` there is a way to `e'` on which the given sights are seen. -/
def Displays (e : Engine σ) (sights : List (Sight σ)) (e' : Engine σ) : Prop :=
  ∃ events, e.run? events = some e' ∧ e.sights events = sights

namespace Displays

variable {seen seen' : List (Sight σ)}

theorem refl (e : Engine σ) : Displays e [] e := ⟨[], rfl, rfl⟩

theorem trans (h : Displays e seen e₁) (h' : Displays e₁ seen' e') :
    Displays e (seen ++ seen') e' := by
  obtain ⟨events, hrun, rfl⟩ := h
  obtain ⟨events', hrun', rfl⟩ := h'
  exact ⟨events ++ events', by rw [run?_append, hrun, Option.bind_some, hrun'],
    sights_append hrun events'⟩

theorem of_on {event : Event σ} (hon : e.on? event = some e') :
    Displays e (e.sightsOn event) e' :=
  ⟨[event], by rw [run?, hon]; rfl, by rw [sights_cons hon]; exact List.append_nil _⟩

theorem of_take? {branch : Branch} (hstep : e.take? branch = some e') :
    Displays e (e.sightsOn (.work branch)) e' :=
  .of_on hstep

end Displays

theorem deedsOn_of_not_inTick (hphase : e.phase.inTick = false) (branch : Branch) :
    e.deedsOn (.work branch) = [] := by
  have hproceed := (idle_of_not_inTick hphase).1
  cases branch with
  | proceed => exact hproceed
  | interrupt | serve =>
      simp only [deedsOn, List.append_eq_nil_iff] at hproceed ⊢
      exact ⟨hproceed.1, rfl⟩

/-- Between two ticks nothing can be seen but what is published. -/
theorem sightsOn_of_not_inTick (hphase : e.phase.inTick = false) (branch : Branch) :
    e.sightsOn (.work branch) = (e.announcedOn (.work branch)).map .told := by
  rw [sightsOn, deedsOn_of_not_inTick hphase]
  rfl

theorem sightsOn_of_silent (hphase : e.phase.inTick = false) (hsilent : e.announces = false)
    (branch : Branch) : e.sightsOn (.work branch) = [] := by
  rw [sightsOn_of_not_inTick hphase, announcedOn_of_silent hsilent, List.map_nil]

theorem displays_of_silent {branch : Branch} (hphase : e.phase.inTick = false)
    (hsilent : e.announces = false) (hstep : e.take? branch = some e') : Displays e [] e' := by
  rw [← sightsOn_of_silent hphase hsilent branch]
  exact .of_take? hstep

theorem displays_proceed (hphase : e.phase.inTick = false) (hsilent : e.announces = false)
    (hstep : e.proceed? = some e') : Displays e [] e' :=
  have htake : e.take? .proceed = some e' := hstep
  displays_of_silent hphase hsilent htake

/-! ### Requests that do nothing -/

theorem clear_of_nil (h : e.stack = []) : e.clear = e := by
  obtain ⟨host, settings, world, catalog, now, pause, ready, cancel, pauseAtLoop, stopAtLoop,
    queue, published, stack, retired, phase⟩ := e
  cases h
  rfl

/-- Without frames there is nothing to clear and nothing to step over. -/
theorem apply_of_nil {request : Request} (h : e.stack = []) (hrequest : request.frame? = none) :
    e.apply request = e := by
  cases request with
  | push frame => cases hrequest
  | clear => exact clear_of_nil h
  | step =>
      cases hopen : e.pause.isOpen with
      | true => exact apply_step_of_open hopen
      | false =>
          rw [apply_step_of_closed hopen, updateTop, h]

/-- An engine without frames takes requests of which nothing comes without anybody seeing it. -/
theorem displays_drained {idle : List Request} (hphase : e.phase = .draining)
    (hstack : e.stack = []) (hidle : ∀ request ∈ idle, request.frame? = none) :
    Displays { e with queue := idle ++ e.queue } [] e := by
  induction idle with
  | nil => exact .refl e
  | cons request idle ih =>
      have htaken : Displays ({ e with queue := request :: idle ++ e.queue } : Engine σ) []
          { e with queue := request :: idle ++ e.queue, phase := .taken true } :=
        displays_proceed (by rw [hphase]; rfl) (by simp [announces, hphase])
          (by simp only [proceed?, hphase]; rfl)
      have happly : ({ e with queue := idle ++ e.queue, phase := .taken true } : Engine σ).apply
          request = { e with queue := idle ++ e.queue, phase := .taken true } :=
        apply_of_nil hstack (hidle request List.mem_cons_self)
      have hstep : ({ e with queue := request :: idle ++ e.queue, phase := .taken true } :
          Engine σ).proceed? = some { e with queue := idle ++ e.queue } := by
        simp only [proceed?, List.cons_append, happly]
        rw [← hphase]
        rfl
      have hfirst := htaken.trans (displays_proceed rfl rfl hstep)
      exact hfirst.trans (ih fun request hmem => hidle request (List.mem_cons_of_mem _ hmem))

/-! ### Events that are no steps -/

def placedAt (e : Engine σ) (pause : Gate) (phase : Phase) : Engine σ :=
  { e with pause, phase }

/-- The engine at another place in its work, with requests in front of its queue. -/
def backAt (e : Engine σ) (phase : Phase) (idle : List Request) : Engine σ :=
  { e with phase, queue := idle ++ e.queue }

/-- What an event that is no step of the engine leaves as it is. It happens all the same to the
engine at another place in its work. -/
structure Undergoes (event : Event σ) (e e' : Engine σ) : Prop where
  on : e.on? event = some e'
  phase : e'.phase = e.phase
  retired : e'.retired = e.retired
  published : e'.published = e.published
  stack : e'.stack.map Frame.unfed = e.stack.map Frame.unfed
  pause : event.setsPause = false → e'.pause = e.pause
  recast (pause : Gate) (phase : Phase) {idle : List Request} (published : EngineStatus)
    (hphase : phase.EndsAlike e.phase) (hidle : ∀ request ∈ idle, request.frame? = none) :
    (e.recast pause phase idle e.retired published).on? event =
      some (e'.recast (if event.setsPause then e'.pause else pause) phase idle e'.retired published)

/-- What is no step can happen to any engine, whatever it is about. -/
theorem undergoes_of_not_isStep {event : Event σ} (hstep : event.isStep = false) (e : Engine σ) :
    ∃ e', Undergoes event e e' := by
  cases event with
  | work branch => cases hstep
  | pass ms | change world => exact ⟨_, rfl, rfl, rfl, rfl, rfl, fun _ => rfl,
    fun _ _ _ _ _ _ => rfl⟩
  | call asked =>
      have hleaves := e.receive_leavesWork asked
      refine ⟨_, rfl, hleaves.phase, hleaves.retired, hleaves.published, hleaves.stack,
        fun hsets => receive_pause e hsets, fun pause phase idle published hphase hidle => ?_⟩
      have hrecast : (e.recast pause phase idle e.retired published).receive asked = _ :=
        receive_recast hphase hidle asked
      refine congrArg some (hrecast.trans ?_)
      rw [← hleaves.retired]
      rfl

theorem undergoes_of_on {event : Event σ} (hstep : event.isStep = false)
    (hon : e.on? event = some e') : Undergoes event e e' := by
  obtain ⟨e₁, hunder⟩ := undergoes_of_not_isStep hstep e
  obtain rfl := Option.some.inj (hunder.on.symm.trans hon)
  exact hunder

namespace Undergoes

variable {event : Event σ}

theorem stack_nil (h : Undergoes event e e') (hstack : e.stack = []) : e'.stack = [] := by
  have hnil := h.stack
  rw [hstack, List.map_nil] at hnil
  exact List.map_eq_nil_iff.mp hnil

theorem placedAt (h : Undergoes event e e') (pause : Gate) {phase : Phase}
    (hphase : phase.EndsAlike e.phase) :
    (e.placedAt pause phase).on? event =
      some (e'.placedAt (if event.setsPause then e'.pause else pause) phase) := by
  have hrecast : (e.placedAt pause phase).on? event = _ :=
    h.recast pause phase e.published hphase (List.forall_mem_nil _)
  rw [hrecast, ← h.published]
  rfl

theorem backAt (h : Undergoes event e e') (phase : Phase) {idle : List Request}
    (hphase : phase.EndsAlike e.phase) (hidle : ∀ request ∈ idle, request.frame? = none) :
    (e.backAt phase idle).on? event = some (e'.backAt phase idle) := by
  have hrecast : (e.backAt phase idle).on? event = _ :=
    h.recast e.pause phase e.published hphase hidle
  have hgate : (if event.setsPause then e'.pause else e.pause) = e'.pause := by
    cases hsets : event.setsPause with
    | true => rfl
    | false => exact (h.pause hsets).symm
  rw [hrecast, hgate, ← h.published]
  rfl

end Undergoes

/-- As long as an engine takes no step, it stays where it is in its work, and its frames are
there. -/
theorem run?_of_not_isStep {events : List (Event σ)} (hsteps : ∀ event ∈ events,
    event.isStep = false) (hrun : e.run? events = some e') :
    e'.phase = e.phase ∧ e'.retired = e.retired ∧
      e'.stack.map Frame.unfed = e.stack.map Frame.unfed := by
  refine run?_keeps (P := fun e' => e'.phase = e.phase ∧ e'.retired = e.retired ∧
    e'.stack.map Frame.unfed = e.stack.map Frame.unfed) ?_ ⟨rfl, rfl, rfl⟩ hrun
  intro event hmem e₁ e₂ ⟨hphase, hretired, hstack⟩ hon
  have hunder := undergoes_of_on (hsteps event hmem) hon
  exact ⟨hunder.phase.trans hphase, hunder.retired.trans hretired, hunder.stack.trans hstack⟩

/-- What the engine is about to print it prints with its next step, whatever callers do before that,
and until then its frames are there. -/
theorem prints_next {call : HostCall} {after : Aftermath} (hphase : e.phase = .printing call after)
    {calls : List (Event σ)} (hcalls : ∀ event ∈ calls, event.isStep = false)
    (hrun : e.run? calls = some e') :
    e'.stack.map Frame.unfed = e.stack.map Frame.unfed ∧ e'.retired = e.retired ∧
      (∀ branch, branch ≠ .proceed → e'.take? branch = none) ∧
      (e'.take? .proceed = some ({ e' with world := e'.worldAfter [call] }.conclude after) ∨
        (e'.ask call).1.toOption = none ∧
          e'.take? .proceed =
            some { e' with world := e'.worldAfter [call], phase := .broken }) := by
  obtain ⟨hsame, hretired, hstack⟩ := run?_of_not_isStep hcalls hrun
  have hphase' := hsame.trans hphase
  have hprint : e'.take? .proceed = some (e'.print call after) := by
    simp only [take?, proceed?, hphase']
  refine ⟨hstack, hretired, fun branch hne => ?_, ?_⟩
  · rw [Option.eq_none_iff_forall_ne_some]
    exact fun e₁ hstep => hne (proceed_of_take? (by simp [isWaiting, hphase']) hstep).1
  · rcases e'.print_worldAfter call after with hprinted | ⟨hfails, hbroken⟩
    · exact .inl (hprint.trans (congrArg some hprinted))
    · exact .inr ⟨hfails, hprint.trans (congrArg some hbroken)⟩

theorem sightsOn_of_not_isStep {event : Event σ} (hstep : event.isStep = false) (e : Engine σ) :
    e.sightsOn event = [.met event] := by
  cases event with
  | work branch => cases hstep
  | call | pass | change => rfl

/-! ### Without frames -/

/-- An engine without frames and with a closed gate, as it is when it is fresh. -/
structure Hollow (e : Engine σ) : Prop where
  stack : e.stack = []
  pause : e.pause = .closed

variable {f f' g g' : Engine σ} {branch : Branch}

theorem Hollow.goto (h : Hollow g) (phase : Phase) : Hollow (g.goto phase) := ⟨h.stack, h.pause⟩

theorem Hollow.undergo {event : Event σ} (h : Hollow g) (hunder : Undergoes event g g')
    (hsets : event.setsPause = false) : Hollow g' :=
  ⟨hunder.stack_nil h.stack, (hunder.pause hsets).trans h.pause⟩

/-- A request after which the gate is still closed was none for a frame. -/
theorem apply_of_hollow {request : Request} (hstack : e.stack = []) (h : Hollow (e.apply request)) :
    request.frame? = none ∧ e.apply request = e := by
  have hframe : request.frame? = none := by
    cases request with
    | push frame => cases h.pause
    | clear | step => rfl
  exact ⟨hframe, apply_of_nil hstack hframe⟩

def ajar (e : Engine σ) : Engine σ := e.placedAt .opened e.phase

/-- What a request does behind a closed gate it does behind an open one, or nothing comes of it. -/
theorem apply_ajar (hg : Hollow g) (request : Request) :
    g.ajar.apply request = g.apply request ∨
      request.frame? = none ∧ g.ajar.apply request = g.ajar ∧ g.apply request = g := by
  cases hframe : request.frame? with
  | some frame =>
      cases request with
      | push frame => exact .inl rfl
      | clear | step => cases hframe
  | none => exact .inr ⟨rfl, apply_of_nil hg.stack hframe, apply_of_nil hg.stack hframe⟩

/-- Two engines abreast: with each step they come to be the same, or they stay abreast. -/
def Abreast (branch : Branch) (g : Engine σ) : Prop :=
  g.ajar.take? branch = g.take? branch ∨
    (∀ g', g.take? branch = some g' → Hollow g') ∧
      g.ajar.take? branch = (g.take? branch).map ajar

/-- The first request is carried out on both sides. -/
theorem abreast_of_apply {queue : List Request} {request : Request} {drains : Bool} (hg : Hollow g)
    (hphase : g.phase = .taken drains) (hqueue : g.queue = request :: queue) :
    Abreast .proceed g := by
  have hrest : Hollow ({ g with queue } : Engine σ) := ⟨hg.stack, hg.pause⟩
  have htake : g.take? .proceed =
      some (({ g with queue }.apply request).goto (if drains then .draining else .top)) := by
    simp only [take?, proceed?, hphase, hqueue]
  have hajar : g.ajar.take? .proceed =
      some ((({ g with queue } : Engine σ).ajar.apply request).goto
        (if drains then .draining else .top)) := by
    simp only [take?, proceed?, ajar, placedAt, hphase, hqueue]
  rcases apply_ajar hrest request with happly | ⟨-, happly, hsame⟩
  · exact .inl (by rw [htake, hajar, happly])
  · rw [hsame] at htake
    rw [happly] at hajar
    refine .inr ⟨fun g' hg' => ?_, by rw [htake, hajar]; rfl⟩
    obtain rfl := Option.some.inj (htake.symm.trans hg')
    exact hrest.goto _

theorem abreast_interrupt (hg : Hollow g) : Abreast .interrupt g := by
  have hwaiting : g.ajar.isWaiting = g.isWaiting := rfl
  have hcancel : g.ajar.cancel = g.cancel := rfl
  refine .inr ⟨fun g' hg' => ?_, ?_⟩
  · simp only [take?, interrupt?, Option.ite_none_right_eq_some, Option.some.injEq] at hg'
    rw [← hg'.2]
    exact hg.goto _
  · cases h : g.cancel.isCancelled && g.isWaiting <;>
      simp only [take?, interrupt?, hwaiting, hcancel, h, if_true, if_false, Bool.false_eq_true] <;>
      rfl

theorem abreast_serve (hg : Hollow g) : Abreast .serve g := by
  refine .inr ⟨fun g' hg' => ?_, ?_⟩
  · simp only [take?, serve?] at hg'
    split at hg'
    · simp only [Option.ite_none_left_eq_some, Option.some.injEq] at hg'
      exact hg'.2 ▸ hg.goto _
    · cases hg'
  · cases hp : g.phase with
    | blocked forReady =>
        cases hqueue : g.queue <;> simp [take?, serve?, ajar, placedAt, goto, hp, hqueue]
    | _ => simp [take?, serve?, ajar, placedAt, hp]

theorem abreast_proceed (hg : Hollow g) (hphase : g.phase.isGateless = true) :
    Abreast .proceed g := by
  have hto (g' : Engine σ) (h : g.proceed? = some g') (hajar : g.ajar.proceed? = some g'.ajar)
      (hhollow : Hollow g') : Abreast .proceed g := by
    refine .inr ⟨fun g₁ hg₁ => ?_, hajar.trans (congrArg (Option.map ajar) h).symm⟩
    obtain rfl := Option.some.inj (h.symm.trans hg₁)
    exact hhollow
  cases hp : g.phase with
  | top =>
      refine hto (g.goto (if g.cancel.isCancelled then .closing else .draining)) ?_ ?_
        (hg.goto _)
      · simp only [proceed?, hp]
      · simp only [proceed?, ajar, placedAt, hp]
        rfl
  | draining =>
      refine hto (g.goto (if g.queue.isEmpty then .checkingReady else .taken true)) ?_ ?_
        (hg.goto _)
      · simp only [proceed?, hp]
      · simp only [proceed?, ajar, placedAt, hp]
        rfl
  | taken drains =>
      cases hqueue : g.queue with
      | nil =>
          refine hto (g.goto (if drains then .draining else .top)) ?_ ?_ (hg.goto _)
          · simp only [proceed?, hp, hqueue]
          · simp only [proceed?, ajar, placedAt, goto, hp, hqueue]
      | cons request queue => exact abreast_of_apply hg hp hqueue
  | checkingReady =>
      cases hready : g.ready.isOpen with
      | true =>
          refine hto (g.goto .checkingPause) ?_ ?_ (hg.goto _)
          · simp only [proceed?, hp, hready, if_true]
          · simp only [proceed?, ajar, placedAt, hp, hready, if_true]
            rfl
      | false =>
          refine hto ((g.clear.publish .notReady).goto (.blocked true)) ?_ ?_ ⟨rfl, hg.pause⟩
          · simp only [proceed?, hp, hready, if_false, Bool.false_eq_true]
          · simp only [proceed?, ajar, placedAt, hp, hready, if_false, Bool.false_eq_true]
            rfl
  | blocked forReady =>
      cases forReady with
      | false => simp [hp, Phase.isGateless] at hphase
      | true =>
          cases hready : g.ready.isOpen with
          | true =>
              refine hto (g.goto .top) ?_ ?_ (hg.goto _)
              · simp only [proceed?, hp, hready, if_true]
              · simp only [proceed?, ajar, placedAt, hp, hready, if_true]
                rfl
          | false =>
              refine .inl ?_
              simp only [take?, proceed?, ajar, placedAt, hp, hready, if_false, Bool.false_eq_true]
  | closing =>
      refine hto ({ g.clear.publish .stopped with queue := [] }.goto .stopped) ?_ ?_
        ⟨rfl, hg.pause⟩
      · simp only [proceed?, hp]
      · simp only [proceed?, ajar, placedAt, hp]
        rfl
  | stopped =>
      refine .inl ?_
      simp only [take?, proceed?, ajar, placedAt, hp]
  | _ => simp [hp, Phase.isGateless] at hphase

theorem abreast_of_gateless (hg : Hollow g) (hphase : g.phase.isGateless = true) (branch : Branch) :
    Abreast branch g := by
  cases branch with
  | interrupt => exact abreast_interrupt hg
  | proceed => exact abreast_proceed hg hphase
  | serve => exact abreast_serve hg

/-- Nobody can tell the two apart on the way. -/
theorem sightsOn_ajar (hg : Hollow g) (hphase : g.phase.isGateless = true) (branch : Branch) :
    g.ajar.sightsOn (.work branch) = g.sightsOn (.work branch) := by
  have htick : g.phase.inTick = false := by
    cases hp : g.phase <;> simp_all [Phase.isGateless, Phase.inTick]
  have hannounces : g.ajar.announces = g.announces := by
    simp only [announces, ajar, placedAt]
    cases hp : g.phase <;> simp_all [Phase.isGateless]
  have hpublished : (g.ajar.take? branch).map published = (g.take? branch).map published := by
    rcases abreast_of_gateless hg hphase branch with h | ⟨-, h⟩
    · rw [h]
    · rw [h, Option.map_map]
      rfl
  have hannounced : g.ajar.announcedOn (.work branch) = g.announcedOn (.work branch) := by
    cases branch with
    | interrupt | serve => rfl
    | proceed =>
        have hproceed : (g.ajar.proceed?).map published = (g.proceed?).map published := hpublished
        simp only [announcedOn, hannounces, hproceed]
  rw [sightsOn_of_not_inTick htick, sightsOn_of_not_inTick (e := g.ajar) htick, hannounced]

/-- A step behind the open gate is one behind the closed gate. -/
theorem ajar_step (hg : Hollow g) (hphase : g.phase.isGateless = true)
    (hstep : g.ajar.take? branch = some f') :
    ∃ g', g.take? branch = some g' ∧ (f' = g' ∨ f' = g'.ajar ∧ Hollow g') := by
  rcases abreast_of_gateless hg hphase branch with h | ⟨hhollow, h⟩
  · exact ⟨f', h.symm.trans hstep, .inl rfl⟩
  · obtain ⟨g', hg', rfl⟩ := Option.map_eq_some_iff.mp (h.symm.trans hstep)
    exact ⟨g', hg', .inr ⟨rfl, hhollow g' hg'⟩⟩

/-- An event that is no step makes the two the same by setting their gates, or leaves them
abreast. -/
theorem Undergoes.ajar {event : Event σ} (h : Undergoes event g g')
    (hon : g.ajar.on? event = some f') : f' = g' ∨ event.setsPause = false ∧ f' = g'.ajar := by
  have hplaced := h.placedAt .opened (.refl g.phase)
  obtain rfl := Option.some.inj (hplaced.symm.trans hon)
  rw [← h.phase]
  cases hsets : event.setsPause with
  | true => exact .inl rfl
  | false => exact .inr ⟨rfl, rfl⟩

end Engine

end CraftLang
