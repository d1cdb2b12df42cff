import CraftLang.Host.DryRun
import CraftLang.Proofs.Engine.Origins
import CraftLang.Proofs.Engine.Rounds

/-!
How a loss of readiness reaches the frames. The ready gate is looked at once in a round, before a
command is looked for. A host that is not ready at that moment costs all frames on the stack, even
if it is ready again right after; a loss that is over by then is not noticed.
-/

namespace CraftLang

def Event.makesReady {σ : Type} : Event σ → Bool
  | .call (.setReady isReady) => isReady
  | _ => false

namespace Engine

variable {σ : Type} {e e' : Engine σ}

@[simp] theorem send_ready (e : Engine σ) (request : Request) :
    (e.send request).ready = e.ready := by
  unfold send
  split <;> rfl

/-- Only one call touches the ready gate. -/
theorem receive_ready (e : Engine σ) {asked : Call} (hasked : ∀ isReady,
    asked ≠ .setReady isReady) : (e.receive asked).ready = e.ready := by
  cases asked with
  | setReady isReady => exact absurd rfl (hasked isReady)
  | enqueue stored loops =>
      obtain ⟨world, h | ⟨frame, h⟩⟩ := e.enqueue_cases stored loops
      · rw [receive, h]
      · rw [receive, h, send_ready]
  | runByName name loops =>
      obtain ⟨world, h | ⟨frame, h⟩⟩ := e.runByName_cases name loops
      · rw [receive, h]
      · rw [receive, h, send_ready]
  | enqueueSource | step => exact send_ready _ _
  | pause atLoop => cases atLoop <;> rfl
  | stop atLoop =>
      cases atLoop with
      | true => rfl
      | false => exact send_ready _ _
  | feed id item =>
      obtain h | ⟨f, h⟩ := e.feed_snd id item
      · rw [receive, h]
      · rw [receive, h]
        rfl
  | resume | shutdown | closeChannel => rfl

theorem apply_ready (e : Engine σ) (request : Request) : (e.apply request).ready = e.ready := by
  cases request with
  | push | clear => rfl
  | step => exact (apply_step_spares e).ready

/-- The engine never touches the ready gate by itself. -/
theorem Step.ready {branch : Branch} (h : Step e branch e') : e'.ready = e.ready := by
  cases h with
  | tick hphase hstep => exact (spares_of_inTick hphase hstep).ready
  | round hround => cases hround <;> rfl
  | interrupted | served => rfl
  | applied => exact apply_ready _ _

theorem on?_unready {event : Event σ} (hevent : event.makesReady = false)
    (hready : e.ready.isOpen = false) (hon : e.on? event = some e') : e'.ready.isOpen = false := by
  cases event with
  | work branch => rw [(step_of_take? hon).ready, hready]
  | call asked =>
      cases hon
      by_cases hasked : ∃ isReady, asked = .setReady isReady
      · obtain ⟨isReady, rfl⟩ := hasked
        exact hevent
      · rw [receive_ready e fun isReady h => hasked ⟨isReady, h⟩, hready]
  | pass ms | change world =>
      cases hon
      exact hready

/-- Behind a closed ready gate at most the command of the round starts. -/
theorem run?_unready {events : List (Event σ)} (hevents : ∀ event ∈ events,
    event.makesReady = false) (hready : e.ready.isOpen = false) (hrun : e.run? events = some e') :
    e'.ready.isOpen = false ∧ (e.started events).length ≤ e.phase.ahead false := by
  induction events generalizing e with
  | nil =>
      cases hrun
      exact ⟨hready, Nat.zero_le _⟩
  | cons event events ih =>
      obtain ⟨e₁, hon, hrest⟩ := run?_cons_eq_some.mp hrun
      have hready₁ := on?_unready (hevents event List.mem_cons_self) hready hon
      obtain ⟨hready', hlater⟩ :=
        ih (fun event hmem => hevents event (List.mem_cons_of_mem _ hmem)) hready₁ hrest
      have hfirst : (e.startedOn event).length + e₁.phase.ahead false ≤ e.phase.ahead false :=
        on?_ahead hon nofun fun hopen => hready.symm.trans hopen
      refine ⟨hready', ?_⟩
      rw [started_cons hon, List.length_append]
      omega

/-- The look at a closed ready gate costs all frames. -/
theorem check_unready (hphase : e.phase = .checkingReady) (hready : e.ready.isOpen = false) :
    ∃ e', e.on? (.work .proceed) = some e' ∧ e'.stack = [] ∧
      e'.retired = e.retired + e.stack.length := by
  refine ⟨(e.clear.publish .notReady).goto (.blocked true), ?_, rfl, rfl⟩
  simp [on?, take?, proceed?, hphase, hready]

end Engine

namespace Dated

variable {σ : Type} {d d' : Dated σ} {event : Event σ} {events : List (Event σ)}

theorem on?_of_engine {engine : Engine σ} (h : d.engine.on? event = some engine) :
    ∃ d', d.on? event = some d' ∧ d'.engine = engine := by
  simp [on?, h]

/-- What is in the queue, and what will come, is later than all frames on the stack. -/
theorem Valid.exists_bound (h : d.Valid) :
    ∃ bound, (∀ origin ∈ d.origins, origin < bound) ∧
      ∀ call ∈ d.sent ++ [d.calls], bound ≤ call := by
  have hbefore := h.before
  have hsorted := h.sorted
  obtain ⟨bound, later, hlist⟩ := List.exists_cons_of_ne_nil
    (List.append_ne_nil_of_right_ne_nil d.sent (List.cons_ne_nil d.calls []))
  rw [hlist] at hbefore hsorted ⊢
  refine ⟨bound, fun origin hmem => hbefore origin hmem bound List.mem_cons_self, ?_⟩
  intro call hcall
  rcases List.mem_cons.mp hcall with rfl | hlater
  · exact Nat.le_refl _
  · exact Nat.le_of_lt ((List.pairwise_cons.mp hsorted).1 call hlater)

theorem run?_later {bound : Nat} (hvalid : d.Valid)
    (hbound : ∀ call ∈ d.sent ++ [d.calls], bound ≤ call) (hrun : d.run? events = some d') :
    ∀ call ∈ d'.sent ++ [d'.calls], bound ≤ call := by
  have hkeeps := run?_keeps
    (P := fun d => d.Valid ∧ ∀ call ∈ d.sent ++ [d.calls], bound ≤ call)
    (fun _ _ _ h hon => ⟨h.1.on hon, (on?_queues h.1.sent_length hon).later h.2⟩)
    ⟨hvalid, hbound⟩ hrun
  exact hkeeps.2

/-- After readiness is lost, and as long as nobody reports that it is back, at most one further
command starts, and that only if the engine was past the ready gate in its round. When the engine
looks at the ready gate then, all frames on the stack are retired. Of the frames that were on the
stack when readiness was lost none ever comes back and no command starts, whatever callers do after
that look. -/
theorem setReady_false_lasts (host : Host σ) (settings : Settings) (world : σ) (catalog : Catalog)
    {before after : List (Event σ)} {d d₁ : Dated σ}
    (hbefore : (spawn host settings world catalog).run? before = some d)
    (hunready : ∀ event ∈ after, event.makesReady = false)
    (hafter : d.run? (.call (.setReady false) :: after) = some d₁) :
    (d.engine.started (.call (.setReady false) :: after)).length ≤ d.engine.phase.ahead false ∧
      d.engine.phase.ahead false ≤ 1 ∧
      (d₁.engine.phase = .checkingReady →
        ∃ d₂, d₁.on? (.work .proceed) = some d₂ ∧ d₂.engine.stack = [] ∧
          d₂.engine.retired = d₁.engine.retired + d₁.engine.stack.length ∧
          ∀ more d₃, d₂.run? more = some d₃ →
            (∀ origin ∈ d.origins, origin ∉ d₃.origins) ∧
              d₂.startedFrom (· ∈ d.origins) more = []) := by
  have hvalid := (spawn_valid host settings world catalog).run hbefore
  have hvalid₁ := hvalid.run hafter
  obtain ⟨lost, hlost, hrun⟩ := run?_cons_eq_some.mp hafter
  have hengine : d.engine.on? (.call (.setReady false)) = some lost.engine := on?_engine hlost
  have hclosed : lost.engine.ready.isOpen = false := by rw [← Option.some.inj hengine]; rfl
  have hphase : lost.engine.phase = d.engine.phase := by rw [← Option.some.inj hengine]; rfl
  obtain ⟨hready₁, hstarted⟩ := Engine.run?_unready hunready hclosed (run?_engine_of_some hrun)
  refine ⟨?_, Phase.ahead_le_one _ _, fun hcheck => ?_⟩
  · rw [Engine.started_cons hengine, ← hphase]
    exact hstarted
  · obtain ⟨engine, hon, hstack, hretired⟩ := Engine.check_unready hcheck hready₁
    obtain ⟨d₂, hon₂, rfl⟩ := on?_of_engine hon
    have hvalid₂ := hvalid₁.on hon₂
    refine ⟨d₂, hon₂, hstack, hretired, fun more d₃ hmore => ?_⟩
    obtain ⟨bound, hbefore, hlater⟩ := hvalid.exists_bound
    have horigins : d₂.origins = [] := by
      rw [← List.length_eq_zero_iff, hvalid₂.origins_length, hstack, List.length_nil]
    have hsince : Since bound d₂ := by
      unfold Since
      rw [horigins, List.nil_append]
      exact (on?_queues hvalid₁.sent_length hon₂).later (run?_later hvalid hlater hafter)
    refine ⟨fun origin hmem hback => ?_, startedFrom_of_since (fun call hcall => ?_) hvalid₂ hsince
      hmore⟩
    · have hle := hsince.run hvalid₂ hmore origin (List.mem_append_left _ hback)
      exact absurd (hbefore origin hmem) (Nat.not_lt.mpr hle)
    · exact hbefore call (of_decide_eq_true hcall)

def delayedTriple (steps : Nat) : Dated DryRun :=
  (spawn DryRun.host {} {}).ran
    (.call (.enqueue { name := "Triple", contents := "/a <wait.10>\n/b\n/c" } none) ::
      Engine.onItsOwn steps)

/-- Readiness is lost while the engine looks for the first command; then the engine works until it
looks at the ready gate. -/
def lostForLong : List (Event DryRun) :=
  .call (.setReady false) :: Engine.onItsOwn 4 ++ .pass 10000 :: Engine.onItsOwn 3

theorem setReady_false_lasts_delayedTriple :
    ((delayedTriple 6).engine.started lostForLong).length ≤
        (delayedTriple 6).engine.phase.ahead false ∧
      (delayedTriple 6).origins = [0] ∧
      ((delayedTriple 6).ran lostForLong).engine.phase = .checkingReady ∧
      ((delayedTriple 6).ran lostForLong).engine.retired = 0 ∧
      ∃ d, ((delayedTriple 6).ran lostForLong).on? (.work .proceed) = some d ∧
        d.engine.stack = [] ∧ d.engine.retired = 1 ∧
        ∀ more d', d.run? (.call (.setReady true) :: more) = some d' →
          (∀ origin ∈ [0], origin ∉ d'.origins) ∧
            d.startedFrom (· ∈ [0]) (.call (.setReady true) :: more) = [] := by
  have hbefore : (spawn DryRun.host {} {}).run? _ = some (delayedTriple 6) :=
    run?_eq_some_ran (by rfl)
  have hunready : ∀ event ∈ lostForLong.tail, event.makesReady = false := by
    simp [lostForLong, Engine.onItsOwn, Event.makesReady]
  have hafter : (delayedTriple 6).run? lostForLong = some _ := run?_eq_some_ran (by rfl)
  obtain ⟨hstarted, -, hcheck⟩ :=
    setReady_false_lasts DryRun.host {} {} {} hbefore hunready hafter
  obtain ⟨d, hon, hstack, hretired, hgone⟩ := hcheck (by rfl)
  exact ⟨hstarted, by rfl, by rfl, by rfl, d, hon, hstack, hretired, fun more d' hmore =>
    hgone _ d' hmore⟩

/-- Readiness is lost during the delay of the first command, and is back before the delay is
over. -/
def lostForShort : List (Event DryRun) :=
  .call (.setReady false) :: .call (.setReady true) :: .pass 10000 :: Engine.onItsOwn 15

/-- A loss of readiness that is over before the engine looks at the ready gate changes nothing: both
commands that are left are started, and no frame is retired. -/
theorem setReady_false_passed_delayedTriple :
    (delayedTriple 10).engine.Reachable ∧
      ((delayedTriple 10).run? lostForShort).isSome = true ∧
      ((delayedTriple 10).startedFrom (· ∈ (delayedTriple 10).origins) lostForShort).length = 2 ∧
      ((delayedTriple 10).ran lostForShort).engine.retired = 0 := by
  have hrun : (spawn DryRun.host {} {}).run? _ = some (delayedTriple 10) :=
    run?_eq_some_ran (by rfl)
  exact ⟨((spawn_valid DryRun.host {} {} {}).run hrun).reachable, by rfl, by rfl, by rfl⟩

end Dated

end CraftLang
