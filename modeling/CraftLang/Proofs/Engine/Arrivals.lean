import CraftLang.Proofs.Engine.Restacking
import CraftLang.Proofs.Frame.Reach

/-!
Frames that come to an engine. Callers and commands build the frames that they want to run, so a
frame comes into the queue and to the stack as it was built. While it is in the queue callers can
feed its source, and nothing else happens to it.
-/

namespace CraftLang

/-- The values that an action on behalf of a caller comes to are among those it can come to. -/
theorem Program.Ends.of_run {σ α : Type} {P : α → Prop} {host : Host σ} {action : Action α}
    {value : α} {timeline after : Timeline σ} (h : action.Ends P)
    (hrun : timeline.run host action = (.ok value, after)) : P value := by
  induction action generalizing timeline with
  | done found =>
      cases hrun
      exact h
  | call effect next ih =>
      rw [Timeline.run] at hrun
      split at hrun
      · next reply _ _ => exact ih reply (h reply) hrun
      · cases hrun

namespace Engine

variable {σ : Type} {e e' : Engine σ}

/-! ### The queue -/

theorem queuedFrames_send (e : Engine σ) (request : Request) :
    ∀ frame ∈ (e.send request).queuedFrames,
      frame ∈ e.queuedFrames ∨ request.frame? = some frame := by
  intro frame hmem
  unfold queuedFrames at hmem
  rcases send_queue e request with hqueue | hqueue
  · rw [hqueue] at hmem
    exact .inl hmem
  · rw [hqueue, List.filterMap_append, List.mem_append] at hmem
    refine hmem.imp_right fun hlast => ?_
    obtain ⟨last, hone, hframe⟩ := List.mem_filterMap.mp hlast
    rw [← List.mem_singleton.mp hone]
    exact hframe

/-- A frame that is queued after a call was queued before, but for what is pending in it, or is
new. -/
theorem receive_queuedFrames_cases (e : Engine σ) (call : Call) :
    ∀ frame ∈ (e.receive call).queuedFrames,
      frame.IsNew ∨ frame.unfed ∈ e.queuedFrames.map Frame.unfed := by
  have hquiet (hcall : call.opensGate = false) : ∀ frame ∈ (e.receive call).queuedFrames,
      frame.IsNew ∨ frame.unfed ∈ e.queuedFrames.map Frame.unfed :=
    fun frame hmem => .inr (e.receive_queuedFrames hcall ▸ List.mem_map_of_mem hmem)
  have hsend {e : Engine σ} {new : Frame} (hnew : new.IsNew) :
      ∀ frame ∈ (e.send (.push new)).queuedFrames,
        frame.IsNew ∨ frame.unfed ∈ e.queuedFrames.map Frame.unfed := by
    intro frame hmem
    rcases queuedFrames_send e _ frame hmem with hold | hpushed
    · exact .inr (List.mem_map_of_mem hold)
    · cases hpushed
      exact .inl hnew
  have henqueue (e : Engine σ) (stored : StoredMacro) (loops : Option Int) :
      ∀ frame ∈ (e.enqueue stored loops).2.queuedFrames,
        frame.IsNew ∨ frame.unfed ∈ e.queuedFrames.map Frame.unfed := by
    have hends := Frame.ofStored_isNew e.settings.craftLoop stored loops
    unfold enqueue callHost
    rcases hrun : Timeline.run e.host (Frame.ofStored e.settings.craftLoop stored loops)
      { world := e.world, now := e.now } with ⟨error | found, after⟩
    · exact fun frame hmem => .inr (List.mem_map_of_mem hmem)
    · cases found with
      | error error => exact fun frame hmem => .inr (List.mem_map_of_mem hmem)
      | ok new => exact hsend (e := { e with world := after.world }) (hends.of_run hrun new rfl)
  cases call with
  | enqueue stored loops => exact henqueue e stored loops
  | enqueueSource name source => exact hsend (.ofSource _ _)
  | runByName name loops =>
      show ∀ frame ∈ (e.runByName name loops).2.queuedFrames, _
      unfold runByName callHost
      rcases Timeline.run e.host (Execute.resolveMacro name)
        { world := e.world, now := e.now } with ⟨error | found, after⟩
      · exact fun frame hmem => .inr (List.mem_map_of_mem hmem)
      · cases found with
        | error error => exact fun frame hmem => .inr (List.mem_map_of_mem hmem)
        | ok stored => exact henqueue { e with world := after.world } stored loops
  | resume => exact fun frame hmem => .inr (List.mem_map_of_mem hmem)
  | pause | stop | step | setReady | shutdown | feed | closeChannel => exact hquiet rfl

theorem on?_queuedFrames_isNew {event : Event σ} (h : ∀ frame ∈ e.queuedFrames, frame.IsNew)
    (hon : e.on? event = some e') : ∀ frame ∈ e'.queuedFrames, frame.IsNew := by
  cases event with
  | work branch =>
      intro frame hmem
      exact h frame ((step_of_take? hon).admittedOn_append.subset (List.mem_append_right _ hmem))
  | call asked =>
      cases hon
      intro frame hmem
      rcases e.receive_queuedFrames_cases asked frame hmem with hnew | hold
      · exact hnew
      · obtain ⟨old, hqueued, hunfed⟩ := List.mem_map.mp hold
        exact (h old hqueued).of_unfed hunfed.symm
  | pass ms | change world =>
      cases hon
      exact h

/-- The frames in the queue are new. -/
theorem Reachable.isNew_of_queued (h : e.Reachable) : ∀ frame ∈ e.queuedFrames, frame.IsNew := by
  induction h with
  | spawn => exact List.forall_mem_nil _
  | on event _ hon ih => exact on?_queuedFrames_isNew ih hon

/-! ### The stack -/

/-- A frame that a command puts on top of its own is new. -/
theorem Reachable.isNew_of_nesting? (h : e.Reachable) {frame : Frame}
    (hnesting : e.nesting? = some frame) : frame.IsNew := by
  unfold nesting? at hnesting
  split at hnesting
  · next executed text delay hphase =>
      have hatWork := h.atWork
      simp only [AtWork, hphase] at hatWork
      obtain ⟨command, -, -, hleads⟩ := hatWork
      have hresult : executed.result = .ok (.push frame) := by
        unfold Executed.frame? at hnesting
        split at hnesting
        · next heq =>
            cases hnesting
            exact heq
        · cases hnesting
      exact hleads.ends (command.execute_startsAfresh e.settings) frame hresult
  · cases hnesting

/-- Every frame is new when it comes to the stack. -/
theorem Reachable.isNew_of_placed (h : e.Reachable) {event : Event σ}
    (hon : e.on? event = some e') : ∀ frame ∈ e.placedOn event, frame.IsNew := by
  cases event with
  | work branch =>
      intro frame hmem
      rcases List.mem_append.mp hmem with hadmitted | hnested
      · have hqueued := (step_of_take? hon).admittedOn_append.subset
          (List.mem_append_left _ hadmitted)
        exact h.isNew_of_queued frame hqueued
      · exact h.isNew_of_nesting? (Option.mem_toList.mp hnested)
  | call | pass | change => exact List.forall_mem_nil _

end Engine

end CraftLang
