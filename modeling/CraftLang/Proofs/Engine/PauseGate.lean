import CraftLang.Host.DryRun
import CraftLang.Proofs.Engine.Callers
import CraftLang.Proofs.Engine.Work

/-!
How long a pause lasts. The pause gate is closed at once, but a frame that is in the queue opens
it again when it comes to the stack, even if its request was taken before the pause. Until then the
engine starts at most one command: the one whose tick it had begun when the gate was closed.
-/

namespace CraftLang

/-- Whether a call opens the pause gate, at once or when the engine carries out its request. -/
def Call.opensGate : Call → Bool
  | .resume | .enqueue .. | .enqueueSource .. | .runByName .. => true
  | _ => false

def Event.opensGate {σ : Type} : Event σ → Bool
  | .call asked => asked.opensGate
  | _ => false

theorem Gate.eq_closed {gate : Gate} (h : gate.isOpen = false) : gate = .closed := by
  cases gate
  cases h
  rfl

namespace Engine

variable {σ : Type}

/-! ### Frames in the queue -/

/-- The frames in the queue, in the order in which they come to the stack. -/
def queuedFrames (e : Engine σ) : List Frame := e.queue.filterMap Request.frame?

/-- The frames that come from the queue to the stack on an event. -/
def admittedOn (e : Engine σ) : Event σ → List Frame
  | .work branch => ((e.applying? branch).bind Request.frame?).toList
  | _ => []

def admitted (e : Engine σ) : List (Event σ) → List Frame
  | [] => []
  | event :: events =>
    match e.on? event with
    | none => []
    | some e' => e.admittedOn event ++ e'.admitted events

theorem admitted_cons {e e₁ : Engine σ} {event : Event σ} (hon : e.on? event = some e₁)
    (events : List (Event σ)) :
    e.admitted (event :: events) = e.admittedOn event ++ e₁.admitted events := by
  simp only [admitted, hon]

theorem queuedFrames_map_unfed (e : Engine σ) :
    e.queuedFrames.map Frame.unfed = (e.queue.map Request.unfed).filterMap Request.frame? := by
  simp only [queuedFrames, List.map_filterMap, List.filterMap_map, Function.comp_def,
    Request.unfed_frame?]

/-- A call that does not open the gate puts no frame into the queue. -/
theorem receive_queuedFrames (e : Engine σ) {call : Call} (hcall : call.opensGate = false) :
    (e.receive call).queuedFrames.map Frame.unfed = e.queuedFrames.map Frame.unfed := by
  rw [queuedFrames_map_unfed, queuedFrames_map_unfed]
  rcases e.receive_queue call with h | ⟨request, hsends, h⟩
  · rw [h]
  · have hframe : request.frame? = none := by
      unfold Call.Sends at hsends
      split at hsends <;> simp_all [Call.opensGate, Request.frame?]
    simp [h, hframe]

/-- The frame of a request that is carried out was the first in the queue. -/
theorem applied_queuedFrames {e e' : Engine σ} {request : Request} {queue : List Request}
    (hqueue : e.queue = request :: queue) (hrest : e'.queue = queue) :
    request.frame?.toList ++ e'.queuedFrames = e.queuedFrames := by
  rw [queuedFrames, queuedFrames, hqueue, hrest]
  cases request <;> rfl

/-- The frames that come from the queue with a step were the first in it. -/
theorem Step.admittedOn_append {e e' : Engine σ} {branch : Branch} (h : Step e branch e') :
    e.admittedOn (.work branch) ++ e'.queuedFrames <+: e.queuedFrames := by
  cases h with
  | tick hphase hstep =>
      rw [admittedOn, applying?_of_inTick hphase, queuedFrames,
        (spares_of_inTick hphase hstep).queue]
      exact List.prefix_refl _
  | round hround =>
      rw [admittedOn, hround.applying?]
      rcases hround.queue with hqueue | hqueue
      · rw [queuedFrames, hqueue]
        exact List.prefix_refl _
      · rw [queuedFrames, hqueue]
        exact List.nil_prefix
  | interrupted | served => exact List.prefix_refl _
  | @applied drains request queue hphase hqueue =>
      let phase : Phase := if drains then .draining else .top
      have hrest : (({ e with queue }.apply request).goto phase).queue = queue :=
        apply_queue _ _
      have hsame : e.admittedOn (.work .proceed) ++
          (({ e with queue }.apply request).goto phase).queuedFrames = e.queuedFrames := by
        rw [admittedOn, applying?_of_taken hphase hqueue, Option.bind_some,
          applied_queuedFrames hqueue hrest]
      exact hsame ▸ List.prefix_refl _

theorem on?_admitted {e e' : Engine σ} {event : Event σ} (hcalls : event.opensGate = false)
    (hon : e.on? event = some e') :
    (e.admittedOn event ++ e'.queuedFrames).map Frame.unfed <+:
      e.queuedFrames.map Frame.unfed := by
  cases event with
  | work branch => exact (step_of_take? hon).admittedOn_append.map _
  | call asked =>
      cases hon
      exact e.receive_queuedFrames hcalls ▸ List.prefix_refl _
  | pass ms | change world =>
      cases hon
      exact List.prefix_refl _

/-- Without calls that open the gate, the frames that come to the stack are the first of those
that are in the queue already. -/
theorem admitted_of_queued {e e' : Engine σ} {events : List (Event σ)}
    (hcalls : ∀ event ∈ events, event.opensGate = false) (hrun : e.run? events = some e') :
    (e.admitted events).map Frame.unfed <+: e.queuedFrames.map Frame.unfed := by
  induction events generalizing e with
  | nil => exact List.nil_prefix
  | cons event events ih =>
      obtain ⟨e₁, hon, hrest⟩ := run?_cons_eq_some.mp hrun
      have hlater := ih (fun event hmem => hcalls event (List.mem_cons_of_mem _ hmem)) hrest
      have hfirst := on?_admitted (hcalls event List.mem_cons_self) hon
      rw [List.map_append] at hfirst
      rw [admitted_cons hon, List.map_append]
      exact (List.prefix_append_right_inj _ |>.mpr hlater).trans hfirst

/-! ### Behind a closed gate -/

/-- How many commands the engine starts behind a closed pause gate: the one whose tick has
begun. -/
def committed (e : Engine σ) : Nat :=
  match e.phase with
  | .fetching | .drawing _ => 1
  | _ => 0

theorem committed_le_one (e : Engine σ) : e.committed ≤ 1 := by
  unfold committed
  split <;> omega

theorem committed_of_isLate {e : Engine σ} (h : e.phase.isLate = true ∨ e.phase = .broken) :
    e.committed = 0 := by
  unfold committed
  cases hp : e.phase <;> simp_all [Phase.isLate]

theorem starting?_le_committed (e : Engine σ) : e.starting?.toList.length ≤ e.committed := by
  unfold starting? committed
  cases e.phase <;> simp

/-- A step in a tick leaves the gate closed, and uses up what the engine starts. -/
theorem tick_of_closed {e e' : Engine σ} (hphase : e.phase.inTick = true)
    (hstep : e.proceed? = some e') (hpause : e.pause = .closed) :
    e'.pause = .closed ∧ e.starting?.toList.length + e'.committed ≤ e.committed := by
  refine ⟨?_, ?_⟩
  · rcases (spares_of_inTick hphase hstep).pause with h | h
    · exact h.trans hpause
    · exact h
  · by_cases hfetch : e.phase = .fetching
    · have hone : e.committed = 1 := by simp [committed, hfetch]
      simpa [starting?, hfetch, hone] using e'.committed_le_one
    · rw [committed_of_isLate ((isLate_of_inTick hphase hfetch hstep).imp_right And.left)]
      exact e.starting?_le_committed

/-- A round by itself does not open the gate, and begins no tick behind a closed one. -/
theorem Round.of_closed {e e' : Engine σ} (h : Round e e') (hpause : e.pause = .closed) :
    e'.pause = .closed ∧ e'.committed = 0 := by
  cases h with
  | begin hphase =>
      refine ⟨hpause, ?_⟩
      cases hcancel : e.cancel.isCancelled <;> simp [committed, goto]
  | tick hphase hopen => simp [hpause, Gate.closed] at hopen
  | emptied => exact ⟨rfl, rfl⟩
  | @nothing drains => exact ⟨hpause, by cases drains <;> rfl⟩
  | drained | request | ready | unready | empty | rest | wake | close => exact ⟨hpause, rfl⟩

/-- A request opens the gate only if it puts a frame on the stack. -/
theorem apply_of_closed {e : Engine σ} {request : Request} (hframe : request.frame? = none)
    (hpause : e.pause = .closed) : (e.apply request).pause = .closed := by
  cases request with
  | push frame => simp [Request.frame?] at hframe
  | clear => exact hpause
  | step =>
      rcases (apply_step_spares e).pause with h | h
      · exact h.trans hpause
      · exact h

theorem Step.of_closed {e e' : Engine σ} {branch : Branch} (h : Step e branch e')
    (hadmitted : e.admittedOn (.work branch) = []) (hpause : e.pause = .closed) :
    e'.pause = .closed ∧ e.starting?.toList.length + e'.committed ≤ e.committed := by
  cases h with
  | tick hphase hstep => exact tick_of_closed hphase hstep hpause
  | round hround =>
      obtain ⟨hclosed, hnone⟩ := hround.of_closed hpause
      refine ⟨hclosed, ?_⟩
      rw [hnone]
      exact e.starting?_le_committed
  | interrupted | served => exact ⟨hpause, e.starting?_le_committed⟩
  | @applied drains request queue hphase hqueue =>
      have hframe : request.frame? = none := by
        simpa [admittedOn, applying?_of_taken hphase hqueue] using hadmitted
      refine ⟨apply_of_closed (e := { e with queue }) hframe hpause, ?_⟩
      cases drains <;> exact e.starting?_le_committed

theorem receive_of_closed {e : Engine σ} {call : Call} (hcall : call.opensGate = false)
    (hpause : e.pause = .closed) : (e.receive call).pause = .closed := by
  cases call with
  | enqueue | enqueueSource | runByName | resume => simp [Call.opensGate] at hcall
  | pause atLoop => cases atLoop <;> simp [receive, pauseNow, hpause]
  | stop atLoop => cases atLoop <;> simp [receive, stopNow, hpause]
  | step => simp [receive, stepOver, hpause]
  | setReady isReady => exact hpause
  | shutdown => exact hpause
  | feed id item =>
      obtain h | ⟨f, h⟩ := e.feed_snd id item
      · rw [receive, h, hpause]
      · rw [receive, h]
        exact hpause
  | closeChannel id => exact hpause

/-- Behind a closed gate, an event that brings no frame to the stack leaves the gate closed and
uses up what the engine starts. -/
theorem on?_of_closed {e e' : Engine σ} {event : Event σ} (hcalls : event.opensGate = false)
    (hon : e.on? event = some e') (hadmitted : e.admittedOn event = [])
    (hpause : e.pause = .closed) :
    e'.pause = .closed ∧ (e.startedOn event).length + e'.committed ≤ e.committed := by
  cases event with
  | work branch => exact (step_of_take? hon).of_closed hadmitted hpause
  | call asked =>
      cases hon
      refine ⟨receive_of_closed hcalls hpause, Nat.le_of_eq ?_⟩
      simp [startedOn, committed, (e.receive_leavesWork asked).phase]
  | pass ms | change world =>
      cases hon
      exact ⟨hpause, Nat.le_of_eq (Nat.zero_add _)⟩

/-- As long as no frame comes from the queue, a closed gate stays closed and the engine starts no
more than the command whose tick had begun. -/
theorem run?_of_closed {e e' : Engine σ} {events : List (Event σ)}
    (hcalls : ∀ event ∈ events, event.opensGate = false) (hrun : e.run? events = some e')
    (hadmitted : e.admitted events = []) (hpause : e.pause = .closed) :
    e'.pause = .closed ∧ (e.started events).length + e'.committed ≤ e.committed := by
  induction events generalizing e with
  | nil =>
      cases hrun
      exact ⟨hpause, by simp [started]⟩
  | cons event events ih =>
      obtain ⟨e₁, hon, hrest⟩ := run?_cons_eq_some.mp hrun
      rw [admitted_cons hon, List.append_eq_nil_iff] at hadmitted
      obtain ⟨hpause₁, hfirst⟩ :=
        on?_of_closed (hcalls event List.mem_cons_self) hon hadmitted.1 hpause
      obtain ⟨hpause', hlater⟩ :=
        ih (fun event hmem => hcalls event (List.mem_cons_of_mem _ hmem)) hrest hadmitted.2 hpause₁
      refine ⟨hpause', ?_⟩
      rw [started_cons hon, List.length_append]
      omega

/-- With no frame in the queue, a closed gate stays closed. -/
theorem stays_closed {e e' : Engine σ} {events : List (Event σ)}
    (hcalls : ∀ event ∈ events, event.opensGate = false) (hrun : e.run? events = some e')
    (hframes : e.queuedFrames = []) (hpause : e.pause = .closed) : e'.pause = .closed := by
  have hprefix := admitted_of_queued hcalls hrun
  rw [hframes] at hprefix
  have hadmitted : e.admitted events = [] := by simpa using hprefix
  exact (run?_of_closed hcalls hrun hadmitted hpause).1

/-- After a pause, unless somebody opens the gate again, the engine starts at most one further
command, and that only if it was past the gate. The exception are frames that were in the queue
before the pause, with that of a request which is taken but not carried out: the gate is open again
as soon as one of them has come to the stack. -/
theorem pauseNow_lasts {e e' : Engine σ} {events : List (Event σ)}
    (hcalls : ∀ event ∈ events, event.opensGate = false)
    (hrun : (e.pauseNow false).run? events = some e') :
    ((e.pauseNow false).admitted events).map Frame.unfed <+: e.queuedFrames.map Frame.unfed ∧
      ((e.pauseNow false).admitted events = [] →
        ((e.pauseNow false).started events).length ≤ e.committed ∧ e.committed ≤ 1) := by
  refine ⟨admitted_of_queued hcalls hrun, fun hadmitted => ⟨?_, e.committed_le_one⟩⟩
  obtain ⟨-, hstarted⟩ := run?_of_closed hcalls hrun hadmitted rfl
  exact Nat.le_of_add_right_le hstarted

/-- A dry run with a macro of two lines in the queue. -/
def queuedPair : Engine DryRun :=
  ((Engine.spawn DryRun.host {} {}).enqueue { name := "Pair", contents := "/a\n/b" } none).2

def fetchingPair : Engine DryRun := queuedPair.ran (onItsOwn 6)

theorem queuedPair_reachable : queuedPair.Reachable :=
  .on (.call (.enqueue { name := "Pair", contents := "/a\n/b" } none))
    (.spawn DryRun.host {} {} {}) rfl

theorem pauseNow_lasts_fetchingPair :
    (fetchingPair.pauseNow false).admitted (onItsOwn 6) = [] ∧
      ((fetchingPair.pauseNow false).started (onItsOwn 6)).length ≤ fetchingPair.committed ∧
      fetchingPair.committed = 1 := by
  have hadmitted : (fetchingPair.pauseNow false).admitted (onItsOwn 6) = [] := by rfl
  have hopens := forall_onItsOwn (σ := DryRun) (P := (·.opensGate = false)) rfl 6
  have hlasts := pauseNow_lasts hopens (e := fetchingPair) (run?_eq_some_ran (by rfl))
  exact ⟨hadmitted, (hlasts.2 hadmitted).1, by rfl⟩

/-- A frame that is in the queue lets a pause pass: both of its commands are started. -/
theorem pauseNow_passed_queuedPair :
    queuedPair.Reachable ∧
      (∀ event ∈ (onItsOwn 16 : List (Event DryRun)), event.opensGate = false) ∧
      ((queuedPair.pauseNow false).run? (onItsOwn 16)).isSome = true ∧
      ((queuedPair.pauseNow false).started (onItsOwn 16)).length = 2 := by
  exact ⟨queuedPair_reachable, forall_onItsOwn (P := (·.opensGate = false)) rfl 16, by rfl,
    by rfl⟩

end Engine

end CraftLang
