import CraftLang.Host.DryRun
import CraftLang.Proofs.Engine.Accounting
import CraftLang.Proofs.Engine.Origins
import CraftLang.Proofs.Engine.Rounds

/-!
How far an immediate stop reaches. Its request travels through the queue behind all frames that
were there before it, and every round empties the queue before it looks at a gate. So at most the
command of the round in which the stop came is started, and when the request is carried out it finds
only frames of earlier calls on the stack.
-/

namespace CraftLang

namespace Engine

variable {σ : Type} {e e' : Engine σ}

/-- With the request of a stop all frames go. -/
theorem stack_of_applying?_clear {branch : Branch} (happlying : e.applying? branch = some .clear)
    (hstep : e.take? branch = some e') :
    e'.stack = [] ∧ e'.retired = e.retired + e.stack.length := by
  obtain ⟨drains, queue, -, -, rfl⟩ := eq_of_applying? happlying hstep
  exact ⟨rfl, rfl⟩

/-- A call of an immediate stop puts its request behind the queue. -/
theorem stopNow_queue (hphase : e.phase.hasEnded = false) :
    (e.stopNow false).queue = e.queue ++ [.clear] := by
  simp [stopNow, send, hphase]

end Engine

namespace Dated

variable {σ : Type} {d d' : Dated σ} {event : Event σ} {events : List (Event σ)}

/-- How far a stop with a number is. -/
inductive Stopping (number : Nat) (d : Dated σ) : Prop
  | queued (hmem : (number, .clear) ∈ d.sent.zip (d.engine.queue.map Request.unfed))
  /-- All that is there came after the stop. -/
  | applied (hsince : Since (number + 1) d)
  /-- The engine has ended, and nothing starts any more. -/
  | ended (hphase : d.engine.phase.hasEnded = true)

theorem origins_eq_nil_of_applying?_clear (h : d.Valid) {branch : Engine.Branch}
    (happlying : d.engine.applying? branch = some .clear) (hon : d.on? (.work branch) = some d') :
    d'.origins = [] := by
  rw [← List.length_eq_zero_iff, (h.on hon).origins_length,
    (Engine.stack_of_applying?_clear happlying (on?_engine hon)).1, List.length_nil]

/-- A stop stays in the queue until it is carried out, and what comes to the stack after that is
later. -/
theorem Stopping.on {number : Nat} (hvalid : d.Valid) (h : Stopping number d)
    (hon : d.on? event = some d') : Stopping number d' := by
  cases h with
  | applied hsince => exact .applied (hsince.on hvalid hon)
  | ended hphase => exact .ended (by rwa [(Engine.phase_of_hasEnded hphase (on?_engine hon)).1])
  | queued hmem =>
      have hqueues := on?_queues hvalid.sent_length hon
      cases hqueues with
      | kept hqueue hsent => exact .queued (by rw [hqueue, hsent]; exact hmem)
      | sent _ hqueue hsent =>
          refine .queued ?_
          rw [hqueue, hsent, List.zip_append (by rw [hvalid.sent_length, List.length_map])]
          exact List.mem_append_left _ hmem
      | dropped _ _ _ hphase => exact .ended (by rw [hphase]; rfl)
      | @applied branch request call hevent happlying hqueue hsent hasked =>
          rw [hqueue, hsent, List.map_cons, List.zip_cons_cons] at hmem
          rcases List.mem_cons.mp hmem with hfirst | hrest
          · obtain ⟨rfl, hclear⟩ := Prod.mk.inj hfirst
            obtain rfl : request = .clear := Request.unfed_eq_clear.mp hclear.symm
            subst hevent
            refine .applied fun later hlater => ?_
            have hsorted := hvalid.sorted
            rw [hsent, List.cons_append, List.pairwise_cons] at hsorted
            rw [origins_eq_nil_of_applying?_clear hvalid happlying hon, List.nil_append, calls,
              hasked] at hlater
            exact hsorted.1 later hlater
          · exact .queued hrest

theorem stopping_of_stop (hon : d.on? (.call (.stop false)) = some d') (hvalid : d.Valid) :
    Stopping d.calls d' := by
  by_cases hphase : d.engine.phase.hasEnded = true
  · exact .ended (by rwa [(Engine.phase_of_hasEnded hphase (on?_engine hon)).1])
  · have hqueue : d'.engine.queue = d.engine.queue ++ [.clear] :=
      Option.some.inj (on?_engine hon) ▸ Engine.stopNow_queue (by simpa using hphase)
    have hsent : d'.sent = d.sent ++ [d.calls] := by
      rw [sent_of_on? hon, hqueue]
      simp
    refine .queued ?_
    rw [hqueue, hsent, List.map_append,
      List.zip_append (by rw [hvalid.sent_length, List.length_map])]
    exact List.mem_append_right _ List.mem_cons_self

theorem Stopping.run {number : Nat} (hvalid : d.Valid) (h : Stopping number d)
    (hrun : d.run? events = some d') : Stopping number d' := by
  have hkeeps := run?_keeps (P := fun d => d.Valid ∧ Stopping number d)
    (fun _ _ _ h hon => ⟨h.1.on hon, h.2.on h.1 hon⟩) ⟨hvalid, h⟩ hrun
  exact hkeeps.2

/-- After a stop there is at most the rest of a round for the frames before it. -/
theorem Stopping.startedFrom_le {number : Nat} (hvalid : d.Valid) (h : Stopping number d)
    (hrun : d.run? events = some d') :
    (d.startedFrom (· < number) events).length ≤ d.engine.phase.ahead true := by
  induction events generalizing d with
  | nil => exact Nat.zero_le _
  | cons event events ih =>
      obtain ⟨d₁, hon, hrest⟩ := run?_cons_eq_some.mp hrun
      by_cases hsince : Since (number + 1) d
      · rw [startedFrom_of_since (fun call hcall => ?_) hvalid hsince hrun]
        · exact Nat.zero_le _
        · exact Nat.lt_succ_of_lt (of_decide_eq_true hcall)
      · have hqueue : d.engine.phase = .draining → d.engine.queue ≠ [] := by
          intro hphase hempty
          cases h with
          | queued hmem => rw [hempty, List.map_nil, List.zip_nil_right] at hmem; cases hmem
          | applied hsince' => exact hsince hsince'
          | ended hstopped => rw [hphase] at hstopped; cases hstopped
        have hahead := Engine.on?_ahead (on?_engine hon) (fun _ => hqueue) fun _ => rfl
        have hlater := ih (hvalid.on hon) (h.on hvalid hon) hrest
        have hfirst := (startedFromOn_sublist (· < number) d event).length_le
        rw [startedFrom_cons hon, List.length_append]
        omega

/-- Once the queue is empty, the stop has been carried out. -/
theorem Stopping.since_of_drained {number : Nat} (h : Stopping number d)
    (hphase : d.engine.phase = .draining) (hqueue : d.engine.queue = []) :
    Since (number + 1) d := by
  cases h with
  | queued hmem => rw [hqueue, List.map_nil, List.zip_nil_right] at hmem; cases hmem
  | applied hsince => exact hsince
  | ended hstopped => rw [hphase] at hstopped; cases hstopped

theorem eq_stop_of_sends_clear {asked : Call} (h : asked.Sends .clear) : asked = .stop false := by
  unfold Call.Sends at h
  split at h <;> simp_all

/-- A stop that is carried out takes all frames off the stack, and they all go back to calls that
came before it. -/
theorem Valid.stop_applied (h : d.Valid) {branch : Engine.Branch}
    (happlying : d.engine.applying? branch = some .clear) (hon : d.on? (.work branch) = some d') :
    d'.engine.stack = [] ∧ d'.engine.retired = d.engine.retired + d.engine.stack.length ∧
      ∃ call, d.sent.head? = some call ∧ d.asked[call]? = some (.stop false) ∧
        ∀ origin ∈ d.origins, origin < call := by
  obtain ⟨hstack, hretired⟩ := Engine.stack_of_applying?_clear happlying (on?_engine hon)
  obtain ⟨call, asked, hsent, hasked, hsends⟩ := h.asked_of_applying? happlying hon
  obtain rfl := eq_stop_of_sends_clear hsends
  refine ⟨hstack, hretired, call, by rw [hsent]; rfl, hasked, fun origin horigin => ?_⟩
  exact h.before origin horigin call (by simp [hsent])

/-- After an immediate stop, whatever callers do, at most one command starts of the frames that go
back to earlier calls. As soon as the engine has emptied its queue these frames are gone for good,
from the stack and from the queue. And whenever the request of a stop is carried out, the frames
that it takes off the stack go back to calls before that stop. All frames go back to calls that send
frames. -/
theorem stopNow_lasts (host : Host σ) (settings : Settings) (world : σ) (catalog : Catalog)
    {before after : List (Event σ)} {d d₁ : Dated σ}
    (hbefore : (spawn host settings world catalog).run? before = some d)
    (hafter : d.run? (.call (.stop false) :: after) = some d₁) :
    (d.startedFrom (· < d.calls) (.call (.stop false) :: after)).length ≤ 1 ∧
      (d₁.engine.phase = .draining → d₁.engine.queue = [] →
        ∀ more d₂, d₁.run? more = some d₂ → ∀ call ∈ d₂.origins ++ d₂.sent, d.calls < call) ∧
      (∀ branch d₂, d₁.engine.applying? branch = some .clear → d₁.on? (.work branch) = some d₂ →
        d₂.engine.stack = [] ∧
          d₂.engine.retired = d₁.engine.retired + d₁.engine.stack.length ∧
          (∃ call, d₁.sent.head? = some call ∧ d₁.asked[call]? = some (.stop false) ∧
            ∀ origin ∈ d₁.origins, origin < call)) ∧
      ∀ origin ∈ d₁.origins,
        ∃ (asked : Call) (frame : Frame), d₁.asked[origin]? = some asked ∧
          asked.Sends (.push frame) := by
  have hvalid := (spawn_valid host settings world catalog).run hbefore
  have hvalid₁ := hvalid.run hafter
  obtain ⟨stopped, hstop, hrun⟩ := run?_cons_eq_some.mp hafter
  have hvalid₀ := hvalid.on hstop
  have hstopping := stopping_of_stop hstop hvalid
  refine ⟨?_, fun hphase hqueue more d₂ hmore call hcall => ?_,
    fun branch d₂ => hvalid₁.stop_applied, hvalid₁.origins_by⟩
  · have hnone : d.startedFromOn (· < d.calls) (.call (.stop false)) = [] := by
      unfold startedFromOn
      split <;> rfl
    rw [startedFrom_cons hstop, hnone, List.nil_append]
    exact Nat.le_trans (hstopping.startedFrom_le hvalid₀ hrun) (Phase.ahead_le_one _ _)
  · have hsince := (hstopping.run hvalid₀ hrun).since_of_drained hphase hqueue
    refine hsince.run hvalid₁ hmore call ?_
    rw [← List.append_assoc]
    exact List.mem_append_left _ hcall

def fetchingPair : Dated DryRun :=
  (spawn DryRun.host {} {}).ran
    (.call (.enqueue { name := "Pair", contents := "/a\n/b" } none) :: Engine.onItsOwn 6)

def stopThenOther (steps : Nat) : List (Event DryRun) :=
  .call (.stop false) :: .call .resume ::
    .call (.enqueue { name := "Other", contents := "/c" } none) :: Engine.onItsOwn steps

theorem stopNow_lasts_fetchingPair :
    ((fetchingPair.startedFrom (· < fetchingPair.calls) (stopThenOther 6)).length ≤ 1 ∧
      (fetchingPair.ran (stopThenOther 6)).origins = [0] ∧
      (fetchingPair.ran (stopThenOther 7)).engine.stack = [] ∧
      (fetchingPair.ran (stopThenOther 7)).engine.retired = 1) ∧
    ((fetchingPair.ran (stopThenOther 14)).origins = [3] ∧
      ∀ call ∈ (fetchingPair.ran (stopThenOther 14)).origins ++
        (fetchingPair.ran (stopThenOther 14)).sent, 1 < call) := by
  have hbefore : (spawn DryRun.host {} {}).run? _ = some fetchingPair := run?_eq_some_ran (by rfl)
  have htaken : fetchingPair.run? (stopThenOther 6) = some _ := run?_eq_some_ran (by rfl)
  have hempty : fetchingPair.run? (stopThenOther 9) = some _ := run?_eq_some_ran (by rfl)
  refine ⟨?_, by rfl, ?_⟩
  · obtain ⟨hstarted, -, happlied, -⟩ := stopNow_lasts DryRun.host {} {} {} hbefore htaken
    obtain ⟨hstack, hretired, -⟩ := happlied .proceed (fetchingPair.ran (stopThenOther 7)) (by rfl)
      (by rfl)
    exact ⟨hstarted, by rfl, hstack, hretired⟩
  · obtain ⟨-, hdrained, -⟩ := stopNow_lasts DryRun.host {} {} {} hbefore hempty
    exact hdrained (by rfl) (by rfl) (Engine.onItsOwn 5) _ (by rfl)

end Dated

end CraftLang
