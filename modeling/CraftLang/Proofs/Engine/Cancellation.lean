import CraftLang.Engine.Run
import CraftLang.Proofs.Engine.AtWork
import CraftLang.Proofs.Engine.HostCalls

/-!
A cancelled engine. It does what any other engine does, except that it goes to its end in place of a
sleep and of a further round; it does not tell anybody why.
-/

namespace CraftLang

def Phase.mayStart : Phase → Bool
  | .draining | .taken true | .checkingReady | .checkingPause | .fetching | .drawing _ => true
  | _ => false

namespace Engine

variable {σ : Type} {e e' : Engine σ}

/-! ### Cancelled for good -/

theorem send_cancel (e : Engine σ) (request : Request) : (e.send request).cancel = e.cancel := by
  unfold send
  split <;> rfl

/-- No call takes a cancellation back. -/
theorem receive_cancelled (h : e.cancel.isCancelled = true) (asked : Call) :
    (e.receive asked).cancel.isCancelled = true := by
  cases asked with
  | enqueue stored loops =>
      obtain ⟨world, hsame | ⟨frame, hsent⟩⟩ := e.enqueue_cases stored loops
      · rwa [receive, hsame]
      · rwa [receive, hsent, send_cancel]
  | runByName name loops =>
      obtain ⟨world, hsame | ⟨frame, hsent⟩⟩ := e.runByName_cases name loops
      · rwa [receive, hsame]
      · rwa [receive, hsent, send_cancel]
  | enqueueSource | step => exact (congrArg (·.isCancelled) (send_cancel _ _)).trans h
  | pause atLoop => cases atLoop <;> exact h
  | stop atLoop =>
      cases atLoop with
      | true => exact h
      | false => rwa [receive, stopNow, if_neg Bool.false_ne_true, send_cancel]
  | feed id item =>
      obtain hsame | ⟨f, hmap⟩ := e.feed_snd id item
      · rwa [receive, hsame]
      · rw [receive, hmap]
        exact h
  | shutdown => rfl
  | resume | setReady | closeChannel => exact h

theorem apply_cancel (e : Engine σ) (request : Request) : (e.apply request).cancel = e.cancel := by
  cases request with
  | push | clear => rfl
  | step => exact (apply_step_spares e).cancel

/-- The engine never touches the token by itself. -/
theorem Spares.cancelled (h : Spares e e') (hcancel : e.cancel.isCancelled = true) :
    e'.cancel.isCancelled = true :=
  h.cancel ▸ hcancel

theorem Step.cancel {branch : Branch} (h : Step e branch e') : e'.cancel = e.cancel := by
  cases h with
  | tick hphase hstep => exact (spares_of_inTick hphase hstep).cancel
  | round hround => cases hround <;> rfl
  | interrupted | served => rfl
  | applied => exact apply_cancel _ _

theorem on?_cancelled {event : Event σ} (h : e.cancel.isCancelled = true)
    (hon : e.on? event = some e') : e'.cancel.isCancelled = true := by
  cases event with
  | work branch => rwa [(step_of_take? hon).cancel]
  | call asked =>
      cases hon
      exact receive_cancelled h asked
  | pass ms | change world =>
      cases hon
      exact h

theorem startedOn_le_mayStart (e : Engine σ) (event : Event σ) :
    (e.startedOn event).length ≤ e.phase.mayStart.toNat := by
  cases event with
  | work branch =>
      unfold startedOn starting?
      cases e.phase <;> simp [Phase.mayStart]
  | call | pass | change => exact Nat.zero_le _

theorem startedOn_of_not_inTick (h : e.phase.inTick = false) (branch : Branch) :
    e.startedOn (.work branch) = [] := by
  cases hp : e.phase <;> simp_all [startedOn, starting?, Phase.inTick]

/-- A round that has not begun before the cancellation does not begin after it. -/
theorem Round.mayStart (h : Round e e') (hcancel : e.cancel.isCancelled = true) :
    e'.phase.mayStart.toNat ≤ e.phase.mayStart.toNat := by
  cases h with
  | begin hphase =>
      rw [hcancel, if_pos rfl]
      exact Nat.zero_le _
  | drained hphase | request hphase | ready hphase | tick hphase => rw [hphase]; exact Nat.le_refl 1
  | @nothing drains hphase => rw [hphase]; cases drains <;> exact Nat.le_refl _
  | unready | empty | rest | emptied | wake | close => exact Nat.zero_le _

end Engine

end CraftLang
