import CraftLang.Proofs.Engine.PauseGate

/-!
What is ahead in a round. In each round the engine starts at most one command, and none unless it
gets past the ready gate with an empty queue.
-/

namespace CraftLang

/-- How many commands may still start in a round, by its phase. What can be `passable` is the ready
gate, after the queue was emptied. -/
def Phase.ahead (passable : Bool) : Phase → Nat
  | .checkingReady => passable.toNat
  | .checkingPause | .fetching | .drawing _ => 1
  | _ => 0

theorem Phase.ahead_le_one (passable : Bool) (phase : Phase) : phase.ahead passable ≤ 1 := by
  unfold ahead
  split
  · cases passable <;> decide
  all_goals decide

theorem Phase.ahead_of_isLate {phase : Phase} (h : phase.isLate = true ∨ phase = .broken)
    (passable : Bool) : phase.ahead passable = 0 := by
  cases phase <;> simp_all [isLate, ahead]

namespace Engine

variable {σ : Type} {e e' : Engine σ}

theorem startedOn_le_ahead (e : Engine σ) (event : Event σ) (passable : Bool) :
    (e.startedOn event).length ≤ e.phase.ahead passable := by
  cases event with
  | work branch =>
      unfold startedOn starting?
      cases e.phase <;> simp [Phase.ahead]
  | call | pass | change => exact Nat.zero_le _

theorem tick_ahead (hphase : e.phase.inTick = true) (hstep : e.proceed? = some e')
    (passable : Bool) :
    e.starting?.toList.length + e'.phase.ahead passable ≤ e.phase.ahead passable := by
  by_cases hfetch : e.phase = .fetching
  · simpa [starting?, hfetch, Phase.ahead] using e'.phase.ahead_le_one passable
  · rw [Phase.ahead_of_isLate ((isLate_of_inTick hphase hfetch hstep).imp_right And.left)]
    exact e.startedOn_le_ahead (.work .proceed) passable

/-- A round goes on to a command only over an empty queue and the open ready gate. -/
theorem Round.ahead (h : Round e e') {passable : Bool}
    (hqueue : passable = true → e.phase = .draining → e.queue ≠ [])
    (hready : e.ready.isOpen = true → passable = true) :
    e'.phase.ahead passable ≤ e.phase.ahead passable := by
  cases h with
  | begin hphase =>
      rw [hphase]
      cases hcancel : e.cancel.isCancelled <;> exact Nat.le_refl 0
  | drained hphase hempty =>
      cases passable with
      | false => exact Nat.zero_le _
      | true => exact absurd hempty (hqueue rfl hphase)
  | ready hphase hopen => rw [hready hopen, hphase]; exact Nat.le_refl 1
  | tick hphase => rw [hphase]; exact Nat.le_refl 1
  | @nothing drains => cases drains <;> exact Nat.zero_le _
  | request | unready | empty | rest | emptied | wake | close => exact Nat.zero_le _

/-- An event uses up what is ahead, as long as the queue is not empty or the ready gate not open
where that would give more. -/
theorem on?_ahead {event : Event σ} (hon : e.on? event = some e') {passable : Bool}
    (hqueue : passable = true → e.phase = .draining → e.queue ≠ [])
    (hready : e.ready.isOpen = true → passable = true) :
    (e.startedOn event).length + e'.phase.ahead passable ≤ e.phase.ahead passable := by
  cases event with
  | work branch =>
      have hstarted := e.startedOn_le_ahead (.work branch) passable
      cases step_of_take? hon with
      | tick hphase hstep => exact tick_ahead hphase hstep passable
      | round hround =>
          have hnone : e.starting? = none := by
            have hout := hround.inTick
            unfold starting?
            split
            · next hphase => rw [hphase] at hout; cases hout
            · rfl
          simpa [startedOn, hnone] using hround.ahead hqueue hready
      | interrupted | served => exact hstarted
      | @applied drains => cases drains <;> exact hstarted
  | call asked =>
      cases hon
      rw [(e.receive_leavesWork asked).phase]
      exact Nat.le_of_eq (Nat.zero_add _)
  | pass ms | change world =>
      cases hon
      exact Nat.le_of_eq (Nat.zero_add _)

end Engine

end CraftLang
