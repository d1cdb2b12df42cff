import CraftLang.Proofs.Engine.Cancellation

/-!
The end of a cancelled engine. What is left of its work is the rest of a round, nothing of which
takes time, and then it tells that it has stopped. Only a host that breaks down where the engine
prints on its own account keeps it from that.
-/

namespace CraftLang

theorem Phase.hasEnded_iff {phase : Phase} :
    phase.hasEnded = true ↔ phase = .stopped ∨ phase = .broken := by
  cases phase <;> simp [hasEnded]

/-- The host answers every print and every draw. Nothing contains it if it breaks down at those that
the engine makes on its own account. -/
def Host.Responds {σ : Type} (host : Host σ) : Prop :=
  ∀ now call world, call.isPrint = true ∨ call.isDraw = true →
    (host.answer now call world).1.toOption ≠ none

namespace Engine

variable {σ : Type} {e e' : Engine σ}

/-! ### To the end -/

/-- Whether the engine ends by itself, without any time passing. -/
def Ends (e : Engine σ) : Prop := ∃ fuel, (work fuel e).phase.hasEnded = true

theorem Ends.next (h : Ends e') (hnext : e.next? = some e') : Ends e := by
  obtain ⟨fuel, hended⟩ := h
  exact ⟨fuel + 1, by simpa only [work, hnext] using hended⟩

theorem Ends.proceed (h : Ends e') (hwait : e.isWaiting = false) (hstep : e.proceed? = some e') :
    Ends e :=
  h.next (by simp [next?, interrupt?, hwait, hstep])

theorem apply_host (e : Engine σ) (request : Request) : (e.apply request).host = e.host := by
  cases request with
  | push | clear => rfl
  | step => exact (apply_step_spares e).host

theorem Step.host {branch : Branch} (h : Step e branch e') : e'.host = e.host := by
  cases h with
  | tick hphase hstep => exact (spares_of_inTick hphase hstep).host
  | round hround => cases hround <;> rfl
  | interrupted | served => rfl
  | applied => exact apply_host _ _

theorem on?_host {event : Event σ} (hon : e.on? event = some e') : e'.host = e.host := by
  cases event with
  | work branch => exact (step_of_take? hon).host
  | call asked =>
      cases hon
      exact (e.receive_leavesWork asked).host
  | pass ms | change world =>
      cases hon
      rfl

theorem BreaksDown.not_responds (hwork : e.AtWork) (h : e.BreaksDown) : ¬e.host.Responds := by
  intro hresponds
  unfold BreaksDown at h
  unfold AtWork at hwork
  split at h
  · exact hresponds _ _ _ (.inr rfl) h
  · next hphase =>
      rw [hphase] at hwork
      exact hresponds _ _ _ (.inl hwork) h
  · exact h

theorem Reachable.phase_ne_broken (h : e.Reachable) (hresponds : e.host.Responds) :
    e.phase ≠ .broken := by
  induction h with
  | spawn => exact nofun
  | @on e e' event hreach hon ih =>
      rw [on?_host hon] at hresponds
      cases event with
      | work branch =>
          exact fun hbroken =>
            (breaksDown_of_broken hon hbroken).not_responds hreach.atWork hresponds
      | call asked =>
          cases hon
          rw [(e.receive_leavesWork asked).phase]
          exact ih hresponds
      | pass ms | change world =>
          cases hon
          exact ih hresponds

theorem on?_of_next? (h : e.next? = some e') : ∃ branch, e.on? (.work branch) = some e' := by
  simp only [next?, Option.orElse_eq_orElse, Option.orElse_eq_or, Option.or_eq_some_iff] at h
  rcases h with h | ⟨-, h | ⟨-, h⟩⟩
  · exact ⟨.interrupt, h⟩
  · exact ⟨.proceed, h⟩
  · exact ⟨.serve, h⟩

theorem work_reachable (fuel : Nat) (h : e.Reachable) :
    (work fuel e).Reachable ∧ (work fuel e).host = e.host := by
  induction fuel generalizing e with
  | zero => exact ⟨h, rfl⟩
  | succ fuel ih =>
      cases hnext : e.next? with
      | none =>
          simp only [work, hnext]
          exact ⟨h, trivial⟩
      | some e₁ =>
          obtain ⟨branch, hon⟩ := on?_of_next? hnext
          obtain ⟨hreach, hhost⟩ := ih (h.on (.work branch) hon)
          simp only [work, hnext]
          exact ⟨hreach, hhost.trans (on?_host hon)⟩

theorem Ends.stops (h : Ends e) (hreach : e.Reachable) (hresponds : e.host.Responds) :
    ∃ fuel, (work fuel e).phase = .stopped := by
  obtain ⟨fuel, hended⟩ := h
  obtain ⟨hreach', hhost⟩ := work_reachable fuel hreach
  have hlives := hreach'.phase_ne_broken (hhost ▸ hresponds)
  exact ⟨fuel, (Phase.hasEnded_iff.mp hended).resolve_right hlives⟩

end Engine

end CraftLang
