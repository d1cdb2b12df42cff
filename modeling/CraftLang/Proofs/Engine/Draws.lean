import CraftLang.Host.DryRun
import CraftLang.Proofs.Engine.AtWork
import CraftLang.Proofs.Engine.HostCalls
import CraftLang.Proofs.Source.Delays

/-!
How delays are drawn. The engine draws a number for the delay of a command before the command
starts, and only if there is more than one delay to draw from; commands draw nothing themselves.
What is made of the number lies in the range of the command's policy, whatever number the host comes
up with.
-/

namespace CraftLang

namespace WaitPolicy

def Allows (policy : WaitPolicy) (delay : Nat) : Prop :=
  (policy.untilMs ≤ policy.waitMs → delay = policy.waitMs) ∧
    (policy.waitMs < policy.untilMs → policy.waitMs ≤ delay ∧ delay < policy.untilMs)

theorem allows_delay (policy : WaitPolicy) (drawn : Nat) : policy.Allows (policy.delay drawn) := by
  constructor
  · intro hfixed
    have hrange : policy.isRange = false := by simpa [isRange] using hfixed
    simp [delay, hrange]
  · intro hlt
    exact delay_lt_of_isRange (by simpa [isRange] using hlt) drawn

theorem width_pos {policy : WaitPolicy} (h : policy.isRange = true) : 0 < policy.width := by
  have hlt : policy.waitMs < policy.untilMs := by simpa [isRange] using h
  exact Nat.sub_pos_of_lt hlt

end WaitPolicy

namespace Engine

variable {σ : Type} {e e' : Engine σ} {bound : Nat}

/-- A command starts with a delay that its policy allows. -/
theorem start_allows {command : Command} {program : Action Executed} {text : String} {delay : Nat}
    (h : (e.start command).phase = .running program text delay) :
    command.modifiers.wait.Allows delay := by
  unfold start at h
  split at h
  · split at h
    · cases h
      exact command.modifiers.wait.allows_delay _
    · cases h
  · cases h
    exact command.modifiers.wait.allows_delay 0

theorem draws_of_startCalls {command : Command} (h : .draw bound ∈ startCalls command) :
    0 < bound := by
  unfold startCalls at h
  split at h
  · next hrange =>
      obtain rfl : bound = command.modifiers.wait.width := by simpa using h
      exact WaitPolicy.width_pos hrange
  · cases h

theorem not_mem_effectCalls {effect : Effect} (h : effect.isDraw = false) :
    .draw bound ∉ e.effectCalls effect := by
  cases effect with
  | host call =>
      intro hcall
      obtain rfl := List.mem_singleton.mp hcall
      cases h
  | knowsAction name =>
      simp only [effectCalls]
      split <;> simp
  | sleep ms => exact List.not_mem_nil

/-- A number is drawn only where there is one to be drawn. -/
theorem Reachable.draw_pos (h : e.Reachable) {branch : Branch}
    (hcall : .draw bound ∈ e.callsOf branch) : 0 < bound := by
  cases branch with
  | interrupt | serve => cases hcall
  | proceed =>
      have hwork := h.atWork
      cases hphase : e.phase <;> simp only [callsOf, hostCalls, hphase] at hcall
      case drawing command => exact draws_of_startCalls hcall
      case running program text delay =>
          cases program with
          | done executed => cases hcall
          | call effect next =>
              simp only [AtWork, hphase] at hwork
              obtain ⟨command, -, -, hleads⟩ := hwork
              have hasks := hleads.asks (command.execute_draws_nothing e.settings)
              exact absurd hcall (not_mem_effectCalls hasks.1)
      case printing call after =>
          simp only [AtWork, hphase] at hwork
          obtain rfl := List.mem_singleton.mp hcall
          cases hwork
      all_goals cases hcall

end Engine

open Source Modifier

/-- A wait modifier on a line for the game and a wait command have the same texts for their delays,
and the same policies for them; where the text is no delay, both lines are errors. What is read from
a source has ranges that do not end before they start; a command starts with a delay that its policy
allows, whatever the host draws, and the host is never asked to draw from nothing. -/
theorem delays_agree_and_are_allowed {σ : Type} :
    (∀ (raw front t back : List Char) (number number' : Nat), WaitsNatively raw front t back →
      (∀ policy,
        (∃ command text, readLine raw number = .ok (some command) ∧ command.kind = .native text ∧
          command.modifiers.hasWait = true ∧ command.modifiers.wait = policy) ↔
        ∃ command, readLine (waitLine t) number' = .ok (some command) ∧ command.kind = .wait ∧
          command.modifiers.wait = policy) ∧
      ((∃ command, readLine raw number = .ok (some command)) ∨
        (∃ e, readLine raw number = .error e) ∧ ∃ e, readLine (waitLine t) number' = .error e)) ∧
    (∀ (source : String) (commands : List Command), readSource source = .ok commands →
      ∀ command ∈ commands,
        (command.modifiers.wait.untilMs = 0 ∨
          command.modifiers.wait.waitMs ≤ command.modifiers.wait.untilMs) ∧
        (∀ drawn, command.modifiers.wait.Allows (command.modifiers.wait.delay drawn)) ∧
        ∀ (e : Engine σ) (program : Action Executed) (text : String) (delay : Nat),
          (e.start command).phase = .running program text delay →
          command.modifiers.wait.Allows delay) ∧
    ∀ e : Engine σ, e.Reachable → ∀ branch bound, .draw bound ∈ e.callsOf branch → 0 < bound := by
  refine ⟨fun raw front t back number number' hwaits => ?_, ?_,
    fun e he branch bound => he.draw_pos⟩
  · obtain ⟨o, -, hspells, -⟩ := hwaits.exists_token
    obtain ⟨hne, hinner⟩ := chars_of_delay hspells
    rcases readLine_native hwaits number with
      ⟨policy, m, text, hdelay, hpolicy, hhas, hread⟩ | ⟨hnone, e, hread⟩
    · rcases readLine_waitLine hne hinner number' with ⟨policy', hdelay', hread'⟩ | ⟨hnone', -⟩
      · obtain rfl := hdelay.unique hdelay'
        refine ⟨fun other => ⟨?_, ?_⟩, .inl ⟨_, hread⟩⟩
        · rintro ⟨command, _, hcommand, -, -, rfl⟩
          rw [hread] at hcommand
          cases hcommand
          exact ⟨_, hread', rfl, hpolicy.symm⟩
        · rintro ⟨command, hcommand, -, rfl⟩
          rw [hread'] at hcommand
          cases hcommand
          exact ⟨_, _, hread, rfl, hhas, hpolicy⟩
      · exact absurd hdelay (hnone' policy)
    · rcases readLine_waitLine hne hinner number' with ⟨policy', hdelay', -⟩ | ⟨-, e', hread'⟩
      · exact absurd hdelay' (hnone policy')
      · refine ⟨fun other => iff_of_false ?_ ?_, .inr ⟨⟨e, hread⟩, e', hread'⟩⟩
        · rintro ⟨command, _, hcommand, -⟩
          rw [hread] at hcommand
          cases hcommand
        · rintro ⟨command, hcommand, -⟩
          rw [hread'] at hcommand
          cases hcommand
  · intro source commands hread command hmem
    obtain ⟨raw, -, number, hline⟩ := exists_line_of_mem hread hmem
    exact ⟨isOrdered_of_readLine hline, command.modifiers.wait.allows_delay,
      fun e program text delay => e.start_allows⟩

def delayedEcho : String := "/echo hi <wait.1.5-3>"

def drawingEcho : Engine DryRun :=
  (Engine.spawn DryRun.host {} {}).ran
    (.call (.enqueue { name := "Echo", contents := delayedEcho } none) :: Engine.onItsOwn 7)

theorem waitsNatively_delayedEcho :
    WaitsNatively delayedEcho.toList "/echo hi ".toList "1.5-3".toList [] := by
  have hscan : occurrencesFrom .wait false delayedEcho.toList =
      [⟨9, 12, .wait ⟨['1'], ['5']⟩ (some ⟨['3'], []⟩)⟩] := by rfl
  obtain ⟨hstands, honly⟩ := stands_of_occurrencesFrom_singleton hscan
  refine ⟨rfl, ⟨_, hstands⟩, fun o ho => by rw [honly o ho]; rfl, fun kind hkind => ?_, rfl, rfl⟩
  refine ⟨{}, .none (stands_of_occurrencesFrom_nil ?_)⟩
  cases kind <;> first | rfl | exact absurd rfl hkind

theorem delays_agree_and_are_allowed_delayedEcho :
    WaitsNatively delayedEcho.toList "/echo hi ".toList "1.5-3".toList [] ∧
    (∃ command, readLine (waitLine "1.5-3".toList) 0 = .ok (some command) ∧
      command.kind = .wait ∧ command.modifiers.wait = ⟨1500, 3000⟩) ∧
    (∃ command, readSource delayedEcho = .ok [command] ∧
      command.modifiers.wait.Allows (command.modifiers.wait.delay 1499) ∧
      (drawingEcho.start command).phase =
        .running (command.execute {}) delayedEcho 1500 ∧ command.modifiers.wait.Allows 1500) ∧
    drawingEcho.Reachable ∧ .draw 1500 ∈ drawingEcho.callsOf .proceed ∧ 0 < 1500 := by
  obtain ⟨hagree, hsource, hdraws⟩ := delays_agree_and_are_allowed (σ := DryRun)
  have hreachable : drawingEcho.Reachable :=
    (Engine.Reachable.spawn DryRun.host {} {} {}).run (Engine.run?_eq_some_ran (by rfl))
  have hcalls : .draw 1500 ∈ drawingEcho.callsOf .proceed := by
    have hall : drawingEcho.callsOf .proceed = [.draw 1500] := by rfl
    rw [hall]
    exact List.mem_singleton_self _
  refine ⟨waitsNatively_delayedEcho, ?_, ?_, hreachable, hcalls,
    hdraws drawingEcho hreachable .proceed 1500 hcalls⟩
  · have hread : ∃ command text, readLine delayedEcho.toList 0 = .ok (some command) ∧
        command.kind = .native text ∧ command.modifiers.hasWait = true ∧
        command.modifiers.wait = ⟨1500, 3000⟩ := ⟨_, _, rfl, rfl, rfl, rfl⟩
    exact ((hagree _ _ _ _ 0 0 waitsNatively_delayedEcho).1 ⟨1500, 3000⟩).mp hread
  · obtain ⟨command, hread⟩ : ∃ command, readSource delayedEcho = .ok [command] := ⟨_, rfl⟩
    obtain ⟨-, hallows, hstart⟩ := hsource delayedEcho [command] hread command (by simp)
    have hphase : (drawingEcho.start command).phase =
        .running (command.execute {}) delayedEcho 1500 := by
      cases hread
      rfl
    exact ⟨command, hread, hallows 1499, hphase, hstart drawingEcho _ _ _ hphase⟩

end CraftLang
