import CraftLang.Proofs.Engine.Restacking

/-!
What an engine tells about its frames. The frames that it shows and those that it has counted as
gone are together all the frames that ever came to its stack, and the state that it shows says
whether there are any frames left.
-/

namespace CraftLang

def EngineState.isEmpty : EngineState → Bool
  | .notReady | .idle | .stopped => true
  | .running | .paused => false

theorem EngineState.isEmpty_iff {state : EngineState} :
    state.isEmpty = true ↔ state = .notReady ∨ state = .idle ∨ state = .stopped := by
  cases state <;> simp [isEmpty]

theorem EngineState.not_isEmpty_iff {state : EngineState} :
    state.isEmpty = false ↔ state = .running ∨ state = .paused := by
  cases state <;> simp [isEmpty]

namespace Engine

variable {σ : Type}

/-! ### Publishing -/

/-- Whether the engine publishes a status with its next step. -/
def announces (e : Engine σ) : Bool :=
  match e.phase with
  | .checkingReady => !e.ready.isOpen
  | .checkingPause => !(e.pause.isOpen && e.stack.isEmpty)
  | .closing => true
  | _ => false

def announcedOn (e : Engine σ) : Event σ → List EngineStatus
  | .work .proceed => if e.announces then (e.proceed?.map published).toList else []
  | _ => []

def announced (e : Engine σ) : List (Event σ) → List EngineStatus
  | [] => []
  | event :: events =>
    match e.on? event with
    | none => []
    | some e' => e.announcedOn event ++ e'.announced events

theorem announced_cons {e e₁ : Engine σ} {event : Event σ} (hon : e.on? event = some e₁)
    (events : List (Event σ)) :
    e.announced (event :: events) = e.announcedOn event ++ e₁.announced events := by
  simp only [announced, hon]

/-- The published status shows the engine as it is. -/
structure Shows (e : Engine σ) : Prop where
  frames : e.published.frames = e.stack.map Frame.status
  retired : e.published.retired = e.retired
  state : e.published.state.isEmpty = e.stack.isEmpty
  stopped : e.published.state = .stopped → e.phase = .stopped

/-- A round publishes what the engine shows, or nothing. -/
theorem Round.published {e e' : Engine σ} (h : Round e e') :
    e.announces = true ∧ e'.Shows ∨ e.announces = false ∧ e'.published = e.published := by
  cases h with
  | begin hphase | drained hphase | request hphase | nothing hphase | emptied hphase
    | wake hphase =>
      exact .inr ⟨by rw [announces, hphase], rfl⟩
  | ready hphase hready => exact .inr ⟨by simp [announces, hphase, hready], rfl⟩
  | empty hphase hpause hstack =>
      exact .inr ⟨by simp [announces, hphase, hpause, hstack], rfl⟩
  | unready hphase hready =>
      exact .inl ⟨by simp [announces, hphase, hready], rfl, rfl, rfl, nofun⟩
  | tick hphase hpause hstack =>
      refine .inl ⟨by simp [announces, hphase, hstack], rfl, rfl, ?_, nofun⟩
      exact (List.isEmpty_eq_false_iff.mpr hstack).symm
  | rest hphase hpause =>
      refine .inl ⟨by simp [announces, hphase, hpause], rfl, rfl, ?_, ?_⟩
      all_goals cases hstack : e.stack <;> simp [goto, publish, hstack, EngineState.isEmpty]
  | close hphase =>
      exact .inl ⟨by rw [announces, hphase], rfl, rfl, rfl, fun _ => rfl⟩

theorem announcedOn_of_silent {e : Engine σ} (h : e.announces = false) (event : Event σ) :
    e.announcedOn event = [] := by
  unfold announcedOn
  split
  · rw [h, if_neg Bool.false_ne_true]
  · rfl

theorem announces_of_inTick {e : Engine σ} (h : e.phase.inTick = true) : e.announces = false := by
  unfold announces
  cases hp : e.phase <;> simp_all [Phase.inTick]

theorem apply_published (e : Engine σ) (request : Request) :
    (e.apply request).published = e.published := by
  cases request with
  | push frame => rfl
  | clear => rfl
  | step => exact (apply_step_spares e).published

/-- A step publishes what the engine shows after it, or nothing. -/
theorem Step.published {e e' : Engine σ} {branch : Branch} (h : Step e branch e')
    (hon : e.take? branch = some e') :
    e.announcedOn (.work branch) = [e'.published] ∧ e'.Shows ∨
      e.announcedOn (.work branch) = [] ∧ e'.published = e.published := by
  cases h with
  | tick hphase hstep =>
      exact .inr ⟨announcedOn_of_silent (announces_of_inTick hphase) _,
        (spares_of_inTick hphase hstep).published⟩
  | round hround =>
      rcases hround.published with ⟨hannounces, hshows⟩ | ⟨hsilent, hsame⟩
      · have hproceed : e.proceed? = some e' := hon
        refine .inl ⟨?_, hshows⟩
        rw [announcedOn, if_pos hannounces, hproceed]
        rfl
      · exact .inr ⟨announcedOn_of_silent hsilent _, hsame⟩
  | interrupted | served => exact .inr ⟨rfl, rfl⟩
  | @applied _ request _ hphase =>
      have hsilent : e.announces = false := by rw [announces, hphase]
      exact .inr ⟨announcedOn_of_silent hsilent _, apply_published _ request⟩

theorem on?_published {e e' : Engine σ} {event : Event σ} (hon : e.on? event = some e') :
    e.announcedOn event = [e'.published] ∧ e'.Shows ∨
      e.announcedOn event = [] ∧ e'.published = e.published := by
  cases event with
  | work branch => exact (step_of_take? hon).published hon
  | call asked =>
      cases hon
      exact .inr ⟨rfl, (e.receive_leavesWork asked).published⟩
  | pass ms | change world =>
      cases hon
      exact .inr ⟨rfl, rfl⟩

/-! ### What is known at all times -/

/-- What the last published status tells about the frames. -/
structure Accounts (e : Engine σ) : Prop where
  empty : e.published.state.isEmpty = e.published.frames.isEmpty
  retired : e.published.retired ≤ e.retired
  stopped : e.published.state = .stopped → e.phase = .stopped

theorem Shows.accounts {e : Engine σ} (h : e.Shows) : e.Accounts where
  empty := by rw [h.state, h.frames, List.isEmpty_map]
  retired := Nat.le_of_eq h.retired
  stopped := h.stopped

theorem Restacked.retired_le {e e' : Engine σ} {frames : List Frame} (h : Restacked e e' frames) :
    e.retired ≤ e'.retired := by
  cases h <;> omega

theorem on?_length {e e' : Engine σ} {event : Event σ} (hon : e.on? event = some e') :
    e.retired ≤ e'.retired ∧
      e'.stack.length + e'.retired = e.stack.length + e.retired + (e.placedOn event).length := by
  cases event with
  | work branch =>
      have hrestacked := (step_of_take? hon).restacked
      exact ⟨hrestacked.retired_le, hrestacked.length⟩
  | call asked =>
      cases hon
      have hleaves := e.receive_leavesWork asked
      have hstack : (e.receive asked).stack.length = e.stack.length := by
        simpa using congrArg List.length hleaves.stack
      rw [hstack, hleaves.retired]
      exact ⟨Nat.le_refl _, rfl⟩
  | pass ms | change world =>
      cases hon
      exact ⟨Nat.le_refl _, rfl⟩

/-- An engine that has ended is as it is for good. -/
theorem phase_of_hasEnded {e e' : Engine σ} {event : Event σ} (h : e.phase.hasEnded = true)
    (hon : e.on? event = some e') : e'.phase = e.phase ∧ e.announcedOn event = [] := by
  cases event with
  | work branch =>
      rw [on?, take?_of_hasEnded h] at hon
      cases hon
  | call asked =>
      cases hon
      exact ⟨(e.receive_leavesWork asked).phase, rfl⟩
  | pass ms | change world =>
      cases hon
      exact ⟨rfl, rfl⟩

theorem run?_of_hasEnded {e e' : Engine σ} {events : List (Event σ)}
    (h : e.phase.hasEnded = true) (hrun : e.run? events = some e') :
    e'.phase = e.phase ∧ e.started events = [] := by
  induction events generalizing e with
  | nil =>
      cases hrun
      exact ⟨rfl, rfl⟩
  | cons event events ih =>
      obtain ⟨e₁, hon, hrest⟩ := run?_cons_eq_some.mp hrun
      obtain ⟨hphase, -⟩ := phase_of_hasEnded h hon
      obtain ⟨hlast, hnone⟩ := ih (by rwa [hphase]) hrest
      refine ⟨hlast.trans hphase, ?_⟩
      have hstarting : e.starting? = none := by
        unfold starting?
        split
        · next hp => rw [hp] at h; cases h
        · rfl
      rw [started_cons hon, hnone, List.append_nil]
      cases event <;> simp [startedOn, hstarting]

theorem stopped_of_stopped {e e' : Engine σ} {event : Event σ} (h : e.phase = .stopped)
    (hon : e.on? event = some e') : e'.phase = .stopped ∧ e.announcedOn event = [] := by
  obtain ⟨hphase, hsilent⟩ := phase_of_hasEnded (by rw [h]; rfl) hon
  exact ⟨hphase.trans h, hsilent⟩

/-- An event keeps what the published status tells, and it counts no frame twice. -/
theorem Accounts.on {e e' : Engine σ} {event : Event σ} (h : e.Accounts)
    (hon : e.on? event = some e') :
    e'.Accounts ∧ e.published.retired ≤ e'.published.retired := by
  obtain ⟨hretired, -⟩ := on?_length hon
  rcases on?_published hon with ⟨-, hshows⟩ | ⟨-, hsame⟩
  · exact ⟨hshows.accounts, hshows.retired ▸ Nat.le_trans h.retired hretired⟩
  · refine ⟨?_, Nat.le_of_eq (by rw [hsame])⟩
    constructor
    · rw [hsame]
      exact h.empty
    · rw [hsame]
      exact Nat.le_trans h.retired hretired
    · rw [hsame]
      exact fun hstate => (stopped_of_stopped (h.stopped hstate) hon).1

theorem Accounts.run {e e' : Engine σ} {events : List (Event σ)} (h : e.Accounts)
    (hrun : e.run? events = some e') :
    e'.Accounts ∧ e.retired ≤ e'.retired ∧ e.published.retired ≤ e'.published.retired ∧
      e'.stack.length + e'.retired = e.stack.length + e.retired + (e.placed events).length := by
  induction events generalizing e with
  | nil =>
      obtain rfl : e = e' := by simpa using hrun
      exact ⟨h, Nat.le_refl _, Nat.le_refl _, rfl⟩
  | cons event events ih =>
      obtain ⟨e₁, hon, hrest⟩ := run?_cons_eq_some.mp hrun
      obtain ⟨h₁, hpublished₁⟩ := h.on hon
      obtain ⟨hretired₁, hlength₁⟩ := on?_length hon
      obtain ⟨h', hretired, hpublished, hlength⟩ := ih h₁ hrest
      refine ⟨h', Nat.le_trans hretired₁ hretired, Nat.le_trans hpublished₁ hpublished, ?_⟩
      rw [placed_cons hon, List.length_append, hlength, hlength₁, Nat.add_assoc]

theorem spawn_accounts (host : Host σ) (settings : Settings) (world : σ) (catalog : Catalog) :
    (spawn host settings world catalog).Accounts := by
  unfold spawn
  rcases host.answer 0 .isReady world with ⟨failure | (isReady : Bool), world'⟩
  · exact ⟨rfl, Nat.le_refl _, nofun⟩
  · cases isReady <;> exact ⟨rfl, Nat.le_refl _, nofun⟩

/-- Once an engine has ended it publishes nothing. -/
theorem announced_of_stopped {e e' : Engine σ} {events : List (Event σ)} (h : e.phase = .stopped)
    (hrun : e.run? events = some e') :
    e.announced events = [] ∧ e'.published = e.published := by
  induction events generalizing e with
  | nil =>
      obtain rfl : e = e' := by simpa using hrun
      exact ⟨rfl, rfl⟩
  | cons event events ih =>
      obtain ⟨e₁, hon, hrest⟩ := run?_cons_eq_some.mp hrun
      obtain ⟨h₁, hsilent⟩ := stopped_of_stopped h hon
      obtain ⟨hnone, hpublished⟩ := ih h₁ hrest
      have hsame : e₁.published = e.published := by
        rcases on?_published hon with ⟨hsome, -⟩ | ⟨-, hsame⟩
        · rw [hsilent] at hsome
          cases hsome
        · exact hsame
      rw [announced_cons hon, hsilent, hnone]
      exact ⟨rfl, hpublished.trans hsame⟩

theorem placed_append {e e₁ : Engine σ} {events : List (Event σ)}
    (hrun : e.run? events = some e₁) (events' : List (Event σ)) :
    e.placed (events ++ events') = e.placed events ++ e₁.placed events' := by
  induction events generalizing e with
  | nil =>
      obtain rfl : e = e₁ := by simpa using hrun
      rfl
  | cons event events ih =>
      obtain ⟨e₂, hon, hrest⟩ := run?_cons_eq_some.mp hrun
      rw [List.cons_append, placed_cons hon, placed_cons hon, ih hrest, List.append_assoc]

/-- In every run the published status shows no frames exactly if there is nothing to run, and
frames exactly if they are run or paused. All frames that came to the stack are on it or were
counted as gone, and with every status that is published the frames that it shows and those that it
counts are all that came so far. The count never goes down, and after the engine has told that it
has stopped it publishes nothing more. -/
theorem statuses_account_for_frames (host : Host σ) (settings : Settings) (world : σ)
    (catalog : Catalog) {before after : List (Event σ)} {e e' : Engine σ}
    (hbefore : (spawn host settings world catalog).run? before = some e)
    (hafter : e.run? after = some e') :
    (e.published.frames = [] ↔ e.published.state = .notReady ∨ e.published.state = .idle ∨
      e.published.state = .stopped) ∧
    (e.published.frames ≠ [] ↔ e.published.state = .running ∨ e.published.state = .paused) ∧
    e.stack.length + e.retired = ((spawn host settings world catalog).placed before).length ∧
    (∀ event e₁, e.on? event = some e₁ →
      e.announcedOn event = [] ∧ e₁.published = e.published ∨
      e.announcedOn event = [e₁.published] ∧
        e₁.published.frames.length + e₁.published.retired =
          ((spawn host settings world catalog).placed (before ++ [event])).length) ∧
    e.retired ≤ e'.retired ∧ e.published.retired ≤ e'.published.retired ∧
    (e.published.state = .stopped → e.announced after = [] ∧ e'.published = e.published) := by
  obtain ⟨haccounts, -, -, hplaced⟩ := (spawn_accounts host settings world catalog).run hbefore
  obtain ⟨-, hretired, hpublished, -⟩ := haccounts.run hafter
  have hnone : (spawn host settings world catalog).stack.length +
      (spawn host settings world catalog).retired = 0 := rfl
  rw [hnone, Nat.zero_add] at hplaced
  refine ⟨?_, ?_, hplaced, fun event e₁ hon => ?_, hretired, hpublished,
    fun hstopped => announced_of_stopped (haccounts.stopped hstopped) hafter⟩
  · rw [← EngineState.isEmpty_iff, haccounts.empty, List.isEmpty_iff]
  · rw [← EngineState.not_isEmpty_iff, haccounts.empty, List.isEmpty_eq_false_iff]
  · rcases on?_published hon with ⟨hannounced, hshows⟩ | hsilent
    · refine .inr ⟨hannounced, ?_⟩
      obtain ⟨-, hlength⟩ := on?_length hon
      rw [placed_append hbefore, placed_cons hon, hshows.frames, hshows.retired, List.length_map,
        hlength, hplaced, List.length_append, List.length_append]
      rfl
    · exact .inl hsilent

def pairStarts : List (Event DryRun) :=
  .call (.enqueue { name := "Pair", contents := "/a\n/b" } none) :: onItsOwn 6

def pairEnds : List (Event DryRun) := [.call .shutdown, .work .interrupt, .work .proceed]

theorem statuses_account_for_frames_pair :
    (fetchingPair.published.state = .running ∧ fetchingPair.published.frames ≠ [] ∧
      fetchingPair.stack.length + fetchingPair.retired = 1 ∧
      fetchingPair.retired ≤ (fetchingPair.ran pairEnds).retired) ∧
    ((fetchingPair.ran pairEnds).published.state = .stopped ∧
      (fetchingPair.ran pairEnds).published.frames = [] ∧
      (fetchingPair.ran pairEnds).announced [.call .resume] = []) := by
  have hstarts : (spawn DryRun.host {} {} {}).run? pairStarts = some fetchingPair := by rfl
  have hends : fetchingPair.run? pairEnds = some (fetchingPair.ran pairEnds) :=
    run?_eq_some_ran (by rfl)
  have hboth : (spawn DryRun.host {} {} {}).run? (pairStarts ++ pairEnds) =
      some (fetchingPair.ran pairEnds) := by rfl
  have hresume : (fetchingPair.ran pairEnds).run? [.call .resume] = some _ := rfl
  refine ⟨?_, ?_⟩
  · obtain ⟨-, hframes, hplaced, -, hretired, -⟩ :=
      statuses_account_for_frames DryRun.host {} {} {} hstarts hends
    exact ⟨by rfl, hframes.mpr (.inl (by rfl)), hplaced, hretired⟩
  · obtain ⟨hframes, -, -, -, -, -, hstopped⟩ :=
      statuses_account_for_frames DryRun.host {} {} {} hboth hresume
    exact ⟨by rfl, hframes.mpr (.inr (.inr (by rfl))), (hstopped (by rfl)).1⟩

end Engine

end CraftLang
