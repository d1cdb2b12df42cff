import CraftLang.Proofs.Engine.Abreast
import CraftLang.Proofs.Engine.Cancellation

/-!
Engines without frames. At the top of its round such an engine is as good as new. A new engine
begins with its pause gate closed, and the gate of the other one can be open. The one stops at its
gate; the other sees that it has nothing to run, closes its gate and begins once more. Nobody can
see the extra round, but while it lasts requests are taken and signals change, so what the new
engine has done by then depends on how the extra round ends.
-/

namespace CraftLang

/-- Whether an engine in this phase is on the way from its queue to its pause gate. -/
def Phase.isOnTheWay : Phase → Bool
  | .draining | .taken true | .checkingReady | .checkingPause => true
  | _ => false

/-- Whether an engine in this phase is neither on the way from its queue to its pause gate nor waits
there. -/
def Phase.isAside : Phase → Bool
  | .top | .taken false | .blocked true | .closing | .stopped => true
  | _ => false

theorem Phase.isGateless_of_isAside {phase : Phase} (h : phase.isAside = true) :
    phase.isGateless = true := by
  unfold Phase.isAside at h
  split at h <;> first | rfl | cases h

theorem Phase.isGateless_of_isOnTheWay {phase : Phase} (h : phase.isOnTheWay = true)
    (hpause : phase ≠ .checkingPause) : phase.isGateless = true := by
  unfold Phase.isOnTheWay at h
  split at h <;> first | rfl | exact absurd rfl hpause | cases h

theorem Phase.not_inTick_of_isOnTheWay {phase : Phase} (h : phase.isOnTheWay = true) :
    phase.inTick = false := by
  unfold Phase.isOnTheWay at h
  split at h <;> first | rfl | cases h

theorem Phase.hasEnded_of_isOnTheWay {phase : Phase} (h : phase.isOnTheWay = true) :
    phase.hasEnded = false := by
  unfold Phase.isOnTheWay at h
  split at h <;> first | rfl | cases h

/-- Whether there is more to a sight than a status without frames. -/
def Sight.isMore {σ : Type} : Sight σ → Bool
  | .told status => !status.frames.isEmpty
  | _ => true

/-- What is left of `all` if some of the statuses without frames are missed. -/
structure Abridges {σ : Type} (seen all : List (Sight σ)) : Prop where
  order : seen.Sublist all
  more : seen.filter Sight.isMore = all.filter Sight.isMore

namespace Abridges

variable {σ : Type} {seen seen' all all' : List (Sight σ)}

theorem refl (seen : List (Sight σ)) : Abridges seen seen := ⟨.refl seen, rfl⟩

theorem nil (h : all.filter Sight.isMore = []) : Abridges [] all := ⟨List.nil_sublist all, h.symm⟩

theorem append (h : Abridges seen all) (h' : Abridges seen' all') :
    Abridges (seen ++ seen') (all ++ all') where
  order := h.order.append h'.order
  more := by rw [List.filter_append, List.filter_append, h.more, h'.more]

/-- Frames that have gone make no difference to what is more than a status without frames. -/
theorem counting (h : Abridges seen all) (gone : Nat) :
    Abridges (seen.map (·.counting gone)) (all.map (·.counting gone)) where
  order := h.order.map _
  more := by
    have hmore : Sight.isMore ∘ (Sight.counting gone : Sight σ → Sight σ) = Sight.isMore := by
      funext sight
      cases sight <;> rfl
    rw [List.filter_map, List.filter_map, hmore, h.more]

end Abridges

namespace Engine

variable {σ : Type} {e e' e₁ : Engine σ}

variable {f f' f₁ g g' : Engine σ} {gs gs' gs₁ : List (Engine σ)} {idle : List Request}
  {branch : Branch} {seen seen' : List (Sight σ)}

/-! ### Guessing how the extra round ends -/

/-- Where an engine can be while new ones have come to be those in the list. As long as it is open
how the extra round ends there are two of them: one that goes its round together with the engine,
and one that still stands at the top of its round, with requests in its queue that the engine has
taken already. -/
inductive Guess : Engine σ → List (Engine σ) → Prop
  | alike (g : Engine σ) : Guess g [g]
  | abreast {g : Engine σ} (hg : Hollow g) (hphase : g.phase.isAside = true) : Guess g.ajar [g]
  | extra {g : Engine σ} {idle : List Request} (hg : Hollow g)
      (hidle : ∀ request ∈ idle, request.frame? = none) (hphase : g.phase.isOnTheWay = true) :
      Guess g.ajar [g, g.backAt .top idle]
  | emptied {g : Engine σ} {idle : List Request} (pause : Gate) (hg : Hollow g)
      (hidle : ∀ request ∈ idle, request.frame? = none) (hphase : g.phase = .checkingPause) :
      Guess (g.placedAt pause .emptied) [g, g.backAt .top idle]
  | behind {g : Engine σ} {idle : List Request} (hstack : g.stack = [])
      (hidle : ∀ request ∈ idle, request.frame? = none)
      (hphase : g.phase = .top ∨ g.phase = .closing) :
      Guess g [g.backAt g.phase idle]

/-- Each of the engines in the second list comes from one in the first, and shows what is seen of
the failed engine. -/
def Follow (gs : List (Engine σ)) (seen : List (Sight σ)) (gs' : List (Engine σ)) : Prop :=
  ∀ g' ∈ gs', ∃ g ∈ gs, Displays g seen g'

namespace Follow

theorem one (hmem : g ∈ gs) (h : Displays g seen g') : Follow gs seen [g'] := by
  intro g₁ hg₁
  obtain rfl := List.mem_singleton.mp hg₁
  exact ⟨g, hmem, h⟩

theorem both (h : Follow gs seen [g]) (h' : Follow gs seen [g']) : Follow gs seen [g, g'] := by
  intro g₁ hg₁
  rcases List.mem_cons.mp hg₁ with rfl | hmem
  · exact h g₁ List.mem_cons_self
  · exact h' g₁ hmem

theorem trans (h : Follow gs seen gs₁) (h' : Follow gs₁ seen' gs') :
    Follow gs (seen ++ seen') gs' := by
  intro g' hg'
  obtain ⟨g₁, hg₁, hlater⟩ := h' g' hg'
  obtain ⟨g, hg, hfirst⟩ := h g₁ hg₁
  exact ⟨g, hg, hfirst.trans hlater⟩

/-- A fresh engine does nothing, or something that nobody sees. -/
theorem silently (hmem : g ∈ gs) (h : Displays g [] g') (hphase : f.phase.inTick = false)
    (hsilent : f.announces = false) : Follow gs (f.sightsOn (.work branch)) [g'] := by
  rw [sightsOn_of_silent hphase hsilent]
  exact .one hmem h

/-- The one that is abreast goes on as the failed engine does. -/
theorem ajar (hg : Hollow g) (hphase : g.phase.isGateless = true) (hmem : g ∈ gs)
    (hgoes : g.take? branch = some g') : Follow gs (g.ajar.sightsOn (.work branch)) [g'] := by
  rw [sightsOn_ajar hg hphase]
  exact .one hmem (.of_take? hgoes)

end Follow

/-- With an event the failed engine comes to `f'`, and fresh ones follow it. -/
def Foresees (f : Engine σ) (gs : List (Engine σ)) (event : Event σ) (f' : Engine σ) : Prop :=
  ∃ gs', Guess f' gs' ∧ Follow gs (f.sightsOn event) gs'

/-- What is no step happens to all of them. Somebody who sets the gate of the engine sets that of
the new ones, too. -/
theorem Guess.undergo {event : Event σ} (h : Guess f gs) (hstep : event.isStep = false)
    (hon : f.on? event = some f') : Foresees f gs event f' := by
  have hfollows {g g' : Engine σ} (hmem : g ∈ gs) (hon : g.on? event = some g') :
      Follow gs (f.sightsOn event) [g'] := by
    rw [sightsOn_of_not_isStep hstep, ← sightsOn_of_not_isStep hstep g]
    exact .one hmem (.of_on hon)
  cases h with
  | alike => exact ⟨[f'], .alike f', hfollows List.mem_cons_self hon⟩
  | @abreast g hg hphase =>
      obtain ⟨g', hunder⟩ := undergoes_of_not_isStep hstep g
      rcases hunder.ajar hon with rfl | ⟨hsets, rfl⟩
      · exact ⟨[f'], .alike f', hfollows List.mem_cons_self hunder.on⟩
      · exact ⟨[g'], .abreast (hg.undergo hunder hsets) (by rwa [hunder.phase]),
          hfollows List.mem_cons_self hunder.on⟩
  | @extra g idle hg hidle hphase =>
      obtain ⟨g', hunder⟩ := undergoes_of_not_isStep hstep g
      have hback := hunder.backAt .top (.of_lives rfl (Phase.hasEnded_of_isOnTheWay hphase)) hidle
      rcases hunder.ajar hon with rfl | ⟨hsets, rfl⟩
      · exact ⟨[f'], .alike f', hfollows List.mem_cons_self hunder.on⟩
      · exact ⟨_, .extra (hg.undergo hunder hsets) hidle (by rwa [hunder.phase]),
          .both (hfollows List.mem_cons_self hunder.on)
            (hfollows (List.mem_cons_of_mem _ List.mem_cons_self) hback)⟩
  | @emptied g idle pause hg hidle hphase =>
      obtain ⟨g', hunder⟩ := undergoes_of_not_isStep hstep g
      have hlives : g.phase.hasEnded = false := by rw [hphase]; rfl
      rw [hunder.placedAt pause (.of_lives rfl hlives)] at hon
      cases hon
      have hphase' := hunder.phase.trans hphase
      have hstack' := hunder.stack_nil hg.stack
      cases hopen : g'.pause.isOpen with
      | true =>
          -- Somebody has opened the gate, and the new engine that went along finds it open.
          have hsets : event.setsPause = true := by
            cases hsets : event.setsPause with
            | true => rfl
            | false => simp [hunder.pause hsets, hg.pause, Gate.closed] at hopen
          have hgoes : g'.proceed? = some (g'.goto .emptied) := by
            simp [proceed?, hphase', hopen, hstack']
          have hsilent : Displays g' [] (g'.goto .emptied) :=
            displays_proceed (by rw [hphase']; rfl)
              (by simp [announces, hphase', hopen, hstack']) hgoes
          have hfollow := (hfollows List.mem_cons_self hunder.on).trans
            (.one List.mem_cons_self hsilent)
          rw [List.append_nil] at hfollow
          exact ⟨[g'.goto .emptied], by rw [hsets]; exact .alike (g'.goto .emptied), hfollow⟩
      | false =>
          have hback := hunder.backAt .top (.of_lives rfl hlives) hidle
          exact ⟨_, .emptied _ ⟨hstack', Gate.eq_closed hopen⟩ hidle hphase',
            .both (hfollows List.mem_cons_self hunder.on)
              (hfollows (List.mem_cons_of_mem _ List.mem_cons_self) hback)⟩
  | @behind _ idle hstack hidle hphase =>
      have hunder := undergoes_of_on hstep hon
      have hback := hunder.backAt f.phase (.refl f.phase) hidle
      refine ⟨_, .behind (hunder.stack_nil hstack) hidle (by rwa [hunder.phase]),
        hfollows List.mem_cons_self ?_⟩
      rwa [hunder.phase]

/-- The two go abreast up to the end of the first round, or they come to look at the queue. -/
theorem Step.aside (h : Step g branch g') (hphase : g.phase.isAside = true) :
    g'.phase.isAside = true ∨ branch = .proceed ∧ g.phase = .top ∧ g' = g.goto .draining := by
  cases h with
  | tick htick => cases hp : g.phase <;> simp_all [Phase.isAside, Phase.inTick]
  | interrupted | served => exact .inl rfl
  | @applied drains _ _ hp =>
      cases drains with
      | true => rw [hp] at hphase; cases hphase
      | false => exact .inl rfl
  | round hround =>
      cases hround with
      | begin hp =>
          cases hcancel : g.cancel.isCancelled with
          | true => exact .inl rfl
          | false => exact .inr ⟨rfl, hp, rfl⟩
      | @nothing drains hp =>
          cases drains with
          | true => rw [hp] at hphase; cases hphase
          | false => exact .inl rfl
      | unready | wake | close => exact .inl rfl
      | drained hp | request hp | ready hp | tick hp | empty hp | rest hp | emptied hp =>
          rw [hp] at hphase
          cases hphase

theorem foresees_abreast (hg : Hollow g) (hphase : g.phase.isAside = true)
    (hstep : g.ajar.take? branch = some f') : Foresees g.ajar [g] (.work branch) f' := by
  have hgateless := Phase.isGateless_of_isAside hphase
  obtain ⟨g', hgoes, hnext⟩ := ajar_step hg hgateless hstep
  have hfollow : Follow [g] (g.ajar.sightsOn (.work branch)) [g'] :=
    .ajar hg hgateless List.mem_cons_self hgoes
  rcases hnext with rfl | ⟨rfl, hg'⟩
  · exact ⟨_, .alike f', hfollow⟩
  rcases (step_of_take? hgoes).aside hphase with haside | ⟨rfl, hp, rfl⟩
  · exact ⟨_, .abreast hg' haside, hfollow⟩
  · have hback : (g.goto .draining).backAt .top [] = g := by
      rw [← hp]
      rfl
    have hstays : Follow [g] (g.ajar.sightsOn (.work .proceed))
      [(g.goto .draining).backAt .top []] := by
      rw [sightsOn_ajar hg hgateless, hback]
      exact .silently List.mem_cons_self (.refl g) (by rw [hp]; rfl) (by simp [announces, hp])
    exact ⟨_, .extra hg' (List.forall_mem_nil _) rfl, .both hfollow hstays⟩

/-- On the way from the queue to the look at the pause gate a request without a frame is lost, or
nothing at all changes; or the host is found not to be ready. -/
theorem Step.onTheWay (h : Step g branch g') (hg' : Hollow g') (hstack : g.stack = [])
    (hphase : g.phase.isOnTheWay = true) (hpause : g.phase ≠ .checkingPause) :
    g'.phase.isAside = true ∨ g'.phase.isOnTheWay = true ∧ g.announces = false ∧
      ∃ lost : List Request, (∀ request ∈ lost, request.frame? = none) ∧
        ∀ idle, g'.backAt .top (idle ++ lost) = g.backAt .top idle := by
  have hmoved (phase : Phase) (hway : phase.isOnTheWay = true) (hsilent : g.announces = false) :
      (g.goto phase).phase.isAside = true ∨ (g.goto phase).phase.isOnTheWay = true ∧
        g.announces = false ∧ ∃ lost : List Request, (∀ request ∈ lost, request.frame? = none) ∧
          ∀ idle, (g.goto phase).backAt .top (idle ++ lost) = g.backAt .top idle :=
    .inr ⟨hway, hsilent, [], List.forall_mem_nil _, fun idle => by rw [List.append_nil]; rfl⟩
  cases h with
  | tick htick => cases hp : g.phase <;> simp_all [Phase.isOnTheWay, Phase.inTick]
  | interrupted hwait =>
      cases hp : g.phase <;> simp_all [Phase.isOnTheWay, isWaiting]
  | served hp => rw [hp] at hphase; cases hphase
  | @applied drains request queue hp hqueue =>
      cases drains with
      | false => rw [hp] at hphase; cases hphase
      | true =>
          have hrest : ({ g with queue } : Engine σ).stack = [] := hstack
          have hhollow : Hollow ({ g with queue }.apply request) := ⟨hg'.stack, hg'.pause⟩
          obtain ⟨hframe, hsame⟩ := apply_of_hollow hrest hhollow
          refine .inr ⟨rfl, by simp [announces, hp], [request], by simpa using hframe,
            fun idle => ?_⟩
          rw [hsame]
          simp [backAt, goto, hqueue]
  | round hround =>
      cases hround with
      | drained hp => exact hmoved _ rfl (by simp [announces, hp])
      | request hp => exact hmoved _ rfl (by simp [announces, hp])
      | @nothing drains hp =>
          cases drains with
          | true => exact hmoved _ rfl (by simp [announces, hp])
          | false => rw [hp] at hphase; cases hphase
      | ready hp hready => exact hmoved _ rfl (by simp [announces, hp, hready])
      | unready => exact .inl rfl
      | begin hp | emptied hp | wake hp | close hp => rw [hp] at hphase; cases hphase
      | tick hp | empty hp | rest hp => exact absurd hp hpause

theorem foresees_extra (hg : Hollow g) (hidle : ∀ request ∈ idle, request.frame? = none)
    (hphase : g.phase.isOnTheWay = true) (hpause : g.phase ≠ .checkingPause)
    (hstep : g.ajar.take? branch = some f') :
    Foresees g.ajar [g, g.backAt .top idle] (.work branch) f' := by
  have hgateless := Phase.isGateless_of_isOnTheWay hphase hpause
  obtain ⟨g', hgoes, hnext⟩ := ajar_step hg hgateless hstep
  have hfollow : Follow [g, g.backAt .top idle] (g.ajar.sightsOn (.work branch)) [g'] :=
    .ajar hg hgateless List.mem_cons_self hgoes
  rcases hnext with rfl | ⟨rfl, hg'⟩
  · exact ⟨_, .alike f', hfollow⟩
  rcases (step_of_take? hgoes).onTheWay hg' hg.stack hphase hpause with
    haside | ⟨hway, hsilent, lost, hlost, hback⟩
  · exact ⟨_, .abreast hg' haside, hfollow⟩
  · have hstays : Follow [g, g.backAt .top idle] (g.ajar.sightsOn (.work branch))
        [g.backAt .top idle] := by
      rw [sightsOn_ajar hg hgateless]
      exact .silently (List.mem_cons_of_mem _ List.mem_cons_self) (.refl _)
        (Phase.not_inTick_of_isOnTheWay hphase) hsilent
    have hall : ∀ request ∈ idle ++ lost, request.frame? = none :=
      fun request hmem => (List.mem_append.mp hmem).elim (hidle request) (hlost request)
    have hguess := Guess.extra hg' hall hway
    rw [hback] at hguess
    exact ⟨_, hguess, .both hfollow hstays⟩

theorem foresees_checkingPause (hg : Hollow g) (hidle : ∀ request ∈ idle, request.frame? = none)
    (hphase : g.phase = .checkingPause) (hstep : g.ajar.take? branch = some f') :
    Foresees g.ajar [g, g.backAt .top idle] (.work branch) f' := by
  obtain ⟨rfl, hproceed⟩ := proceed_of_take? (by simp [isWaiting, ajar, placedAt, hphase]) hstep
  have hnext : g.ajar.proceed? = some (g.placedAt .opened .emptied) := by
    simp [proceed?, ajar, placedAt, goto, Gate.opened, hphase, hg.stack]
  have hsilent : g.ajar.announces = false := by
    simp [announces, ajar, placedAt, Gate.opened, hphase, hg.stack]
  have htick : g.ajar.phase.inTick = false := by
    rw [show g.ajar.phase = g.phase from rfl, hphase]
    rfl
  obtain rfl := Option.some.inj (hnext.symm.trans hproceed)
  exact ⟨_, .emptied .opened hg hidle hphase,
    .both (.silently List.mem_cons_self (.refl _) htick hsilent)
      (.silently (List.mem_cons_of_mem _ List.mem_cons_self) (.refl _) htick hsilent)⟩

/-- The engine closes its gate and begins again, as the new engine that has stayed behind does. -/
theorem foresees_emptied (hg : Hollow g) (hidle : ∀ request ∈ idle, request.frame? = none)
    (pause : Gate) (hstep : (g.placedAt pause .emptied).take? branch = some f') :
    Foresees (g.placedAt pause .emptied) [g, g.backAt .top idle] (.work branch) f' := by
  obtain ⟨rfl, hproceed⟩ := proceed_of_take? rfl hstep
  have hnext : (g.placedAt pause .emptied).proceed? = some (g.goto .top) := by
    simp [proceed?, placedAt, goto, hg.pause]
  obtain rfl := Option.some.inj (hnext.symm.trans hproceed)
  exact ⟨_, .behind hg.stack hidle (.inl rfl),
    .silently (List.mem_cons_of_mem _ List.mem_cons_self) (.refl _) rfl rfl⟩

/-- At the end all requests are lost, and nobody can tell what they were. -/
theorem lost_at_end (idle : List Request) (hp : f.phase = .closing) :
    (f.backAt f.phase idle).proceed? = f.proceed? ∧
      (f.backAt f.phase idle).sightsOn (.work .proceed) = f.sightsOn (.work .proceed) := by
  have hsame : (f.backAt f.phase idle).proceed? = f.proceed? := by
    simp only [proceed?, backAt, hp]
    rfl
  have htick : f.phase.inTick = false := by
    rw [hp]
    rfl
  refine ⟨hsame, ?_⟩
  rw [sightsOn_of_not_inTick htick, sightsOn_of_not_inTick (e := f.backAt f.phase idle) htick]
  simp only [announcedOn, hsame]
  simp only [announces, backAt, hp]

/-- A fresh engine that has stayed behind catches up at the top of its round, or both lose their
requests. -/
theorem foresees_behind (hstack : f.stack = []) (hidle : ∀ request ∈ idle, request.frame? = none)
    (hphase : f.phase = .top ∨ f.phase = .closing) (hstep : f.take? branch = some f') :
    Foresees f [f.backAt f.phase idle] (.work branch) f' := by
  rcases hphase with hp | hp
  · obtain ⟨rfl, hproceed⟩ := proceed_of_take? (by simp [isWaiting, hp]) hstep
    have hsilent : f.announces = false := by simp [announces, hp]
    have hsilent' : (f.backAt f.phase idle).announces = false := by simp [announces, backAt, hp]
    have htick : f.phase.inTick = false := by
      rw [hp]
      rfl
    cases hcancel : f.cancel.isCancelled with
    | true =>
        simp only [proceed?, hp, hcancel, if_true, Option.some.injEq] at hproceed
        obtain rfl := hproceed
        have hgoes : (f.backAt f.phase idle).proceed? = some (f.backAt .closing idle) := by
          simp [proceed?, backAt, goto, hp, hcancel]
        exact ⟨_, .behind (g := f.goto .closing) hstack hidle (.inr rfl),
          .silently List.mem_cons_self
            (displays_proceed htick hsilent' hgoes) htick hsilent⟩
    | false =>
        simp only [proceed?, hp, hcancel, if_false, Bool.false_eq_true, Option.some.injEq]
          at hproceed
        obtain rfl := hproceed
        have hgoes : (f.backAt f.phase idle).proceed? = some (f.backAt .draining idle) := by
          simp [proceed?, backAt, goto, hp, hcancel]
        have hfirst : Displays (f.backAt f.phase idle) [] (f.backAt .draining idle) :=
          displays_proceed htick hsilent' hgoes
        have hdrained : Displays (f.backAt .draining idle) [] (f.goto .draining) :=
          displays_drained (e := f.goto .draining) rfl hstack hidle
        exact ⟨_, .alike _,
          .silently List.mem_cons_self (hfirst.trans hdrained) htick hsilent⟩
  · obtain ⟨rfl, hproceed⟩ := proceed_of_take? (by simp [isWaiting, hp]) hstep
    obtain ⟨hsame, hseen⟩ := lost_at_end idle hp
    rw [Foresees, ← hseen]
    exact ⟨_, .alike _,
      .one List.mem_cons_self (.of_take? (hsame.trans hproceed))⟩

/-! ### Runs of the failed engine -/

/-- With every event of the engine, new ones follow it. -/
theorem Guess.on {event : Event σ} (h : Guess f gs) (hon : f.on? event = some f') :
    Foresees f gs event f' := by
  cases event with
  | call | pass | change => exact h.undergo rfl hon
  | work branch =>
      cases h with
      | alike => exact ⟨_, .alike f', .one List.mem_cons_self (.of_on hon)⟩
      | abreast hg hphase => exact foresees_abreast hg hphase hon
      | @extra g idle hg hidle hphase =>
          by_cases hpause : g.phase = .checkingPause
          · exact foresees_checkingPause hg hidle hpause hon
          · exact foresees_extra hg hidle hphase hpause hon
      | emptied pause hg hidle => exact foresees_emptied hg hidle pause hon
      | behind hstack hidle hphase => exact foresees_behind hstack hidle hphase hon

theorem Guess.run {events : List (Event σ)} (h : Guess f gs) (hrun : f.run? events = some f') :
    ∃ gs', Guess f' gs' ∧ Follow gs (f.sights events) gs' := by
  induction events generalizing f gs with
  | nil =>
      cases hrun
      exact ⟨gs, h, fun g hmem => ⟨g, hmem, .refl g⟩⟩
  | cons event events ih =>
      obtain ⟨f₁, hon, hrest⟩ := run?_cons_eq_some.mp hrun
      obtain ⟨gs₁, h₁, hfirst⟩ := h.on hon
      obtain ⟨gs', h', hlater⟩ := ih h₁ hrest
      rw [sights_cons hon]
      exact ⟨gs', h', hfirst.trans hlater⟩

/-! ### Lagging behind a new engine -/

/-- An engine that does nothing any more but tell that it has ended. -/
def IsOver (g : Engine σ) : Prop :=
  g.phase = .top ∧ g.cancel.isCancelled = true ∨ g.phase = .closing ∨ g.phase = .stopped

/-- How an engine can lag behind a new one. As long as the new one goes round without frames, the
engine stays at its queue, with requests in it that the new one has taken already. When the new one
takes a frame, so does the engine. When the new one is over, the engine stays where it is. -/
inductive Lags : Engine σ → Engine σ → Prop
  | alike {g : Engine σ} (published : EngineStatus) : Lags (g.aged 0 published) g
  | ahead {g : Engine σ} (published : EngineStatus) (hphase : g.phase = .top) :
      Lags (g.recast g.pause .draining [] g.retired published) g
  | behind {g : Engine σ} {idle : List Request} (pause : Gate) (published : EngineStatus)
      (hstack : g.stack = []) (hidle : ∀ request ∈ idle, request.frame? = none)
      (hphase : g.phase.inTick = false) (hlives : g.phase.hasEnded = false) :
      Lags (g.recast pause .draining idle g.retired published) g
  | ending {f g : Engine σ} (hover : IsOver g) : Lags f g

/-- With an event the new engine comes to `g'`, and the other one can do the same, but for statuses
without frames. -/
def LagsOn (f g : Engine σ) (event : Event σ) (g' : Engine σ) : Prop :=
  ∃ f' seen, Displays f seen f' ∧ Abridges seen (g.sightsOn event) ∧ Lags f' g'

theorem counting_zero (seen : List (Sight σ)) : seen.map (·.counting 0) = seen := by
  refine (List.map_congr_left fun sight _ => ?_).trans (List.map_id' _)
  cases sight with
  | told status => simp [Sight.counting, EngineStatus.counting]
  | met | did => rfl

theorem Lags.undergo {event : Event σ} (h : Lags f g) (hstep : event.isStep = false)
    (hon : g.on? event = some g') : LagsOn f g event g' := by
  have hunder := undergoes_of_on hstep hon
  have hmeets {f f' : Engine σ} (hon : f.on? event = some f') (hlags : Lags f' g') :
      LagsOn f g event g' := by
    refine ⟨f', _, .of_on hon, ?_, hlags⟩
    rw [sightsOn_of_not_isStep hstep, sightsOn_of_not_isStep hstep]
    exact .refl _
  cases h with
  | alike published =>
      obtain ⟨after, hafter⟩ := on?_aged 0 published g event
      rw [hon, Option.map_some] at hafter
      exact hmeets hafter (.alike _)
  | ahead published hphase =>
      have hon' := hunder.recast g.pause .draining published
        (.of_lives rfl (by rw [hphase]; rfl)) (List.forall_mem_nil _)
      have hgate : (if event.setsPause then g'.pause else g.pause) = g'.pause := by
        cases hsets : event.setsPause with
        | true => rfl
        | false => exact (hunder.pause hsets).symm
      rw [hgate] at hon'
      exact hmeets hon' (.ahead published (hunder.phase.trans hphase))
  | behind pause published hstack hidle hphase hlives =>
      have hon' := hunder.recast pause .draining published (.of_lives rfl hlives) hidle
      exact hmeets hon' (.behind _ published (hunder.stack_nil hstack) hidle
        (by rwa [hunder.phase]) (by rwa [hunder.phase]))
  | ending hover =>
      obtain ⟨f', hunder'⟩ := undergoes_of_not_isStep hstep f
      refine hmeets hunder'.on (.ending ?_)
      rw [IsOver, hunder.phase]
      exact hover.imp_left fun ⟨htop, hcancel⟩ => ⟨htop, on?_cancelled hcancel hon⟩

/-- What an engine without frames shows between two ticks are statuses without frames. -/
theorem abridges_of_nil (hphase : g.phase.inTick = false) (hgoes : g.take? branch = some g')
    (hstack : g'.stack = []) : Abridges [] (g.sightsOn (.work branch)) := by
  have hon : g.on? (.work branch) = some g' := hgoes
  refine .nil ?_
  rw [sightsOn_of_not_inTick hphase]
  rcases on?_published hon with ⟨htold, hshows⟩ | ⟨hsilent, -⟩
  · have hempty : g'.published.frames = [] := by rw [hshows.frames, hstack, List.map_nil]
    simp [htold, Sight.isMore, hempty]
  · rw [hsilent]
    rfl

/-- The new engine takes a frame, and the other one catches up with it. -/
theorem lagsOn_push {frame : Frame} {queue : List Request} {drains : Bool} (pause : Gate)
    (published : EngineStatus) (hstack : g.stack = [])
    (hidle : ∀ request ∈ idle, request.frame? = none) (hphase : g.phase = .taken drains)
    (hqueue : g.queue = .push frame :: queue) :
    LagsOn (g.recast pause .draining idle g.retired published) g (.work .proceed)
      (({ g with queue }.apply (.push frame)).goto (if drains then .draining else .top)) := by
  let f := g.recast pause .draining [] g.retired published
  have hdrained : Displays (g.recast pause .draining idle g.retired published) [] f :=
    displays_drained (e := f) rfl hstack hidle
  have htaken : Displays f [] (f.goto (.taken true)) :=
    displays_proceed rfl rfl (by simp [f, proceed?, recast, goto, hqueue])
  have hpushed : Displays (f.goto (.taken true)) []
      (({ f with queue, phase := .taken true }.apply (.push frame)).goto .draining) :=
    displays_proceed rfl rfl (by simp [f, proceed?, recast, goto, hqueue])
  refine ⟨_, [], (hdrained.trans htaken).trans hpushed, ?_, ?_⟩
  · rw [sightsOn_of_silent (by rw [hphase]; rfl) (by rw [announces, hphase])]
    exact .refl []
  · cases drains with
    | true =>
        have halike := Lags.alike (g := ({ g with queue }.apply (.push frame)).goto .draining)
          published
        simpa [aged, f, recast, apply, goto] using halike
    | false => exact .ahead (g := ({ g with queue }.apply (.push frame)).goto .top) published rfl

/-- While the new engine goes round without frames, the other one waits for it. -/
theorem lagsOn_behind (pause : Gate) (published : EngineStatus) (hstack : g.stack = [])
    (hidle : ∀ request ∈ idle, request.frame? = none) (hphase : g.phase.inTick = false)
    (hgoes : g.take? branch = some g') :
    LagsOn (g.recast pause .draining idle g.retired published) g (.work branch) g' := by
  have hwaits (hstack' : g'.stack = [])
      (hlags : Lags (g.recast pause .draining idle g.retired published) g') :
      LagsOn (g.recast pause .draining idle g.retired published) g (.work branch) g' :=
    ⟨_, [], .refl _, abridges_of_nil hphase hgoes hstack', hlags⟩
  have hbehind {gate : Gate} {next : Phase} {told : EngineStatus} (htick : next.inTick = false)
      (hlives : next.hasEnded = false) :
      Lags (g.recast pause .draining idle g.retired published)
        { g with pause := gate, phase := next, published := told } :=
    .behind (g := { g with pause := gate, phase := next, published := told }) pause published hstack
      hidle htick hlives
  cases step_of_take? hgoes with
  | tick htick => exact absurd (hphase.symm.trans htick) Bool.false_ne_true
  | interrupted => exact hwaits hstack (.ending (.inr (.inl rfl)))
  | served => exact hwaits hstack (hbehind rfl rfl)
  | @applied drains request queue hp hqueue =>
      cases hframe : request.frame? with
      | some frame =>
          cases request with
          | push frame => exact lagsOn_push pause published hstack hidle hp hqueue
          | clear | step => cases hframe
      | none =>
          have hrest : ({ g with queue } : Engine σ).stack = [] := hstack
          have hidle' : ∀ asked ∈ idle ++ [request], asked.frame? = none := by
            simpa [or_imp, forall_and] using ⟨hidle, hframe⟩
          have hlater := Lags.behind
            (g := ({ g with queue } : Engine σ).goto (if drains then .draining else .top)) pause
            published hstack hidle' (by cases drains <;> rfl) (by cases drains <;> rfl)
          rw [apply_of_nil hrest hframe] at hwaits ⊢
          refine hwaits hstack ?_
          simpa [recast, goto, hqueue] using hlater
  | round hround =>
      cases hround with
      | begin =>
          cases hcancel : g.cancel.isCancelled with
          | true =>
              rw [hcancel] at hwaits
              exact hwaits hstack (.ending (.inr (.inl rfl)))
          | false =>
              rw [hcancel] at hwaits
              exact hwaits hstack (hbehind rfl rfl)
      | @nothing drains =>
          exact hwaits hstack (hbehind (by cases drains <;> rfl) (by cases drains <;> rfl))
      | drained | request | ready | empty | wake | emptied | rest =>
          exact hwaits hstack (hbehind rfl rfl)
      | unready =>
          rw [clear_of_nil hstack] at hwaits ⊢
          exact hwaits hstack (hbehind rfl rfl)
      | tick _ _ hsome => exact absurd hstack hsome
      | close => exact hwaits rfl (.ending (.inr (.inr rfl)))

/-- With every event of the new engine the other one keeps up. -/
theorem Lags.on {event : Event σ} (h : Lags f g) (hon : g.on? event = some g') :
    LagsOn f g event g' := by
  cases event with
  | call | pass | change => exact h.undergo rfl hon
  | work branch =>
      cases h with
      | alike published =>
          obtain ⟨after, hafter⟩ := on?_aged 0 published g (.work branch)
          rw [hon, Option.map_some] at hafter
          refine ⟨_, _, .of_on hafter, ?_, .alike _⟩
          rw [sightsOn_aged, counting_zero]
          exact .refl _
      | ahead published hphase =>
          obtain ⟨rfl, hproceed⟩ := proceed_of_take? (by simp [isWaiting, hphase]) hon
          simp only [proceed?, hphase, Option.some.injEq] at hproceed
          refine ⟨_, [], .refl _, ?_, ?_⟩
          · rw [sightsOn_of_silent (by rw [hphase]; rfl) (by rw [announces, hphase])]
            exact .refl []
          · rw [← hproceed]
            cases hcancel : g.cancel.isCancelled with
            | true => exact .ending (.inr (.inl rfl))
            | false =>
                have halike := Lags.alike (g := g.goto .draining) published
                simpa [aged, recast, goto] using halike
      | behind pause published hstack hidle hphase =>
          exact lagsOn_behind pause published hstack hidle hphase hon
      | ending hover =>
          have hgoes : g.take? branch = some g' := hon
          rcases hover with ⟨hp, hcancel⟩ | hp | hp
          · obtain ⟨rfl, hproceed⟩ := proceed_of_take? (by simp [isWaiting, hp]) hgoes
            simp only [proceed?, hp, hcancel, if_true, Option.some.injEq] at hproceed
            refine ⟨f, [], .refl f, ?_, .ending (.inr (.inl (by rw [← hproceed]; rfl)))⟩
            rw [sightsOn_of_silent (by rw [hp]; rfl) (by rw [announces, hp])]
            exact .refl []
          · obtain ⟨rfl, hproceed⟩ := proceed_of_take? (by simp [isWaiting, hp]) hgoes
            simp only [proceed?, hp, Option.some.injEq] at hproceed
            subst hproceed
            exact ⟨f, [], .refl f, abridges_of_nil (by rw [hp]; rfl) hgoes rfl,
              .ending (.inr (.inr rfl))⟩
          · have hnone := take?_of_hasEnded (e := g) (by rw [hp]; rfl) branch
            cases hnone.symm.trans hgoes

theorem Lags.run {events : List (Event σ)} (h : Lags f g) (hrun : g.run? events = some g') :
    ∃ f' seen, Displays f seen f' ∧ Abridges seen (g.sights events) := by
  induction events generalizing f g with
  | nil => exact ⟨f, [], .refl f, .refl []⟩
  | cons event events ih =>
      obtain ⟨g₁, hon, hrest⟩ := run?_cons_eq_some.mp hrun
      obtain ⟨f₁, seen, hfirst, hsame, h₁⟩ := h.on hon
      obtain ⟨f', seen', hlater, hsame'⟩ := ih h₁ hrest
      rw [sights_cons hon]
      exact ⟨f', _, hfirst.trans hlater, hsame.append hsame'⟩

/-! ### As good as new -/

end Engine

end CraftLang
