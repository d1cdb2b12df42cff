import CraftLang.Proofs.Engine.Accounting
import CraftLang.Proofs.Engine.Unnoticed

/-!
What callers defer. A stop or a pause that is deferred to the next loop command is a flag until
then. Callers set it at any time; a tick looks at it once a loop command was carried out, and clears
it there. No other step of a tick depends on the flag, and what the steps between two ticks make of
it is the status that they publish. So an engine goes the same way with the flag set and without it,
as far as it does not look; and it acts on the flag no more often than callers set it.
-/

namespace CraftLang

inductive Deferral where
  | stop
  | pause
  deriving DecidableEq, Repr

/-- Whether the engine is about to look at what was deferred. The stop comes first; the pause comes
when the loop has had its effect. -/
def Phase.looksAt : Phase → Deferral → Bool
  | .looped .., .stop => true
  | .loopApplied _, .pause => true
  | _, _ => false

def Call.defers : Call → Deferral → Bool
  | .stop true, .stop => true
  | .pause true, .pause => true
  | _, _ => false

def Event.defers {σ : Type} (deferral : Deferral) : Event σ → Bool
  | .call asked => asked.defers deferral
  | _ => false

def EngineStatus.forget (status : EngineStatus) : Deferral → EngineStatus
  | .stop => { status with stoppingSoon := false }
  | .pause => { status with pausingSoon := false }

namespace Engine

variable {σ : Type} {e e' u : Engine σ} {deferral : Deferral} {armed : Bool}
  {published : EngineStatus} {event : Event σ} {events : List (Event σ)}

def isArmed (e : Engine σ) : Deferral → Bool
  | .stop => e.stopAtLoop
  | .pause => e.pauseAtLoop

/-- The engine with the flag of a deferral set or cleared, and with another published status. -/
def arming (e : Engine σ) (deferral : Deferral) (armed : Bool) (published : EngineStatus) :
    Engine σ :=
  match deferral with
  | .stop => { e with stopAtLoop := armed, published }
  | .pause => { e with pauseAtLoop := armed, published }

def disarmed (e : Engine σ) (deferral : Deferral) : Engine σ :=
  e.arming deferral false (e.published.forget deferral)

def looksOn (e : Engine σ) (deferral : Deferral) : Event σ → Bool
  | .work _ => e.phase.looksAt deferral
  | _ => false

def looks (e : Engine σ) (deferral : Deferral) : List (Event σ) → Bool
  | [] => false
  | event :: events =>
    match e.on? event with
    | none => false
    | some e' => e.looksOn deferral event || e'.looks deferral events

def actsOn (e : Engine σ) (deferral : Deferral) (event : Event σ) : Bool :=
  e.looksOn deferral event && e.isArmed deferral

/-- How often the engine acts on what was deferred, in the course of a run. -/
def acts (e : Engine σ) (deferral : Deferral) : List (Event σ) → Nat
  | [] => 0
  | event :: events =>
    match e.on? event with
    | none => 0
    | some e' => (e.actsOn deferral event).toNat + e'.acts deferral events

theorem looks_cons (hon : e.on? event = some e') (events : List (Event σ)) :
    e.looks deferral (event :: events) =
      (e.looksOn deferral event || e'.looks deferral events) := by
  simp only [looks, hon]

theorem acts_cons (hon : e.on? event = some e') (events : List (Event σ)) :
    e.acts deferral (event :: events) =
      (e.actsOn deferral event).toNat + e'.acts deferral events := by
  simp only [acts, hon]

/-! ### The flag and the rest of the engine -/

section Arming

@[simp] theorem arming_isArmed : (e.arming deferral armed published).isArmed deferral = armed := by
  cases deferral <;> rfl

@[simp] theorem arming_phase : (e.arming deferral armed published).phase = e.phase := by
  cases deferral <;> rfl

@[simp] theorem arming_stack : (e.arming deferral armed published).stack = e.stack := by
  cases deferral <;> rfl

@[simp] theorem arming_queue : (e.arming deferral armed published).queue = e.queue := by
  cases deferral <;> rfl

@[simp] theorem arming_cancel : (e.arming deferral armed published).cancel = e.cancel := by
  cases deferral <;> rfl

@[simp] theorem arming_catalog : (e.arming deferral armed published).catalog = e.catalog := by
  cases deferral <;> rfl

@[simp] theorem arming_settings : (e.arming deferral armed published).settings = e.settings := by
  cases deferral <;> rfl

@[simp] theorem arming_now : (e.arming deferral armed published).now = e.now := by
  cases deferral <;> rfl

@[simp] theorem arming_ready : (e.arming deferral armed published).ready = e.ready := by
  cases deferral <;> rfl

@[simp] theorem arming_pause : (e.arming deferral armed published).pause = e.pause := by
  cases deferral <;> rfl

@[simp] theorem arming_published : (e.arming deferral armed published).published = published := by
  cases deferral <;> rfl

theorem arming_self (e : Engine σ) (deferral : Deferral) :
    e.arming deferral (e.isArmed deferral) e.published = e := by
  cases deferral <;> rfl

theorem arming_arming (armed' : Bool) (published' : EngineStatus) :
    (e.arming deferral armed published).arming deferral armed' published' =
      e.arming deferral armed' published' := by
  cases deferral <;> rfl

theorem isArmed_congr (hstop : e'.stopAtLoop = e.stopAtLoop)
    (hpause : e'.pauseAtLoop = e.pauseAtLoop) (deferral : Deferral) :
    e'.isArmed deferral = e.isArmed deferral := by
  cases deferral
  · exact hstop
  · exact hpause

@[simp] theorem disarmed_phase : (e.disarmed deferral).phase = e.phase := arming_phase

theorem disarmed_arming (h : published.forget deferral = e.published.forget deferral) :
    (e.arming deferral armed published).disarmed deferral = e.disarmed deferral := by
  rw [disarmed, arming_arming, arming_published, h]
  rfl

theorem unnoticed_arming (deferral : Deferral) (armed : Bool) (published : EngineStatus) :
    Unnoticed fun e : Engine σ => e.arming deferral armed published where
  phase _ := arming_phase
  stack _ := arming_stack
  cancel _ := arming_cancel
  catalog _ := arming_catalog
  settings _ := arming_settings
  now _ := arming_now
  goto _ _ := by cases deferral <;> rfl
  ask _ _ := by cases deferral <;> rfl
  learn _ _ := by cases deferral <;> rfl
  restack _ _ _ := by cases deferral <;> rfl

theorem closesAlike_arming (deferral : Deferral) (armed : Bool) (published : EngineStatus) :
    ClosesAlike fun e : Engine σ => e.arming deferral armed published :=
  fun _ => by cases deferral <;> rfl

/-- A step of a tick is the same whatever is deferred and whatever callers have been told, unless it
is the look at what is deferred. -/
theorem tick_arming (hphase : e.phase.inTick = true) (hlooks : e.phase.looksAt deferral = false)
    (armed : Bool) (published : EngineStatus) :
    (e.arming deferral armed published).proceed? =
      e.proceed?.map (·.arming deferral armed published) := by
  have hclose := @closesAlike_arming σ deferral armed published
  refine (unnoticed_arming deferral armed published).tick hphase ?_ ?_ fun delay _ =>
    (unnoticed_arming ..).close hclose e delay
  · intro restart text delay hp
    cases deferral with
    | stop => simp [hp, Phase.looksAt] at hlooks
    | pause => exact (unnoticed_arming ..).applyLoop restart text delay rfl rfl
  · intro delay hp
    cases deferral with
    | stop => exact (unnoticed_arming ..).applyDeferredPause delay rfl rfl
    | pause => simp [hp, Phase.looksAt] at hlooks

theorem apply_arming (request : Request) :
    (e.arming deferral armed published).apply request =
      (e.apply request).arming deferral armed published :=
  (unnoticed_arming ..).apply arming_pause (fun _ => by cases deferral <;> rfl) request

end Arming

/-- What is published says what is deferred, and else the same. -/
theorem publish_disarmed (state : EngineState) :
    (e.disarmed deferral).publish state = (e.publish state).disarmed deferral := by
  cases deferral <;> rfl

section Disarmed

theorem goto_disarmed (phase : Phase) :
    (e.disarmed deferral).goto phase = (e.goto phase).disarmed deferral :=
  (unnoticed_arming ..).goto e phase

theorem clear_disarmed : (e.disarmed deferral).clear = e.clear.disarmed deferral :=
  (unnoticed_arming ..).clear e

theorem apply_disarmed (request : Request) :
    (e.disarmed deferral).apply request = (e.apply request).disarmed deferral := by
  rw [disarmed, apply_arming, disarmed, apply_published]

theorem applied_disarmed (queue : List Request) (request : Request) :
    ({ e.disarmed deferral with queue } : Engine σ).apply request =
      (({ e with queue } : Engine σ).apply request).disarmed deferral := by
  rw [← apply_disarmed]
  cases deferral <;> rfl

theorem tick_disarmed (hphase : e.phase.inTick = true) (hlooks : e.phase.looksAt deferral = false) :
    (e.disarmed deferral).proceed? = e.proceed?.map (·.disarmed deferral) := by
  rw [disarmed, tick_arming hphase hlooks]
  refine Option.map_congr fun e' hstep => ?_
  rw [disarmed, (spares_of_inTick hphase hstep).published]

theorem proceed?_disarmed (hlooks : e.phase.looksAt deferral = false) :
    (e.disarmed deferral).proceed? = e.proceed?.map (·.disarmed deferral) := by
  have hcancel : (e.disarmed deferral).cancel = e.cancel := arming_cancel
  have hready : (e.disarmed deferral).ready = e.ready := arming_ready
  have hpause : (e.disarmed deferral).pause = e.pause := arming_pause
  have hqueue : (e.disarmed deferral).queue = e.queue := arming_queue
  have hstack : (e.disarmed deferral).stack = e.stack := arming_stack
  cases hp : e.phase with
  | fetching | drawing | running | suspended | looped | loopApplied | printing | pausing
    | resting =>
      exact tick_disarmed (by rw [hp]; rfl) hlooks
  | top => simp only [proceed?, disarmed_phase, hp, hcancel, goto_disarmed, Option.map_some]
  | draining => simp only [proceed?, disarmed_phase, hp, hqueue, goto_disarmed, Option.map_some]
  | taken drains =>
      simp only [proceed?, disarmed_phase, hp, hqueue]
      split
      · exact congrArg some (goto_disarmed _)
      · next request queue _ =>
          have hsame := congrArg (goto · (if drains then .draining else .top))
            (@applied_disarmed _ e deferral queue request)
          simpa only [disarmed_phase, hp, goto_disarmed, Option.map_some] using congrArg some hsame
  | checkingReady =>
      simp only [proceed?, disarmed_phase, hp, hready, clear_disarmed, publish_disarmed,
        goto_disarmed]
      split <;> rfl
  | checkingPause =>
      simp only [proceed?, disarmed_phase, hp, hpause, hstack, publish_disarmed, goto_disarmed]
      repeat' split
      all_goals rfl
  | emptied =>
      simp only [proceed?, disarmed_phase, hp]
      cases deferral <;> rfl
  | blocked forReady =>
      cases forReady <;>
        simp only [proceed?, disarmed_phase, hp, hready, hpause, goto_disarmed] <;> split <;> rfl
  | closing =>
      simp only [proceed?, disarmed_phase, hp, clear_disarmed, publish_disarmed]
      cases deferral <;> rfl
  | stopped | broken => simp only [proceed?, disarmed_phase, hp, Option.map_none]

theorem take?_disarmed (hlooks : e.phase.looksAt deferral = false) (branch : Branch) :
    (e.disarmed deferral).take? branch = (e.take? branch).map (·.disarmed deferral) := by
  have hcancel : (e.disarmed deferral).cancel = e.cancel := arming_cancel
  have hqueue : (e.disarmed deferral).queue = e.queue := arming_queue
  have hwaiting : (e.disarmed deferral).isWaiting = e.isWaiting := by
    rw [isWaiting, disarmed_phase, isWaiting]
  cases branch with
  | interrupt =>
      simp only [take?, interrupt?, hwaiting, hcancel, goto_disarmed]
      split <;> rfl
  | proceed => exact proceed?_disarmed hlooks
  | serve =>
      simp only [take?, serve?, disarmed_phase, hqueue, goto_disarmed]
      repeat' split
      all_goals rfl

end Disarmed

/-! ### Calls -/

section Calls

theorem callHost_arming {α : Type} (action : Action α) :
    (e.arming deferral armed published).callHost action =
      ((e.callHost action).1, (e.callHost action).2.arming deferral armed published) := by
  cases deferral <;> rfl

theorem send_arming (request : Request) :
    (e.arming deferral armed published).send request =
      (e.send request).arming deferral armed published := by
  simp only [send, arming_phase]
  split
  · rfl
  · cases deferral <;> rfl

theorem enqueue_arming (stored : StoredMacro) (loops : Option Int) :
    ((e.arming deferral armed published).enqueue stored loops).2 =
      (e.enqueue stored loops).2.arming deferral armed published := by
  simp only [enqueue, arming_settings, callHost_arming]
  rcases e.callHost (Frame.ofStored e.settings.craftLoop stored loops) with
    ⟨failure | error | frame, e₁⟩
  · rfl
  · rfl
  · exact send_arming _

theorem runByName_arming (name : String) (loops : Option Int) :
    ((e.arming deferral armed published).runByName name loops).2 =
      (e.runByName name loops).2.arming deferral armed published := by
  simp only [runByName, callHost_arming]
  rcases e.callHost (Execute.resolveMacro name) with ⟨failure | error | stored, e₁⟩
  · rfl
  · rfl
  · exact enqueue_arming stored loops

theorem mapSourceFedBy_arming (id : Nat) (f : LineSource → LineSource) :
    (e.arming deferral armed published).mapSourceFedBy id f =
      (e.mapSourceFedBy id f).arming deferral armed published := by
  cases deferral <;> rfl

theorem feed_arming (id : Nat) (item : Fed) :
    ((e.arming deferral armed published).feed id item).2 =
      (e.feed id item).2.arming deferral armed published := by
  have hsource : (e.arming deferral armed published).sourceFedBy? id = e.sourceFedBy? id := by
    cases deferral <;> rfl
  simp only [feed, hsource]
  split
  · rfl
  · exact mapSourceFedBy_arming _ _

/-- A call that does not defer something itself does the same, whether or not it is deferred. -/
theorem receive_arming {asked : Call} (hdefers : asked.defers deferral = false) (armed : Bool)
    (published : EngineStatus) :
    (e.arming deferral armed published).receive asked =
      (e.receive asked).arming deferral armed published := by
  cases asked with
  | enqueue stored loops => exact enqueue_arming stored loops
  | runByName name loops => exact runByName_arming name loops
  | enqueueSource | step => exact send_arming _
  | feed id item => exact feed_arming id item
  | closeChannel id => exact mapSourceFedBy_arming id _
  | resume | setReady | shutdown => cases deferral <;> rfl
  | pause atLoop =>
      cases atLoop
      · cases deferral <;> rfl
      · cases deferral with
        | stop => rfl
        | pause => cases hdefers
  | stop atLoop =>
      cases atLoop
      · have hclosed := closesAlike_arming deferral armed published e
        show Engine.send { e.arming deferral armed published with pause := .closed } .clear = _
        rw [hclosed, send_arming]
        rfl
      · cases deferral with
        | stop => cases hdefers
        | pause => rfl

/-- Deferring something sets its flag. -/
theorem receive_of_defers {asked : Call} (hdefers : asked.defers deferral = true) :
    e.receive asked = e.arming deferral true e.published := by
  cases asked with
  | pause atLoop | stop atLoop =>
      cases atLoop
      · cases deferral <;> cases hdefers
      · cases deferral <;> first | rfl | cases hdefers
  | enqueue | enqueueSource | runByName | resume | step | setReady | shutdown | feed
  | closeChannel => cases deferral <;> cases hdefers

end Calls

/-! ### One event -/

/-- Where it does not look, an engine goes the same way with the deferral and without it. -/
theorem on?_disarmed (hlooks : e.looksOn deferral event = false)
    (hdefers : event.defers deferral = false) :
    (e.disarmed deferral).on? event = (e.on? event).map (·.disarmed deferral) := by
  cases event with
  | work branch => exact take?_disarmed hlooks branch
  | call asked =>
      refine congrArg some ?_
      show (e.disarmed deferral).receive asked = (e.receive asked).disarmed deferral
      rw [disarmed, receive_arming hdefers, disarmed, (e.receive_leavesWork asked).published]
  | pass ms | change world => cases deferral <;> rfl

theorem apply_isArmed (request : Request) :
    (e.apply request).isArmed deferral = e.isArmed deferral := by
  have hsame := @apply_arming _ e deferral (e.isArmed deferral) e.published request
  rw [arming_self] at hsame
  rw [hsame, arming_isArmed]

theorem isArmed_of_take? {branch : Branch} (hlooks : e.phase.looksAt deferral = false)
    (hstep : e.take? branch = some e') : e'.isArmed deferral = e.isArmed deferral := by
  cases step_of_take? hstep with
  | tick hphase hproceed =>
      -- With its flag set to what it is, the engine comes to where it comes.
      have hsame := tick_arming hphase hlooks (e.isArmed deferral) e.published
      rw [arming_self, hproceed, Option.map_some] at hsame
      rw [Option.some.inj hsame, arming_isArmed]
  | round hround => cases hround <;> exact isArmed_congr rfl rfl deferral
  | interrupted | served => exact isArmed_congr rfl rfl deferral
  | applied => exact (isArmed_congr rfl rfl deferral).trans (apply_isArmed _)

/-- As long as the engine does not look, the flag is what callers have made of it. -/
theorem isArmed_of_on? (hlooks : e.looksOn deferral event = false) (hon : e.on? event = some e') :
    e'.isArmed deferral = (e.isArmed deferral || event.defers deferral) := by
  cases event with
  | work branch => exact (isArmed_of_take? hlooks hon).trans (Bool.or_false _).symm
  | call asked =>
      cases hon
      cases hdefers : asked.defers deferral with
      | true => rw [receive_of_defers hdefers, arming_isArmed, Event.defers, hdefers, Bool.or_true]
      | false =>
          have hsame := @receive_arming _ e _ _ hdefers (e.isArmed deferral) e.published
          rw [arming_self] at hsame
          rw [hsame, arming_isArmed, Event.defers, hdefers, Bool.or_false]
  | pass ms | change world =>
      cases hon
      exact (isArmed_congr rfl rfl deferral).trans (Bool.or_false _).symm

/-- An engine with the deferral and one without it: an event leads to such engines, where neither
looks. The call that defers it is nothing to the other one. -/
theorem on?_alike (halike : u.disarmed deferral = e.disarmed deferral)
    (hlooks : e.looksOn deferral event = false) (hon : e.on? event = some e') :
    (event.defers deferral = true ∧ u.disarmed deferral = e'.disarmed deferral) ∨
      event.defers deferral = false ∧ ∃ u', u.on? event = some u' ∧
        u'.disarmed deferral = e'.disarmed deferral ∧ u'.isArmed deferral = u.isArmed deferral := by
  have hphase : u.phase = e.phase := by
    rw [← @disarmed_phase _ u deferral, halike, disarmed_phase]
  have hlooks' : u.looksOn deferral event = false := by
    rw [← hlooks]
    cases event <;> simp only [looksOn, hphase]
  cases hdefers : event.defers deferral with
  | true =>
      refine .inl ⟨rfl, ?_⟩
      cases event with
      | call asked =>
          cases hon
          rw [receive_of_defers hdefers, disarmed_arming rfl, halike]
      | work | pass | change => cases hdefers
  | false =>
      have hboth : (u.on? event).map (·.disarmed deferral) =
          (e.on? event).map (·.disarmed deferral) := by
        rw [← on?_disarmed hlooks' hdefers, ← on?_disarmed hlooks hdefers, halike]
      rw [hon, Option.map_some, Option.map_eq_some_iff] at hboth
      obtain ⟨u', hon', halike'⟩ := hboth
      refine .inr ⟨rfl, u', hon', halike', ?_⟩
      rw [isArmed_of_on? hlooks' hon', hdefers, Bool.or_false]

/-! ### Runs -/

/-- In a run in which the engine does not look at what was deferred, the flag is what callers make
of it, and the run leads to the same without the deferral, whether or not it was there before. -/
theorem run?_alike (halike : u.disarmed deferral = e.disarmed deferral)
    (hlooks : e.looks deferral events = false) (hrun : e.run? events = some e') :
    e'.isArmed deferral = (e.isArmed deferral || events.any (·.defers deferral)) ∧
      ∃ u', u.run? (events.filter (!·.defers deferral)) = some u' ∧
        u'.disarmed deferral = e'.disarmed deferral ∧ u'.isArmed deferral = u.isArmed deferral := by
  induction events generalizing e u with
  | nil =>
      cases hrun
      exact ⟨(Bool.or_false _).symm, u, rfl, halike, rfl⟩
  | cons event events ih =>
      obtain ⟨e₁, hon, hrest⟩ := run?_cons_eq_some.mp hrun
      rw [looks_cons hon, Bool.or_eq_false_iff] at hlooks
      have harmed := isArmed_of_on? hlooks.1 hon
      rcases on?_alike halike hlooks.1 hon with ⟨hdefers, hsame⟩ | ⟨hdefers, u₁, hon', hsame, hkept⟩
      · obtain ⟨hflag, u', hrun', halike', hkept'⟩ := ih hsame hlooks.2 hrest
        refine ⟨?_, u', ?_, halike', hkept'⟩
        · rw [hflag, harmed, List.any_cons, Bool.or_assoc]
        · rw [List.filter_cons_of_neg (by simp [hdefers]), hrun']
      · obtain ⟨hflag, u', hrun', halike', hkept'⟩ := ih hsame hlooks.2 hrest
        refine ⟨?_, u', ?_, halike', hkept'.trans hkept⟩
        · rw [hflag, harmed, List.any_cons, Bool.or_assoc]
        · rw [List.filter_cons_of_pos (by simp [hdefers])]
          exact run?_cons_eq_some.mpr ⟨u₁, hon', hrun'⟩

theorem eq_applyLoop_of_take? {branch : Branch} {restart : Bool} {text : String} {delay : Nat}
    (hphase : e.phase = .looped restart text delay) (hstep : e.take? branch = some e') :
    e' = e.applyLoop restart text delay := by
  cases branch with
  | proceed => simpa [take?, proceed?, hphase, eq_comm] using hstep
  | interrupt => simp [take?, interrupt?, isWaiting, hphase] at hstep
  | serve => simp [take?, serve?, hphase] at hstep

theorem eq_applyDeferredPause_of_take? {branch : Branch} {delay : Nat}
    (hphase : e.phase = .loopApplied delay) (hstep : e.take? branch = some e') :
    e' = e.applyDeferredPause delay := by
  cases branch with
  | proceed => simpa [take?, proceed?, hphase, eq_comm] using hstep
  | interrupt => simp [take?, interrupt?, isWaiting, hphase] at hstep
  | serve => simp [take?, serve?, hphase] at hstep

theorem applyLoop_stopAtLoop (restart : Bool) (text : String) (delay : Nat) :
    (e.applyLoop restart text delay).stopAtLoop = false := by
  unfold applyLoop updateTop
  split
  · rfl
  · next hstop =>
      repeat' split
      all_goals exact Bool.eq_false_iff.mpr hstop

theorem applyDeferredPause_pauseAtLoop (delay : Nat) :
    (e.applyDeferredPause delay).pauseAtLoop = false := by
  unfold applyDeferredPause rest
  split
  · rfl
  · next hpause =>
      repeat' split
      all_goals exact Bool.eq_false_iff.mpr hpause

/-- After the look the flag is not set. -/
theorem not_isArmed_of_looks (hlooks : e.looksOn deferral event = true)
    (hon : e.on? event = some e') : e'.isArmed deferral = false := by
  cases event with
  | work branch =>
      simp only [looksOn, Phase.looksAt] at hlooks
      split at hlooks
      · next hphase =>
          obtain rfl := eq_applyLoop_of_take? hphase hon
          exact applyLoop_stopAtLoop _ _ _
      · next hphase =>
          obtain rfl := eq_applyDeferredPause_of_take? hphase hon
          exact applyDeferredPause_pauseAtLoop _
      · cases hlooks
  | call | pass | change => cases hlooks

/-- The engine acts on a deferral no more often than callers defer it. -/
theorem acts_le (hrun : e.run? events = some e') :
    e.acts deferral events + (e'.isArmed deferral).toNat ≤
      events.countP (·.defers deferral) + (e.isArmed deferral).toNat := by
  induction events generalizing e with
  | nil =>
      cases hrun
      exact Nat.le_refl _
  | cons event events ih =>
      obtain ⟨e₁, hon, hrest⟩ := run?_cons_eq_some.mp hrun
      have hlater := ih hrest
      have hfirst : (e.actsOn deferral event).toNat + (e₁.isArmed deferral).toNat ≤
          (event.defers deferral).toNat + (e.isArmed deferral).toNat := by
        cases hlooks : e.looksOn deferral event with
        | true => simp [actsOn, hlooks, not_isArmed_of_looks hlooks hon]
        | false =>
            rw [actsOn, hlooks, isArmed_of_on? hlooks hon]
            cases e.isArmed deferral <;> cases event.defers deferral <;> decide
      rw [acts_cons hon, List.countP_cons]
      have hcount : (if event.defers deferral = true then 1 else 0) =
          (event.defers deferral).toNat := by
        cases event.defers deferral <;> rfl
      omega

end Engine

end CraftLang
