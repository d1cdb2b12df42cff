import CraftLang.Proofs.Engine.Accounting
import CraftLang.Proofs.Engine.Cores

/-!
What can be seen of an engine from outside: what happens to it, the commands it starts, the calls it
makes to the host and the statuses it tells. The number of frames that have gone is only ever shown
and never looked at, so an engine that has counted more of them does all the same.
-/

namespace CraftLang

/-- What an onlooker sees of an engine. -/
inductive Sight (σ : Type) where
  /-- A call, the passing of time, or a change of the host's state. -/
  | met (event : Event σ)
  | did (deed : Deed)
  | told (status : EngineStatus)

def EngineStatus.counting (status : EngineStatus) (gone : Nat) : EngineStatus :=
  { status with retired := gone + status.retired }

def Sight.counting {σ : Type} (gone : Nat) : Sight σ → Sight σ
  | .told status => .told (status.counting gone)
  | sight => sight

def Call.setsPause : Call → Bool
  | .pause false | .stop false | .resume => true
  | _ => false

/-- The engine has come to its end in neither of the two phases, or in the same way in both. -/
structure Phase.EndsAlike (phase phase' : Phase) : Prop where
  stopped : phase = .stopped ↔ phase' = .stopped
  broken : phase = .broken ↔ phase' = .broken

theorem Phase.EndsAlike.refl (phase : Phase) : phase.EndsAlike phase := ⟨Iff.rfl, Iff.rfl⟩

theorem Phase.EndsAlike.of_lives {phase phase' : Phase} (h : phase.hasEnded = false)
    (h' : phase'.hasEnded = false) : phase.EndsAlike phase' := by
  constructor
  all_goals
    refine iff_of_false ?_ ?_ <;> rintro rfl
    · cases h
    · cases h'

theorem Phase.EndsAlike.hasEnded {phase phase' : Phase} (h : phase.EndsAlike phase') :
    phase.hasEnded = phase'.hasEnded := by
  obtain ⟨hstopped, hbroken⟩ := h
  cases phase <;> cases phase' <;> simp_all [Phase.hasEnded]

namespace Engine

variable {σ : Type} {e e' e₁ : Engine σ}

/-- What is met on an event. The steps of the engine are its own. -/
def metOn : Event σ → List (Event σ)
  | .work _ => []
  | event => [event]

def sightsOn (e : Engine σ) (event : Event σ) : List (Sight σ) :=
  (metOn event).map .met ++ (e.deedsOn event).map .did ++ (e.announcedOn event).map .told

/-- What can be seen in the course of a run, in order. -/
def sights (e : Engine σ) : List (Event σ) → List (Sight σ)
  | [] => []
  | event :: events =>
    match e.on? event with
    | none => []
    | some e' => e.sightsOn event ++ e'.sights events

theorem sights_cons {event : Event σ} (hon : e.on? event = some e₁) (events : List (Event σ)) :
    e.sights (event :: events) = e.sightsOn event ++ e₁.sights events := by
  simp only [sights, hon]

theorem sights_append {events : List (Event σ)} (hrun : e.run? events = some e₁)
    (events' : List (Event σ)) :
    e.sights (events ++ events') = e.sights events ++ e₁.sights events' := by
  induction events generalizing e with
  | nil =>
      cases hrun
      rfl
  | cons event events ih =>
      obtain ⟨e₂, hon, hrest⟩ := run?_cons_eq_some.mp hrun
      rw [List.cons_append, sights_cons hon, sights_cons hon, ih hrest, List.append_assoc]

/-! ### Frames that have gone -/

def aged (e : Engine σ) (gone : Nat) (published : EngineStatus) : Engine σ :=
  { e with retired := gone + e.retired, published }

section Aged

variable {gone : Nat} {published : EngineStatus}

@[simp] theorem aged_phase : (e.aged gone published).phase = e.phase := rfl

@[simp] theorem aged_cancel : (e.aged gone published).cancel = e.cancel := rfl

@[simp] theorem aged_stack : (e.aged gone published).stack = e.stack := rfl

@[simp] theorem aged_queue : (e.aged gone published).queue = e.queue := rfl

@[simp] theorem aged_ready : (e.aged gone published).ready = e.ready := rfl

@[simp] theorem aged_pause : (e.aged gone published).pause = e.pause := rfl

theorem unnoticed_aged (gone : Nat) (published : EngineStatus) :
    Unnoticed fun e : Engine σ => e.aged gone published where
  phase _ := rfl
  stack _ := rfl
  cancel _ := rfl
  catalog _ := rfl
  settings _ := rfl
  now _ := rfl
  goto _ _ := rfl
  ask _ _ := rfl
  learn _ _ := rfl
  restack _ _ _ := by simp only [aged, Nat.add_assoc]

theorem tick_aged (hphase : e.phase.inTick = true) :
    (e.aged gone published).proceed? = e.proceed?.map (·.aged gone published) := by
  have h := unnoticed_aged (σ := σ) gone published
  exact h.tick hphase (fun _ _ _ _ => h.applyLoop _ _ _ rfl rfl)
    (fun _ _ => h.applyDeferredPause _ rfl rfl) fun _ _ => h.close (fun _ => rfl) _ _

theorem clear_aged : (e.aged gone published).clear = e.clear.aged gone published :=
  (unnoticed_aged gone published).clear e

theorem apply_aged (request : Request) :
    (e.aged gone published).apply request = (e.apply request).aged gone published :=
  (unnoticed_aged gone published).apply rfl (fun _ => rfl) request

theorem publish_aged (state : EngineState) :
    (e.aged gone published).publish state =
      (e.publish state).aged gone ((e.publish state).published.counting gone) := rfl

theorem announces_aged : (e.aged gone published).announces = e.announces := rfl

/-- What an engine has published last after it went on to `e'`. -/
def publishedWith (e e' : Engine σ) (gone : Nat) (published : EngineStatus) : EngineStatus :=
  if e.announces then e'.published.counting gone else published

theorem proceed?_aged :
    (e.aged gone published).proceed? =
      e.proceed?.map fun e' => e'.aged gone (e.publishedWith e' gone published) := by
  have hsilent {o : Option (Engine σ)} (h : e.announces = false) :
      (o.map fun e' => e'.aged gone (e.publishedWith e' gone published)) =
        o.map (·.aged gone published) := by
    simp [publishedWith, h]
  cases hp : e.phase with
  | checkingReady =>
      cases hready : e.ready.isOpen with
      | true =>
          rw [hsilent (by simp [announces, hp, hready])]
          simp only [proceed?, aged_phase, aged_ready, hp, hready, if_true]
          rfl
      | false =>
          have hannounces : e.announces = true := by simp [announces, hp, hready]
          simp only [proceed?, aged_phase, aged_ready, hp, hready, publishedWith, hannounces,
            clear_aged, publish_aged, if_true]
          rfl
  | checkingPause =>
      cases hpause : e.pause.isOpen with
      | false =>
          have hannounces : e.announces = true := by simp [announces, hp, hpause]
          simp only [proceed?, aged_phase, aged_pause, aged_stack, hp, hpause, publishedWith,
            hannounces, publish_aged, if_true]
          rfl
      | true =>
          cases hstack : e.stack.isEmpty with
          | true =>
              rw [hsilent (by simp [announces, hp, hpause, hstack])]
              simp only [proceed?, aged_phase, aged_pause, aged_stack, hp, hpause, hstack, if_true]
              rfl
          | false =>
              have hannounces : e.announces = true := by simp [announces, hp, hpause, hstack]
              simp only [proceed?, aged_phase, aged_pause, aged_stack, hp, hpause, hstack,
                publishedWith, hannounces, publish_aged, if_true]
              rfl
  | closing =>
      have hannounces : e.announces = true := by simp [announces, hp]
      simp only [proceed?, aged_phase, hp, publishedWith, hannounces, clear_aged, publish_aged,
        Option.map_some, if_true]
      rfl
  | top | draining | emptied =>
      rw [hsilent (by simp [announces, hp])]
      simp only [proceed?, aged_phase, aged_queue, hp]
      rfl
  | stopped | broken => simp only [proceed?, aged_phase, hp, Option.map_none]
  | taken drains =>
      rw [hsilent (by simp [announces, hp])]
      cases hqueue : e.queue with
      | nil =>
          simp only [proceed?, aged_phase, aged_queue, hp, hqueue]
          rfl
      | cons request queue =>
          simp only [proceed?, aged_phase, aged_queue, hp, hqueue]
          exact congrArg (fun e => some (goto e (if drains then .draining else .top)))
            (apply_aged (e := { e with queue, phase := .taken drains }) request)
  | blocked forReady =>
      rw [hsilent (by simp [announces, hp])]
      cases forReady with
      | true =>
          cases hready : e.ready.isOpen <;>
            simp only [proceed?, aged_phase, aged_ready, hp, hready, if_true, if_false,
              Bool.false_eq_true] <;>
            rfl
      | false =>
          cases hawake : e.pause.isOpen || !e.ready.isOpen <;>
            simp only [proceed?, aged_phase, aged_pause, aged_ready, hp, hawake, if_true, if_false,
              Bool.false_eq_true] <;>
            rfl
  | fetching | drawing | running | suspended | looped | loopApplied | printing | pausing
    | resting =>
      have hphase : e.phase.inTick = true := by rw [hp]; rfl
      rw [hsilent (announces_of_inTick hphase), tick_aged hphase]

theorem serve?_aged :
    (e.aged gone published).serve? = e.serve?.map (·.aged gone published) := by
  cases hp : e.phase with
  | blocked forReady =>
      cases hqueue : e.queue with
      | nil | cons =>
          simp only [serve?, aged_phase, aged_queue, hp, hqueue]
          rfl
  | _ =>
      simp only [serve?, aged_phase, hp]
      rfl

theorem interrupt?_aged :
    (e.aged gone published).interrupt? = e.interrupt?.map (·.aged gone published) := by
  have hwaiting : (e.aged gone published).isWaiting = e.isWaiting := rfl
  cases h : e.cancel.isCancelled && e.isWaiting <;>
    simp only [interrupt?, aged_cancel, hwaiting, h, if_true, if_false, Bool.false_eq_true] <;>
    rfl

/-- An engine that has counted more frames goes on as it would otherwise. -/
theorem take?_aged (branch : Branch) :
    (e.aged gone published).take? branch =
      (e.take? branch).map fun e' => e'.aged gone
        (if branch = .proceed then e.publishedWith e' gone published else published) := by
  cases branch with
  | proceed => exact proceed?_aged
  | interrupt => exact interrupt?_aged
  | serve => exact serve?_aged

end Aged

/-! ### Calls -/

/-- The engine under another pause gate, at another place in its work, with requests in front of
its queue, and with another count of the frames that have gone. -/
def recast (e : Engine σ) (pause : Gate) (phase : Phase) (idle : List Request) (retired : Nat)
    (published : EngineStatus) : Engine σ :=
  { e with pause, phase, queue := idle ++ e.queue, retired, published }

section Recast

variable {pause : Gate} {phase : Phase} {idle : List Request} {retired : Nat}
  {published : EngineStatus}

theorem callHost_recast {α : Type} {action : Action α} {result : Except RunError α} {e₁ : Engine σ}
    (hcall : e.callHost action = (result, e₁)) :
    (e.recast pause phase idle retired published).callHost action =
      (result, e₁.recast pause phase idle retired published) := by
  obtain rfl : (e.callHost action).1 = result := congrArg Prod.fst hcall
  obtain rfl : (e.callHost action).2 = e₁ := congrArg Prod.snd hcall
  rfl

theorem send_recast (hphase : phase.EndsAlike e.phase) (request : Request) :
    (e.recast pause phase idle retired published).send request =
      (e.send request).recast pause phase idle retired published := by
  have hended : (e.recast pause phase idle retired published).phase.hasEnded = e.phase.hasEnded :=
    hphase.hasEnded
  unfold send
  rw [hended]
  split
  · rfl
  · simp only [recast, List.append_assoc]

theorem enqueue_recast (hphase : phase.EndsAlike e.phase) (stored : StoredMacro)
    (loops : Option Int) :
    ((e.recast pause phase idle retired published).enqueue stored loops).2 =
      (e.enqueue stored loops).2.recast pause phase idle retired published := by
  rcases hcall : e.callHost (Frame.ofStored e.settings.craftLoop stored loops) with ⟨result, e₁⟩
  have hsame : e₁.phase = e.phase := (congrArg (·.2.phase) hcall).symm
  have hsettings : (e.recast pause phase idle retired published).settings = e.settings := rfl
  simp only [enqueue, hsettings, callHost_recast hcall, hcall]
  rcases result with failure | error | frame
  · rfl
  · rfl
  · exact send_recast (hsame ▸ hphase) _

theorem runByName_recast (hphase : phase.EndsAlike e.phase) (name : String)
    (loops : Option Int) :
    ((e.recast pause phase idle retired published).runByName name loops).2 =
      (e.runByName name loops).2.recast pause phase idle retired published := by
  rcases hcall : e.callHost (Execute.resolveMacro name) with ⟨result, e₁⟩
  have hsame : e₁.phase = e.phase := (congrArg (·.2.phase) hcall).symm
  simp only [runByName, callHost_recast hcall, hcall]
  rcases result with failure | error | stored
  · rfl
  · rfl
  · exact enqueue_recast (hsame ▸ hphase) stored loops

theorem mapSourceFedBy_recast (hidle : ∀ request ∈ idle, request.frame? = none) (id : Nat)
    (f : LineSource → LineSource) :
    (e.recast pause phase idle retired published).mapSourceFedBy id f =
      (e.mapSourceFedBy id f).recast pause phase idle retired published := by
  have hkept (g : Request → Request) (hg : ∀ request, request.frame? = none → g request = request) :
      idle.map g = idle :=
    (List.map_congr_left fun request hmem => hg request (hidle request hmem)).trans (List.map_id' _)
  simp only [mapSourceFedBy, mapFrames, recast, List.map_append]
  rw [hkept]
  intro request hnone
  cases request with
  | push frame => cases hnone
  | clear | step => rfl

theorem frames_of_broken (h : e.phase = .broken) : e.frames = [] := by
  simp only [frames, h]

theorem frames_of_lives (h : e.phase ≠ .broken) : e.frames = e.stack ++ e.queuedFrames := by
  unfold frames
  split
  · next hbroken => exact absurd hbroken h
  · rfl

theorem sourceFedBy?_recast (hphase : phase.EndsAlike e.phase)
    (hidle : ∀ request ∈ idle, request.frame? = none) (id : Nat) :
    (e.recast pause phase idle retired published).sourceFedBy? id = e.sourceFedBy? id := by
  have hnone : idle.filterMap Request.frame? = [] := List.filterMap_eq_nil_iff.mpr hidle
  have hframes : (e.recast pause phase idle retired published).frames = e.frames := by
    by_cases hbroken : e.phase = .broken
    · rw [frames_of_broken (e := e.recast ..) (hphase.broken.mpr hbroken), frames_of_broken hbroken]
    · rw [frames_of_lives (e := e.recast ..) fun h => hbroken (hphase.broken.mp h),
        frames_of_lives hbroken]
      simp only [recast, queuedFrames, List.filterMap_append, hnone, List.nil_append]
  simp only [sourceFedBy?, hframes]

/-- Calls pay no attention to what the engine is about, and only to its end. Each of them sets the
pause gate or leaves it. -/
theorem receive_recast (hphase : phase.EndsAlike e.phase)
    (hidle : ∀ request ∈ idle, request.frame? = none) (asked : Call) :
    (e.recast pause phase idle retired published).receive asked =
      (e.receive asked).recast (if asked.setsPause then (e.receive asked).pause else pause) phase
        idle retired published := by
  cases asked with
  | enqueue stored loops => exact enqueue_recast hphase stored loops
  | enqueueSource name source => exact send_recast hphase _
  | runByName name loops => exact runByName_recast hphase name loops
  | pause atLoop => cases atLoop <;> rfl
  | stop atLoop =>
      cases atLoop with
      | true => rfl
      | false =>
          simp only [receive, stopNow, Call.setsPause, if_true, if_false, Bool.false_eq_true]
          rw [send_pause]
          exact send_recast (e := { e with pause := .closed }) hphase .clear
  | resume => rfl
  | step => exact send_recast hphase _
  | setReady isReady => rfl
  | shutdown => rfl
  | feed id item =>
      simp only [receive, feed, sourceFedBy?_recast hphase hidle]
      split
      · rfl
      · exact mapSourceFedBy_recast hidle id _
  | closeChannel id => exact mapSourceFedBy_recast hidle id _

theorem receive_pause (e : Engine σ) {asked : Call} (h : asked.setsPause = false) :
    (e.receive asked).pause = e.pause := by
  cases asked with
  | enqueue stored loops =>
      obtain ⟨world, hsame | ⟨frame, hsent⟩⟩ := e.enqueue_cases stored loops
      · rw [receive, hsame]
      · rw [receive, hsent, send_pause]
  | runByName name loops =>
      obtain ⟨world, hsame | ⟨frame, hsent⟩⟩ := e.runByName_cases name loops
      · rw [receive, hsame]
      · rw [receive, hsent, send_pause]
  | enqueueSource | step => exact send_pause _ _
  | pause atLoop | stop atLoop =>
      cases atLoop with
      | true => rfl
      | false => cases h
  | feed id item =>
      obtain hsame | ⟨f, hmap⟩ := e.feed_snd id item
      · rw [receive, hsame]
      · rw [receive, hmap]
        rfl
  | resume => cases h
  | setReady | shutdown | closeChannel => rfl

end Recast

/-! ### The same sights -/

section Aged

variable {gone : Nat} {published : EngineStatus} {event : Event σ}

theorem announcedOn_aged (e : Engine σ) (event : Event σ) :
    (e.aged gone published).announcedOn event = (e.announcedOn event).map (·.counting gone) := by
  unfold announcedOn
  split
  · rw [announces_aged]
    cases hannounces : e.announces with
    | false => rfl
    | true =>
        simp only [proceed?_aged, if_true, publishedWith, hannounces]
        cases e.proceed? <;> rfl
  · rfl

/-- Frames that have gone are only ever counted. -/
theorem sightsOn_aged (e : Engine σ) (event : Event σ) :
    (e.aged gone published).sightsOn event = (e.sightsOn event).map (·.counting gone) := by
  have hdeeds : (e.aged gone published).deedsOn event = e.deedsOn event := by
    rcases event with (_ | _ | _) | _ | _ | _ <;> rfl
  simp only [sightsOn, hdeeds, announcedOn_aged, List.map_append, List.map_map]
  rfl

theorem on?_aged (gone : Nat) (published : EngineStatus) (e : Engine σ) (event : Event σ) :
    ∃ after : Engine σ → EngineStatus, (e.aged gone published).on? event =
      (e.on? event).map fun e' => e'.aged gone (after e') := by
  cases event with
  | work branch => exact ⟨_, take?_aged branch⟩
  | call asked =>
      refine ⟨fun _ => published, congrArg some ?_⟩
      have hrecast :
          (e.recast e.pause e.phase [] (gone + e.retired) published).receive asked = _ :=
        receive_recast (.refl _) (List.forall_mem_nil _) asked
      have hpause : (if asked.setsPause then (e.receive asked).pause else e.pause) =
          (e.receive asked).pause := by
        cases hsets : asked.setsPause with
        | true => rfl
        | false => exact (receive_pause e hsets).symm
      rw [hpause] at hrecast
      refine hrecast.trans ?_
      rw [← (e.receive_leavesWork asked).phase, ← (e.receive_leavesWork asked).retired]
      rfl
  | pass ms | change world => exact ⟨fun _ => published, rfl⟩

end Aged

end Engine

end CraftLang
