import CraftLang.Proofs.Engine.AtWork
import CraftLang.Proofs.Engine.Restacking

/-!
Which calls the frames go back to. The calls of callers are numbered. A request in the queue comes
from the call that sent it; so does a frame that the engine puts on the stack for it, and a frame
that a command puts on top of its own goes back to the same call as that one. The queue keeps the
order of the calls, so all frames on the stack go back to calls before those of the queue.
-/

namespace CraftLang

def Event.asked {σ : Type} : Event σ → List Call
  | .call asked => [asked]
  | _ => []

/-- What is pending in a source does not matter to who sends it. -/
theorem Call.Sends.unfed {asked : Call} {request : Request} (h : asked.Sends request) :
    asked.Sends request.unfed := by
  cases asked with
  | enqueue | enqueueSource | runByName =>
      obtain ⟨frame, rfl⟩ := h
      exact ⟨frame.unfed, rfl⟩
  | stop atLoop =>
      cases atLoop with
      | true => exact h
      | false => rw [show request = .clear from h]; rfl
  | step => rw [show request = .step from h]; rfl
  | pause | resume | setReady | shutdown | feed | closeChannel => exact h

/-- An engine with the calls that its requests and frames go back to. -/
structure Dated (σ : Type) where
  engine : Engine σ
  /-- The calls so far. They are numbered by their places. -/
  asked : List Call := []
  /-- The call that each request in the queue comes from. -/
  sent : List Nat := []
  /-- The call that each frame on the stack goes back to. -/
  origins : List Nat := []

namespace Dated

variable {σ : Type}

def spawn (host : Host σ) (settings : Settings) (world : σ) (catalog : Catalog := {}) : Dated σ :=
  { engine := Engine.spawn host settings world catalog }

def calls (d : Dated σ) : Nat := d.asked.length

def originOn (d : Dated σ) : Event σ → Nat
  | .work branch =>
    if (d.engine.applying? branch).isSome then d.sent.headD 0 else d.origins.headD 0
  | _ => 0

/-- Requests leave the queue at its front and come to its end; frames leave the stack at its top and
come there. -/
def on? (d : Dated σ) (event : Event σ) : Option (Dated σ) :=
  (d.engine.on? event).map fun engine =>
    { engine
      asked := d.asked ++ event.asked
      sent := d.sent.drop (d.engine.queue.length - engine.queue.length) ++
        List.replicate (engine.queue.length - d.engine.queue.length) d.calls
      origins := List.replicate (engine.stack.length - d.engine.stack.length) (d.originOn event) ++
        d.origins.drop (d.engine.stack.length - engine.stack.length) }

def run? (d : Dated σ) : List (Event σ) → Option (Dated σ)
  | [] => some d
  | event :: events => (d.on? event).bind fun d => d.run? events

theorem run?_cons_eq_some {d d' : Dated σ} {event : Event σ} {events : List (Event σ)} :
    d.run? (event :: events) = some d' ↔
      ∃ d₁, d.on? event = some d₁ ∧ d₁.run? events = some d' := by
  simp only [run?, Option.bind_eq_some_iff]

theorem on?_engine {d d' : Dated σ} {event : Event σ} (hon : d.on? event = some d') :
    d.engine.on? event = some d'.engine := by
  unfold on? at hon
  obtain ⟨engine, hengine, rfl⟩ := Option.map_eq_some_iff.mp hon
  exact hengine

theorem sent_of_on? {d d' : Dated σ} {event : Event σ} (hon : d.on? event = some d') :
    d'.sent = d.sent.drop (d.engine.queue.length - d'.engine.queue.length) ++
      List.replicate (d'.engine.queue.length - d.engine.queue.length) d.calls := by
  unfold on? at hon
  obtain ⟨engine, -, rfl⟩ := Option.map_eq_some_iff.mp hon
  rfl

theorem origins_of_on? {d d' : Dated σ} {event : Event σ} (hon : d.on? event = some d') :
    d'.origins =
      List.replicate (d'.engine.stack.length - d.engine.stack.length) (d.originOn event) ++
        d.origins.drop (d.engine.stack.length - d'.engine.stack.length) := by
  unfold on? at hon
  obtain ⟨engine, -, rfl⟩ := Option.map_eq_some_iff.mp hon
  rfl

theorem asked_of_on? {d d' : Dated σ} {event : Event σ} (hon : d.on? event = some d') :
    d'.asked = d.asked ++ event.asked := by
  unfold on? at hon
  obtain ⟨engine, -, rfl⟩ := Option.map_eq_some_iff.mp hon
  rfl

/-- The engine does what it does without the numbers. -/
theorem run?_engine (d : Dated σ) (events : List (Event σ)) :
    (d.run? events).map engine = d.engine.run? events := by
  induction events generalizing d with
  | nil => rfl
  | cons event events ih =>
      simp only [run?, Engine.run?, on?]
      cases d.engine.on? event with
      | none => rfl
      | some engine => exact ih _

theorem run?_engine_of_some {d d' : Dated σ} {events : List (Event σ)}
    (hrun : d.run? events = some d') : d.engine.run? events = some d'.engine := by
  rw [← run?_engine, hrun]
  rfl

def ran (d : Dated σ) (events : List (Event σ)) : Dated σ :=
  (d.run? events).getD d

theorem run?_eq_some_ran {d : Dated σ} {events : List (Event σ)}
    (h : (d.run? events).isSome = true) : d.run? events = some (d.ran events) := by
  obtain ⟨d', hrun⟩ := Option.isSome_iff_exists.mp h
  rw [ran, hrun, Option.getD_some]

variable {d d' : Dated σ} {event : Event σ} {events : List (Event σ)}

/-- What every event keeps, a run keeps. -/
theorem run?_keeps {P : Dated σ → Prop}
    (keeps : ∀ (d d' : Dated σ) (event : Event σ), P d → d.on? event = some d' → P d')
    (hd : P d) (hrun : d.run? events = some d') : P d' := by
  induction events generalizing d with
  | nil =>
      cases hrun
      exact hd
  | cons event events ih =>
      obtain ⟨d₁, hon, hrest⟩ := run?_cons_eq_some.mp hrun
      exact ih (keeps d d₁ event hd hon) hrest

/-! ### The queue -/

theorem queue_of_applying? {e e' : Engine σ} {branch : Engine.Branch} {request : Request}
    (happlying : e.applying? branch = some request) (hstep : e.take? branch = some e') :
    e.queue = request :: e'.queue := by
  obtain ⟨drains, queue, -, hqueue, rfl⟩ := Engine.eq_of_applying? happlying hstep
  rw [hqueue]
  exact congrArg (request :: ·) (Engine.apply_queue { e with queue } request).symm

/-- A step leaves the queue as it is, or carries out its first request, or drops all of them at the
end. -/
theorem queue_of_step {e e' : Engine σ} {branch : Engine.Branch} (h : Engine.Step e branch e') :
    e'.queue = e.queue ∨ (∃ request, e.applying? branch = some request) ∨
      e'.queue = [] ∧ e'.phase = .stopped := by
  cases h with
  | tick hphase hstep => exact .inl (Engine.spares_of_inTick hphase hstep).queue
  | round hround =>
      cases hround with
      | close => exact .inr (.inr ⟨rfl, rfl⟩)
      | begin | drained | request | nothing | ready | unready | tick | empty | rest | emptied
        | wake =>
          exact .inl rfl
  | interrupted | served => exact .inl rfl
  | applied hphase hqueue => exact .inr (.inl ⟨_, Engine.applying?_of_taken hphase hqueue⟩)

/-- The request that is carried out is the first in the queue, and it comes from the first call. -/
theorem sent_of_applying? {branch : Engine.Branch} {request : Request}
    (hlength : d.sent.length = d.engine.queue.length)
    (happlying : d.engine.applying? branch = some request) (hon : d.on? (.work branch) = some d') :
    d.engine.queue = request :: d'.engine.queue ∧ ∃ call, d.sent = call :: d'.sent := by
  have hqueue := queue_of_applying? happlying (on?_engine hon)
  refine ⟨hqueue, ?_⟩
  rw [hqueue, List.length_cons] at hlength
  obtain ⟨call, sent, hsent⟩ := List.exists_cons_of_length_eq_add_one hlength
  refine ⟨call, ?_⟩
  rw [sent_of_on? hon, hqueue, hsent]
  simp

/-- What an event does to the queue, and to the calls that its requests come from. -/
inductive Queues (event : Event σ) (d d' : Dated σ) : Prop
  | kept (hqueue : d'.engine.queue.map Request.unfed = d.engine.queue.map Request.unfed)
      (hsent : d'.sent = d.sent) (hasked : d'.asked = d.asked ++ event.asked)
  | sent {asked : Call} {request : Request} (hsends : asked.Sends request)
      (hqueue : d'.engine.queue.map Request.unfed =
        d.engine.queue.map Request.unfed ++ [request.unfed])
      (hsent : d'.sent = d.sent ++ [d.calls]) (hasked : d'.asked = d.asked ++ [asked])
  | applied {branch : Engine.Branch} {request : Request} {call : Nat}
      (hevent : event = .work branch) (happlying : d.engine.applying? branch = some request)
      (hqueue : d.engine.queue = request :: d'.engine.queue)
      (hsent : d.sent = call :: d'.sent) (hasked : d'.asked = d.asked)
  | dropped (hqueue : d'.engine.queue = []) (hsent : d'.sent = []) (hasked : d'.asked = d.asked)
      (hphase : d'.engine.phase = .stopped)

theorem on?_queues (hlength : d.sent.length = d.engine.queue.length) (hon : d.on? event = some d') :
    Queues event d d' := by
  have hengine := on?_engine hon
  have hasked := asked_of_on? hon
  have hkept (hsame : d'.engine.queue.map Request.unfed = d.engine.queue.map Request.unfed) :
      Queues event d d' := by
    have hlengths : d'.engine.queue.length = d.engine.queue.length := by
      simpa using congrArg List.length hsame
    exact .kept hsame (by simp [sent_of_on? hon, hlengths]) hasked
  cases event with
  | work branch =>
      rw [show (Event.work branch : Event σ).asked = [] from rfl, List.append_nil] at hasked
      rcases queue_of_step (Engine.step_of_take? hengine) with
        hsame | ⟨request, happlying⟩ | ⟨hnil, hphase⟩
      · exact hkept (by rw [hsame])
      · obtain ⟨hqueue, call, hsent⟩ := sent_of_applying? hlength happlying hon
        exact .applied rfl happlying hqueue hsent hasked
      · exact .dropped hnil (by simp [sent_of_on? hon, hnil, hlength]) hasked hphase
  | call asked =>
      have hreceive : d.engine.receive asked = d'.engine := Option.some.inj hengine
      rcases d.engine.receive_queue asked with hsame | ⟨request, hsends, hlonger⟩
      · exact hkept (hreceive ▸ hsame)
      · rw [hreceive] at hlonger
        have hlengths : d'.engine.queue.length = d.engine.queue.length + 1 := by
          simpa using congrArg List.length hlonger
        exact .sent hsends hlonger (by simp [sent_of_on? hon, hlengths]) hasked
  | pass ms | change world =>
      exact hkept (by rw [← Option.some.inj hengine])

namespace Queues

theorem calls_le (h : Queues event d d') : d.calls ≤ d'.calls := by
  cases h with
  | kept _ _ hasked | sent _ _ _ hasked | applied _ _ _ _ hasked | dropped _ _ hasked =>
      simp [calls, hasked]

theorem later_of_sent (h : Queues event d d') {bound : Nat} (hsent : ∀ call ∈ d'.sent, bound ≤ call)
    (hcalls : bound ≤ d.calls) : ∀ call ∈ d'.sent ++ [d'.calls], bound ≤ call := by
  intro call hcall
  rcases List.mem_append.mp hcall with hcall | hcall
  · exact hsent call hcall
  · rw [List.mem_singleton.mp hcall]
    exact Nat.le_trans hcalls h.calls_le

/-- What comes later in the queue, or with the next call, came later before. -/
theorem later (h : Queues event d d') {bound : Nat}
    (hbound : ∀ call ∈ d.sent ++ [d.calls], bound ≤ call) :
    ∀ call ∈ d'.sent ++ [d'.calls], bound ≤ call := by
  refine h.later_of_sent (fun call hcall => ?_)
    (hbound _ (List.mem_append_right _ List.mem_cons_self))
  cases h with
  | kept _ hsent => exact hbound call (List.mem_append_left _ (hsent ▸ hcall))
  | sent _ _ hsent => exact hbound call (hsent ▸ hcall)
  | applied _ _ _ hsent =>
      exact hbound call (List.mem_append_left _ (hsent ▸ List.mem_cons_of_mem _ hcall))
  | dropped _ hsent => rw [hsent] at hcall; cases hcall

theorem sorted (h : Queues event d d') (hsorted : (d.sent ++ [d.calls]).Pairwise (· < ·)) :
    (d'.sent ++ [d'.calls]).Pairwise (· < ·) := by
  obtain ⟨hsent₀, -, hlast⟩ := List.pairwise_append.mp hsorted
  have hend {sent : List Nat} (hsorted : sent.Pairwise (· < ·))
      (hlast : ∀ call ∈ sent, call < d'.calls) : (sent ++ [d'.calls]).Pairwise (· < ·) :=
    List.pairwise_append.mpr ⟨hsorted, List.pairwise_singleton _ _, fun call hcall last hmem =>
      List.mem_singleton.mp hmem ▸ hlast call hcall⟩
  have hbefore (call : Nat) (hcall : call ∈ d.sent) : call < d'.calls :=
    Nat.lt_of_lt_of_le (hlast call hcall d.calls List.mem_cons_self) h.calls_le
  cases h with
  | kept _ hsent => exact hsent ▸ hend hsent₀ hbefore
  | sent _ _ hsent hasked =>
      refine hsent ▸ hend hsorted fun call hcall => ?_
      rcases List.mem_append.mp hcall with hcall | hcall
      · exact hbefore call hcall
      · rw [List.mem_singleton.mp hcall]
        simp [calls, hasked]
  | applied _ _ _ hsent =>
      rw [hsent] at hsent₀ hbefore
      exact hend (List.pairwise_cons.mp hsent₀).2 fun call hcall =>
        hbefore call (List.mem_cons_of_mem _ hcall)
  | dropped _ hsent => exact hsent ▸ hend .nil nofun

theorem sent_length (h : Queues event d d')
    (hlength : d.sent.length = d.engine.queue.length) :
    d'.sent.length = d'.engine.queue.length := by
  cases h with
  | kept hqueue hsent =>
      rw [hsent, hlength]
      simpa using (congrArg List.length hqueue).symm
  | sent _ hqueue hsent =>
      rw [hsent, List.length_append, hlength, List.length_singleton]
      simpa using (congrArg List.length hqueue).symm
  | applied _ _ hqueue hsent =>
      rw [hsent, hqueue, List.length_cons, List.length_cons] at hlength
      exact Nat.succ.inj hlength
  | dropped hqueue hsent => rw [hqueue, hsent]; rfl

end Queues

/-! ### The stack -/

/-- A frame comes to the stack with a request, or from the command of a frame that is there. -/
theorem placedOn_eq_singleton {e : Engine σ} {branch : Engine.Branch} {frame : Frame}
    (hwork : e.AtWork) (hplaced : e.placedOn (.work branch) = [frame]) :
    e.applying? branch = some (.push frame) ∨ e.applying? branch = none ∧ e.stack ≠ [] := by
  simp only [Engine.placedOn, Engine.admittedOn] at hplaced
  cases happlying : e.applying? branch with
  | some request =>
      rw [happlying, Engine.nesting?_of_not_inTick
        (Engine.not_inTick_of_applying? happlying)] at hplaced
      cases request with
      | push pushed =>
          obtain rfl : pushed = frame := by simpa [Request.frame?] using hplaced
          exact .inl rfl
      | clear | step => cases hplaced
  | none =>
      refine .inr ⟨rfl, fun hstack => ?_⟩
      rw [happlying] at hplaced
      -- Only a command that was carried out puts a frame on top, and it stands in the frame below.
      unfold Engine.nesting? at hplaced
      split at hplaced
      · next hphase =>
          simp only [Engine.AtWork, hphase, Engine.current?, hstack] at hwork
          obtain ⟨_, hcurrent, -⟩ := hwork
          cases hcurrent
      · cases hplaced

/-- The stack grows by a request that is carried out, or on top of a frame. -/
theorem applying?_of_higher {e e' : Engine σ} {event : Event σ} (hwork : e.AtWork)
    (hon : e.on? event = some e') (hhigher : e.stack.length < e'.stack.length) :
    ∃ branch, event = .work branch ∧
      ((∃ frame, e.applying? branch = some (.push frame)) ∨
        e.applying? branch = none ∧ e.stack ≠ []) := by
  cases event with
  | work branch =>
      refine ⟨branch, rfl, ?_⟩
      have hrestacked := (Engine.step_of_take? hon).restacked
      generalize hplaced : e.placedOn (.work branch) = frames at hrestacked
      cases hrestacked with
      | kept f hstack => rw [hstack, List.length_modifyHead] at hhigher; omega
      | popped top hstack => rw [hstack, List.length_cons] at hhigher; omega
      | cleared hstack => rw [hstack] at hhigher; cases hhigher
      | placed frame => exact (placedOn_eq_singleton hwork hplaced).imp_left fun h => ⟨frame, h⟩
  | call asked =>
      cases hon
      have hlength : (e.receive asked).stack.length = e.stack.length := by
        simpa using congrArg List.length (e.receive_leavesWork asked).stack
      omega
  | pass ms | change world =>
      cases hon
      exact absurd hhigher (Nat.lt_irrefl _)

theorem origins_length_of_on? (horigins : d.origins.length = d.engine.stack.length)
    (hon : d.on? event = some d') : d'.origins.length = d'.engine.stack.length := by
  rw [origins_of_on? hon]
  simp only [List.length_append, List.length_replicate, List.length_drop]
  omega

/-- The frames go back to calls as before, but for one that was taken from the queue. -/
theorem mem_origins_of_on? (hwork : d.engine.AtWork)
    (hsent : d.sent.length = d.engine.queue.length)
    (horigins : d.origins.length = d.engine.stack.length) (hon : d.on? event = some d')
    {origin : Nat} (hmem : origin ∈ d'.origins) :
    origin ∈ d.origins ∨ ∃ branch frame, event = .work branch ∧ d.sent = origin :: d'.sent ∧
      d.engine.applying? branch = some (.push frame) := by
  rw [origins_of_on? hon] at hmem
  rcases List.mem_append.mp hmem with hnew | hold
  · obtain ⟨hcount, rfl⟩ := List.mem_replicate.mp hnew
    have hhigher : d.engine.stack.length < d'.engine.stack.length := by omega
    obtain ⟨branch, rfl, ⟨frame, happlying⟩ | ⟨happlying, hstack⟩⟩ :=
      applying?_of_higher hwork (on?_engine hon) hhigher
    · obtain ⟨-, call, hcall⟩ := sent_of_applying? hsent happlying hon
      exact .inr ⟨branch, frame, rfl, by simp [originOn, happlying, hcall], happlying⟩
    · refine .inl ?_
      obtain ⟨top, below, hcons⟩ := List.exists_cons_of_ne_nil hstack
      rw [hcons, List.length_cons] at horigins
      obtain ⟨first, origins, hfirst⟩ := List.exists_cons_of_length_eq_add_one horigins
      simp [originOn, happlying, hfirst]
  · exact .inl (List.mem_of_mem_drop hold)

/-! ### All engines with their calls -/

/-- What is known of all requests and frames. -/
structure Valid (d : Dated σ) : Prop where
  reachable : d.engine.Reachable
  sent_length : d.sent.length = d.engine.queue.length
  origins_length : d.origins.length = d.engine.stack.length
  /-- The queue keeps the order of the calls. -/
  sorted : (d.sent ++ [d.calls]).Pairwise (· < ·)
  /-- What is on the stack came before what is in the queue. -/
  before : ∀ origin ∈ d.origins, ∀ call ∈ d.sent ++ [d.calls], origin < call
  /-- Each request in the queue was sent by its call. -/
  sent_by : ∀ call request, (call, request) ∈ d.sent.zip (d.engine.queue.map Request.unfed) →
    ∃ asked : Call, d.asked[call]? = some asked ∧ asked.Sends request
  /-- Each frame on the stack goes back to a call that sends a frame. -/
  origins_by : ∀ origin ∈ d.origins,
    ∃ (asked : Call) (frame : Frame), d.asked[origin]? = some asked ∧ asked.Sends (.push frame)

theorem spawn_valid (host : Host σ) (settings : Settings) (world : σ) (catalog : Catalog) :
    (spawn host settings world catalog).Valid where
  reachable := .spawn host settings world catalog
  sent_length := rfl
  origins_length := rfl
  sorted := List.pairwise_singleton _ _
  before := nofun
  sent_by := nofun
  origins_by := nofun

/-- A call keeps its number. -/
theorem asked_getElem?_of_on? (hon : d.on? event = some d') {call : Nat} {asked : Call}
    (hasked : d.asked[call]? = some asked) : d'.asked[call]? = some asked := by
  rw [asked_of_on? hon, List.getElem?_append_left (List.getElem?_eq_some_iff.mp hasked).1]
  exact hasked

theorem Queues.sent_by (h : Queues event d d')
    (hlength : d.sent.length = d.engine.queue.length) {call : Nat} {request : Request}
    (hmem : (call, request) ∈ d'.sent.zip (d'.engine.queue.map Request.unfed)) :
    (call, request) ∈ d.sent.zip (d.engine.queue.map Request.unfed) ∨
      ∃ asked : Call, d'.asked[call]? = some asked ∧ asked.Sends request := by
  cases h with
  | kept hqueue hsent =>
      rw [hqueue, hsent] at hmem
      exact .inl hmem
  | sent hsends hqueue hsent hasked =>
      rw [hqueue, hsent, List.zip_append (by rw [hlength, List.length_map])] at hmem
      refine (List.mem_append.mp hmem).imp_right fun hlast => ?_
      obtain ⟨rfl, rfl⟩ := Prod.mk.inj (List.mem_singleton.mp hlast)
      exact ⟨_, by simp [hasked, calls], hsends.unfed⟩
  | applied _ _ hqueue hsent =>
      rw [hqueue, hsent]
      exact .inl (List.mem_cons_of_mem _ hmem)
  | dropped hqueue hsent =>
      rw [hqueue, hsent] at hmem
      cases hmem

/-- A request that is carried out comes from a call that sends such requests. -/
theorem Valid.asked_of_applying? (h : d.Valid) {branch : Engine.Branch} {request : Request}
    (happlying : d.engine.applying? branch = some request) (hon : d.on? (.work branch) = some d') :
    ∃ (call : Nat) (asked : Call), d.sent = call :: d'.sent ∧ d.asked[call]? = some asked ∧
      asked.Sends request.unfed := by
  obtain ⟨hqueue, call, hsent⟩ := sent_of_applying? h.sent_length happlying hon
  have hmem : (call, request.unfed) ∈ d.sent.zip (d.engine.queue.map Request.unfed) := by
    rw [hsent, hqueue]
    exact List.mem_cons_self
  obtain ⟨asked, hasked, hsends⟩ := h.sent_by call _ hmem
  exact ⟨call, asked, hsent, hasked, hsends⟩

/-- Every event keeps what is known. -/
theorem Valid.on (h : d.Valid) (hon : d.on? event = some d') : d'.Valid := by
  have hqueues := on?_queues h.sent_length hon
  have hengine := on?_engine hon
  have horigins (origin : Nat) (hmem : origin ∈ d'.origins) :=
    mem_origins_of_on? h.reachable.atWork h.sent_length h.origins_length hon hmem
  constructor
  · exact h.reachable.on event hengine
  · exact hqueues.sent_length h.sent_length
  · exact origins_length_of_on? h.origins_length hon
  · exact hqueues.sorted h.sorted
  · intro origin hmem
    rcases horigins origin hmem with hold | ⟨branch, frame, rfl, hsent, -⟩
    · exact hqueues.later fun call hcall => h.before origin hold call hcall
    · -- The requests behind the one that was taken come from later calls.
      have hsorted := h.sorted
      rw [hsent, List.cons_append, List.pairwise_cons] at hsorted
      exact hqueues.later_of_sent (fun call hcall => hsorted.1 call (List.mem_append_left _ hcall))
        (hsorted.1 _ (List.mem_append_right _ List.mem_cons_self))
  · intro call request hmem
    rcases hqueues.sent_by h.sent_length hmem with hold | hnew
    · obtain ⟨asked, hasked, hsends⟩ := h.sent_by call request hold
      exact ⟨asked, asked_getElem?_of_on? hon hasked, hsends⟩
    · exact hnew
  · intro origin hmem
    rcases horigins origin hmem with hold | ⟨branch, frame, rfl, hsent, happlying⟩
    · obtain ⟨asked, frame, hasked, hsends⟩ := h.origins_by origin hold
      exact ⟨asked, frame, asked_getElem?_of_on? hon hasked, hsends⟩
    · obtain ⟨call, asked, hcall, hasked, hsends⟩ := h.asked_of_applying? happlying hon
      obtain rfl : origin = call := (List.cons.inj (hsent.symm.trans hcall)).1
      exact ⟨asked, _, asked_getElem?_of_on? hon hasked, hsends⟩

theorem Valid.run (h : d.Valid) (hrun : d.run? events = some d') : d'.Valid :=
  run?_keeps (fun _ _ _ h hon => h.on hon) h hrun

/-! ### What goes back to later calls -/

/-- Whether everything that there is, and that will come, goes back to calls from a number on. -/
def Since (first : Nat) (d : Dated σ) : Prop :=
  ∀ call ∈ d.origins ++ (d.sent ++ [d.calls]), first ≤ call

theorem Since.on {first : Nat} (hvalid : d.Valid) (h : Since first d)
    (hon : d.on? event = some d') : Since first d' := by
  intro call hmem
  have hqueues := on?_queues hvalid.sent_length hon
  rcases List.mem_append.mp hmem with hmem | hmem
  · rcases mem_origins_of_on? hvalid.reachable.atWork hvalid.sent_length hvalid.origins_length hon
      hmem with hold | ⟨_, _, -, hsent, -⟩
    · exact h call (List.mem_append_left _ hold)
    · exact h call (by simp [hsent])
  · exact hqueues.later (fun call hcall => h call (List.mem_append_right _ hcall)) call hmem

theorem Since.run {first : Nat} (hvalid : d.Valid) (h : Since first d)
    (hrun : d.run? events = some d') : Since first d' := by
  have hkeeps := run?_keeps (P := fun d => d.Valid ∧ Since first d)
    (fun _ _ _ h hon => ⟨h.1.on hon, h.2.on h.1 hon⟩) ⟨hvalid, h⟩ hrun
  exact hkeeps.2

def startedFromOn (among : Nat → Bool) (d : Dated σ) (event : Event σ) : List Command :=
  if d.origins.head?.any among then d.engine.startedOn event else []

/-- The commands that the engine starts in the course of a run, of frames that go back to certain
calls. -/
def startedFrom (among : Nat → Bool) (d : Dated σ) : List (Event σ) → List Command
  | [] => []
  | event :: events =>
    match d.on? event with
    | none => []
    | some d' => d.startedFromOn among event ++ d'.startedFrom among events

theorem startedFrom_cons {among : Nat → Bool} (hon : d.on? event = some d')
    (events : List (Event σ)) :
    d.startedFrom among (event :: events) =
      d.startedFromOn among event ++ d'.startedFrom among events := by
  simp only [startedFrom, hon]

theorem startedFromOn_sublist (among : Nat → Bool) (d : Dated σ) (event : Event σ) :
    (d.startedFromOn among event).Sublist (d.engine.startedOn event) := by
  unfold startedFromOn
  split
  · exact List.Sublist.refl _
  · exact List.nil_sublist _

theorem startedFrom_sublist (among : Nat → Bool) (hrun : d.run? events = some d') :
    (d.startedFrom among events).Sublist (d.engine.started events) := by
  induction events generalizing d with
  | nil => exact List.Sublist.refl _
  | cons event events ih =>
      obtain ⟨d₁, hon, hrest⟩ := run?_cons_eq_some.mp hrun
      rw [startedFrom_cons hon, Engine.started_cons (on?_engine hon)]
      exact (startedFromOn_sublist among d event).append (ih hrest)

/-- Once everything goes back to later calls, no command of the frames before them starts. -/
theorem startedFrom_of_since {among : Nat → Bool} {first : Nat}
    (hamong : ∀ call, among call = true → call < first) (hvalid : d.Valid) (h : Since first d)
    (hrun : d.run? events = some d') : d.startedFrom among events = [] := by
  induction events generalizing d with
  | nil => rfl
  | cons event events ih =>
      obtain ⟨d₁, hon, hrest⟩ := run?_cons_eq_some.mp hrun
      have hnone : d.origins.head?.any among = false := by
        rw [← Bool.not_eq_true, Option.any_eq_true]
        rintro ⟨origin, hhead, htrue⟩
        have hsince := h origin (List.mem_append_left _ (List.mem_of_mem_head? hhead))
        exact absurd (hamong origin htrue) (Nat.not_lt.mpr hsince)
      rw [startedFrom_cons hon, ih (hvalid.on hon) (h.on hvalid hon) hrest, startedFromOn, hnone]
      rfl

end Dated

end CraftLang
