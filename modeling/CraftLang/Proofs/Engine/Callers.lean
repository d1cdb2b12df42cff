import CraftLang.Proofs.Engine.Interleaving
import CraftLang.Proofs.Frame.Progress

/-!
What the calls of callers do. A call sets a signal, puts something behind the queue, or changes
what is pending in a source of lines; it does not take part in the work of the engine.
-/

namespace CraftLang

namespace Request

/-- The request without what is pending in the source of its frame. -/
def unfed : Request → Request
  | .push frame => .push frame.unfed
  | request => request

def frame? : Request → Option Frame
  | .push frame => some frame
  | _ => none

@[simp] theorem unfed_frame? (request : Request) :
    request.unfed.frame? = request.frame?.map Frame.unfed := by
  cases request <;> rfl

@[simp] theorem unfed_eq_step {request : Request} : request.unfed = .step ↔ request = .step := by
  cases request <;> simp [unfed]

@[simp] theorem unfed_eq_clear {request : Request} : request.unfed = .clear ↔ request = .clear := by
  cases request <;> simp [unfed]

end Request

/-- What a call can put into the queue. -/
def Call.Sends : Call → Request → Prop
  | .enqueue .., request | .enqueueSource .., request | .runByName .., request =>
    ∃ frame, request = .push frame
  | .stop false, request => request = .clear
  | .step, request => request = .step
  | _, _ => False

def Call.feeds : Call → Bool
  | .feed .. | .closeChannel _ => true
  | _ => false

namespace Engine

variable {σ : Type}

/-! ### Requests on their way -/

structure LeavesWork (e e' : Engine σ) : Prop where
  host : e'.host = e.host
  settings : e'.settings = e.settings
  now : e'.now = e.now
  published : e'.published = e.published
  retired : e'.retired = e.retired
  phase : e'.phase = e.phase
  stack : e'.stack.map Frame.unfed = e.stack.map Frame.unfed

theorem LeavesWork.trans {e e₁ e₂ : Engine σ} (h : LeavesWork e e₁) (h' : LeavesWork e₁ e₂) :
    LeavesWork e e₂ where
  host := h'.host.trans h.host
  settings := h'.settings.trans h.settings
  now := h'.now.trans h.now
  published := h'.published.trans h.published
  retired := h'.retired.trans h.retired
  phase := h'.phase.trans h.phase
  stack := h'.stack.trans h.stack

theorem LeavesWork.ne_nil {e e' : Engine σ} (h : LeavesWork e e') (hstack : e.stack ≠ []) :
    e'.stack ≠ [] := by
  intro hnil
  have hunfed := h.stack
  rw [hnil, List.map_nil, eq_comm, List.map_eq_nil_iff] at hunfed
  exact hstack hunfed

theorem send_leavesWork (e : Engine σ) (request : Request) : LeavesWork e (e.send request) := by
  unfold send
  split
  all_goals exact ⟨rfl, rfl, rfl, rfl, rfl, rfl, rfl⟩

@[simp] theorem send_pause (e : Engine σ) (request : Request) :
    (e.send request).pause = e.pause := by
  unfold send
  split <;> rfl

/-- A request goes behind the queue, or nowhere once the engine has ended. -/
theorem send_queue (e : Engine σ) (request : Request) :
    (e.send request).queue = e.queue ∨ (e.send request).queue = e.queue ++ [request] := by
  unfold send
  split
  · exact .inl rfl
  · exact .inr rfl

/-- What a caller gets out of the host changes nothing but the state of the host; a macro that is
accepted becomes a frame in the queue. -/
theorem enqueue_cases (e : Engine σ) (stored : StoredMacro) (loops : Option Int) :
    ∃ world, (e.enqueue stored loops).2 = { e with world } ∨
      ∃ frame, (e.enqueue stored loops).2 = { e with world }.send (.push frame) := by
  unfold enqueue
  split
  · next frame e₁ heq =>
      obtain rfl : (e.callHost (Frame.ofStored e.settings.craftLoop stored loops)).2 = e₁ := by
        rw [heq]
      exact ⟨_, .inr ⟨frame, rfl⟩⟩
  · next e₁ heq =>
      obtain rfl : (e.callHost (Frame.ofStored e.settings.craftLoop stored loops)).2 = e₁ := by
        rw [heq]
      exact ⟨_, .inl rfl⟩
  · next e₁ heq =>
      obtain rfl : (e.callHost (Frame.ofStored e.settings.craftLoop stored loops)).2 = e₁ := by
        rw [heq]
      exact ⟨_, .inl rfl⟩

theorem runByName_cases (e : Engine σ) (name : String) (loops : Option Int) :
    ∃ world, (e.runByName name loops).2 = { e with world } ∨
      ∃ frame, (e.runByName name loops).2 = { e with world }.send (.push frame) := by
  unfold runByName
  split
  · next stored e₁ heq =>
      obtain rfl : (e.callHost (Execute.resolveMacro name)).2 = e₁ := by rw [heq]
      exact enqueue_cases _ stored loops
  · next e₁ heq =>
      obtain rfl : (e.callHost (Execute.resolveMacro name)).2 = e₁ := by rw [heq]
      exact ⟨_, .inl rfl⟩
  · next e₁ heq =>
      obtain rfl : (e.callHost (Execute.resolveMacro name)).2 = e₁ := by rw [heq]
      exact ⟨_, .inl rfl⟩

/-- Feeding and closing change what is pending, in frames on the stack and in the queue. -/
theorem mapSourceFedBy_leavesWork (e : Engine σ) (id : Nat) (f : LineSource → LineSource) :
    LeavesWork e (e.mapSourceFedBy id f) :=
  ⟨rfl, rfl, rfl, rfl, rfl, rfl, by simp [mapSourceFedBy, mapFrames]⟩

theorem mapSourceFedBy_queue (e : Engine σ) (id : Nat) (f : LineSource → LineSource) :
    (e.mapSourceFedBy id f).queue.map Request.unfed = e.queue.map Request.unfed := by
  simp only [mapSourceFedBy, mapFrames, List.map_map]
  apply List.map_congr_left
  intro request _
  cases request <;> simp [Request.unfed]

theorem feed_snd (e : Engine σ) (id : Nat) (item : Fed) :
    (e.feed id item).2 = e ∨ ∃ f, (e.feed id item).2 = e.mapSourceFedBy id f := by
  unfold feed
  split
  · exact .inl rfl
  · exact .inr ⟨_, rfl⟩

theorem receive_of_feeds (e : Engine σ) {call : Call} (h : call.feeds = true) :
    e.receive call = e ∨ ∃ id f, e.receive call = e.mapSourceFedBy id f := by
  cases call with
  | feed id item =>
      rcases e.feed_snd id item with hsame | ⟨f, hmap⟩
      · exact .inl hsame
      · exact .inr ⟨id, f, hmap⟩
  | closeChannel id => exact .inr ⟨id, _, rfl⟩
  | enqueue | enqueueSource | runByName | pause | stop | resume | step | setReady | shutdown =>
      cases h

/-! ### All calls -/

/-- A call sets signals and may use the host; or it sends a request after that; or it changes what
is pending in a source. -/
theorem receive_cases (e : Engine σ) (call : Call) :
    (∃ world pause ready cancel pauseAtLoop stopAtLoop,
      e.receive call = { e with world, pause, ready, cancel, pauseAtLoop, stopAtLoop }) ∨
    (∃ world pause request, call.Sends request ∧
      e.receive call = { e with world, pause }.send request) ∨
    ∃ id f, e.receive call = e.mapSourceFedBy id f := by
  cases call with
  | enqueue stored loops =>
      obtain ⟨world, h | ⟨frame, h⟩⟩ := e.enqueue_cases stored loops
      · exact .inl ⟨world, _, _, _, _, _, h⟩
      · exact .inr (.inl ⟨world, _, .push frame, ⟨frame, rfl⟩, h⟩)
  | enqueueSource name source =>
      exact .inr (.inl ⟨_, _, _, ⟨_, rfl⟩, rfl⟩)
  | runByName name loops =>
      obtain ⟨world, h | ⟨frame, h⟩⟩ := e.runByName_cases name loops
      · exact .inl ⟨world, _, _, _, _, _, h⟩
      · exact .inr (.inl ⟨world, _, .push frame, ⟨frame, rfl⟩, h⟩)
  | pause atLoop => cases atLoop <;> exact .inl ⟨_, _, _, _, _, _, rfl⟩
  | stop atLoop =>
      cases atLoop with
      | true => exact .inl ⟨_, _, _, _, _, _, rfl⟩
      | false => exact .inr (.inl ⟨_, _, .clear, rfl, rfl⟩)
  | resume => exact .inl ⟨_, _, _, _, _, _, rfl⟩
  | step => exact .inr (.inl ⟨_, _, .step, rfl, rfl⟩)
  | setReady isReady => exact .inl ⟨_, _, _, _, _, _, rfl⟩
  | shutdown => exact .inl ⟨_, _, _, _, _, _, rfl⟩
  | feed id item =>
      obtain h | ⟨f, h⟩ := e.feed_snd id item
      · exact .inl ⟨_, _, _, _, _, _, h⟩
      · exact .inr (.inr ⟨id, f, h⟩)
  | closeChannel id => exact .inr (.inr ⟨id, _, rfl⟩)

theorem receive_leavesWork (e : Engine σ) (call : Call) : LeavesWork e (e.receive call) := by
  rcases e.receive_cases call with
    ⟨_, _, _, _, _, _, h⟩ | ⟨world, pause, request, -, h⟩ | ⟨id, f, h⟩
  · rw [h]
    exact ⟨rfl, rfl, rfl, rfl, rfl, rfl, rfl⟩
  · have hchange : LeavesWork e { e with world, pause } := ⟨rfl, rfl, rfl, rfl, rfl, rfl, rfl⟩
    exact h ▸ hchange.trans (send_leavesWork _ request)
  · rw [h]
    exact mapSourceFedBy_leavesWork e id f

/-- A call puts at most one request behind the queue. -/
theorem receive_queue (e : Engine σ) (call : Call) :
    (e.receive call).queue.map Request.unfed = e.queue.map Request.unfed ∨
      ∃ request, call.Sends request ∧
        (e.receive call).queue.map Request.unfed =
          e.queue.map Request.unfed ++ [request.unfed] := by
  rcases e.receive_cases call with
    ⟨_, _, _, _, _, _, h⟩ | ⟨world, pause, request, hsends, h⟩ | ⟨id, f, h⟩
  · exact .inl (by rw [h])
  · rcases send_queue { e with world, pause } request with hqueue | hqueue
    · exact .inl (by rw [h, hqueue])
    · exact .inr ⟨request, hsends, by rw [h, hqueue, List.map_append]; rfl⟩
  · exact .inl (by rw [h, mapSourceFedBy_queue])

end Engine

end CraftLang
