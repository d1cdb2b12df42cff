import CraftLang.Command.Execute

/-!
The evaluation of a frame by recursion. Commands are carried out one after the other, and a macro
that is to be run first is evaluated to its end before the next command. There is no stack, no
queue and no gate: what is left of an engine is its host, its settings and the passing of time.
-/

namespace CraftLang

variable {σ : Type}

def Timeline.pass (timeline : Timeline σ) (delay : Nat) : Timeline σ :=
  { timeline with now := timeline.now + sleepMs delay }

def WaitPolicy.draw (wait : WaitPolicy) : Action Nat :=
  if wait.isRange then .call (.host (.draw wait.width)) fun drawn => pure (wait.delay drawn)
  else pure (wait.delay 0)

def Command.executeTimed (settings : Settings) (command : Command) : Action (Nat × Executed) := do
  let delay ← command.modifiers.wait.draw
  let executed ← command.execute settings
  pure (delay, executed)

theorem Timeline.run_bind {α β : Type} (host : Host σ) (action : Action α) (next : α → Action β)
    (timeline : Timeline σ) :
    timeline.run host (action >>= next) =
      match timeline.run host action with
      | (.ok value, timeline) => timeline.run host (next value)
      | (.error error, timeline) => (.error error, timeline) := by
  induction action generalizing timeline with
  | done value => rfl
  | call effect rest ih =>
      simp only [Program.call_bind, Timeline.run]
      split
      · exact ih _ _
      · rfl

inductive Turn (σ : Type) where
  /-- The frame goes on. -/
  | onward (frame : Frame) (timeline : Timeline σ)
  /-- Another frame comes first, and then this one goes on. -/
  | nested (callee frame : Frame) (timeline : Timeline σ)
  /-- The frame ends. -/
  | finished (timeline : Timeline σ)
  /-- The command fails or pauses, or is the last one for another reason. -/
  | halted

/-- The turn that a result of a command makes. A loop is the last command with `untilLoop`, which
stands for a pause or a stop that is deferred to the next loop. -/
def Turn.ofResult (host : Host σ) (untilLoop : Bool) (frame : Frame) (delay : Nat)
    (timeline : Timeline σ) : Except CommandError Outcome → Turn σ
  | .ok .proceed => .onward frame.advance (timeline.pass delay)
  | .ok .skipped => .onward frame.advance timeline
  | .ok (.loop restart) =>
    if untilLoop then .halted
    else if restart then
      match frame.restart with
      | .ok frame => .onward frame (timeline.pass delay)
      | .error _ => .halted
    else .onward frame.advance (timeline.pass delay)
  | .ok .gateComplete =>
    match timeline.ask host (.printInfo "Craft loop complete") with
    | (.ok _, timeline) => .finished timeline
    | (.error _, _) => .halted
  | .ok (.push callee) => .nested callee frame.advance (timeline.pass delay)
  | .ok (.pause _) | .error _ => .halted

/-- How an evaluation comes out: after the end of so many frames, because a command failed or
paused, or not at all within its fuel. -/
inductive Ending (σ : Type) where
  | finished (frames : Nat) (timeline : Timeline σ)
  | halted
  | unfinished

structure Course (σ : Type) where
  commands : List Command
  ending : Ending σ

namespace Course

def after (command : Command) (course : Course σ) : Course σ :=
  { course with commands := command :: course.commands }

def counting (frames : Nat) (course : Course σ) : Course σ :=
  match course.ending with
  | .finished more timeline => { course with ending := .finished (frames + more) timeline }
  | _ => course

def andThen (course : Course σ) (next : Timeline σ → Course σ) : Course σ :=
  match course.ending with
  | .finished frames timeline =>
    { (next timeline).counting frames with
      commands := course.commands ++ (next timeline).commands }
  | _ => course

end Course

namespace Frame

def turn (host : Host σ) (settings : Settings) (untilLoop : Bool) (frame : Frame)
    (command : Command) (timeline : Timeline σ) : Turn σ :=
  match timeline.run host (command.executeTimed settings) with
  | (.ok (delay, executed), timeline) =>
    .ofResult host untilLoop (frame.setKind executed.kind) delay timeline executed.result
  | (.error _, _) => .halted

/-- Evaluate a frame. The fuel bounds how deep the recursion goes, since macros can go on for
ever. -/
def evaluate (host : Host σ) (settings : Settings) (untilLoop : Bool) :
    Nat → Frame → Timeline σ → Course σ
  | 0, _, _ => ⟨[], .unfinished⟩
  | fuel + 1, frame, timeline =>
    match frame.fetch with
    | (.command command, frame) =>
      match frame.turn host settings untilLoop command timeline with
      | .onward frame timeline =>
        (evaluate host settings untilLoop fuel frame timeline).after command
      | .nested callee frame timeline =>
        ((evaluate host settings untilLoop fuel callee timeline).andThen
          (evaluate host settings untilLoop fuel frame)).after command
      | .finished timeline => ⟨[command], .finished 1 timeline⟩
      | .halted => ⟨[command], .halted⟩
    | (.finished, _) => ⟨[], .finished 1 timeline⟩
    | _ => ⟨[], .halted⟩

end Frame

/-! ### Fuel -/

namespace Course

/-- `Grows course course'` says that `course'` is what `course` becomes with more fuel. -/
structure Grows (course course' : Course σ) : Prop where
  commands : course.commands <+: course'.commands
  settled : course.ending ≠ .unfinished → course' = course

variable {course course' course₁ course₂ : Course σ}

theorem Grows.refl (course : Course σ) : Grows course course :=
  ⟨List.prefix_refl _, fun _ => rfl⟩

theorem Grows.trans (h : Grows course course₁) (h' : Grows course₁ course₂) :
    Grows course course₂ where
  commands := h.commands.trans h'.commands
  settled := by
    intro hending
    have hsame := h.settled hending
    rw [← hsame] at hending
    rw [h'.settled hending, hsame]

theorem Grows.after (command : Command) (h : Grows course course') :
    Grows (course.after command) (course'.after command) where
  commands := (List.prefix_cons_inj command).mpr h.commands
  settled := fun hending => by rw [h.settled hending]

theorem counting_unfinished {frames : Nat} :
    (course.counting frames).ending = .unfinished ↔ course.ending = .unfinished := by
  unfold counting
  split
  · next hending => simp [hending]
  · rfl

/-- Both courses can have more fuel. The second one starts only once the first one is settled. -/
theorem Grows.andThen {next next' : Timeline σ → Course σ} (h : Grows course course')
    (hnext : ∀ timeline, Grows (next timeline) (next' timeline)) :
    Grows (course.andThen next) (course'.andThen next') := by
  by_cases hending : course.ending = .unfinished
  · have hfirst : course.andThen next = course := by simp only [Course.andThen, hending]
    refine ⟨?_, fun hsettled => absurd hending (hfirst ▸ hsettled)⟩
    rw [hfirst]
    refine h.commands.trans ?_
    unfold Course.andThen
    split
    · exact List.prefix_append _ _
    · exact List.prefix_refl _
  · rw [h.settled hending]
    unfold Course.andThen
    split
    · next frames timeline hfinished =>
        have hgrows := hnext timeline
        refine ⟨(List.prefix_append_right_inj _).mpr hgrows.commands, fun hsettled => ?_⟩
        rw [hgrows.settled fun hunfinished => hsettled (counting_unfinished.mpr hunfinished)]
    · exact .refl course

end Course

namespace Frame

variable (host : Host σ) (settings : Settings) (untilLoop : Bool)

theorem evaluate_succ (fuel : Nat) (frame : Frame) (timeline : Timeline σ) :
    (frame.evaluate host settings untilLoop fuel timeline).Grows
      (frame.evaluate host settings untilLoop (fuel + 1) timeline) := by
  -- Both sides take their first command alike, so only the evaluations after it differ.
  induction fuel generalizing frame timeline with
  | zero => exact ⟨List.nil_prefix, fun h => absurd rfl h⟩
  | succ fuel ih =>
      rw [evaluate]
      conv => arg 2; rw [evaluate]
      split
      · split
        · exact (ih _ _).after _
        · exact ((ih _ _).andThen fun timeline => ih _ timeline).after _
        · exact .refl _
        · exact .refl _
      · exact .refl _
      · exact .refl _

/-- With more fuel an evaluation goes further, and once it is settled it stays as it is. -/
theorem evaluate_grows {fuel fuel' : Nat} (hle : fuel ≤ fuel') (frame : Frame)
    (timeline : Timeline σ) :
    (frame.evaluate host settings untilLoop fuel timeline).Grows
      (frame.evaluate host settings untilLoop fuel' timeline) := by
  induction hle with
  | refl => exact .refl _
  | step _ ih => exact ih.trans (evaluate_succ host settings untilLoop _ _ _)

/-- An evaluation that comes to no end within its fuel has carried out as many commands at least. -/
theorem le_length_of_unfinished {fuel : Nat} {frame : Frame} {timeline : Timeline σ}
    (h : (frame.evaluate host settings untilLoop fuel timeline).ending = .unfinished) :
    fuel ≤ (frame.evaluate host settings untilLoop fuel timeline).commands.length := by
  induction fuel generalizing frame timeline with
  | zero => exact Nat.zero_le _
  | succ fuel ih =>
      rw [evaluate] at h ⊢
      split at h
      · split at h
        · exact Nat.succ_le_succ (ih h)
        · next callee frame timeline _ =>
            refine Nat.succ_le_succ ?_
            simp only [Course.after, Course.andThen] at h ⊢
            split at h
            · next hfinished =>
                rw [List.length_append]
                exact Nat.le_add_left_of_le (ih (Course.counting_unfinished.mp h))
            · exact ih h
        · cases h
        · cases h
      · cases h
      · cases h

end Frame

end CraftLang
