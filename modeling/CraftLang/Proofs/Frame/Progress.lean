import CraftLang.Frame.Basic

/-!
How far a frame has come. Callers can feed the source of a frame at any time, which adds to the
lines that are pending in it and to nothing else; a frame without those lines is what only the
engine changes.
-/

namespace CraftLang

namespace Frame

def unfed (frame : Frame) : Frame :=
  frame.mapSource fun _ => .ofItems []

@[simp] theorem unfed_index (frame : Frame) : frame.unfed.index = frame.index := by
  obtain ⟨_, body, _, _⟩ := frame
  cases body <;> rfl

@[simp] theorem unfed_commands (frame : Frame) : frame.unfed.commands = frame.commands := by
  obtain ⟨_, body, _, _⟩ := frame
  cases body <;> rfl

@[simp] theorem unfed_iterations (frame : Frame) :
    frame.unfed.iterations = frame.iterations := by
  obtain ⟨_, body, _, _⟩ := frame
  cases body <;> rfl

@[simp] theorem unfed_isProduced (frame : Frame) : frame.unfed.isProduced = frame.isProduced := by
  obtain ⟨_, body, _, _⟩ := frame
  cases body <;> rfl

/-- Feeding a frame makes no difference to it but for what is pending. -/
@[simp] theorem unfed_mapSource (frame : Frame) (f : LineSource → LineSource) :
    (frame.mapSource f).unfed = frame.unfed := by
  obtain ⟨_, body, _, _⟩ := frame
  cases body <;> rfl

@[simp] theorem advance_index (frame : Frame) : frame.advance.index = frame.index + 1 := rfl

@[simp] theorem advance_iterations (frame : Frame) :
    frame.advance.iterations = frame.iterations := rfl

@[simp] theorem unfed_advance (frame : Frame) : frame.advance.unfed = frame.unfed.advance := by
  obtain ⟨_, body, _, _⟩ := frame
  cases body <;> rfl

@[simp] theorem setKind_index (frame : Frame) (kind : CommandKind) :
    (frame.setKind kind).index = frame.index := by
  obtain ⟨_, body, _, _⟩ := frame
  cases body <;> rfl

@[simp] theorem setKind_iterations (frame : Frame) (kind : CommandKind) :
    (frame.setKind kind).iterations = frame.iterations := by
  obtain ⟨_, body, _, _⟩ := frame
  cases body <;> rfl

@[simp] theorem setKind_isProduced (frame : Frame) (kind : CommandKind) :
    (frame.setKind kind).isProduced = frame.isProduced := by
  obtain ⟨_, body, _, _⟩ := frame
  cases body <;> rfl

@[simp] theorem setKind_commands (frame : Frame) (kind : CommandKind) :
    (frame.setKind kind).commands = frame.commands.modify frame.index ({ · with kind }) := by
  obtain ⟨_, body, _, _⟩ := frame
  cases body <;> rfl

@[simp] theorem unfed_setKind (frame : Frame) (kind : CommandKind) :
    (frame.setKind kind).unfed = frame.unfed.setKind kind := by
  obtain ⟨_, body, _, _⟩ := frame
  cases body <;> rfl

/-- An instruction that stays as it is leaves the frame as it is. -/
theorem setKind_self {frame : Frame} {command : Command}
    (h : frame.commands[frame.index]? = some command) : frame.setKind command.kind = frame := by
  have hmodify : frame.commands.modify frame.index ({ · with kind := command.kind }) =
      frame.commands := by
    apply List.ext_getElem?
    intro i
    rw [List.getElem?_modify]
    by_cases hi : frame.index = i
    · subst hi
      simp [h]
    · simp [hi]
  obtain ⟨_, body, _, _⟩ := frame
  cases body with
  | parsed commands => simpa [setKind, Frame.commands] using hmodify
  | produced source yielded pulled exhausted =>
      simpa [setKind, Frame.commands] using hmodify

/-- The command at the program counter after its instruction was replaced. -/
theorem setKind_getElem? {frame : Frame} {command : Command}
    (h : frame.commands[frame.index]? = some command) (kind : CommandKind) :
    (frame.setKind kind).commands[(frame.setKind kind).index]? = some { command with kind } := by
  simp [h]

/-! ### Looking for a command -/

/-- A command that is found is the one at the program counter, and the frame stays as it is. -/
theorem fetchStep_eq_command {frame frame' : Frame} {command : Command}
    (h : frame.fetchStep = (.command command, frame')) :
    frame' = frame ∧ frame.commands[frame.index]? = some command := by
  unfold fetchStep at h
  split at h
  · next found =>
      cases h
      exact ⟨rfl, found⟩
  · repeat' split at h
    all_goals cases h

/-- Looking for a command moves no program counter. -/
theorem fetchStep_index (frame : Frame) : frame.fetchStep.2.index = frame.index := by
  unfold fetchStep
  repeat' split
  all_goals rfl

/-- Looking for a command does not count as starting again. -/
theorem fetchStep_iterations (frame : Frame) :
    frame.fetchStep.2.iterations = frame.iterations := by
  unfold fetchStep
  repeat' split
  all_goals rfl

/-- Commands that were yielded are kept. -/
theorem fetchStep_commands (frame : Frame) :
    frame.commands <+: frame.fetchStep.2.commands := by
  obtain ⟨stored, body, index, iterations⟩ := frame
  unfold fetchStep
  split
  · exact List.prefix_refl _
  · cases body with
    | parsed commands => exact List.prefix_refl _
    | produced source yielded pulled exhausted =>
        simp only
        repeat' split
        all_goals first | exact List.prefix_refl _ | exact List.prefix_append _ _

theorem fetchStep_isProduced (frame : Frame) :
    frame.fetchStep.2.isProduced = frame.isProduced := by
  unfold fetchStep
  split
  · rfl
  · cases hbody : frame.body with
    | parsed commands => simp [isProduced, hbody]
    | produced source yielded pulled exhausted =>
        simp only
        repeat' split
        all_goals simp [isProduced, hbody]

/-- In a frame whose commands are known, the next one is there or the frame is finished; looking
for it does nothing else. -/
theorem fetchStep_of_parsed {frame : Frame} (h : frame.isProduced = false) :
    frame.fetchStep.2 = frame ∧
      (frame.fetchStep.1 = .finished ∨ ∃ command, frame.fetchStep.1 = .command command) := by
  unfold fetchStep
  cases hbody : frame.body with
  | parsed commands => cases frame.commands[frame.index]? <;> simp
  | produced source yielded pulled exhausted => simp [isProduced, hbody] at h

end Frame

end CraftLang
