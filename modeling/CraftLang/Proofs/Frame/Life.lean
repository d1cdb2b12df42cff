import CraftLang.Command.Execute
import CraftLang.Proofs.Frame.Progress

/-!
The life of one frame. A frame looks for a command, the command is carried out, and the frame goes
on from its result. All that comes in from outside on the way are the lines that are pulled for the
frame and the replies to its commands, so these alone decide which commands the frame comes to, and
what it asks next.
-/

namespace CraftLang

inductive Told where
  | line (pull : Pull)
  | reply (effect : Effect) (reply : effect.Reply)

/-- What a frame gets for what it asks, after all that it has heard before. For a call there may be
no reply. -/
structure Answers where
  line : List Told → Pull
  reply : List Told → (effect : Effect) → Option effect.Reply

namespace Answers

/-- Whether something that a frame hears is the answer, after what it has heard before. -/
def Gives (answers : Answers) (before : List Told) : Told → Prop
  | .line pull => answers.line before = pull
  | .reply effect reply => answers.reply before effect = some reply

def Explain (answers : Answers) : List Told → List Told → Prop
  | _, [] => True
  | before, first :: told => answers.Gives before first ∧ answers.Explain (before ++ [first]) told

theorem explain_append {answers : Answers} {before told told' : List Told} :
    answers.Explain before (told ++ told') ↔
      answers.Explain before told ∧ answers.Explain (before ++ told) told' := by
  induction told generalizing before with
  | nil => simp [Explain]
  | cons first told ih => simp [Explain, ih, and_assoc]

end Answers

namespace Frame

/-- What the next look for a command asks of the source of the frame, and gets from it. -/
def heard (frame : Frame) : List Told :=
  match frame.commands[frame.index]?, frame.body with
  | none, .produced source _ _ false => [.line source.pull.1]
  | _, _ => []

/-- Frames that differ in what is pending differ in their sources only. -/
theorem eq_mapSource_of_unfed {frame frame' : Frame} (h : frame'.unfed = frame.unfed) :
    ∃ source, frame' = frame.mapSource fun _ => source := by
  obtain ⟨stored, body, index, iterations⟩ := frame
  obtain ⟨stored', body', index', iterations'⟩ := frame'
  cases body <;> cases body' <;> cases h
  · exact ⟨.ofItems [], rfl⟩
  · exact ⟨_, rfl⟩

/-- Whether a frame asks its source is its own affair. -/
theorem heard_of_unfed {frame frame' : Frame} (h : frame'.unfed = frame.unfed) :
    frame.heard = [] ∧ frame'.heard = [] ∨
      ∃ pull pull', frame.heard = [.line pull] ∧ frame'.heard = [.line pull'] := by
  obtain ⟨source, rfl⟩ := eq_mapSource_of_unfed h
  obtain ⟨stored, body, index, iterations⟩ := frame
  cases body with
  | parsed commands => exact .inl ⟨by simp [heard], by simp [heard, mapSource]⟩
  | produced source₀ yielded pulled exhausted =>
      simp only [heard, mapSource, commands]
      cases yielded[index]? <;> cases exhausted <;> simp

/-- What a look for a command comes to depends on what is heard from the source, and not on what
else is pending. -/
theorem fetchStep_congr {frame frame' : Frame} (h : frame'.unfed = frame.unfed)
    (hheard : frame'.heard = frame.heard) :
    frame'.fetchStep.1 = frame.fetchStep.1 ∧
      frame'.fetchStep.2.unfed = frame.fetchStep.2.unfed := by
  obtain ⟨source, rfl⟩ := eq_mapSource_of_unfed h
  obtain ⟨stored, body, index, iterations⟩ := frame
  cases body with
  | parsed commands => exact ⟨rfl, rfl⟩
  | produced source₀ yielded pulled exhausted =>
      simp only [heard, mapSource, commands] at hheard
      simp only [fetchStep, mapSource, commands]
      cases hfound : yielded[index]? with
      | some command => exact ⟨rfl, rfl⟩
      | none =>
          cases exhausted with
          | true => exact ⟨rfl, rfl⟩
          | false =>
              simp only [hfound, List.cons.injEq, Told.line.injEq, and_true] at hheard
              cases hpull : source.pull with
              | mk pull rest =>
                  cases hpull₀ : source₀.pull with
                  | mk pull₀ rest₀ =>
                      rw [hpull, hpull₀] at hheard
                      cases hheard
                      cases pull with
                      | line text =>
                          cases hread : Source.readLine text.toList pulled <;>
                            simp [hread, unfed, mapSource]
                      | failed message | ended | waiting => exact ⟨rfl, rfl⟩

end Frame

inductive Stage where
  | seeking
  | found (command : Command)
  | running (program : Action Executed)
  | looped (restart : Bool)
  /-- The frame has come to its end. -/
  | over

def Fetched.stage? : Fetched → Option Stage
  | .command found => some (.found found)
  | .again => some .seeking
  | .finished => some .over
  | .failed _ | .waiting => none

/-- The frame after a loop command, unless it cannot be restarted. -/
def Frame.loop? (frame : Frame) (restart : Bool) : Option Frame :=
  if restart then frame.restart.toOption else some frame.advance

/-- Only a frame over a source of lines refuses to start again. -/
theorem Frame.isProduced_of_restart {frame : Frame} {error : CommandError}
    (h : frame.restart = .error error) : frame.isProduced = true := by
  unfold Frame.restart at h
  split at h
  · assumption
  · cases h

theorem Frame.loop?_unfed {frame next : Frame} {restart : Bool}
    (h : frame.loop? restart = some next) : frame.unfed.loop? restart = some next.unfed := by
  obtain ⟨stored, body, index, iterations⟩ := frame
  cases restart <;> cases body <;> cases h <;> rfl

/-- A frame, but for what is pending in its source, and how far it is. -/
structure Life where
  frame : Frame
  stage : Stage

/-- A frame after a command that was carried out, unless the command is to be tried again. -/
def Executed.leave? (executed : Executed) (frame : Frame) : Option Life :=
  let frame := frame.setKind executed.kind
  match executed.result with
  | .ok .proceed | .ok .skipped | .ok (.push _) => some ⟨frame.advance, .seeking⟩
  | .ok (.loop restart) => some ⟨frame, .looped restart⟩
  | .ok .gateComplete => some ⟨frame, .over⟩
  | .ok (.pause _) | .error _ => none

namespace Life

/-- One move in the life of a frame, with what it hears and the command that it starts. -/
inductive Move (settings : Settings) (life : Life) : List Told → List Command → Life → Prop
  | looked {frame : Frame} {stage : Stage} (hstage : life.stage = .seeking)
      (hframe : life.frame = frame.unfed) (hfetch : frame.fetchStep.1.stage? = some stage) :
      Move settings life frame.heard [] ⟨frame.fetchStep.2.unfed, stage⟩
  | started {command : Command} (hstage : life.stage = .found command) :
      Move settings life [] [command] ⟨life.frame, .running (command.execute settings)⟩
  | told {effect : Effect} {next : effect.Reply → Action Executed}
      (hstage : life.stage = .running (.call effect next)) (reply : effect.Reply) :
      Move settings life [.reply effect reply] [] ⟨life.frame, .running (next reply)⟩
  | settled {life' : Life} {executed : Executed} (hstage : life.stage = .running (.done executed))
      (hleave : executed.leave? life.frame = some life') : Move settings life [] [] life'
  | looped {frame : Frame} {restart : Bool} (hstage : life.stage = .looped restart)
      (hloop : life.frame.loop? restart = some frame) : Move settings life [] [] ⟨frame, .seeking⟩

/-- Some moves in the life of a frame, with all that it hears and all commands that it starts. -/
inductive Course (settings : Settings) : Life → List Told → List Command → Life → Prop
  | refl (life : Life) : Course settings life [] [] life
  | step {life₀ life₁ life₂ : Life} {told told' : List Told} {commands commands' : List Command}
      (hmove : Move settings life₀ told commands life₁)
      (hrest : Course settings life₁ told' commands' life₂) :
      Course settings life₀ (told ++ told') (commands ++ commands') life₂

variable {settings : Settings}

/-- At its end a frame makes no move. -/
theorem Move.stage_ne_over {life life' : Life} {told : List Told} {commands : List Command}
    (h : Move settings life told commands life') : life.stage ≠ .over := by
  cases h with
  | looked hstage | started hstage | told hstage | settled hstage | looped hstage =>
      rw [hstage]
      exact nofun

/-- Two moves of a frame from the same point are the same, if they get the same answers. -/
theorem Move.eq {answers : Answers} {before : List Told} {life life₁ life₂ : Life}
    {told₁ told₂ : List Told} {commands₁ commands₂ : List Command}
    (h₁ : Move settings life told₁ commands₁ life₁)
    (h₂ : Move settings life told₂ commands₂ life₂) (htold₁ : answers.Explain before told₁)
    (htold₂ : answers.Explain before told₂) :
    told₁ = told₂ ∧ commands₁ = commands₂ ∧ life₁ = life₂ := by
  cases h₁ with
  | looked hstage₁ hframe₁ hfetch₁ =>
      cases h₂ with
      | @looked frame₂ stage₂ hstage₂ hframe₂ hfetch₂ =>
          rename_i frame₁ stage₁
          have hunfed : frame₂.unfed = frame₁.unfed := hframe₂.symm.trans hframe₁
          have hheard : frame₂.heard = frame₁.heard := by
            rcases Frame.heard_of_unfed hunfed with ⟨hnone₁, hnone₂⟩ | ⟨pull₁, pull₂, hone₁, hone₂⟩
            · rw [hnone₁, hnone₂]
            · rw [hone₁] at htold₁
              rw [hone₂] at htold₂
              obtain rfl : pull₁ = pull₂ := htold₁.1.symm.trans htold₂.1
              rw [hone₁, hone₂]
          obtain ⟨hfetched, hnext⟩ := Frame.fetchStep_congr hunfed hheard
          rw [hfetched] at hfetch₂
          refine ⟨hheard.symm, rfl, ?_⟩
          rw [hnext, Option.some.inj (hfetch₁.symm.trans hfetch₂)]
      | started hstage₂ | told hstage₂ | settled hstage₂ | looped hstage₂ =>
          cases hstage₁.symm.trans hstage₂
  | started hstage₁ =>
      cases h₂ with
      | started hstage₂ =>
          cases hstage₁.symm.trans hstage₂
          exact ⟨rfl, rfl, rfl⟩
      | looked hstage₂ | told hstage₂ | settled hstage₂ | looped hstage₂ =>
          cases hstage₁.symm.trans hstage₂
  | told hstage₁ reply₁ =>
      cases h₂ with
      | told hstage₂ reply₂ =>
          cases hstage₁.symm.trans hstage₂
          obtain rfl : reply₁ = reply₂ := Option.some.inj (htold₁.1.symm.trans htold₂.1)
          exact ⟨rfl, rfl, rfl⟩
      | looked hstage₂ | started hstage₂ | settled hstage₂ | looped hstage₂ =>
          cases hstage₁.symm.trans hstage₂
  | settled hstage₁ hleave₁ =>
      cases h₂ with
      | settled hstage₂ hleave₂ =>
          cases hstage₁.symm.trans hstage₂
          exact ⟨rfl, rfl, Option.some.inj (hleave₁.symm.trans hleave₂)⟩
      | looked hstage₂ | started hstage₂ | told hstage₂ | looped hstage₂ =>
          cases hstage₁.symm.trans hstage₂
  | looped hstage₁ hloop₁ =>
      cases h₂ with
      | looped hstage₂ hloop₂ =>
          cases hstage₁.symm.trans hstage₂
          cases hloop₁.symm.trans hloop₂
          exact ⟨rfl, rfl, rfl⟩
      | looked hstage₂ | started hstage₂ | told hstage₂ | settled hstage₂ =>
          cases hstage₁.symm.trans hstage₂

theorem Course.of_move {life life' : Life} {told : List Told} {commands : List Command}
    (h : Move settings life told commands life') : Course settings life told commands life' := by
  simpa using Course.step h (.refl life')

theorem Course.trans {life₀ life₁ life₂ : Life} {told told' : List Told}
    {commands commands' : List Command} (h : Course settings life₀ told commands life₁)
    (h' : Course settings life₁ told' commands' life₂) :
    Course settings life₀ (told ++ told') (commands ++ commands') life₂ := by
  induction h with
  | refl life => exact h'
  | step hmove hrest ih =>
      rw [List.append_assoc, List.append_assoc]
      exact .step hmove (ih h')

theorem Course.eq_of_over {life life' : Life} {told : List Told} {commands : List Command}
    (h : Course settings life told commands life') (hover : life.stage = .over) : life' = life := by
  cases h with
  | refl => rfl
  | step hmove => exact absurd hover hmove.stage_ne_over

/-- Two courses of a frame that get the same answers hear the same and start the same commands, as
far as both go; and none goes further than one that has come to the end of the frame. -/
theorem Course.comparable {answers : Answers} {before : List Told} {life life₁ life₂ : Life}
    {told₁ told₂ : List Told} {commands₁ commands₂ : List Command}
    (h₁ : Course settings life told₁ commands₁ life₁)
    (h₂ : Course settings life told₂ commands₂ life₂) (htold₁ : answers.Explain before told₁)
    (htold₂ : answers.Explain before told₂) :
    (told₁ <+: told₂ ∧ commands₁ <+: commands₂ ∨ told₂ <+: told₁ ∧ commands₂ <+: commands₁) ∧
      (life₁.stage = .over → told₂ <+: told₁ ∧ commands₂ <+: commands₁) ∧
      (life₂.stage = .over → told₁ <+: told₂ ∧ commands₁ <+: commands₂) := by
  induction h₁ generalizing before told₂ commands₂ with
  | refl life =>
      refine ⟨.inl ⟨List.nil_prefix, List.nil_prefix⟩, fun hover => ?_, fun _ =>
        ⟨List.nil_prefix, List.nil_prefix⟩⟩
      cases h₂ with
      | refl => exact ⟨List.nil_prefix, List.nil_prefix⟩
      | step hmove => exact absurd hover hmove.stage_ne_over
  | step hmove₁ hrest₁ ih =>
      cases h₂ with
      | refl =>
          exact ⟨.inr ⟨List.nil_prefix, List.nil_prefix⟩,
            fun _ => ⟨List.nil_prefix, List.nil_prefix⟩,
            fun hover => absurd hover hmove₁.stage_ne_over⟩
      | step hmove₂ hrest₂ =>
          obtain ⟨hfirst₁, hlater₁⟩ := Answers.explain_append.mp htold₁
          obtain ⟨hfirst₂, hlater₂⟩ := Answers.explain_append.mp htold₂
          obtain ⟨rfl, rfl, rfl⟩ := hmove₁.eq hmove₂ hfirst₁ hfirst₂
          simp only [List.prefix_append_right_inj]
          exact ih hrest₂ hlater₁ hlater₂

end Life

end CraftLang
