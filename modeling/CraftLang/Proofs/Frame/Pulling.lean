import CraftLang.Proofs.Frame.Life
import CraftLang.Proofs.Source.Positions

/-!
Frames over lines that are known. Such a frame pulls its lines one by one, when a command is asked
for, and still comes to what the lines are read as when they are put together; and it pulls no line
that it does not need.
-/

namespace CraftLang

open Text

namespace Frame

/-- What a frame gives when it is asked for its command and then moved on, so many times. -/
def walk : Nat → Frame → List Fetched × Frame
  | 0, frame => ([], frame)
  | times + 1, frame =>
    let (found, frame) := frame.fetch
    let (later, frame) := walk times frame.advance
    (found :: later, frame)

/-- A frame has come from another one by looks for its command and by moving on, in any order, and
has heard this from its source on the way. -/
inductive Used (origin : Frame) : List Told → Frame → Prop
  | start : Used origin [] origin
  | looked {told : List Told} {frame : Frame} (h : Used origin told frame) :
      Used origin (told ++ frame.heard) frame.fetchStep.2
  | advanced {told : List Told} {frame : Frame} (h : Used origin told frame) :
      Used origin told frame.advance

/-- The commands on the lines, with none for a line that has a fault. -/
def heldBy (lines : List String) : List Command :=
  lines.flatMap fun line => (Source.commandsOn? line.toList).getD []

/-- Of the lines of a frame so many were pulled, one after the other, and each of them only because
the lines before it had no command at the place where the frame is. -/
structure Draws (lines : List String) (told : List Told) (frame : Frame) (pulled : Nat)
    (exhausted : Bool) : Prop where
  body : frame.body =
    .produced (.ofItems ((lines.drop pulled).map .line))
    (heldBy (lines.take pulled)) pulled exhausted
  told : told =
    (lines.take pulled).map (fun line => .line (.line line)) ++
      if exhausted then [.line .ended] else []
  le : pulled ≤ lines.length
  needed : ∀ k < pulled, (heldBy (lines.take k)).length ≤ frame.index
  ended : exhausted = true → pulled = lines.length ∧ (heldBy lines).length ≤ frame.index

/-! ### Pulling the next command -/

def pulling (stored : StoredMacro) (lines : List String) (yielded : List Command) (pulled : Nat) :
    Frame :=
  { stored
    body := .produced (.ofItems (lines.map .line)) yielded pulled false
    index := yielded.length }

def past (stored : StoredMacro) (yielded : List Command) (pulled more : Nat) : Frame :=
  { stored
    body := .produced (.ofItems []) yielded pulled true
    index := yielded.length + more }

section Fetch

variable {stored : StoredMacro} {line : String} {lines : List String} {yielded : List Command}
  {pulled : Nat}

theorem fetchStep_pulling_cons (stored : StoredMacro) (line : String) (lines : List String)
    (yielded : List Command) (pulled : Nat) :
    (pulling stored (line :: lines) yielded pulled).fetchStep =
      match Source.readLine line.toList pulled with
      | .ok command =>
          (.again,
            { pulling stored lines (yielded ++ command.toList) (pulled + 1) with
              index := yielded.length })
      | .error e => (.failed (.source e), pulling stored lines yielded (pulled + 1)) := by
  simp only [fetchStep, pulling, commands, List.getElem?_eq_none (Nat.le_refl _), LineSource.pull,
    LineSource.ofItems, List.map_cons]
  cases Source.readLine line.toList pulled <;> rfl

theorem fetchStep_pulling_nil (stored : StoredMacro) (yielded : List Command) (pulled : Nat) :
    (pulling stored [] yielded pulled).fetchStep = (.again, past stored yielded pulled 0) := by
  simp only [fetchStep, pulling, commands, List.getElem?_eq_none (Nat.le_refl _), LineSource.pull,
    LineSource.ofItems, List.map_nil]
  rfl

theorem fetchStep_past (stored : StoredMacro) (yielded : List Command) (pulled more : Nat) :
    (past stored yielded pulled more).fetchStep = (.finished, past stored yielded pulled more) := by
  simp [fetchStep, past, commands]

theorem pendingLines_pulling (stored : StoredMacro) (lines : List String) (yielded : List Command)
    (pulled : Nat) : (pulling stored lines yielded pulled).pendingLines = lines.length :=
  List.length_map _

/-- A line without a command is passed over. -/
theorem fetch_pulling_none (h : Source.readLine line.toList pulled = .ok none) :
    (pulling stored (line :: lines) yielded pulled).fetch =
      (pulling stored lines yielded (pulled + 1)).fetch := by
  have hstep := fetchStep_pulling_cons stored line lines yielded pulled
  simp only [h, Option.toList_none, List.append_nil] at hstep
  rw [fetch, fetch, pendingLines_pulling, pendingLines_pulling, List.length_cons]
  show fetchWithin (lines.length + 2 + 1) _ = _
  rw [fetchWithin, hstep]
  rfl

theorem fetch_pulling_some {command : Command} (stored : StoredMacro) (lines : List String)
    (yielded : List Command)
    (h : Source.readLine line.toList pulled = .ok (some command)) :
    ∃ frame, (pulling stored (line :: lines) yielded pulled).fetch = (.command command, frame) ∧
      frame.advance = pulling stored lines (yielded ++ [command]) (pulled + 1) := by
  have hstep := fetchStep_pulling_cons stored line lines yielded pulled
  simp only [h, Option.toList_some] at hstep
  refine ⟨{ pulling stored lines (yielded ++ [command]) (pulled + 1) with
    index := yielded.length }, ?_, ?_⟩
  · rw [fetch, pendingLines_pulling]
    show fetchWithin (lines.length + 1 + 1 + 1) _ = _
    rw [fetchWithin, hstep]
    simp only [fetchWithin, fetchStep, pulling, commands, List.getElem?_concat_length]
  · simp [advance, pulling]

theorem fetch_pulling_error {e : SyntaxError}
    (h : Source.readLine line.toList pulled = .error e) :
    (pulling stored (line :: lines) yielded pulled).fetch =
      (.failed (.source e), pulling stored lines yielded (pulled + 1)) := by
  have hstep := fetchStep_pulling_cons stored line lines yielded pulled
  simp only [h] at hstep
  rw [fetch, fetchWithin, hstep]

theorem fetch_pulling_nil :
    (pulling stored [] yielded pulled).fetch = (.finished, past stored yielded pulled 0) := by
  rw [fetch, pendingLines_pulling]
  show fetchWithin 2 _ = _
  rw [fetchWithin, fetchStep_pulling_nil]
  simp only [fetchWithin, fetchStep_past]

theorem fetch_past (more : Nat) :
    (past stored yielded pulled more).fetch = (.finished, past stored yielded pulled more) := by
  rw [fetch, fetchWithin, fetchStep_past]

end Fetch

/-! ### Asking and moving on in turn -/

section Walk

variable {stored : StoredMacro} {yielded : List Command} {pulled : Nat}

theorem walk_succ {frame frame' : Frame} {found : Fetched} (times : Nat)
    (h : frame.fetch = (found, frame')) :
    frame.walk (times + 1) =
      (found :: (frame'.advance.walk times).1, (frame'.advance.walk times).2) := by
  simp only [walk, h]

theorem walk_past (times more : Nat) :
    (past stored yielded pulled more).walk times =
      (List.replicate times .finished, past stored yielded pulled (more + times)) := by
  induction times generalizing more with
  | zero => rfl
  | succ times ih =>
      have hnext : (past stored yielded pulled more).advance =
          past stored yielded pulled (more + 1) := rfl
      rw [walk_succ times (fetch_past more), hnext, ih, List.replicate_succ, Nat.add_assoc,
        Nat.add_comm 1 times]

/-- Lines without a fault are walked to their end. -/
theorem walk_pulling_ok {lines : List String} {commands : List Command} (yielded : List Command)
    (h : Source.readLines pulled (lines.map String.toList) = .ok commands) (more : Nat) :
    (pulling stored lines yielded pulled).walk (commands.length + (more + 1)) =
      (commands.map .command ++ List.replicate (more + 1) .finished,
        past stored (yielded ++ commands) (pulled + lines.length) (more + 1)) := by
  induction lines generalizing yielded pulled commands with
  | nil =>
      cases h
      have hnext : (past stored yielded pulled 0).advance = past stored yielded pulled 1 := rfl
      rw [List.length_nil, Nat.zero_add, walk_succ more fetch_pulling_nil, hnext, walk_past,
        Nat.add_comm 1 more, List.append_nil]
      rfl
  | cons line lines ih =>
      have hlength : pulled + (line :: lines).length = pulled + 1 + lines.length := by
        rw [List.length_cons]
        omega
      rw [List.map_cons, Source.readLines] at h
      cases hline : Source.readLine line.toList pulled with
      | error e =>
          rw [hline] at h
          cases h
      | ok first =>
          cases hlater : Source.readLines (pulled + 1) (lines.map String.toList) with
          | error e =>
              rw [hline, hlater] at h
              cases h
          | ok later =>
              rw [hline, hlater] at h
              cases h
              cases first with
              | none =>
                  have hwalk := ih yielded hlater
                  rw [Option.toList_none, List.nil_append, hlength, ← hwalk]
                  show walk (later.length + more + 1) _ = walk (later.length + more + 1) _
                  rw [walk, walk, fetch_pulling_none hline]
              | some command =>
                  obtain ⟨frame, hfetch, hnext⟩ := fetch_pulling_some stored lines yielded hline
                  have htimes : [command].length + later.length + (more + 1) =
                      later.length + (more + 1) + 1 := by
                    rw [List.length_singleton]
                    omega
                  rw [Option.toList_some, List.length_append, htimes, walk_succ _ hfetch, hnext,
                    ih _ hlater,
                    hlength, List.append_assoc]
                  rfl

/-- Lines with a fault are walked up to the fault. -/
theorem walk_pulling_error {lines : List String} {e : SyntaxError} (stored : StoredMacro)
    (yielded : List Command)
    (h : Source.readLines pulled (lines.map String.toList) = .error e) :
    ∃ good before, e.line = pulled + good ∧
      Source.readLines pulled ((lines.take good).map String.toList) = .ok before ∧
      ((pulling stored lines yielded pulled).walk (before.length + 1)).1 =
        before.map .command ++ [.failed (.source e)] := by
  induction lines generalizing yielded pulled with
  | nil => cases h
  | cons line lines ih =>
      rw [List.map_cons, Source.readLines] at h
      cases hline : Source.readLine line.toList pulled with
      | error e' =>
          rw [hline] at h
          cases h
          refine ⟨0, [], Source.line_of_readLine hline, rfl, ?_⟩
          rw [List.length_nil, walk_succ 0 (fetch_pulling_error hline)]
          rfl
      | ok first =>
          cases hlater : Source.readLines (pulled + 1) (lines.map String.toList) with
          | ok later =>
              rw [hline, hlater] at h
              cases h
          | error e' =>
              rw [hline, hlater] at h
              cases h
              obtain ⟨good, before, hplace, hbefore, hwalk⟩ :=
                ih (yielded ++ first.toList) hlater
              refine ⟨good + 1, first.toList ++ before, by omega, ?_, ?_⟩
              · rw [List.take_succ_cons, List.map_cons, Source.readLines, hline, hbefore]
                rfl
              · cases first with
                | none =>
                    rw [Option.toList_none, List.append_nil] at hwalk
                    rw [Option.toList_none, List.nil_append, ← hwalk, walk, walk,
                      fetch_pulling_none hline]
                | some command =>
                    obtain ⟨frame, hfetch, hnext⟩ := fetch_pulling_some stored lines yielded hline
                    rw [Option.toList_some] at hwalk
                    rw [Option.toList_some, List.singleton_append, List.length_cons,
                      walk_succ _ hfetch, hnext, hwalk]
                    rfl

end Walk

/-! ### No more than is needed -/

section Draws

variable {stored : StoredMacro} {lines : List String} {told : List Told} {frame origin : Frame}
  {pulled : Nat} {exhausted : Bool}

theorem heldBy_append (lines lines' : List String) :
    heldBy (lines ++ lines') = heldBy lines ++ heldBy lines' :=
  List.flatMap_append

/-- A look for a command that is there already, or past the end, does not ask the source. -/
theorem look_of_held {source : LineSource} {yielded : List Command}
    (hbody : frame.body = .produced source yielded pulled exhausted)
    (hheld : yielded[frame.index]? ≠ none ∨ exhausted = true) :
    frame.heard = [] ∧ frame.fetchStep.2 = frame := by
  obtain ⟨stored, body, index, iterations⟩ := frame
  cases hbody
  simp only [heard, fetchStep, commands]
  cases hfound : yielded[index]? with
  | some command => exact ⟨rfl, rfl⟩
  | none =>
      rcases hheld with hsome | rfl
      · exact absurd hfound hsome
      · exact ⟨rfl, rfl⟩

theorem look_nil {yielded : List Command}
    (hbody : frame.body = .produced (.ofItems []) yielded pulled false)
    (hnone : yielded[frame.index]? = none) :
    frame.heard = [.line .ended] ∧
      frame.fetchStep.2.body = .produced (.ofItems []) yielded pulled true := by
  obtain ⟨stored, body, index, iterations⟩ := frame
  cases hbody
  simp only at hnone
  simp only [heard, fetchStep, commands, hnone, LineSource.pull, LineSource.ofItems]
  exact ⟨rfl, rfl⟩

theorem look_cons {line : String} {rest : List Fed} {yielded : List Command}
    (hbody : frame.body = .produced (.ofItems (.line line :: rest)) yielded pulled false)
    (hnone : yielded[frame.index]? = none) :
    frame.heard = [.line (.line line)] ∧
      frame.fetchStep.2.body =
        .produced (.ofItems rest) (yielded ++ heldBy [line]) (pulled + 1) false := by
  obtain ⟨stored, body, index, iterations⟩ := frame
  cases hbody
  simp only at hnone
  have hheld : heldBy [line] = ((Source.readLine line.toList pulled).toOption.map
      Option.toList).getD [] := by
    rw [heldBy, List.flatMap_singleton, Source.commandsOn?, Source.readLine_congr rfl 0 pulled]
  refine ⟨by simp only [heard, commands, hnone, LineSource.pull, LineSource.ofItems], ?_⟩
  rw [hheld]
  simp only [fetchStep, commands, hnone, LineSource.pull, LineSource.ofItems]
  cases Source.readLine line.toList pulled with
  | ok command => rfl
  | error e => simp [Except.toOption]

theorem Draws.start (stored : StoredMacro) (lines : List String) :
    Draws lines [] (ofSource stored (.ofItems (lines.map .line))) 0 false :=
  ⟨rfl, rfl, Nat.zero_le _, nofun, nofun⟩

theorem Draws.advance (h : Draws lines told frame pulled exhausted) :
    Draws lines told frame.advance pulled exhausted :=
  ⟨h.body, h.told, h.le, fun k hk => Nat.le_succ_of_le (h.needed k hk),
    fun hended => (h.ended hended).imp_right Nat.le_succ_of_le⟩

/-- A look that pulls finds that the commands so far do not reach to the place of the frame. -/
theorem Draws.needed_succ (h : Draws lines told frame pulled exhausted)
    (hnone : (heldBy (lines.take pulled))[frame.index]? = none) :
    ∀ k < pulled + 1, (heldBy (lines.take k)).length ≤ frame.index := by
  intro k hk
  rcases Nat.lt_succ_iff_lt_or_eq.mp hk with hlt | rfl
  · exact h.needed k hlt
  · exact List.getElem?_eq_none_iff.mp hnone

/-- The next line, and what is held by the lines up to it. -/
theorem drop_eq_cons {line : String} {rest : List String} (h : lines.drop pulled = line :: rest) :
    lines.take (pulled + 1) = lines.take pulled ++ [line] ∧ lines.drop (pulled + 1) = rest ∧
      pulled + 1 ≤ lines.length := by
  have hline : lines[pulled]? = some line := by
    rw [← List.head?_drop, h]
    rfl
  obtain ⟨hlt, hget⟩ := List.getElem?_eq_some_iff.mp hline
  rw [List.drop_eq_getElem_cons hlt] at h
  exact ⟨by rw [List.take_succ_eq_append_getElem hlt, hget], (List.cons.inj h).2, hlt⟩

/-- A look asks for one more line at most, and only if there is need for it. -/
theorem Draws.look (h : Draws lines told frame pulled exhausted) :
    ∃ pulled' exhausted',
      Draws lines (told ++ frame.heard) frame.fetchStep.2 pulled' exhausted' := by
  by_cases hheld : (heldBy (lines.take pulled))[frame.index]? ≠ none ∨ exhausted = true
  · obtain ⟨hheard, hsame⟩ := look_of_held h.body hheld
    refine ⟨pulled, exhausted, ?_⟩
    rwa [hheard, hsame, List.append_nil]
  · rw [not_or, not_not, Bool.not_eq_true] at hheld
    obtain ⟨hnone, rfl⟩ := hheld
    have hneed := h.needed_succ hnone
    have hbody := h.body
    have htold := h.told
    simp only [Bool.false_eq_true, if_false, List.append_nil] at htold
    cases hrest : lines.drop pulled with
    | nil =>
        have hall : pulled = lines.length := Nat.le_antisymm h.le (List.drop_eq_nil_iff.mp hrest)
        rw [hrest, List.map_nil] at hbody
        obtain ⟨hheard, hnext⟩ := look_nil hbody hnone
        refine ⟨pulled, true, ?_, ?_, h.le, ?_, fun _ => ⟨hall, ?_⟩⟩
        · rw [hnext, hrest, List.map_nil]
        · rw [hheard, htold, if_pos rfl]
        · rw [fetchStep_index]
          exact h.needed
        · have hlast := hneed pulled (Nat.lt_succ_self _)
          rwa [hall, List.take_length, ← fetchStep_index] at hlast
    | cons line rest =>
        obtain ⟨htake, hdrop, hlt⟩ := drop_eq_cons hrest
        rw [hrest, List.map_cons] at hbody
        obtain ⟨hheard, hnext⟩ := look_cons hbody hnone
        refine ⟨pulled + 1, false, ?_, ?_, hlt, ?_, nofun⟩
        · rw [hnext, htake, heldBy_append, hdrop]
        · rw [hheard, htold, htake, List.map_append, if_neg Bool.false_ne_true, List.append_nil]
          rfl
        · rw [fetchStep_index]
          exact hneed

theorem Used.draws (h : Used (ofSource stored (.ofItems (lines.map .line))) told frame) :
    ∃ pulled exhausted, Draws lines told frame pulled exhausted := by
  induction h with
  | start => exact ⟨0, false, .start stored lines⟩
  | looked h ih =>
      obtain ⟨pulled, exhausted, hdraws⟩ := ih
      exact hdraws.look
  | advanced h ih =>
      obtain ⟨pulled, exhausted, hdraws⟩ := ih
      exact ⟨pulled, exhausted, hdraws.advance⟩

/-- A frame that is asked for its command looks for it, again and again. -/
theorem Used.fetchWithin (h : Used origin told frame) (steps : Nat) :
    ∃ told', Used origin (told ++ told') (frame.fetchWithin steps).2 := by
  induction steps generalizing told frame with
  | zero => exact ⟨[], by rwa [List.append_nil]⟩
  | succ steps ih =>
      have hlooked := h.looked
      rw [Frame.fetchWithin]
      split
      · next next hstep =>
          rw [hstep] at hlooked
          obtain ⟨told', hlater⟩ := ih hlooked
          exact ⟨frame.heard ++ told', by rwa [← List.append_assoc]⟩
      · exact ⟨frame.heard, hlooked⟩

end Draws

end Frame

/-- A frame over lines, asked for its commands in turn, gives what the lines are read as when they
are put together: their commands and then its end, at which it has counted them, or, if they are no
source, the commands of the lines before the first fault and then that fault. And however it is
used, it has at every moment pulled its lines one after the other, each of them once and only when
there was need for it, and nothing after the end. -/
theorem lazy_frame_agrees (stored : StoredMacro) (lines : List String)
    (h : ∀ line ∈ lines, '\n' ∉ line.toList) :
    (match readSource (joinLines lines) with
      | .ok commands =>
          ∀ more,
            ((Frame.ofSource stored (.ofItems (lines.map .line))).walk
                (commands.length + (more + 1))).1 =
              commands.map .command ++ List.replicate (more + 1) .finished ∧
            ((Frame.ofSource stored (.ofItems (lines.map .line))).walk
                (commands.length + (more + 1))).2.total = some commands.length
      | .error e =>
          ∃ before, readSource (joinLines (lines.take e.line)) = .ok before ∧
            ((Frame.ofSource stored (.ofItems (lines.map .line))).walk (before.length + 1)).1 =
              before.map .command ++ [.failed (.source e)]) ∧
    ∀ told frame, Frame.Used (Frame.ofSource stored (.ofItems (lines.map .line))) told frame →
      (∃ pulled exhausted, frame.Draws lines told pulled exhausted) ∧
      ∃ told', Frame.Used (Frame.ofSource stored (.ofItems (lines.map .line))) (told ++ told')
        frame.fetch.2 := by
  refine ⟨?_, fun told frame hused => ⟨hused.draws, hused.fetchWithin _⟩⟩
  have hstart : Frame.ofSource stored (.ofItems (lines.map .line)) =
      Frame.pulling stored lines [] 0 := rfl
  rw [hstart, readSource_joinLines h]
  split
  · next commands hread =>
      intro more
      rw [Frame.walk_pulling_ok [] hread more]
      exact ⟨rfl, rfl⟩
  · next e hread =>
      obtain ⟨good, before, hplace, hbefore, hwalk⟩ :=
        Frame.walk_pulling_error stored [] hread
      rw [Nat.zero_add] at hplace
      refine ⟨before, ?_, hwalk⟩
      rw [readSource_joinLines fun line hline => h line (List.mem_of_mem_take hline), hplace]
      exact hbefore

def faultyLines : List String :=
  ["# note", "/ac Observe\r", "", "\t/wait soon"]

theorem lazy_frame_agrees_faultyLines :
    (∀ line ∈ faultyLines, '\n' ∉ line.toList) ∧
    ∃ command, command.text = "/ac Observe" ∧
      ((Frame.ofSource default (.ofItems (faultyLines.map .line))).walk 2).1 =
        [.command command,
          .failed (.source ⟨.statement (.invalidArguments "wait" .number), 3, 7⟩)] := by
  have hlines : ∀ line ∈ faultyLines, '\n' ∉ line.toList := by decide
  have hread : readSource (joinLines faultyLines) =
      .error ⟨.statement (.invalidArguments "wait" .number), 3, 7⟩ := by rfl
  obtain ⟨command, hgood, htext⟩ : ∃ command,
      readSource (joinLines (faultyLines.take 3)) = .ok [command] ∧ command.text = "/ac Observe" :=
    ⟨_, by rfl, by rfl⟩
  obtain ⟨hwalk, -⟩ := lazy_frame_agrees default faultyLines hlines
  rw [hread] at hwalk
  obtain ⟨before, hbefore, hwalk⟩ := hwalk
  cases hbefore.symm.trans hgood
  exact ⟨hlines, command, htext, hwalk⟩

end CraftLang
