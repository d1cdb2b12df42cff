import Mathlib.Data.List.Induction
import CraftLang.Proofs.Frame.Completion

/-!
Loops and gates by their counters. A loop sends its frame back to the very first command, so that a
later loop goes through all earlier ones again. It finds their counters as they were at the start,
because a counter starts over when it is exhausted: hence the runs of nested loops multiply.
-/

namespace CraftLang

namespace Frame

/-- By its counters alone the frame comes to another point of its commands, and carries out the
commands on the way. -/
inductive Reaches : Frame → List Command → Frame → Prop
  | refl (frame : Frame) : Reaches frame [] frame
  | turn {frame next frame' : Frame} {command : Command} {commands : List Command}
      (hcommand : frame.commands[frame.index]? = some command)
      (honward : frame.onward? command = some next) (hrest : Reaches next commands frame') :
      Reaches frame (command :: commands) frame'

theorem Reaches.trans {frame frame₁ frame₂ : Frame} {commands commands' : List Command}
    (h : Reaches frame commands frame₁) (h' : Reaches frame₁ commands' frame₂) :
    Reaches frame (commands ++ commands') frame₂ := by
  induction h with
  | refl => exact h'
  | turn hcommand honward _ ih => exact .turn hcommand honward (ih h')

theorem Reaches.completes {frame frame₁ last : Frame} {commands commands' : List Command}
    (h : Reaches frame commands frame₁) (h' : Completes frame₁ commands' last) :
    Completes frame (commands ++ commands') last := by
  induction h with
  | refl => exact h'
  | turn hcommand honward _ ih => exact .turn hcommand honward (ih h')

def between (stored : StoredMacro) (front rest : List Command) (iterations : UInt32) : Frame :=
  ⟨stored, .parsed (front ++ rest), front.length, iterations⟩

variable {stored : StoredMacro} {front rest : List Command} {iterations : UInt32}
  {command : Command} {kind : CommandKind}

@[simp] theorem between_getElem? :
    (between stored front (command :: rest) iterations).commands[
      (between stored front (command :: rest) iterations).index]? = some command := by
  simp [between, commands]

theorem between_nil_getElem? :
    (between stored front [] iterations).commands[
      (between stored front [] iterations).index]? = none := by
  simp [between, commands]

theorem advance_between :
    (between stored front (command :: rest) iterations).advance =
      between stored (front ++ [command]) rest iterations := by
  simp [between, advance]

theorem setKind_between :
    (between stored front (command :: rest) iterations).setKind kind =
      between stored front ({ command with kind } :: rest) iterations := by
  have hmodify : (front ++ command :: rest).modify front.length ({ · with kind }) =
      front ++ { command with kind } :: rest := by
    induction front with
    | nil => rfl
    | cons first front ih => simpa using ih
  simp only [between, setKind, hmodify]

/-! ### A segment without loops and gates -/

theorem reaches_plain {segment : List Command} (h : ∀ command ∈ segment, command.isPlain = true)
    (stored : StoredMacro) (front rest : List Command) (iterations : UInt32) :
    (between stored front (segment ++ rest) iterations).Reaches segment
      (between stored (front ++ segment) rest iterations) := by
  induction segment generalizing front with
  | nil =>
      rw [List.append_nil]
      exact .refl _
  | cons command segment ih =>
      have hrest := ih (fun command hmem => h command (List.mem_cons_of_mem _ hmem))
        (front ++ [command])
      rw [List.append_assoc, List.singleton_append] at hrest
      refine .turn between_getElem? ?_ hrest
      rw [onward?_of_isPlain (h command List.mem_cons_self)]
      exact congrArg some advance_between

/-- From the first command on, a frame gets over a front of its commands, whatever comes after them.
It carries out the plain commands of the trace on the way, and leaves the front as it was. -/
def Covers (front trace : List Command) : Prop :=
  ∀ stored rest iterations, ∃ commands iterations',
    (between stored [] (front ++ rest) iterations).Reaches commands
      (between stored front rest iterations') ∧
    commands.filter Command.isPlain = trace

theorem covers_nil : Covers [] [] :=
  fun _ _ iterations => ⟨[], iterations, .refl _, rfl⟩

variable {trace : List Command}

theorem Covers.append {segment : List Command} (h : Covers front trace)
    (hplain : ∀ command ∈ segment, command.isPlain = true) :
    Covers (front ++ segment) (trace ++ segment) := by
  intro stored rest iterations
  obtain ⟨commands, iterations', hreaches, htrace⟩ := h stored (segment ++ rest) iterations
  rw [List.append_assoc]
  refine ⟨commands ++ segment, iterations',
    hreaches.trans (reaches_plain hplain stored front rest iterations'), ?_⟩
  rw [List.filter_append, htrace, List.filter_eq_self.mpr hplain]

/-! ### Loops -/

theorem onward?_restart {counter next : LoopCounter} {left : Option Nat}
    (hloop : command.kind = .loop counter) (hturn : counter.next = (.restart left, next))
    (stored : StoredMacro) (front rest : List Command) (iterations : UInt32) :
    (between stored front (command :: rest) iterations).onward? command =
      some (between stored [] (front ++ { command with kind := .loop next } :: rest)
        (iterations + 1)) := by
  simp only [onward?, hloop, hturn, LoopCounter.Turn.restarts, if_true, setKind_between]
  rfl

theorem onward?_exhausted {counter next : LoopCounter} (hloop : command.kind = .loop counter)
    (hturn : counter.next = (.exhausted, next)) :
    (between stored front (command :: rest) iterations).onward? command =
      some (between stored (front ++ [{ command with kind := .loop next }]) rest iterations) := by
  simp [onward?, hloop, hturn, LoopCounter.Turn.restarts, setKind_between, advance_between]

/-- A loop with so many restarts left goes through the front once more than that, and is as at its
start again when it is over. -/
theorem Covers.reaches_loop (h : Covers front trace) {start left : Nat} (loop : Command)
    (hloop : loop.kind = .loop ⟨some start, some left⟩) (stored : StoredMacro)
    (rest : List Command) (iterations : UInt32) :
    ∃ commands iterations',
      (between stored [] (front ++ loop :: rest) iterations).Reaches commands
        (between stored (front ++ [{ loop with kind := .loop (.ofCount (some start)) }]) rest
          iterations') ∧
      commands.filter Command.isPlain = (List.replicate (left + 1) trace).flatten := by
  induction left generalizing loop iterations with
  | zero =>
      obtain ⟨commands, iterations', hreaches, htrace⟩ := h stored (loop :: rest) iterations
      refine ⟨commands ++ [loop], iterations',
        hreaches.trans (.turn between_getElem? (onward?_exhausted hloop rfl) (.refl _)), ?_⟩
      simp [htrace, Command.isPlain, hloop]
  | succ left ih =>
      obtain ⟨commands, iterations₁, hreaches, htrace⟩ := h stored (loop :: rest) iterations
      obtain ⟨commands', iterations', hreaches', htrace'⟩ :=
        ih { loop with kind := .loop ⟨some start, some left⟩ } rfl (iterations₁ + 1)
      have honward := onward?_restart hloop rfl stored front rest iterations₁
      refine ⟨commands ++ loop :: commands', iterations',
        hreaches.trans (.turn between_getElem? honward hreaches'), ?_⟩
      rw [List.filter_append, htrace, List.filter_cons, htrace',
        List.replicate_succ (n := left + 1)]
      simp [Command.isPlain, hloop]

theorem Covers.loop (h : Covers front trace) {loop : Command} {count : Nat}
    (hloop : loop.kind = .loop (.ofCount (some count))) :
    Covers (front ++ [loop]) (List.replicate (count + 1) trace).flatten := by
  intro stored rest iterations
  have hsame : { loop with kind := .loop (.ofCount (some count)) } = loop := by rw [← hloop]
  obtain ⟨commands, iterations', hreaches, htrace⟩ :=
    h.reaches_loop loop hloop stored rest iterations
  rw [hsame] at hreaches
  rw [List.append_assoc, List.singleton_append]
  exact ⟨commands, iterations', hreaches, htrace⟩

/-- A frame that gets over all its commands comes to its end. -/
theorem Covers.completes (h : Covers front trace) (stored : StoredMacro)
    (iterations : UInt32) :
    ∃ commands last, (between stored [] front iterations).Completes commands last ∧
      commands.filter Command.isPlain = trace ∧ last.commands = front := by
  obtain ⟨commands, iterations', hreaches, htrace⟩ := h stored [] iterations
  rw [List.append_nil] at hreaches
  have hcompletes := hreaches.completes (.finished between_nil_getElem?)
  rw [List.append_nil] at hcompletes
  exact ⟨commands, _, hcompletes, htrace, List.append_nil front⟩

/-! ### Gates -/

theorem onward?_opened {counter next : GateCounter} {left : Nat}
    (hgate : command.kind = .gate counter) (hpass : counter.next = (.opened left, next)) :
    (between stored front (command :: rest) iterations).onward? command =
      some (between stored (front ++ [{ command with kind := .gate next }]) rest iterations) := by
  simp [onward?, hgate, hpass, setKind_between, advance_between]

section

variable {back : List Command} {gate loop : Command}

/-- Past an open gate the macro goes round once, to its first command again. -/
theorem reaches_round {counter next : GateCounter} {left : Nat}
    (hfront : ∀ command ∈ front, command.isPlain = true)
    (hback : ∀ command ∈ back, command.isPlain = true) (hgate : gate.kind = .gate counter)
    (hpass : counter.next = (.opened left, next)) (hloop : loop.kind = .loop (.ofCount none))
    (stored : StoredMacro) (iterations : UInt32) :
    (between stored [] (front ++ gate :: (back ++ [loop])) iterations).Reaches
      (front ++ gate :: (back ++ [loop]))
      (between stored [] (front ++ { gate with kind := .gate next } :: (back ++ [loop]))
        (iterations + 1)) := by
  have hsame : { loop with kind := .loop (.ofCount none) } = loop := by rw [← hloop]
  have hback := reaches_plain hback stored (front ++ [{ gate with kind := .gate next }]) [loop]
    iterations
  have hrestart := onward?_restart hloop rfl stored
    (front ++ [{ gate with kind := .gate next }] ++ back) [] iterations
  have hwhole : front ++ [{ gate with kind := .gate next }] ++ back ++ [loop] =
      front ++ { gate with kind := .gate next } :: (back ++ [loop]) := by simp
  rw [hsame, hwhole] at hrestart
  have hopened : (between stored front (gate :: (back ++ [loop])) iterations).Reaches _ _ :=
    .turn between_getElem? (onward?_opened hgate hpass)
      (hback.trans (.turn between_getElem? hrestart (.refl _)))
  exact (reaches_plain hfront stored [] _ iterations).trans hopened

/-- A gate with so many passes left lets its macro go round as often, and then ends it. What stands
before the gate is carried out once more than what stands after it. -/
theorem completes_gate {start passes : Nat} (gate : Command)
    (hfront : ∀ command ∈ front, command.isPlain = true)
    (hback : ∀ command ∈ back, command.isPlain = true)
    (hgate : gate.kind = .gate ⟨start, passes - 1⟩) (hloop : loop.kind = .loop (.ofCount none))
    (stored : StoredMacro) (iterations : UInt32) :
    ∃ commands last,
      (between stored [] (front ++ gate :: (back ++ [loop])) iterations).Completes commands last ∧
      commands.filter Command.isPlain = (List.replicate passes (front ++ back)).flatten ++
        front := by
  induction passes generalizing gate iterations with
  | zero =>
      have hdone : (between stored front (gate :: (back ++ [loop])) iterations).onward? gate =
          none := by
        simp [onward?, hgate, GateCounter.next]
      have hreaches := reaches_plain hfront stored [] (gate :: (back ++ [loop])) iterations
      refine ⟨_, _, hreaches.completes (.ended between_getElem? hdone), ?_⟩
      simp [List.filter_eq_self.mpr hfront, Command.isPlain, hgate]
  | succ passes ih =>
      have hpass : GateCounter.next ⟨start, (passes + 1 : Nat) - 1⟩ =
          (.opened passes, ⟨start, passes - 1⟩) := by
        simp [GateCounter.next]
      obtain ⟨commands, last, hcompletes, htrace⟩ :=
        ih { gate with kind := .gate ⟨start, passes - 1⟩ } rfl (iterations + 1)
      have hround := reaches_round hfront hback hgate hpass hloop stored iterations
      refine ⟨_, last, hround.completes hcompletes, ?_⟩
      have hsplit : (front ++ gate :: (back ++ [loop])).filter Command.isPlain = front ++ back := by
        simp [List.filter_eq_self.mpr hfront, List.filter_eq_self.mpr hback, Command.isPlain, hgate,
          hloop]
      rw [List.filter_append, htrace, hsplit]
      simp [List.replicate_succ]

end

end Frame

/-! ### Several loops -/

/-- A segment without loops and gates, and the bounded loop after it. -/
structure LoopedSegment where
  segment : List Command
  loop : Command
  count : Nat
  plain : ∀ command ∈ segment, command.isPlain = true
  loops : loop.kind = .loop (.ofCount (some count))

namespace LoopedSegment

def body (segments : List LoopedSegment) : List Command :=
  segments.flatMap fun looped => looped.segment ++ [looped.loop]

/-- What the segments come to: each loop repeats all that was before it. -/
def trace (segments : List LoopedSegment) : List Command :=
  segments.foldl
    (fun before looped => (List.replicate (looped.count + 1) (before ++ looped.segment)).flatten) []

def order (segments : List LoopedSegment) : List Nat :=
  segments.zipIdx.foldl
    (fun before (looped, i) => (List.replicate (looped.count + 1) (before ++ [i])).flatten) []

/-- How often a segment is run: its own loop and each later one multiply it. -/
def runs (segments : List LoopedSegment) (i : Nat) : Nat :=
  (segments.drop i).foldl (fun times looped => times * (looped.count + 1)) 1

theorem trace_concat (segments : List LoopedSegment) (looped : LoopedSegment) :
    trace (segments ++ [looped]) =
      (List.replicate (looped.count + 1) (trace segments ++ looped.segment)).flatten := by
  simp [trace]

theorem order_concat (segments : List LoopedSegment) (looped : LoopedSegment) :
    order (segments ++ [looped]) =
      (List.replicate (looped.count + 1) (order segments ++ [segments.length])).flatten := by
  simp [order, List.zipIdx_append]

theorem covers (segments : List LoopedSegment) : Frame.Covers (body segments) (trace segments) := by
  induction segments using List.reverseRecOn with
  | nil => exact Frame.covers_nil
  | append_singleton segments looped ih =>
      have hbody : body (segments ++ [looped]) = body segments ++ looped.segment ++
        [looped.loop] := by
        simp [body]
      rw [hbody, trace_concat]
      exact (ih.append looped.plain).loop looped.loops

theorem lt_of_mem_order {segments : List LoopedSegment} {i : Nat} (h : i ∈ order segments) :
    i < segments.length := by
  induction segments using List.reverseRecOn with
  | nil => cases h
  | append_singleton segments looped ih =>
      rw [order_concat, List.mem_flatten] at h
      obtain ⟨round, hround, hi⟩ := h
      rw [List.eq_of_mem_replicate hround, List.mem_append, List.mem_singleton] at hi
      rw [List.length_append, List.length_singleton]
      rcases hi with hi | rfl
      · exact Nat.lt_succ_of_lt (ih hi)
      · exact Nat.lt_succ_self _

/-- The trace is made of whole segments. -/
theorem trace_eq (segments : List LoopedSegment) :
    trace segments = (order segments).flatMap fun i => (segments[i]?.map segment).getD [] := by
  induction segments using List.reverseRecOn with
  | nil => rfl
  | append_singleton segments looped ih =>
      have hearlier : trace segments =
          (order segments).flatMap fun i => ((segments ++ [looped])[i]?.map segment).getD [] := by
        rw [ih, List.flatMap_def, List.flatMap_def]
        refine congrArg List.flatten (List.map_congr_left fun i hi => ?_)
        rw [List.getElem?_append_left (lt_of_mem_order hi)]
      have hlast : looped.segment =
          ((segments ++ [looped])[segments.length]?.map segment).getD [] := by simp
      have hround : trace segments ++ looped.segment =
          (order segments ++ [segments.length]).flatMap fun i =>
            ((segments ++ [looped])[i]?.map segment).getD [] := by
        rw [List.flatMap_append, ← hearlier, List.flatMap_singleton, ← hlast]
      rw [trace_concat, order_concat, hround, List.flatMap_def, List.flatMap_def, List.map_flatten,
        List.flatten_flatten, List.map_map, List.map_replicate]
      rfl

theorem count_order {segments : List LoopedSegment} {i : Nat} (h : i < segments.length) :
    (order segments).count i = runs segments i := by
  induction segments using List.reverseRecOn with
  | nil => cases h
  | append_singleton segments looped ih =>
      rw [List.length_append, List.length_singleton] at h
      have hround : (order segments ++ [segments.length]).count i = runs segments i := by
        rw [List.count_append]
        by_cases hi : i < segments.length
        · simp [ih hi, Nat.ne_of_gt hi]
        · obtain rfl : i = segments.length := by omega
          have hnew : segments.length ∉ order segments := fun hmem =>
            Nat.lt_irrefl _ (lt_of_mem_order hmem)
          simp [List.count_eq_zero.mpr hnew, runs]
      have hproduct : runs (segments ++ [looped]) i = (looped.count + 1) * runs segments i := by
        have hlater : (segments ++ [looped]).drop i = segments.drop i ++ [looped] :=
          List.drop_append_of_le_length (Nat.le_of_lt_succ h)
        simp [runs, hlater, Nat.mul_comm]
      rw [order_concat, List.count_flatten, List.map_replicate, List.sum_replicate_nat, hround,
        hproduct]

end LoopedSegment

end CraftLang
