import CraftLang.Proofs.Engine.Finishing
import CraftLang.Proofs.Frame.Repetition
import CraftLang.Proofs.Source.Lines

/-!
Loops in a running engine. A frame with bounded loops comes to its end, and each loop multiplies the
runs of all that stands before it. A macro that is run with a number of loops has one more such loop
after its last line.
-/

namespace CraftLang

open Text

/-! ### A macro with a loop override -/

/-- The loop that is added to a macro which is run with a number of loops. -/
def boundedLoop (count : Nat) : Command :=
  { text := String.ofList ("/loop ".toList ++ Decimal.ofNat count)
    modifiers := {}
    kind := .loop (.ofCount (some count)) }

theorem readSource_withLoop {contents : String} {commands : List Command} {count : Nat}
    (hread : readSource contents = .ok commands) (hsmall : count < Grammar.countLimit) :
    readSource (contents ++ "\n/loop " ++ Decimal.intText count) =
      .ok (commands ++ [boundedLoop count]) := by
  have hloop : Source.commandsOf? ("/loop ".toList ++ Decimal.ofNat count) =
      some [boundedLoop count] :=
    (Source.bare_boundedLoop count).commandsOf? (Source.read_loop hsmall) rfl
  have htext : (contents ++ "\n/loop " ++ Decimal.intText count).toList =
      contents.toList ++ '\n' :: ("/loop ".toList ++ Decimal.ofNat count) := by
    have hbreak : "\n/loop ".toList = '\n' :: "/loop ".toList := by rfl
    have hdigits : (Decimal.intText count).toList = Decimal.ofNat count := String.toList_ofList
    rw [String.toList_append, String.toList_append, hbreak, hdigits, List.append_assoc,
      List.cons_append]
  rw [readSource_eq_ok_iff] at hread ⊢
  rw [htext, Source.commandsOf?_append_cons, hread, hloop]
  rfl

/-- A macro that needs no script runtime is put into the queue at once. -/
theorem Engine.enqueue_eq {σ : Type} {e : Engine σ} {stored : StoredMacro} {loops : Option Int}
    {frame : Frame} (h : Frame.ofStored e.settings.craftLoop stored loops = pure (.ok frame)) :
    e.enqueue stored loops = (.ok (), e.send (.push frame)) := by
  rw [enqueue, h]
  rfl

theorem Frame.ofStored_native {config : CraftLoopConfig} {stored : StoredMacro}
    {loops : Option Int} (h : stored.language = .native) :
    ofStored config stored loops = pure (ofNative config stored loops) := by
  simp only [ofStored, h]

theorem Frame.ofNative_withLoop {config : CraftLoopConfig} {stored : StoredMacro}
    {commands : List Command} {n : Int} (hcraft : stored.craftLoop = false)
    (hread : readSource stored.contents = .ok commands) (hpos : 0 < n) (hsmall : n ≤ 2147483647) :
    Frame.ofNative config stored (some n) =
      .ok (ofCommands stored (commands ++ [boundedLoop n.toNat])) := by
  obtain ⟨count, rfl⟩ := Int.eq_ofNat_of_zero_le (Int.le_of_lt hpos)
  have hlimit : Grammar.countLimit = 4294967296 := rfl
  have hsource : readSource (stored.contents ++ "\n/loop " ++ Decimal.intText count) =
      .ok (commands ++ [boundedLoop count]) := readSource_withLoop hread (by omega)
  have hnonzero : ¬(count : Int) = 0 := by omega
  have hnonneg : ¬(count : Int) < 0 := by omega
  simp only [ofNative, sourceOf, hcraft, Bool.false_eq_true, if_false, hnonzero, hnonneg, hsource]
  rfl

/-- Bounded loops end and multiply. A frame of segments without loops and gates and with a bounded
loop after each but the last one goes at last, whatever the host replies and whatever its nested
macros do. By then each loop has repeated all that stands before it, and has its counter back at the
start: so each segment was run as often as its own loop and all later ones say. A loop override
repeats the whole of it once more. -/
theorem Frame.loops_multiply (segments : List LoopedSegment) (tail : List Command)
    (htail : ∀ command ∈ tail, command.isPlain = true) :
    (∀ stored iterations, ∃ commands last,
      RunsThrough ⟨stored, .parsed (LoopedSegment.body segments ++ tail), 0, iterations⟩
          commands last ∧
        commands.filter Command.isPlain = LoopedSegment.trace segments ++ tail ∧
        last.commands = LoopedSegment.body segments ++ tail) ∧
    (LoopedSegment.trace segments = (LoopedSegment.order segments).flatMap fun i =>
      (segments[i]?.map LoopedSegment.segment).getD []) ∧
    (∀ i < segments.length,
      (LoopedSegment.order segments).count i = LoopedSegment.runs segments i) ∧
    ∀ {σ : Type} (e : Engine σ) (stored : StoredMacro) (n : Int), stored.language = .native →
      stored.craftLoop = false →
      readSource stored.contents = .ok (LoopedSegment.body segments ++ tail) → 0 < n →
      n ≤ 2147483647 →
      ∃ frame commands last, e.enqueue stored (some n) = (.ok (), e.send (.push frame)) ∧
        frame.RunsThrough commands last ∧
        commands.filter Command.isPlain =
          (List.replicate (n.toNat + 1) (LoopedSegment.trace segments ++ tail)).flatten ∧
        last.commands = frame.commands := by
  have hcovers := (LoopedSegment.covers segments).append htail
  have hruns (stored : StoredMacro) (iterations : UInt32) {front trace : List Command}
      (hcovers : Covers front trace) :
      ∃ commands last, RunsThrough ⟨stored, .parsed front, 0, iterations⟩ commands last ∧
        commands.filter Command.isPlain = trace ∧ last.commands = front := by
    obtain ⟨commands, last, hcompletes, htrace, hlast⟩ := hcovers.completes stored iterations
    exact ⟨commands, last, hcompletes.runsThrough rfl, htrace, hlast⟩
  refine ⟨fun stored iterations => hruns stored iterations hcovers, LoopedSegment.trace_eq segments,
    fun i hi => LoopedSegment.count_order hi, ?_⟩
  intro σ e stored n hnative hcraft hread hpos hsmall
  have hframe : ofStored e.settings.craftLoop stored (some n) = _ :=
    (ofStored_native hnative).trans (congrArg _ (ofNative_withLoop hcraft hread hpos hsmall))
  have hloop : (boundedLoop n.toNat).kind = .loop (.ofCount (some n.toNat)) := rfl
  obtain ⟨commands, last, hthrough, htrace, hlast⟩ := hruns stored 0 (hcovers.loop hloop)
  exact ⟨_, commands, last, Engine.enqueue_eq hframe, hthrough, htrace, hlast⟩

def loopedMacro : StoredMacro := { name := "Looped", contents := "/a\n/loop 1\n/b" }

def loopedLine : LoopedSegment where
  segment := [{ text := "/a", modifiers := {}, kind := .native "/a" }]
  loop := boundedLoop 1
  count := 1
  plain := by decide
  loops := rfl

def lastLine : List Command := [{ text := "/b", modifiers := {}, kind := .native "/b" }]

def queuedLooped : Engine DryRun :=
  (Engine.spawn DryRun.host {} {}).ran
    (.call (.enqueue loopedMacro (some 1)) :: Engine.onItsOwn 2)

set_option maxRecDepth 4000 in
/-- The macro is gone after both loops, of which the first was gone through twice. -/
theorem Frame.loops_multiply_looped :
    (((queuedLooped.ran [.work .proceed]).during 0 Engine.startedOn
          (Engine.onItsOwn 106)).filter Command.isPlain).map Command.text =
        ["/a", "/a", "/b", "/a", "/a", "/b"] ∧
      ∃ last,
        (queuedLooped.ran [.work .proceed]).during 0 Engine.endedOn (Engine.onItsOwn 106) = [last] ∧
        last.commands.map Command.kind =
          [.native "/a", .loop (.ofCount (some 1)), .native "/b", .loop (.ofCount (some 1))] := by
  have hread : readSource loopedMacro.contents =
      .ok (LoopedSegment.body [loopedLine] ++ lastLine) := by rfl
  obtain ⟨-, -, -, henqueue⟩ := loops_multiply [loopedLine] lastLine (by decide)
  obtain ⟨frame, commands, last, hqueued, hthrough, htrace, hlast⟩ :=
    henqueue (Engine.spawn DryRun.host {} {}) loopedMacro 1 rfl rfl hread (by decide) (by decide)
  have hqueue : queuedLooped.queue = [.push frame] :=
    congrArg (fun result => result.2.queue) hqueued
  have hframe : queuedLooped.queue = [.push (ofCommands loopedMacro
      (LoopedSegment.body [loopedLine] ++ lastLine ++ [boundedLoop 1]))] := by rfl
  have hspawn : (Engine.spawn DryRun.host {} {}).run? _ = some queuedLooped :=
    Engine.run?_eq_some_ran (by rfl)
  have happlying : queuedLooped.applying? .proceed = queuedLooped.queue.head? := by rfl
  rw [hqueue] at happlying
  have hfinishes : (queuedLooped.ran [.work .proceed]).Finishes 0 commands last :=
    hthrough.of_applying ((Engine.Reachable.spawn _ _ _ _).run hspawn) happlying hqueue (by rfl)
      (by rfl) (by rfl) (by rfl)
  have hall : (queuedLooped.ran [.work .proceed]).during 0 Engine.startedOn (Engine.onItsOwn 106) =
        commands ∧
      (queuedLooped.ran [.work .proceed]).during 0 Engine.endedOn (Engine.onItsOwn 106) = [last] :=
    hfinishes.of_gone (by rfl) (by rfl) (by rfl)
  obtain ⟨hstarted, hended⟩ := hall
  refine ⟨?_, last, hended, ?_⟩
  · rw [hstarted, htrace]
    rfl
  · rw [hlast]
    obtain rfl := Request.push.inj (List.cons.inj (hqueue.symm.trans hframe)).1
    rfl

end CraftLang
