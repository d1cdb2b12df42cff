import CraftLang.Command.Counter

/-!
Counters come round. A bounded loop counts its restarts down to zero and is exhausted at the next
turn; a gate counts its passes down to zero and ends its macro after that. Then each of them is as
it was at the start, and goes through the same answers again. What remains never leaves the range
that the count allows, so counters in machine words answer the same.
-/

namespace CraftLang

section Countdown

variable {α : Type} (f : Nat → α) {n i : Nat} (last : α)

/-- The values of `f` below a number, down to zero, and a last one. -/
def countdown (f : Nat → α) (n : Nat) (last : α) : List α :=
  (List.range n).reverse.map f ++ [last]

theorem getElem?_countdown (h : i < n) : (countdown f n last)[i]? = some (f (n - 1 - i)) := by
  rw [countdown, List.getElem?_append_left (by simpa using h), List.getElem?_map,
    List.getElem?_reverse (by simpa using h), List.length_range, List.getElem?_range (by omega)]
  rfl

theorem getElem?_countdown_last : (countdown f n last)[n]? = some last := by
  rw [countdown, List.getElem?_append_right (by simp)]
  simp

end Countdown

namespace LoopCounter

variable {count : Nat}

def after (counter : LoopCounter) : Nat → LoopCounter
  | 0 => counter
  | turns + 1 => (counter.after turns).next.2

/-- As long as it is not exhausted, a loop has one restart less left after each turn. -/
theorem remaining_after {counter : LoopCounter} {turns : Nat}
    (h : ∀ count, counter.remaining = some count → turns ≤ count) :
    (counter.after turns).remaining = counter.remaining.map (· - turns) := by
  induction turns with
  | zero => simp [after]
  | succ turns ih =>
      have hbefore := ih fun count hcount => Nat.le_of_succ_le (h count hcount)
      show (counter.after turns).next.2.remaining = _
      cases hcount : counter.remaining with
      | none =>
          rw [hcount] at hbefore
          simp only [next, show (counter.after turns).remaining = none from hbefore]
          rfl
      | some count =>
          have hlt := h count hcount
          obtain ⟨left, hleft⟩ : ∃ left, count - turns = left + 1 :=
            ⟨count - turns - 1, by omega⟩
          rw [hcount, Option.map_some, hleft] at hbefore
          simp only [next, hbefore]
          exact congrArg some (show left = count - (turns + 1) by omega)

def round (count : Nat) : List Turn :=
  countdown (fun left => .restart (some left)) count .exhausted

/-- One turn of a round. The place after the last one is the first again. -/
theorem next_of_le {turn : Nat} (h : turn ≤ count) :
    ∃ answer, (round count)[turn]? = some answer ∧
      next ⟨some count, some (count - turn)⟩ =
        (answer, ⟨some count, some (count - (turn + 1) % (count + 1))⟩) := by
  rcases Nat.lt_or_eq_of_le h with hlt | rfl
  · refine ⟨_, getElem?_countdown _ _ hlt, ?_⟩
    have hleft : count - turn = count - 1 - turn + 1 := by omega
    have hnext : count - (turn + 1) = count - 1 - turn := by omega
    rw [hleft, Nat.mod_eq_of_lt (Nat.succ_lt_succ hlt), hnext]
    rfl
  · refine ⟨_, getElem?_countdown_last _ _, ?_⟩
    rw [Nat.sub_self, Nat.mod_self]
    rfl

theorem after_ofCount (count turns : Nat) :
    (ofCount (some count)).after turns = ⟨some count, some (count - turns % (count + 1))⟩ := by
  induction turns with
  | zero => rfl
  | succ turns ih =>
      obtain ⟨answer, -, hnext⟩ := next_of_le (Nat.le_of_lt_succ (Nat.mod_lt turns count.succ_pos))
      rw [after, ih, hnext, Nat.mod_add_mod]

theorem answer_after (count turns : Nat) :
    (round count)[turns % (count + 1)]? = some ((ofCount (some count)).after turns).next.1 := by
  obtain ⟨answer, hanswer, hnext⟩ :=
    next_of_le (Nat.le_of_lt_succ (Nat.mod_lt turns count.succ_pos))
  rw [after_ofCount, hnext, hanswer]

/-- A counter of machine words. -/
structure Words where
  start : Option UInt32
  remaining : Option UInt32

namespace Words

def ofCount (count : Option UInt32) : Words := ⟨count, count⟩

def next (words : Words) : Turn × Words :=
  match words.remaining with
  | none => (.restart none, words)
  | some left =>
    if left = 0 then (.exhausted, { words with remaining := words.start })
    else (.restart (some (left - 1).toNat), { words with remaining := some (left - 1) })

def after (words : Words) : Nat → Words
  | 0 => words
  | turns + 1 => (words.after turns).next.2

def counter (words : Words) : LoopCounter :=
  ⟨words.start.map UInt32.toNat, words.remaining.map UInt32.toNat⟩

/-- Nothing is taken from zero. -/
theorem next_counter (words : Words) :
    words.counter.next = (words.next.1, words.next.2.counter) := by
  obtain ⟨start, _ | left⟩ := words
  · rfl
  · by_cases hleft : left = 0
    · subst hleft
      rfl
    · have hpos : 0 < left.toNat := Nat.pos_of_ne_zero fun h => hleft (UInt32.toNat_inj.mp h)
      have hsub : (left - 1).toNat = left.toNat - 1 :=
        UInt32.toNat_sub_of_le _ _ (UInt32.le_iff_toNat_le.mpr hpos)
      obtain ⟨n, hn⟩ : ∃ n, left.toNat = n + 1 := ⟨left.toNat - 1, by omega⟩
      simp only [counter, next, if_neg hleft, hsub, Option.map_some, hn, LoopCounter.next]
      rfl

theorem after_counter (words : Words) (turns : Nat) :
    (words.after turns).counter = words.counter.after turns := by
  induction turns with
  | zero => rfl
  | succ turns ih => rw [after, LoopCounter.after, ← ih, next_counter]

end Words

end LoopCounter

namespace GateCounter

variable {count : Nat}

def after (counter : GateCounter) : Nat → GateCounter
  | 0 => counter
  | passes + 1 => (counter.after passes).next.2

def round (count : Nat) : List Pass :=
  countdown .opened (count + 1) .complete

/-- One pass of a round. The place after the last one is the first again. -/
theorem next_of_le {pass : Nat} (h : pass ≤ count + 1) :
    ∃ answer, (round count)[pass]? = some answer ∧
      next ⟨count, count - pass⟩ =
        (answer, ⟨count, count - ((pass + 1) % (count + 2) : Nat)⟩) := by
  rcases Nat.lt_or_eq_of_le h with hlt | rfl
  · refine ⟨_, getElem?_countdown _ _ hlt, ?_⟩
    have hopen : ¬ (count - pass : Int) < 0 := by omega
    have hleft : (count - pass : Int).toNat = count + 1 - 1 - pass := by omega
    have hnext : (count - pass : Int) - 1 = count - (pass + 1 : Nat) := by omega
    rw [next, if_neg hopen, hleft, hnext, Nat.mod_eq_of_lt (Nat.succ_lt_succ hlt)]
  · refine ⟨_, getElem?_countdown_last _ _, ?_⟩
    have hclosed : (count - (count + 1 : Nat) : Int) < 0 := by omega
    rw [next, if_pos hclosed, Nat.mod_self]
    simp

theorem after_ofCount (count passes : Nat) :
    (ofCount count).after passes = ⟨count, count - (passes % (count + 2) : Nat)⟩ := by
  induction passes with
  | zero => simp [after, ofCount]
  | succ passes ih =>
      obtain ⟨answer, -, hnext⟩ :=
        next_of_le (Nat.le_of_lt_succ (Nat.mod_lt passes (Nat.succ_pos (count + 1))))
      rw [after, ih, hnext, Nat.mod_add_mod]

theorem answer_after (count passes : Nat) :
    (round count)[passes % (count + 2)]? = some ((ofCount count).after passes).next.1 := by
  obtain ⟨answer, hanswer, hnext⟩ :=
    next_of_le (Nat.le_of_lt_succ (Nat.mod_lt passes (Nat.succ_pos (count + 1))))
  rw [after_ofCount, hnext, hanswer]

/-- A counter of machine words. What remains has a sign and is twice as wide as the count. -/
structure Words where
  start : UInt32
  remaining : Int64

namespace Words

def ofCount (count : UInt32) : Words := ⟨count, .ofNat count.toNat⟩

def next (words : Words) : Pass × Words :=
  if words.remaining < 0 then (.complete, { words with remaining := .ofNat words.start.toNat })
  else
    (.opened words.remaining.toUInt64.toUInt32.toNat,
      { words with remaining := words.remaining - 1 })

def after (words : Words) : Nat → Words
  | 0 => words
  | passes + 1 => (words.after passes).next.2

def counter (words : Words) : GateCounter :=
  ⟨words.start.toNat, words.remaining.toInt⟩

/-- What remains is no more than the count, and no less than minus one. -/
structure InRange (words : Words) : Prop where
  lower : -1 ≤ words.remaining.toInt
  upper : words.remaining.toInt ≤ words.start.toNat

variable {words : Words}

theorem toInt_ofNat (count : UInt32) : (Int64.ofNat count.toNat).toInt = count.toNat := by
  have hlt := count.toNat_lt
  exact Int64.toInt_ofNat_of_lt (by omega)

theorem inRange_ofCount (count : UInt32) : (ofCount count).InRange := by
  constructor <;> simp only [ofCount, toInt_ofNat] <;> omega

/-- Nothing is lost when what remains is cut down, and one less is never out of reach. -/
theorem InRange.next_counter (h : words.InRange) :
    words.counter.next = (words.next.1, words.next.2.counter) ∧ words.next.2.InRange := by
  obtain ⟨start, remaining⟩ := words
  have hlower : -1 ≤ remaining.toInt := h.lower
  have hupper : remaining.toInt ≤ start.toNat := h.upper
  have hbound := start.toNat_lt
  by_cases hclosed : remaining < 0
  · have hnext : next ⟨start, remaining⟩ = (.complete, ⟨start, .ofNat start.toNat⟩) :=
      if_pos hclosed
    rw [hnext, counter, counter]
    refine ⟨?_, ?_, ?_⟩
    · rw [toInt_ofNat]
      exact if_pos (Int64.lt_iff_toInt_lt.mp hclosed)
    · show -1 ≤ (Int64.ofNat start.toNat).toInt
      rw [toInt_ofNat]
      omega
    · exact Int.le_of_eq (toInt_ofNat start)
  · have hopen : ¬ remaining.toInt < 0 := fun hneg => hclosed (Int64.lt_iff_toInt_lt.mpr hneg)
    have hcut : remaining.toUInt64.toUInt32.toNat = remaining.toInt.toNat := by
      have hle : 0 ≤ remaining := Int64.le_iff_toInt_le.mpr (Int.not_lt.mp hopen)
      rw [UInt64.toNat_toUInt32, Int64.toNat_toUInt64_of_le hle, ← Int64.toNat_toInt]
      exact Nat.mod_eq_of_lt (by omega)
    have hsub : (remaining - 1).toInt = remaining.toInt - 1 := by
      rw [Int64.toInt_sub]
      exact Int.bmod_eq_of_le (by simp; omega) (by simp; omega)
    have hnext : next ⟨start, remaining⟩ =
        (.opened remaining.toUInt64.toUInt32.toNat, ⟨start, remaining - 1⟩) := if_neg hclosed
    rw [hnext, counter, counter, hcut]
    refine ⟨?_, ?_, ?_⟩
    · rw [hsub]
      exact if_neg hopen
    · show -1 ≤ (remaining - 1).toInt
      omega
    · show (remaining - 1).toInt ≤ start.toNat
      omega

theorem after_counter (count : UInt32) (passes : Nat) :
    ((ofCount count).after passes).counter = (GateCounter.ofCount count.toNat).after passes ∧
      ((ofCount count).after passes).InRange := by
  induction passes with
  | zero => exact ⟨congrArg _ (toInt_ofNat count), inRange_ofCount count⟩
  | succ passes ih =>
      obtain ⟨hcounter, hrange⟩ := ih
      obtain ⟨hnext, hrange'⟩ := hrange.next_counter
      refine ⟨?_, hrange'⟩
      rw [after, GateCounter.after, ← hcounter, hnext]

end Words

end GateCounter

/-- The answers of a bounded loop and of a gate to any number of calls are their rounds, over and
over. What a loop has left lies between zero and its count, and what a gate has left between minus
one and its count. Counters in machine words come through the same states with the same answers, so
that no cast cuts anything off and no subtraction wraps around. -/
theorem counters_come_round (count : UInt32) (calls : Nat) :
    let loop := (LoopCounter.ofCount (some count.toNat)).after calls
    let gate := (GateCounter.ofCount count.toNat).after calls
    let loopWords := (LoopCounter.Words.ofCount (some count)).after calls
    let gateWords := (GateCounter.Words.ofCount count).after calls
    ((LoopCounter.round count.toNat)[calls % (count.toNat + 1)]? = some loop.next.1 ∧
      (∃ left ≤ count.toNat, loop.remaining = some left) ∧
      loopWords.counter = loop ∧ loopWords.next.1 = loop.next.1) ∧
    (GateCounter.round count.toNat)[calls % (count.toNat + 2)]? = some gate.next.1 ∧
      (-1 ≤ gate.remaining ∧ gate.remaining ≤ count.toNat) ∧
      gateWords.counter = gate ∧ gateWords.next.1 = gate.next.1 := by
  intro loop gate loopWords gateWords
  have hloop : loopWords.counter = loop := LoopCounter.Words.after_counter _ calls
  obtain ⟨hgate, hrange⟩ : gateWords.counter = gate ∧ gateWords.InRange :=
    GateCounter.Words.after_counter count calls
  have hstart : gate.start = count.toNat := by
    show ((GateCounter.ofCount count.toNat).after calls).start = _
    rw [GateCounter.after_ofCount]
  refine ⟨⟨LoopCounter.answer_after _ _, ⟨count.toNat - calls % (count.toNat + 1),
    Nat.sub_le _ _, ?_⟩, hloop, ?_⟩, GateCounter.answer_after _ _, ⟨?_, ?_⟩, hgate, ?_⟩
  · show ((LoopCounter.ofCount (some count.toNat)).after calls).remaining = _
    rw [LoopCounter.after_ofCount]
  · rw [← hloop, LoopCounter.Words.next_counter]
  · exact hgate ▸ hrange.lower
  · rw [← hstart, ← hgate]
    exact hrange.upper
  · rw [← hgate, hrange.next_counter.1]

example : LoopCounter.round 2 = [.restart (some 1), .restart (some 0), .exhausted] ∧
    GateCounter.round 2 = [.opened 2, .opened 1, .opened 0, .complete] := by
  decide

end CraftLang
