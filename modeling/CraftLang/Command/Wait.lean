import CraftLang.Number.Decimal

/-!
Waits. A wait policy is the delay after a command: a fixed one, or a range from which each delay is
drawn anew. Durations are whole milliseconds.
-/

namespace CraftLang

/-- The largest duration in milliseconds; longer ones are cut down to it. -/
def longestMs : Nat := UInt64.size - 1

/-- The longest sleep in milliseconds: thirty years of 365 days. -/
def longestSleepMs : Nat := 30 * 365 * 24 * 60 * 60 * 1000

/-- How long a sleep lasts. One of more than the longest sleep ends early. -/
def sleepMs (ms : Nat) : Nat := min ms longestSleepMs

/-- Seconds as the nearest whole number of milliseconds. -/
def millisOfSeconds (seconds : Binary64) : Nat :=
  (seconds.scaleBy 1000).toNatUpTo longestMs

/-- A delay. It is `waitMs` long, or at least `waitMs` and less than `untilMs` if the latter is
greater; zero as `untilMs` stands for no range. -/
structure WaitPolicy where
  waitMs : Nat := 0
  untilMs : Nat := 0
  deriving DecidableEq, Repr, Inhabited

namespace WaitPolicy

/-- A range that starts after its end. -/
structure RangeError where
  waitMs : Nat
  untilMs : Nat
  deriving DecidableEq, Repr

def RangeError.message (e : RangeError) : String :=
  "wait range start " ++ Decimal.natText e.waitMs ++ "ms exceeds end " ++
    Decimal.natText e.untilMs ++ "ms"

/-- The policy with these bounds. -/
def ofMillis (waitMs untilMs : Nat) : Except RangeError WaitPolicy :=
  if untilMs ≠ 0 ∧ untilMs < waitMs then .error ⟨waitMs, untilMs⟩ else .ok ⟨waitMs, untilMs⟩

def ofSeconds (wait : Binary64) (limit : Option Binary64) : Except RangeError WaitPolicy :=
  ofMillis (millisOfSeconds wait) ((limit.map millisOfSeconds).getD 0)

def fixed (waitMs : Nat) : WaitPolicy := ⟨waitMs, 0⟩

def isZero (p : WaitPolicy) : Bool :=
  p.waitMs == 0 && p.untilMs == 0

/-- Whether the delay is drawn from a range. -/
def isRange (p : WaitPolicy) : Bool :=
  p.waitMs < p.untilMs

/-- How many delays there are to draw from. -/
def width (p : WaitPolicy) : Nat := p.untilMs - p.waitMs

/-- The delay for a drawn number; a fixed policy does not look at it. -/
def delay (p : WaitPolicy) (drawn : Nat) : Nat :=
  if p.isRange then p.waitMs + drawn % p.width else p.waitMs

theorem delay_lt_of_isRange {p : WaitPolicy} (h : p.isRange) (drawn : Nat) :
    p.waitMs ≤ p.delay drawn ∧ p.delay drawn < p.untilMs := by
  have hlt : p.waitMs < p.untilMs := by simpa [isRange] using h
  have hmod : drawn % p.width < p.width := Nat.mod_lt _ (by unfold width; omega)
  simp only [delay, h, if_true]
  unfold width at *
  omega

end WaitPolicy

end CraftLang
