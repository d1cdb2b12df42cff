import CraftLang.Number.Binary64

/-!
Numbers written in ASCII decimal digits: natural numbers, integers with a sign, and decimal
numbers with a point and an exponent.
-/

namespace CraftLang.Decimal

/-- The natural number that the digits spell. -/
def natOfDigits (digits : List Char) : Nat :=
  digits.foldl (fun n c => 10 * n + (c.toNat - '0'.toNat)) 0

def ofNat (n : Nat) : List Char :=
  Nat.toDigits 10 n

/-- The digits of an integer, after a minus sign if it is negative. -/
def ofInt : Int → List Char
  | .ofNat n => ofNat n
  | .negSucc n => '-' :: ofNat (n + 1)

theorem ofNat_ne_nil (n : Nat) : ofNat n ≠ [] :=
  Nat.toDigits_ne_nil

theorem isDigit_of_mem_ofNat {n : Nat} {c : Char} (h : c ∈ ofNat n) : c.isDigit = true :=
  Nat.isDigit_of_mem_toDigits (by decide) (by decide) h

/-- The digits of a number spell it. -/
theorem natOfDigits_ofNat (n : Nat) : natOfDigits (ofNat n) = n := by
  have hdigits := Nat.ofDigitChars_ten_toDigits (n := n)
  rwa [Nat.ofDigitChars_eq_foldl] at hdigits

def natText (n : Nat) : String :=
  String.ofList (ofNat n)

def intText (n : Int) : String :=
  String.ofList (ofInt n)

/-- The natural number that a non-empty text of digits spells. -/
def natOf? (cs : List Char) : Option Nat :=
  if !cs.isEmpty && cs.all Char.isDigit then some (natOfDigits cs) else none

/-- An integer with an optional sign of either kind. -/
def intOf? : List Char → Option Int
  | '-' :: cs => (natOf? cs).map fun n => -(n : Int)
  | '+' :: cs => (natOf? cs).map fun n => (n : Int)
  | cs => (natOf? cs).map fun n => (n : Int)

/-- The number `whole.fraction`, both parts in digits. -/
def valueOf (whole fraction : List Char) : Binary64 :=
  Binary64.ofDecimal false (natOfDigits (whole ++ fraction)) (whole ++ fraction).length
    (-fraction.length)

/-- The parts of an unsigned decimal number: digits before the point, digits after it, and the
exponent. -/
def parts? (cs : List Char) : Option (List Char × List Char × Int) := do
  let whole := cs.takeWhile Char.isDigit
  let (fraction, rest) :=
    match cs.dropWhile Char.isDigit with
    | '.' :: rest => (rest.takeWhile Char.isDigit, rest.dropWhile Char.isDigit)
    | rest => ([], rest)
  guard (!(whole ++ fraction).isEmpty)
  match rest with
  | [] => pure (whole, fraction, 0)
  | c :: rest =>
    guard (c == 'e' || c == 'E')
    let exponent ← intOf? rest
    pure (whole, fraction, exponent)

/-- A decimal number without a sign, or a word for a value that has no digits. -/
def magnitude? (negative : Bool) (cs : List Char) : Option Binary64 :=
  let word := String.ofList (cs.map Char.toLower)
  if word == "inf" || word == "infinity" then some (.infinite negative)
  else if word == "nan" then some .nan
  else do
    let (whole, fraction, exponent) ← parts? cs
    let digits := whole ++ fraction
    pure (.ofDecimal negative (natOfDigits digits) digits.length (exponent - fraction.length))

/-- A decimal number with an optional sign. -/
def number? : List Char → Option Binary64
  | '-' :: cs => magnitude? true cs
  | '+' :: cs => magnitude? false cs
  | cs => magnitude? false cs

end CraftLang.Decimal
