/-!
The binary64 numbers of IEEE 754, as exact values. Durations are written in decimal seconds, are
rounded to binary64 when they are read, and are rounded again when they are scaled to
milliseconds. All arithmetic is on natural numbers, so every rounding is a definition and not a
machine instruction.
-/

namespace CraftLang

/-- A binary64 number; a finite one is `mantissa * 2 ^ exponent` with its sign. The rounding below
yields mantissas under `2 ^ 53`, and under `2 ^ 52` only at the least exponent. -/
inductive Binary64 where
  | nan
  | infinite (negative : Bool)
  | finite (negative : Bool) (mantissa : Nat) (exponent : Int)
  deriving DecidableEq, Repr, Inhabited

namespace Binary64

/-- The exponent of the smallest positive number. -/
def leastExponent : Int := -1074

/-- The exponent of the largest finite number. -/
def greatestExponent : Int := 971

/-- The natural number nearest to `num / den`, the even one of two equally near. -/
def roundHalfEven (num den : Nat) : Nat :=
  let q := num / den
  let twice := 2 * (num % den)
  if twice < den || (twice == den && q % 2 == 0) then q else q + 1

/-- `num / den * 2 ^ shift` as a numerator and a denominator. -/
def scaled (num den : Nat) (shift : Int) : Nat × Nat :=
  if 0 ≤ shift then (num <<< shift.toNat, den) else (num, den <<< (-shift).toNat)

/-- The exponent at which `num / den` has 53 binary digits before the point, unless that is below
the least exponent. -/
def exponentFor (num den : Nat) : Int :=
  let spread : Int := num.log2 - den.log2
  let (n, d) := scaled num den (-spread)
  max leastExponent (if d ≤ n then spread - 52 else spread - 53)

/-- The number nearest to `num / den`, the one with the even mantissa of two equally near. -/
def ofRatio (negative : Bool) (num den : Nat) : Binary64 :=
  if num = 0 then .finite negative 0 leastExponent
  else
    let exponent := exponentFor num den
    let (n, d) := scaled num den (-exponent)
    let mantissa := roundHalfEven n d
    let (mantissa, exponent) :=
      if mantissa = 1 <<< 53 then (1 <<< 52, exponent + 1) else (mantissa, exponent)
    if greatestExponent < exponent then .infinite negative
    else .finite negative mantissa exponent

/-- The number nearest to `coefficient * 10 ^ exponent`, where the coefficient has at most `size`
decimal digits. Beyond four hundred places the answer is known without any arithmetic. -/
def ofDecimal (negative : Bool) (coefficient size : Nat) (exponent : Int) : Binary64 :=
  if coefficient = 0 || size + exponent < -400 then .finite negative 0 leastExponent
  else if 400 < exponent then .infinite negative
  else if 0 ≤ exponent then ofRatio negative (coefficient * Nat.pow 10 exponent.toNat) 1
  else ofRatio negative coefficient (Nat.pow 10 (-exponent).toNat)

/-- The product with a natural number, rounded to nearest. -/
def scaleBy (factor : Nat) : Binary64 → Binary64
  | .nan => .nan
  | .infinite negative => .infinite negative
  | .finite negative mantissa exponent =>
    let (n, d) := scaled (mantissa * factor) 1 exponent
    ofRatio negative n d

/-- The nearest natural number up to `limit`, halves upwards; no number and everything below zero
give zero. -/
def toNatUpTo (limit : Nat) : Binary64 → Nat
  | .nan => 0
  | .infinite negative => if negative then 0 else limit
  | .finite negative mantissa exponent =>
    if negative then 0
    else
      let (n, d) := scaled mantissa 1 exponent
      min limit ((2 * n + d) / (2 * d))

/-- The interchange format: sign, eleven bits of exponent, 52 bits of fraction. -/
def toBits : Binary64 → Nat
  | .nan => 0x7FF8000000000000
  | .infinite negative => (if negative then 1 <<< 63 else 0) + 0x7FF0000000000000
  | .finite negative mantissa exponent =>
    (if negative then 1 <<< 63 else 0) +
      if mantissa < 1 <<< 52 then mantissa
      else (exponent - leastExponent + 1).toNat <<< 52 + (mantissa - 1 <<< 52)

/-- The interchange format as sixteen lower-case hexadecimal digits. -/
def toHex (x : Binary64) : String :=
  let digits := Nat.toDigits 16 x.toBits
  String.ofList (List.replicate (16 - digits.length) '0' ++ digits)

example : (ofDecimal false 15 2 (-1)).toHex = "3ff8000000000000" := by decide +kernel
example : (ofDecimal false 1 1 (-1)).toHex = "3fb999999999999a" := by decide +kernel
example : (ofDecimal false 5 1 (-324)).toHex = "0000000000000001" := by decide +kernel
example : ((ofDecimal false 15 2 (-1)).scaleBy 1000).toNatUpTo 9999 = 1500 := by decide +kernel

end Binary64

end CraftLang
