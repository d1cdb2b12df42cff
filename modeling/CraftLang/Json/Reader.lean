import CraftLang.Json.Basic
import CraftLang.Text.Utf8

/-!
Reading JSON from bytes. A document is one value with white space around it; there are no comments,
no trailing commas and no byte order mark. Strings are checked for their form here, and are missing
from the value where they are no text.
-/

namespace CraftLang.Json

def byteOf (c : Char) : UInt8 :=
  c.toNat.toUInt8

/-- White space between tokens. -/
def isGap (b : UInt8) : Bool :=
  b == 0x20 || b == 0x0A || b == 0x0D || b == 0x09

def skipGap (bytes : List UInt8) : List UInt8 :=
  bytes.dropWhile isGap

def isDigit (b : UInt8) : Bool :=
  0x30 ≤ b && b ≤ 0x39

def hexValue? (b : UInt8) : Option Nat :=
  if isDigit b then some (b.toNat - 0x30)
  else if 0x61 ≤ b && b ≤ 0x66 then some (b.toNat - 0x57)
  else if 0x41 ≤ b && b ≤ 0x46 then some (b.toNat - 0x37)
  else none

/-- The value of four hexadecimal digits, and the bytes after them. -/
def codeUnit? : List UInt8 → Option (Nat × List UInt8)
  | a :: b :: c :: d :: rest => do
    let a ← hexValue? a
    let b ← hexValue? b
    let c ← hexValue? c
    let d ← hexValue? d
    pure (((a * 16 + b) * 16 + c) * 16 + d, rest)
  | _ => none

def escape? (b : UInt8) : Option UInt8 :=
  if b == byteOf '\x22' || b == byteOf '\\' || b == byteOf '/' then some b
  else if b == byteOf 'b' then some 0x08
  else if b == byteOf 'f' then some 0x0C
  else if b == byteOf 'n' then some 0x0A
  else if b == byteOf 'r' then some 0x0D
  else if b == byteOf 't' then some 0x09
  else none

/-- The bytes of the character with a code point, if it has a character. -/
def encodeCodePoint? (n : Nat) : Option (List UInt8) :=
  if n.isValidChar then some (Text.utf8Bytes (String.ofList [Char.ofNat n])) else none

/-- What an escape by code units stands for: a character of one unit or of a pair of surrogates. The
answer is missing where a surrogate has no partner; then only its own unit is used up. -/
def escapedUnits? (bytes : List UInt8) : Option (Option (List UInt8) × List UInt8) := do
  let (high, rest) ← codeUnit? bytes
  match rest with
  | b :: u :: more =>
    if 0xD800 ≤ high && high ≤ 0xDBFF && b == byteOf '\\' && u == byteOf 'u' then
      match codeUnit? more with
      | some (low, after) =>
        if 0xDC00 ≤ low && low ≤ 0xDFFF then
          pure (encodeCodePoint? (0x10000 + (high - 0xD800) * 0x400 + (low - 0xDC00)), after)
        else pure (none, rest)
      | none => pure (none, rest)
    else pure (encodeCodePoint? high, rest)
  | _ => pure (encodeCodePoint? high, rest)

/-- The rest of a string after its opening mark, and the bytes after its closing one. The string's
own bytes are missing if one of its escapes stands for no character. -/
def stringBytes? : Nat → List UInt8 → Option (Option (List UInt8) × List UInt8)
  | 0, _ => none
  | _ + 1, [] => none
  | fuel + 1, b :: rest =>
    if b == byteOf '\x22' then some (some [], rest)
    else if b < 0x20 then none
    else if b == byteOf '\\' then
      match rest with
      | [] => none
      | e :: rest =>
        if e == byteOf 'u' then do
          let (first, rest) ← escapedUnits? rest
          let (others, rest) ← stringBytes? fuel rest
          pure (do pure ((← first) ++ (← others)), rest)
        else do
          let first ← escape? e
          let (others, rest) ← stringBytes? fuel rest
          pure (others.map (first :: ·), rest)
    else do
      let (others, rest) ← stringBytes? fuel rest
      pure (others.map (b :: ·), rest)

/-- A string after its opening mark, as text where it is one. -/
def stringText? (fuel : Nat) (bytes : List UInt8) : Option (Option String × List UInt8) := do
  let (content, rest) ← stringBytes? fuel bytes
  pure (content.bind Text.utf8Text?, rest)

/-- At least one digit, and the bytes after the digits. -/
def digits? (bytes : List UInt8) : Option (List UInt8 × List UInt8) :=
  let digits := bytes.takeWhile isDigit
  if digits.isEmpty then none else some (digits, bytes.dropWhile isDigit)

/-- The digits before the point: a zero, or digits that do not start with one. -/
def wholeDigits? : List UInt8 → Option (List UInt8 × List UInt8)
  | [] => none
  | b :: rest => if b == 0x30 then some ([b], rest) else digits? (b :: rest)

/-- A point and the digits after it, if there is a point. -/
def fractionDigits? : List UInt8 → Option (List UInt8 × List UInt8)
  | [] => some ([], [])
  | b :: rest =>
    if b == byteOf '.' then (digits? rest).map fun (digits, rest) => (b :: digits, rest)
    else some ([], b :: rest)

/-- An exponent, if there is one. -/
def exponentDigits? : List UInt8 → Option (List UInt8 × List UInt8)
  | [] => some ([], [])
  | b :: rest =>
    if b == byteOf 'e' || b == byteOf 'E' then
      match rest with
      | s :: more =>
        if s == byteOf '+' || s == byteOf '-' then
          (digits? more).map fun (digits, rest) => (b :: s :: digits, rest)
        else (digits? rest).map fun (digits, rest) => (b :: digits, rest)
      | [] => none
    else some ([], b :: rest)

/-- A number as it is written, and the bytes after it. -/
def number? (bytes : List UInt8) : Option (String × List UInt8) := do
  let (sign, rest) :=
    match bytes with
    | b :: rest => if b == byteOf '-' then ([b], rest) else ([], bytes)
    | [] => ([], bytes)
  let (whole, rest) ← wholeDigits? rest
  let (fraction, rest) ← fractionDigits? rest
  let (exponent, rest) ← exponentDigits? rest
  pure (String.ofList ((sign ++ whole ++ fraction ++ exponent).map fun b => Char.ofNat b.toNat),
    rest)

def word? (word : List Char) (bytes : List UInt8) : Option (List UInt8) :=
  let expected := word.map byteOf
  if expected.isPrefixOf bytes then some (bytes.drop expected.length) else none

mutual

/-- A value, and the bytes after it. The fuel bounds the number of nested calls; twice as many as
there are bytes are enough. -/
def value? : Nat → List UInt8 → Option (Json × List UInt8)
  | 0, _ => none
  | fuel + 1, bytes =>
    match skipGap bytes with
    | [] => none
    | b :: rest =>
      if b == byteOf '\x22' then (stringText? fuel rest).map fun (text, rest) => (.string text, rest)
      else if b == byteOf '[' then
        match skipGap rest with
        | [] => none
        | c :: after =>
          if c == byteOf ']' then some (.array [], after)
          else (items? fuel rest).map fun (items, rest) => (.array items, rest)
      else if b == byteOf '\x7b' then
        match skipGap rest with
        | [] => none
        | c :: after =>
          if c == byteOf '\x7d' then some (.object [], after)
          else (members? fuel rest).map fun (members, rest) => (.object members, rest)
      else if b == byteOf 'n' then
        (word? ['n', 'u', 'l', 'l'] (b :: rest)).map fun rest => (.null, rest)
      else if b == byteOf 't' then
        (word? ['t', 'r', 'u', 'e'] (b :: rest)).map fun rest => (.bool true, rest)
      else if b == byteOf 'f' then
        (word? ['f', 'a', 'l', 's', 'e'] (b :: rest)).map fun rest => (.bool false, rest)
      else (number? (b :: rest)).map fun (written, rest) => (.number written, rest)

/-- The items of an array up to its end. -/
def items? : Nat → List UInt8 → Option (List Json × List UInt8)
  | 0, _ => none
  | fuel + 1, bytes => do
    let (item, rest) ← value? fuel bytes
    match skipGap rest with
    | [] => none
    | b :: rest =>
      if b == byteOf ']' then pure ([item], rest)
      else if b == byteOf ',' then
        let (items, rest) ← items? fuel rest
        pure (item :: items, rest)
      else none

/-- The members of an object up to its end. -/
def members? : Nat → List UInt8 → Option (List (Option String × Json) × List UInt8)
  | 0, _ => none
  | fuel + 1, bytes => do
    match skipGap bytes with
    | [] => none
    | b :: rest =>
      if b == byteOf '\x22' then
        let (name, rest) ← stringText? fuel rest
        match skipGap rest with
        | [] => none
        | c :: rest =>
          if c == byteOf ':' then
            let (value, rest) ← value? fuel rest
            match skipGap rest with
            | [] => none
            | d :: rest =>
              if d == byteOf '\x7d' then pure ([(name, value)], rest)
              else if d == byteOf ',' then
                let (members, rest) ← members? fuel rest
                pure ((name, value) :: members, rest)
              else none
          else none
      else none

end

def read? (bytes : List UInt8) : Option Json := do
  let (value, rest) ← value? (2 * bytes.length + 2) bytes
  if (skipGap rest).isEmpty then pure value else none

def ofText? (s : String) : Option Json :=
  read? (Text.utf8Bytes s)

end CraftLang.Json
