/-!
Cutting a text at a separator, joining pieces, and replacing one text by another.
-/

namespace CraftLang.Text

/-- The pieces between the separators: always one more than there are separators. -/
def splitOn (separator : Char) : List Char → List (List Char)
  | [] => [[]]
  | c :: cs =>
    if c = separator then [] :: splitOn separator cs
    else
      match splitOn separator cs with
      | [] => [[c]]
      | piece :: pieces => (c :: piece) :: pieces

/-- The pieces with a separator between neighbours. -/
def joinWith (separator : List Char) : List (List Char) → List Char
  | [] => []
  | [piece] => piece
  | piece :: pieces => piece ++ separator ++ joinWith separator pieces

/-- Strings with a line feed between neighbours. -/
def joinLines (lines : List String) : String :=
  String.ofList (joinWith ['\n'] (lines.map String.toList))

/-- A line without the carriage return at its end, if it has one. -/
def dropCarriageReturn : List Char → List Char
  | [] => []
  | ['\r'] => []
  | c :: cs => c :: dropCarriageReturn cs

/-- Whether `pattern` occurs in the text. -/
def occursIn (pattern : List Char) : List Char → Bool
  | [] => pattern.isEmpty
  | c :: cs => pattern.isPrefixOf (c :: cs) || occursIn pattern cs

/-- Every occurrence of `pattern`, found from left to right, replaced; `skip` characters of the
last one found are still to be passed over. -/
def replaceFrom (pattern replacement : List Char) : Nat → List Char → List Char
  | _, [] => []
  | skip + 1, _ :: cs => replaceFrom pattern replacement skip cs
  | 0, c :: cs =>
    if pattern.isPrefixOf (c :: cs) then
      replacement ++ replaceFrom pattern replacement (pattern.length - 1) cs
    else c :: replaceFrom pattern replacement 0 cs

/-- Every occurrence of a non-empty `pattern` replaced, from left to right without overlap. -/
def replaceAll (pattern replacement cs : List Char) : List Char :=
  replaceFrom pattern replacement 0 cs

theorem splitOn_ne_nil (separator : Char) (cs : List Char) : splitOn separator cs ≠ [] := by
  cases cs with
  | nil => simp [splitOn]
  | cons c cs =>
    rw [splitOn]
    split
    · simp
    · split <;> simp

theorem splitOn_of_not_mem {separator : Char} {cs : List Char} (h : separator ∉ cs) :
    splitOn separator cs = [cs] := by
  induction cs with
  | nil => rfl
  | cons c cs ih =>
    rw [List.mem_cons, not_or] at h
    rw [splitOn, if_neg (Ne.symm h.1), ih h.2]

/-- A separator between two texts separates their pieces. -/
theorem splitOn_append_cons (separator : Char) (xs ys : List Char) :
    splitOn separator (xs ++ separator :: ys) =
      splitOn separator xs ++ splitOn separator ys := by
  induction xs with
  | nil => simp [splitOn]
  | cons c xs ih =>
    by_cases hc : c = separator
    · simp [splitOn, hc, ih]
    · rw [List.cons_append, splitOn, splitOn, if_neg hc, if_neg hc, ih]
      cases hs : splitOn separator xs with
      | nil => exact absurd hs (splitOn_ne_nil separator xs)
      | cons piece pieces => rfl

/-- Joining undoes splitting. -/
theorem joinWith_splitOn (separator : Char) (cs : List Char) :
    joinWith [separator] (splitOn separator cs) = cs := by
  induction cs with
  | nil => rfl
  | cons c cs ih =>
    have hne := splitOn_ne_nil separator cs
    rw [splitOn]
    cases hs : splitOn separator cs with
    | nil => exact absurd hs hne
    | cons piece pieces =>
      rw [hs] at ih
      split
      · next h => simp [joinWith, h, ih]
      · cases pieces with
        | nil => simpa [joinWith] using ih
        | cons => simpa [joinWith] using ih

theorem not_mem_of_mem_splitOn {separator : Char} {cs piece : List Char}
    (h : piece ∈ splitOn separator cs) : separator ∉ piece := by
  induction cs generalizing piece with
  | nil =>
    rw [splitOn, List.mem_singleton] at h
    simp [h]
  | cons c cs ih =>
    rw [splitOn] at h
    split at h
    · rcases List.mem_cons.mp h with rfl | h
      · simp
      · exact ih h
    · next hc =>
      split at h
      · next hs => exact absurd hs (splitOn_ne_nil separator cs)
      · next first pieces hs =>
        rw [hs] at ih
        rcases List.mem_cons.mp h with rfl | h
        · simp [Ne.symm hc, ih List.mem_cons_self]
        · exact ih (List.mem_cons_of_mem _ h)

/-- Splitting what was joined splits each of the pieces. -/
theorem splitOn_joinWith (separator : Char) {pieces : List (List Char)} (h : pieces ≠ []) :
    splitOn separator (joinWith [separator] pieces) = pieces.flatMap (splitOn separator) := by
  induction pieces with
  | nil => exact absurd rfl h
  | cons piece pieces ih =>
    cases pieces with
    | nil => simp [joinWith]
    | cons next pieces =>
      show splitOn separator (piece ++ [separator] ++ joinWith [separator] (next :: pieces)) = _
      rw [List.append_assoc, List.singleton_append, splitOn_append_cons,
        ih (List.cons_ne_nil _ _)]
      exact List.flatMap_cons.symm

/-- Splitting undoes joining, if the separator is in none of the pieces. -/
theorem splitOn_joinWith_of_not_mem {separator : Char} {pieces : List (List Char)}
    (h : pieces ≠ []) (hpieces : ∀ piece ∈ pieces, separator ∉ piece) :
    splitOn separator (joinWith [separator] pieces) = pieces := by
  rw [splitOn_joinWith separator h]
  clear h
  induction pieces with
  | nil => rfl
  | cons piece pieces ih =>
    rw [List.flatMap_cons, splitOn_of_not_mem (hpieces piece List.mem_cons_self),
      ih fun piece hpiece => hpieces piece (List.mem_cons_of_mem _ hpiece)]
    rfl

/-- A line ends with a carriage return, or nothing is dropped from it. -/
theorem dropCarriageReturn_cases (cs : List Char) :
    dropCarriageReturn cs = cs ∨ cs = dropCarriageReturn cs ++ ['\r'] := by
  induction cs with
  | nil => exact .inl rfl
  | cons c cs ih =>
    rw [dropCarriageReturn.eq_def]
    split
    · next hnil => cases hnil
    · next hlast =>
      cases hlast
      exact .inr rfl
    · next hcons =>
      cases hcons
      rcases ih with hsame | hdropped
      · exact .inl (by rw [hsame])
      · exact .inr (by rw [List.cons_append, ← hdropped])

end CraftLang.Text
