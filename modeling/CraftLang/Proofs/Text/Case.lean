import CraftLang.Text.AsciiCase
import CraftLang.Text.Blank

/-!
Letter case and outer blanks. No letter is blank, so that a text can be trimmed and put into lower
case in either order; two texts that differ only in the case of their letters have the same blanks
around them.
-/

namespace CraftLang.Text

variable {s t : String}

def isTrimmed (s : String) : Bool :=
  trimmed s == s

/-- Equality up to outer blanks and the case of ASCII letters. -/
def sameName (s t : String) : Bool :=
  equalIgnoringCase (trimmed s) (trimmed t)

theorem isTrimmed_iff : isTrimmed s = true ↔ trim s.toList = s.toList := by
  rw [isTrimmed, beq_iff_eq, ← String.toList_inj, toList_trimmed]

theorem isBlank_of_letter {c : Char} (hlow : 65 ≤ c.toNat) (hhigh : c.toNat ≤ 122) :
    isBlank c = false := by
  simp [isBlank]
  omega

theorem isBlank_of_isLower {c : Char} (h : c.isLower = true) : isBlank c = false := by
  obtain ⟨hlow, hhigh⟩ := Bool.and_eq_true_iff.mp h
  have hlow : 97 ≤ c.toNat := of_decide_eq_true hlow
  have hhigh : c.toNat ≤ 122 := of_decide_eq_true hhigh
  exact isBlank_of_letter (by omega) hhigh

theorem isBlank_toLower (c : Char) : isBlank c.toLower = isBlank c := by
  delta Char.toLower
  split
  · next hupper =>
      have hlow : 65 ≤ c.toNat := hupper.1
      have hhigh : c.toNat ≤ 90 := hupper.2
      have hlower : (c.val + ('a'.val - 'A'.val)).toNat = c.toNat + 32 := by
        rw [UInt32.toNat_add]
        exact Nat.mod_eq_of_lt (show c.toNat + 32 < 4294967296 by omega)
      rw [isBlank_of_letter hlow (by omega)]
      exact isBlank_of_letter (show 65 ≤ (c.val + ('a'.val - 'A'.val)).toNat by omega)
        (show (c.val + ('a'.val - 'A'.val)).toNat ≤ 122 by omega)
  · rfl

theorem asciiLower_trimEnd (cs : List Char) :
    asciiLower (trimEnd cs) = trimEnd (asciiLower cs) := by
  induction cs with
  | nil => rfl
  | cons c cs ih =>
      have hcons : trimEnd (asciiLower (c :: cs)) = _ := trimEnd.eq_2 c.toLower (asciiLower cs)
      rw [hcons, trimEnd, ← ih, isBlank_toLower]
      cases trimEnd cs with
      | nil =>
          show asciiLower (if isBlank c = true then [] else [c]) =
            if isBlank c = true then [] else [c.toLower]
          split <;> rfl
      | cons d ds => rfl

/-- The blanks around a text do not depend on the case of its letters. -/
theorem asciiLower_trim (cs : List Char) : asciiLower (trim cs) = trim (asciiLower cs) := by
  have hstart : asciiLower (trimStart cs) = trimStart (asciiLower cs) := by
    have hblank : isBlank ∘ Char.toLower = isBlank := funext isBlank_toLower
    rw [trimStart, trimStart, asciiLower, asciiLower, List.dropWhile_map, hblank]
  rw [trim, trim, asciiLower_trimEnd, hstart]

theorem trim_eq_of_length {cs : List Char} (h : (trim cs).length = cs.length) : trim cs = cs :=
  ((trimEnd_isPrefix _).sublist.trans (List.dropWhile_suffix isBlank).sublist).eq_of_length h

theorem sameName_of_equal (h : equalIgnoringCase s (trimmed t) = true) : sameName s t = true := by
  rw [equalIgnoringCase_iff, toList_trimmed] at h
  rw [sameName, equalIgnoringCase_iff, toList_trimmed, toList_trimmed, asciiLower_trim, h,
    ← asciiLower_trim, trim_trim]

/-- Of two texts that are equal up to case, both or neither have blanks around them. -/
theorem isTrimmed_congr (h : equalIgnoringCase s t = true) : isTrimmed s = isTrimmed t := by
  rw [equalIgnoringCase_iff] at h
  have hlength : s.toList.length = t.toList.length := by
    simpa [asciiLower] using congrArg List.length h
  have htrim : (trim s.toList).length = (trim t.toList).length := by
    have hlower : (asciiLower (trim s.toList)).length = (asciiLower (trim t.toList)).length := by
      rw [asciiLower_trim, asciiLower_trim, h]
    rwa [asciiLower, asciiLower, List.length_map, List.length_map] at hlower
  rw [Bool.eq_iff_iff, isTrimmed_iff, isTrimmed_iff]
  constructor
  · intro hs
    exact trim_eq_of_length (by rw [← htrim, hs, hlength])
  · intro ht
    exact trim_eq_of_length (by rw [htrim, ht, hlength])

theorem isTrimmed_trimmed (s : String) : isTrimmed (trimmed s) = true := by
  rw [isTrimmed_iff, toList_trimmed, trim_trim]

/-- A text is equal to a trimmed one if it is the same name, and trimmed itself. -/
theorem equalIgnoringCase_trimmed (s t : String) :
    equalIgnoringCase s (trimmed t) = (sameName s t && isTrimmed s) := by
  rw [Bool.eq_iff_iff, Bool.and_eq_true]
  constructor
  · intro h
    exact ⟨sameName_of_equal h, (isTrimmed_congr h).trans (isTrimmed_trimmed t)⟩
  · rintro ⟨hsame, htrimmed⟩
    rwa [sameName, beq_iff_eq.mp htrimmed] at hsame

end CraftLang.Text
