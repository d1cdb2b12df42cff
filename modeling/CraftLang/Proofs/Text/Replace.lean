import CraftLang.Text.Lines

/-!
Replacing one text by another. Texts between separators that the pattern has not got are dealt with
one by one, and a replacement that has nothing in common with another pattern brings about no
occurrence of it.
-/

namespace CraftLang.Text

variable {pattern replacement cs : List Char}

theorem occursIn_iff : occursIn pattern cs = true ↔ pattern <:+: cs := by
  induction cs with
  | nil => rw [occursIn, List.isEmpty_iff, List.infix_nil]
  | cons c cs ih =>
      rw [occursIn, Bool.or_eq_true, List.isPrefixOf_iff_prefix, ih, List.infix_cons_iff]

theorem isPrefixOf_of_not_occursIn {c : Char} (h : occursIn pattern (c :: cs) = false) :
    pattern.isPrefixOf (c :: cs) = false ∧ occursIn pattern cs = false := by
  rwa [occursIn, Bool.or_eq_false_iff] at h

/-- Where there is nothing to be replaced the text stays as it is. -/
theorem replaceAll_of_not_occursIn (replacement : List Char) (h : occursIn pattern cs = false) :
    replaceAll pattern replacement cs = cs := by
  induction cs with
  | nil => rfl
  | cons c cs ih =>
      obtain ⟨hstarts, hrest⟩ := isPrefixOf_of_not_occursIn h
      rw [replaceAll, replaceFrom, hstarts, if_neg Bool.false_ne_true]
      exact congrArg (c :: ·) (ih hrest)

theorem replaceFrom_length (pattern replacement cs : List Char) :
    replaceFrom pattern replacement cs.length cs = [] := by
  induction cs with
  | nil => rfl
  | cons c cs ih => exact ih

theorem replaceAll_self (h : pattern ≠ []) (replacement : List Char) :
    replaceAll pattern replacement pattern = replacement := by
  cases pattern with
  | nil => exact absurd rfl h
  | cons c pattern =>
      have hstarts : (c :: pattern).isPrefixOf (c :: pattern) = true :=
        List.isPrefixOf_iff_prefix.mpr (List.prefix_refl _)
      rw [replaceAll, replaceFrom, if_pos hstarts, List.length_cons, Nat.add_sub_cancel,
        replaceFrom_length, List.append_nil]

/-! ### Texts between separators -/

/-- A pattern without the separator does not reach over it. -/
theorem isPrefixOf_append_cons {separator : Char} (h : separator ∉ pattern)
    (xs ys : List Char) :
    pattern.isPrefixOf (xs ++ separator :: ys) = pattern.isPrefixOf xs := by
  induction pattern generalizing xs with
  | nil => rw [List.isPrefixOf_nil_left, List.isPrefixOf_nil_left]
  | cons p pattern ih =>
      rw [List.mem_cons, not_or] at h
      cases xs with
      | nil =>
          have hhead : (p == separator) = false := beq_eq_false_iff_ne.mpr (Ne.symm h.1)
          show (p == separator && pattern.isPrefixOf ys) = false
          rw [hhead, Bool.false_and]
      | cons x xs => rw [List.cons_append, List.isPrefixOf, List.isPrefixOf, ih h.2]

theorem isPrefixOf_cons {separator : Char} (hne : pattern ≠ []) (h : separator ∉ pattern)
    (ys : List Char) : pattern.isPrefixOf (separator :: ys) = false := by
  have hcut := isPrefixOf_append_cons h [] ys
  cases pattern with
  | nil => exact absurd rfl hne
  | cons p pattern => exact hcut

theorem occursIn_append_cons {separator : Char} (hne : pattern ≠ []) (h : separator ∉ pattern)
    (xs ys : List Char) :
    occursIn pattern (xs ++ separator :: ys) = (occursIn pattern xs || occursIn pattern ys) := by
  induction xs with
  | nil =>
      have hempty : pattern.isEmpty = false := by simpa using hne
      show occursIn pattern (separator :: ys) = (pattern.isEmpty || occursIn pattern ys)
      rw [occursIn, isPrefixOf_cons hne h, hempty]
  | cons x xs ih =>
      have hcut := isPrefixOf_append_cons h (x :: xs) ys
      rw [List.cons_append] at hcut ⊢
      rw [occursIn, occursIn, hcut, ih, Bool.or_assoc]

/-- A pattern without the separator occurs where it occurs in one of the pieces. -/
theorem occursIn_joinWith {separator : Char} {pieces : List (List Char)} {piece : List Char}
    (hne : pattern ≠ []) (h : separator ∉ pattern) (hmem : piece ∈ pieces)
    (hoccurs : occursIn pattern piece = true) :
    occursIn pattern (joinWith [separator] pieces) = true := by
  induction pieces with
  | nil => cases hmem
  | cons first pieces ih =>
      cases pieces with
      | nil =>
          obtain rfl : piece = first := List.mem_singleton.mp hmem
          exact hoccurs
      | cons next pieces =>
          show occursIn pattern (first ++ [separator] ++ joinWith [separator] (next :: pieces)) =
            true
          rw [List.append_assoc, List.singleton_append, occursIn_append_cons hne h, Bool.or_eq_true]
          rcases List.mem_cons.mp hmem with rfl | hmem
          · exact .inl hoccurs
          · exact .inr (ih hmem)

theorem replaceFrom_append_cons {separator : Char} (hne : pattern ≠ []) (h : separator ∉ pattern)
    (replacement xs ys : List Char) {skip : Nat} (hskip : skip ≤ xs.length) :
    replaceFrom pattern replacement skip (xs ++ separator :: ys) =
      replaceFrom pattern replacement skip xs ++
        separator :: replaceFrom pattern replacement 0 ys := by
  induction xs generalizing skip with
  | nil =>
      obtain rfl : skip = 0 := Nat.le_zero.mp hskip
      show replaceFrom pattern replacement 0 (separator :: ys) = separator :: _
      rw [replaceFrom, isPrefixOf_cons hne h, if_neg Bool.false_ne_true]
  | cons x xs ih =>
      cases skip with
      | succ skip => exact ih (Nat.le_of_succ_le_succ hskip)
      | zero =>
          have hcut := isPrefixOf_append_cons h (x :: xs) ys
          rw [List.cons_append] at hcut ⊢
          rw [replaceFrom, replaceFrom, hcut]
          split
          · next hstarts =>
              have hlength := (List.isPrefixOf_iff_prefix.mp hstarts).length_le
              rw [List.length_cons] at hlength
              rw [ih (by omega), List.append_assoc]
          · rw [ih (Nat.zero_le _)]
            rfl

/-- A separator that the pattern has not got separates the texts in which it is replaced. -/
theorem replaceAll_append_cons {separator : Char} (hne : pattern ≠ []) (h : separator ∉ pattern)
    (replacement xs ys : List Char) :
    replaceAll pattern replacement (xs ++ separator :: ys) =
      replaceAll pattern replacement xs ++ separator :: replaceAll pattern replacement ys :=
  replaceFrom_append_cons hne h replacement xs ys (Nat.zero_le _)

theorem replaceAll_joinWith {separator : Char} (hne : pattern ≠ []) (h : separator ∉ pattern)
    (replacement : List Char) (pieces : List (List Char)) :
    replaceAll pattern replacement (joinWith [separator] pieces) =
      joinWith [separator] (pieces.map (replaceAll pattern replacement)) := by
  induction pieces with
  | nil => rfl
  | cons piece pieces ih =>
      cases pieces with
      | nil => rfl
      | cons next pieces =>
          show replaceAll pattern replacement
              (piece ++ [separator] ++ joinWith [separator] (next :: pieces)) = _
          rw [List.append_assoc, List.singleton_append, replaceAll_append_cons hne h, ih]
          exact (List.append_assoc _ [separator] _).symm

/-! ### Other patterns -/

/-- What comes before a replacement was there before it. -/
theorem prefix_of_prefix_replaceAll {front : List Char} (hne : replacement ≠ [])
    (hcommon : ∀ c ∈ replacement, c ∉ front)
    (h : front <+: replaceAll pattern replacement cs) : front <+: cs := by
  induction cs generalizing front with
  | nil => exact h
  | cons c cs ih =>
      cases front with
      | nil => exact List.nil_prefix
      | cons d front =>
          rw [replaceAll, replaceFrom] at h
          split at h
          · cases replacement with
            | nil => exact absurd rfl hne
            | cons r replacement =>
                have hsame : d = r := (List.cons_prefix_cons.mp h).1
                exact absurd List.mem_cons_self (hsame ▸ hcommon r List.mem_cons_self)
          · obtain ⟨rfl, hrest⟩ := List.cons_prefix_cons.mp h
            refine (List.prefix_cons_inj d).mpr (ih (fun c hc => ?_) hrest)
            exact fun hmem => hcommon c hc (List.mem_cons_of_mem _ hmem)

theorem infix_of_infix_append {other front rest : List Char} (hne : other ≠ [])
    (hcommon : ∀ c ∈ front, c ∉ other) (h : other <:+: front ++ rest) : other <:+: rest := by
  induction front with
  | nil => exact h
  | cons c front ih =>
      refine ih (fun d hd => hcommon d (List.mem_cons_of_mem _ hd)) ?_
      rcases List.infix_cons_iff.mp h with hstarts | hinfix
      · cases other with
        | nil => exact absurd rfl hne
        | cons o other =>
            have hsame : o = c := (List.cons_prefix_cons.mp hstarts).1
            exact absurd List.mem_cons_self (hsame ▸ hcommon c List.mem_cons_self)
      · exact hinfix

theorem infix_of_infix_replaceFrom {other : List Char} (hother : other ≠ [])
    (hne : replacement ≠ []) (hcommon : ∀ c ∈ replacement, c ∉ other) {skip : Nat}
    (h : other <:+: replaceFrom pattern replacement skip cs) : other <:+: cs := by
  induction cs generalizing skip with
  | nil =>
      cases skip <;> exact h
  | cons c cs ih =>
      cases skip with
      | succ skip => exact (ih h).trans (List.suffix_cons c cs).isInfix
      | zero =>
          rw [replaceFrom] at h
          split at h
          · exact (ih (infix_of_infix_append hother hcommon h)).trans
              (List.suffix_cons c cs).isInfix
          · rcases List.infix_cons_iff.mp h with hstarts | hinfix
            · cases other with
              | nil => exact absurd rfl hother
              | cons d other =>
                  obtain ⟨rfl, hrest⟩ := List.cons_prefix_cons.mp hstarts
                  have hfront : other <+: cs := prefix_of_prefix_replaceAll hne
                    (fun c hc hmem => hcommon c hc (List.mem_cons_of_mem _ hmem)) hrest
                  exact ((List.prefix_cons_inj d).mpr hfront).isInfix
            · exact (ih hinfix).trans (List.suffix_cons c cs).isInfix

/-- A replacement without a character of another pattern brings about no occurrence of that
pattern, as long as something is put in the place of what goes. -/
theorem occursIn_replaceAll {other : List Char} (hother : other ≠ []) (hne : replacement ≠ [])
    (hcommon : ∀ c ∈ replacement, c ∉ other) (h : occursIn other cs = false) :
    occursIn other (replaceAll pattern replacement cs) = false := by
  rw [Bool.eq_false_iff] at h ⊢
  exact fun hoccurs => h (occursIn_iff.mpr
    (infix_of_infix_replaceFrom hother hne hcommon (occursIn_iff.mp hoccurs)))

end CraftLang.Text
