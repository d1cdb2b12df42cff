/-!
White space and trimming. A blank is a character with the Unicode property White_Space; a line is
trimmed of blanks before anything else is read from it.
-/

namespace CraftLang.Text

/-- Characters with the property White_Space. -/
def isBlank (c : Char) : Bool :=
  let n := c.toNat
  (9 ≤ n && n ≤ 13) || n == 0x20 || n == 0x85 || n == 0xA0 || n == 0x1680 ||
    (0x2000 ≤ n && n ≤ 0x200A) || n == 0x2028 || n == 0x2029 || n == 0x202F || n == 0x205F ||
    n == 0x3000

/-- The text without its leading blanks. -/
def trimStart (cs : List Char) : List Char :=
  cs.dropWhile isBlank

/-- The text without its trailing blanks. -/
def trimEnd : List Char → List Char
  | [] => []
  | c :: cs =>
    match trimEnd cs with
    | [] => if isBlank c then [] else [c]
    | d :: ds => c :: d :: ds

/-- The text without its outer blanks. -/
def trim (cs : List Char) : List Char :=
  trimEnd (trimStart cs)

def trimmed (s : String) : String :=
  String.ofList (trim s.toList)

theorem not_mem_of_blank {blanks : List Char} (h : ∀ c ∈ blanks, isBlank c = true) {c : Char}
    (hc : isBlank c = false) : c ∉ blanks := by
  intro hmem
  rw [h c hmem] at hc
  cases hc

theorem trimEnd_cons_of_not_blank {c : Char} {cs : List Char} (h : isBlank c = false) :
    trimEnd (c :: cs) = c :: trimEnd cs := by
  rw [trimEnd]
  split <;> simp_all

theorem trimEnd_of_blank {blanks : List Char} (h : ∀ c ∈ blanks, isBlank c = true) :
    trimEnd blanks = [] := by
  induction blanks with
  | nil => rfl
  | cons c cs ih =>
    have hnil : trimEnd cs = [] := ih fun c hc => h c (List.mem_cons_of_mem _ hc)
    simp [trimEnd, hnil, h c List.mem_cons_self]

theorem trimEnd_append_of_blank (cs : List Char) {blanks : List Char}
    (h : ∀ c ∈ blanks, isBlank c = true) : trimEnd (cs ++ blanks) = trimEnd cs := by
  induction cs with
  | nil => exact trimEnd_of_blank h
  | cons c cs ih => rw [List.cons_append, trimEnd, trimEnd, ih]

/-- What is trimmed from the end of a text is blank. -/
theorem exists_trimEnd_append (cs : List Char) :
    ∃ blanks, trimEnd cs ++ blanks = cs ∧ ∀ c ∈ blanks, isBlank c = true := by
  induction cs with
  | nil => exact ⟨[], rfl, by simp⟩
  | cons c cs ih =>
    obtain ⟨blanks, hcs, hblanks⟩ := ih
    rw [trimEnd]
    cases hend : trimEnd cs with
    | cons d ds =>
      rw [hend] at hcs
      exact ⟨blanks, congrArg (c :: ·) hcs, hblanks⟩
    | nil =>
      rw [hend, List.nil_append] at hcs
      by_cases hc : isBlank c = true
      · exact ⟨c :: blanks, by rw [if_pos hc, hcs]; rfl, List.forall_mem_cons.mpr ⟨hc, hblanks⟩⟩
      · exact ⟨blanks, by rw [if_neg hc, hcs]; rfl, hblanks⟩

theorem trimEnd_isPrefix (cs : List Char) : trimEnd cs <+: cs :=
  (exists_trimEnd_append cs).imp fun _ => And.left

theorem trimEnd_append_cons (front : List Char) {c : Char} (h : isBlank c = false)
    (back : List Char) : trimEnd (front ++ c :: back) = front ++ c :: trimEnd back := by
  induction front with
  | nil => exact trimEnd_cons_of_not_blank h
  | cons d front ih =>
    rw [List.cons_append, trimEnd, ih]
    split
    · next hnil => exact absurd hnil (by simp)
    · next hcons => rw [← hcons, List.cons_append]

theorem trimStart_append_cons (front : List Char) {c : Char} (h : isBlank c = false)
    (back : List Char) : trimStart (front ++ c :: back) = trimStart front ++ c :: back := by
  have hcons : trimStart (c :: back) = c :: back :=
    List.dropWhile_cons_of_neg (Bool.eq_false_iff.mp h)
  rw [trimStart, List.dropWhile_append]
  split
  · next hnil => rw [← trimStart, hcons, trimStart, List.isEmpty_iff.mp hnil, List.nil_append]
  · rfl

/-- A visible character parts what is trimmed at the start from what is trimmed at the end. -/
theorem trim_append_cons (front : List Char) {c : Char} (h : isBlank c = false)
    (back : List Char) : trim (front ++ c :: back) = trimStart front ++ c :: trimEnd back := by
  rw [trim, trimStart_append_cons front h, trimEnd_append_cons _ h]

theorem trimStart_of_blank {blanks : List Char} (h : ∀ c ∈ blanks, isBlank c = true) :
    trimStart blanks = [] := by
  induction blanks with
  | nil => rfl
  | cons c cs ih =>
    rw [trimStart, List.dropWhile_cons_of_pos (h c List.mem_cons_self)]
    exact ih fun c hc => h c (List.mem_cons_of_mem _ hc)

/-- Blanks at the end of a text are not part of it. -/
theorem trim_append_of_blank (cs : List Char) {blanks : List Char}
    (h : ∀ c ∈ blanks, isBlank c = true) : trim (cs ++ blanks) = trim cs := by
  rw [trim, trimStart, List.dropWhile_append]
  split
  · next hnil =>
    have hblanks : blanks.dropWhile isBlank = [] := trimStart_of_blank h
    rw [hblanks, trim, trimStart, List.isEmpty_iff.mp hnil]
  · exact trimEnd_append_of_blank _ h

theorem trim_trimEnd (cs : List Char) : trim (trimEnd cs) = trim cs := by
  obtain ⟨blanks, hcs, hblanks⟩ := exists_trimEnd_append cs
  rw [← trim_append_of_blank (trimEnd cs) hblanks, hcs]

theorem trimEnd_trimEnd (cs : List Char) : trimEnd (trimEnd cs) = trimEnd cs := by
  obtain ⟨blanks, hcs, hblanks⟩ := exists_trimEnd_append cs
  rw [← trimEnd_append_of_blank (trimEnd cs) hblanks, hcs]

/-- A text that starts with a blank is not trimmed. -/
theorem isBlank_of_trimStart_cons {c : Char} {cs ds : List Char}
    (h : trimStart cs = c :: ds) : isBlank c = false := by
  have hhead := List.head?_dropWhile_not isBlank cs
  rw [show cs.dropWhile isBlank = c :: ds from h] at hhead
  simpa using hhead

/-- Trimming a text once is enough. -/
theorem trim_trim (cs : List Char) : trim (trim cs) = trim cs := by
  have hstart : trimStart (trimEnd (trimStart cs)) = trimEnd (trimStart cs) := by
    cases hcs : trimStart cs with
    | nil => rfl
    | cons c ds =>
      have hblank := isBlank_of_trimStart_cons hcs
      rw [trimEnd_cons_of_not_blank hblank, trimStart,
        List.dropWhile_cons_of_neg (by simp [hblank])]
  rw [trim, trim, hstart, trimEnd_trimEnd]

/-- There is nothing to be trimmed from a text that neither starts nor ends with a blank. -/
theorem trim_of_not_blank {c d : Char} {cs ds : List Char} (h : c :: cs = ds ++ [d])
    (hfirst : isBlank c = false) (hlast : isBlank d = false) : trim (c :: cs) = c :: cs := by
  rw [trim, trimStart, List.dropWhile_cons_of_neg (by simp [hfirst]), h,
    trimEnd_append_cons ds hlast]
  rfl

theorem mem_of_mem_trim {c : Char} {cs : List Char} (h : c ∈ trim cs) : c ∈ cs :=
  (List.dropWhile_suffix isBlank).subset ((trimEnd_isPrefix _).subset h)

@[simp] theorem toList_trimmed (s : String) : (trimmed s).toList = trim s.toList :=
  String.toList_ofList

end CraftLang.Text
