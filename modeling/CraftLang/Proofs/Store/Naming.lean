import CraftLang.Proofs.Disk.Paths
import CraftLang.Store.Macros

/-!
The names of the files of a macro: its source, its settings and the temporary files, all of which
have the same stem. What stands at the end of a name tells which of them it is.
-/

namespace CraftLang

open Text CraftLang.Path

namespace Store

theorem macrosFolder_endsInName (store : Store) : store.macrosFolder.EndsInName := by
  obtain ⟨front, hfront⟩ := exists_pieces_join store.root
  exact ⟨front, "macros".toList, (hfront _ (by decide) (by decide)).1, by decide⟩

theorem slash_not_mem_fileStem (name : String) : '/' ∉ fileStem name := by
  intro hmem
  obtain ⟨c, -, hc⟩ := List.mem_map.mp hmem
  by_cases hkept : isFileChar c = true
  · rw [if_pos hkept] at hc
    rw [hc] at hkept
    exact absurd hkept (by decide)
  · rw [if_neg hkept] at hc
    exact absurd hc (by decide)

/-- A name that is not all blank leaves something for the names of files. -/
theorem fileStem_ne_nil {name : String} (h : ∃ c ∈ name.toList, isBlank c = false) :
    fileStem name ≠ [] := by
  obtain ⟨c, hc, hblank⟩ := h
  refine fun hnil => ?_
  have htrim : trim name.toList = [] := List.map_eq_nil_iff.mp hnil
  cases hstart : trimStart name.toList with
  | nil =>
      have hfront := List.takeWhile_append_dropWhile (p := isBlank) (l := name.toList)
      rw [show name.toList.dropWhile isBlank = [] from hstart, List.append_nil] at hfront
      rw [← hfront] at hc
      rw [List.all_eq_true.mp List.all_takeWhile c hc] at hblank
      contradiction
  | cons first rest =>
      rw [trim, hstart, trimEnd_cons_of_not_blank (isBlank_of_trimStart_cons hstart)] at htrim
      contradiction

structure IsExtension (extension : List Char) : Prop where
  ne_nil : extension ≠ []
  dot : '.' ∉ extension
  slash : '/' ∉ extension

theorem isExtension_source : IsExtension sourceExtension := ⟨by decide, by decide, by decide⟩

theorem isExtension_settings : IsExtension settingsExtension := ⟨by decide, by decide, by decide⟩

def temporaryExtension : List Char := ['t', 'm', 'p']

theorem isExtension_temporary : IsExtension temporaryExtension := ⟨by decide, by decide, by decide⟩

variable {stem extension : List Char}

theorem isName_append (hstem : '/' ∉ stem) (h : IsExtension extension) :
    IsName (stem ++ '.' :: extension) := by
  obtain ⟨c, cs, rfl⟩ := List.exists_cons_of_ne_nil h.ne_nil
  refine ⟨?_, fun hup => ?_, ?_⟩
  · cases stem <;> simp [isIdle]
  · rcases stem with _ | ⟨b, _ | _⟩
    · simp only [List.nil_append, upward, List.cons.injEq, true_and] at hup
      exact h.dot (by rw [hup.1]; exact List.mem_cons_self)
    · simp [upward] at hup
    · simp [upward] at hup
  · simpa using ⟨hstem, fun heq => h.slash (by rw [← heq]; exact List.mem_cons_self),
      fun hmem => h.slash (List.mem_cons_of_mem _ hmem)⟩

def temporaryName (name : List Char) : List Char :=
  renamed name temporaryExtension false

/-- The temporary file for a stem is told by its extension; for a stem that is a dot there is
none. -/
theorem temporaryName_cases (hstem : '/' ∉ stem) (h : IsExtension extension) :
    (stem = ['.'] ∧ temporaryName (stem ++ '.' :: extension) = upward) ∨
      (stem ≠ ['.'] ∧ IsName (temporaryName (stem ++ '.' :: extension)) ∧
        (splitExtension (temporaryName (stem ++ '.' :: extension))).2 =
          some temporaryExtension) := by
  by_cases hnil : stem = []
  · subst hnil
    have heq : temporaryName ('.' :: extension) =
        '.' :: extension ++ '.' :: temporaryExtension := by
      rw [temporaryName, renamed_dot h.dot]
    refine .inr ⟨by decide, ?_, ?_⟩
    · rw [List.nil_append, heq]
      exact isName_append (by simpa using h.slash) isExtension_temporary
    · rw [List.nil_append, heq,
        splitExtension_append (List.cons_ne_nil _ _) isExtension_temporary.dot]
  · by_cases hdot : stem = ['.']
    · subst hdot
      refine .inl ⟨rfl, ?_⟩
      rw [temporaryName, renamed, splitExtension_append (List.cons_ne_nil _ _) h.dot]
      rfl
    · have heq : temporaryName (stem ++ '.' :: extension) = stem ++ '.' :: temporaryExtension :=
        renamed_append hnil hdot h.dot temporaryExtension
      refine .inr ⟨hdot, ?_, ?_⟩
      · rw [heq]
        exact isName_append hstem isExtension_temporary
      · rw [heq, splitExtension_append hnil isExtension_temporary.dot]

theorem slash_not_mem_temporaryName (hstem : '/' ∉ stem) (h : IsExtension extension) :
    '/' ∉ temporaryName (stem ++ '.' :: extension) := by
  rcases temporaryName_cases hstem h with ⟨-, hup⟩ | ⟨-, hname, -⟩
  · rw [hup]
    decide
  · exact hname.2.2

/-- A file with another extension is no temporary file. -/
theorem ne_temporaryName {stem' extension' : List Char} (hstem : '/' ∉ stem)
    (h : IsExtension extension) (hstem' : '/' ∉ stem') (h' : IsExtension extension')
    (hne : extension ≠ temporaryExtension) :
    stem ++ '.' :: extension ≠ temporaryName (stem' ++ '.' :: extension') := by
  intro heq
  rcases temporaryName_cases hstem' h' with ⟨-, hup⟩ | ⟨-, -, htemporary⟩
  · exact (isName_append hstem h).2.1 (heq.trans hup)
  · rw [← heq] at htemporary
    by_cases hnil : stem = []
    · rw [hnil, List.nil_append, splitExtension_dot h.dot] at htemporary
      cases htemporary
    · rw [splitExtension_append hnil h.dot] at htemporary
      exact hne (Option.some.inj htemporary)

/-! ### The files of a macro -/

def sourceName (stem : List Char) : List Char := stem ++ '.' :: sourceExtension

def settingsName (stem : List Char) : List Char := stem ++ '.' :: settingsExtension

theorem macroPath_eq (store : Store) (name : String) :
    store.macroPath name = store.macrosFolder.join ⟨sourceName (fileStem name)⟩ := rfl

theorem isName_sourceName (hstem : '/' ∉ stem) : IsName (sourceName stem) :=
  isName_append hstem isExtension_source

theorem isName_settingsName (hstem : '/' ∉ stem) : IsName (settingsName stem) :=
  isName_append hstem isExtension_settings

def IsTemporary (stem name : List Char) : Prop :=
  name = temporaryName (sourceName stem) ∨ name = temporaryName (settingsName stem)

theorem sourceName_not_isTemporary {stem' : List Char} (hstem : '/' ∉ stem) (hstem' : '/' ∉ stem') :
    ¬ IsTemporary stem' (sourceName stem) := by
  rintro (heq | heq)
  · exact ne_temporaryName hstem isExtension_source hstem' isExtension_source (by decide) heq
  · exact ne_temporaryName hstem isExtension_source hstem' isExtension_settings (by decide) heq

theorem settingsName_not_isTemporary {stem' : List Char} (hstem : '/' ∉ stem)
    (hstem' : '/' ∉ stem') : ¬ IsTemporary stem' (settingsName stem) := by
  rintro (heq | heq)
  · exact ne_temporaryName hstem isExtension_settings hstem' isExtension_source (by decide) heq
  · exact ne_temporaryName hstem isExtension_settings hstem' isExtension_settings (by decide) heq

theorem sourceName_injective {stem' : List Char} (h : sourceName stem = sourceName stem') :
    stem = stem' :=
  List.append_cancel_right h

theorem settingsName_injective {stem' : List Char} (h : settingsName stem = settingsName stem') :
    stem = stem' :=
  List.append_cancel_right h

theorem sourceName_ne_settingsName (stem stem' : List Char) :
    sourceName stem ≠ settingsName stem' := by
  intro heq
  have hlast := congrArg List.getLast? heq
  simp [sourceName, settingsName, sourceExtension, settingsExtension] at hlast

end Store

end CraftLang
