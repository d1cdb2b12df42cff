import CraftLang.Disk.Path

/-!
Paths in a folder: the path of a folder and one more name. What belongs to such a path, its name and
extension, its folder and the path with another extension, is found from the name alone.
-/

namespace CraftLang

open Text

namespace Path

/-- What can be the name of a file: a piece that leads neither nowhere nor up. -/
def IsName (name : List Char) : Prop :=
  isIdle name = false ∧ name ≠ upward ∧ '/' ∉ name

instance (name : List Char) : Decidable (IsName name) :=
  inferInstanceAs (Decidable (_ ∧ _ ∧ _))

def EndsInName (p : Path) : Prop :=
  ∃ front name, p.pieces = front ++ [name] ∧ IsName name

variable {folder : Path} {name : List Char}

theorem joinWith_pieces (p : Path) : joinWith ['/'] p.pieces = p.chars := by
  rw [pieces, joinWith_splitOn]

theorem EndsInName.chars_ne_nil (h : folder.EndsInName) : folder.chars ≠ [] := by
  obtain ⟨front, last, hpieces, hlast, -⟩ := h
  intro hnil
  rw [pieces, hnil] at hpieces
  have hpieces : [] ++ [[]] = front ++ [last] := hpieces
  obtain ⟨-, hend⟩ := List.append_inj' hpieces rfl
  rw [← List.singleton_inj.mp hend] at hlast
  exact absurd hlast (by decide)

theorem EndsInName.getLast?_ne (h : folder.EndsInName) : folder.chars.getLast? ≠ some '/' := by
  obtain ⟨front, last, hpieces, hlast, -⟩ := h
  intro hslash
  obtain ⟨cs, hcs⟩ := List.getLast?_eq_some_iff.mp hslash
  rw [pieces, hcs, splitOn_append_cons] at hpieces
  obtain ⟨-, hend⟩ := List.append_inj' hpieces rfl
  rw [← List.singleton_inj.mp hend] at hlast
  exact absurd hlast (by decide)

theorem not_isAbsolute (h : '/' ∉ name) : isAbsolute ⟨name⟩ = false := by
  cases name with
  | nil => rfl
  | cons c cs =>
      have hc : ('/' == c) = false := beq_eq_false_iff_ne.mpr fun heq => h (by
        rw [heq]
        exact List.mem_cons_self)
      simp [isAbsolute, List.isPrefixOf, hc]

theorem join_name (hfolder : folder.EndsInName) (h : '/' ∉ name) :
    folder.join ⟨name⟩ = ⟨folder.chars ++ '/' :: name⟩ := by
  have hne : folder.chars.isEmpty = false := by simpa using hfolder.chars_ne_nil
  rw [join, not_isAbsolute h, hne, Bool.or_self, if_neg Bool.false_ne_true,
    if_neg hfolder.getLast?_ne]

theorem pieces_join (hfolder : folder.EndsInName) (h : '/' ∉ name) :
    (folder.join ⟨name⟩).pieces = folder.pieces ++ [name] := by
  rw [join_name hfolder h, pieces, splitOn_append_cons, splitOn_of_not_mem h]
  rfl

theorem isAbsolute_join (hfolder : folder.EndsInName) (h : '/' ∉ name) :
    (folder.join ⟨name⟩).isAbsolute = folder.isAbsolute := by
  obtain ⟨c, cs, hcs⟩ := List.exists_cons_of_ne_nil hfolder.chars_ne_nil
  rw [join_name hfolder h, isAbsolute, isAbsolute, hcs]
  simp [List.isPrefixOf]

/-- A name in any folder: what comes before it is told by the folder. -/
theorem exists_pieces_join (folder : Path) :
    ∃ front, ∀ name : List Char, name ≠ [] → '/' ∉ name →
      (folder.join ⟨name⟩).pieces = front ++ [name] ∧
        (folder.join ⟨name⟩).isAbsolute = folder.isAbsolute := by
  by_cases hempty : folder.chars = []
  · refine ⟨[], fun name _ hslash => ?_⟩
    have hjoin : folder.join ⟨name⟩ = ⟨name⟩ := by simp [join, hempty]
    rw [hjoin]
    refine ⟨splitOn_of_not_mem hslash, ?_⟩
    rw [not_isAbsolute hslash, isAbsolute, hempty]
    rfl
  · obtain ⟨c, cs, hcs⟩ := List.exists_cons_of_ne_nil hempty
    have habsolute (rest : List Char) : isAbsolute ⟨folder.chars ++ rest⟩ = folder.isAbsolute := by
      rw [isAbsolute, isAbsolute, hcs]
      simp [List.isPrefixOf]
    by_cases hlast : folder.chars.getLast? = some '/'
    · obtain ⟨front, hfront⟩ := List.getLast?_eq_some_iff.mp hlast
      refine ⟨splitOn '/' front, fun name _ hslash => ?_⟩
      have hjoin : folder.join ⟨name⟩ = ⟨folder.chars ++ name⟩ := by
        simp [join, not_isAbsolute hslash, hempty, hlast]
      rw [hjoin]
      refine ⟨?_, habsolute name⟩
      rw [pieces, hfront, List.append_assoc, List.singleton_append, splitOn_append_cons,
        splitOn_of_not_mem hslash]
    · refine ⟨folder.pieces, fun name _ hslash => ?_⟩
      have hjoin : folder.join ⟨name⟩ = ⟨folder.chars ++ '/' :: name⟩ := by
        simp [join, not_isAbsolute hslash, hempty, hlast]
      rw [hjoin]
      refine ⟨?_, habsolute _⟩
      rw [pieces, splitOn_append_cons, splitOn_of_not_mem hslash]
      rfl

theorem join_injective {other : List Char} (hfolder : folder.EndsInName) (h : '/' ∉ name)
    (hother : '/' ∉ other) (heq : folder.join ⟨name⟩ = folder.join ⟨other⟩) : name = other := by
  have hpieces := congrArg pieces heq
  rw [pieces_join hfolder h, pieces_join hfolder hother] at hpieces
  exact List.singleton_inj.mp (List.append_cancel_left hpieces)

theorem splitName?_join (hfolder : folder.EndsInName) (h : IsName name) :
    (folder.join ⟨name⟩).splitName? = some (folder.pieces, name, []) := by
  obtain ⟨hidle, hup, hslash⟩ := h
  simp [splitName?, pieces_join hfolder hslash, hidle, hup]

theorem extension?_join (hfolder : folder.EndsInName) (h : IsName name) :
    (folder.join ⟨name⟩).extension? = (splitExtension name).2 := by
  rw [extension?, name?, splitName?_join hfolder h]
  rfl

theorem joinWith_append_singleton {pieces : List (List Char)} (h : pieces ≠ []) (name : List Char) :
    joinWith ['/'] (pieces ++ [name]) = joinWith ['/'] pieces ++ '/' :: name := by
  induction pieces with
  | nil => exact absurd rfl h
  | cons piece pieces ih =>
      cases pieces with
      | nil => simp [joinWith]
      | cons next pieces =>
          have hih := ih (List.cons_ne_nil _ _)
          rw [List.cons_append] at hih
          simp only [List.cons_append, joinWith, hih, List.append_assoc]

theorem withExtension_join (hfolder : folder.EndsInName) (h : IsName name) {extension : List Char}
    (hslash : '/' ∉ renamed name extension false) :
    (folder.join ⟨name⟩).withExtension extension = folder.join ⟨renamed name extension false⟩ := by
  have hne : folder.pieces ≠ [] := splitOn_ne_nil _ _
  rw [withExtension, splitName?_join hfolder h, join_name hfolder hslash,
    ← joinWith_pieces, ← joinWith_append_singleton hne]
  rfl

/-! ### Extensions -/

variable {stem extension : List Char}

theorem splitExtension_append (hstem : stem ≠ []) (h : '.' ∉ extension) :
    splitExtension (stem ++ '.' :: extension) = (stem, some extension) := by
  have hall : ∀ c ∈ extension.reverse, (c != '.') = true := fun c hc =>
    bne_iff_ne.mpr fun heq => h (by rw [← heq]; exact List.mem_reverse.mp hc)
  obtain ⟨c, cs, hcs⟩ := List.exists_cons_of_ne_nil (List.reverse_ne_nil_iff.mpr hstem)
  simp [splitExtension, List.takeWhile_append_of_pos hall, List.dropWhile_append_of_pos hall, hcs]
  simpa using congrArg List.reverse hcs.symm

theorem splitExtension_dot (h : '.' ∉ extension) :
    splitExtension ('.' :: extension) = ('.' :: extension, none) := by
  have hall : ∀ c ∈ extension.reverse, (c != '.') = true := fun c hc =>
    bne_iff_ne.mpr fun heq => h (by rw [← heq]; exact List.mem_reverse.mp hc)
  simp [splitExtension, List.dropWhile_append_of_pos hall]

/-- A name with an extension is its stem, which is not empty, a dot and the extension. -/
theorem eq_append_of_splitExtension (h : (splitExtension name).2 = some extension) :
    (splitExtension name).1 ≠ [] ∧ '.' ∉ extension ∧
      name = (splitExtension name).1 ++ '.' :: extension := by
  have hback := List.takeWhile_append_dropWhile (p := (· != '.')) (l := name.reverse)
  rw [splitExtension] at h ⊢
  split at h
  · contradiction
  · contradiction
  · next dot stem hone hdrop =>
      have hdot : dot = '.' := by
        have hhead := List.head?_dropWhile_not (· != '.') name.reverse
        rw [hdrop] at hhead
        simpa using hhead
      obtain rfl := Option.some.inj h
      rw [hdrop, hdot] at hback
      have hname := congrArg List.reverse hback
      simp only [List.reverse_append, List.reverse_cons, List.reverse_reverse, List.append_assoc,
        List.singleton_append] at hname
      refine ⟨fun hnil => hone (List.reverse_eq_nil_iff.mp hnil), fun hmem => ?_, hname.symm⟩
      have hall := List.all_takeWhile (p := (· != '.')) (l := name.reverse)
      have hne := List.all_eq_true.mp hall '.' (List.mem_reverse.mp hmem)
      exact absurd rfl (bne_iff_ne.mp hne)

theorem renamed_append (hstem : stem ≠ []) (hdot : stem ≠ ['.']) (h : '.' ∉ extension)
    (other : List Char) :
    renamed (stem ++ '.' :: extension) other false = stem ++ '.' :: other := by
  rw [renamed, splitExtension_append hstem h]
  split
  · next heq => exact absurd (congrArg Prod.fst heq) hdot
  · next heq =>
      obtain ⟨rfl, -⟩ := Prod.mk.inj heq
      rfl

/-- A name that is nothing but an extension keeps it. -/
theorem renamed_dot (h : '.' ∉ extension) (other : List Char) :
    renamed ('.' :: extension) other false = '.' :: extension ++ '.' :: other := by
  rw [renamed, splitExtension_dot h]
  split
  · next heq => cases heq
  · next heq =>
      obtain ⟨rfl, -⟩ := Prod.mk.inj heq
      rfl

end Path

end CraftLang
