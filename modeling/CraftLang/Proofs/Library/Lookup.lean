import CraftLang.Library.Registry
import CraftLang.Proofs.Text.Case

/-!
Looking macros up by name. A lookup drops the blanks around the name that it is given; a removal
does not, and neither of them drops those around the name of a macro. So a macro with no blanks
around its name is found by it, and is not found any more once the name is removed. With blanks
around a name, no lookup finds its macro, and removing the name leaves all macros that a lookup of
it finds.
-/

namespace CraftLang

namespace Registry

open Text

/-! ### Changes -/

inductive Change where
  | insert (stored : StoredMacro)
  | remove (name : String)

def apply (registry : Registry) : Change → Registry
  | .insert stored => registry.insert stored
  | .remove name => registry.remove name

def ofChanges (changes : List Change) : Registry :=
  changes.foldl apply []

def Change.removes (stored : StoredMacro) : Change → Bool
  | .insert _ => false
  | .remove name => equalIgnoringCase stored.name name

/-- The macros that are inserted and that no later change removes, in the order of their
insertion. -/
def standing : List Change → List StoredMacro
  | [] => []
  | .insert stored :: later =>
    if later.any (Change.removes stored) then standing later else stored :: standing later
  | .remove _ :: later => standing later

theorem foldl_apply (registry : Registry) (changes : List Change) :
    changes.foldl apply registry =
      registry.filter (fun stored => !changes.any (Change.removes stored)) ++ standing changes := by
  induction changes generalizing registry with
  | nil =>
      rw [standing, List.append_nil]
      exact (List.filter_eq_self.mpr fun _ _ => rfl).symm
  | cons change later ih =>
      rw [List.foldl_cons, ih]
      cases change with
      | insert stored =>
          have hinsert : apply registry (.insert stored) = registry ++ [stored] := rfl
          rw [hinsert, List.filter_append, List.append_assoc, standing]
          cases hremoved : later.any (Change.removes stored) <;>
            simp [hremoved, Change.removes]
      | remove name =>
          have hremove : apply registry (.remove name) =
              registry.filter (fun stored => !equalIgnoringCase stored.name name) := rfl
          rw [hremove, List.filter_filter, standing]
          congr 2
          funext stored
          simp [Change.removes, Bool.and_comm]

theorem ofChanges_eq (changes : List Change) : ofChanges changes = standing changes :=
  foldl_apply [] changes

theorem ofChanges_append_remove (changes : List Change) (name : String) :
    ofChanges (changes ++ [.remove name]) = (ofChanges changes).remove name :=
  List.foldl_append

/-! ### Lookups after removals -/

variable (registry : Registry) (name : String)

theorem find_eq : registry.find name =
    registry.filter fun stored => sameName stored.name name && isTrimmed stored.name := by
  unfold find StoredMacro.isNamed
  simp only [equalIgnoringCase_trimmed]

/-- A lookup finds what it found before another name was removed. The names are compared as a lookup
does it, without the blanks around the one that is looked for. -/
theorem find_remove_of_ne {other : String} (h : equalIgnoringCase name (trimmed other) = false) :
    (registry.remove name).find other = registry.find other := by
  unfold find remove StoredMacro.isNamed
  rw [List.filter_filter]
  refine List.filter_congr fun stored _ => ?_
  cases hfound : equalIgnoringCase stored.name (trimmed other) with
  | false => rfl
  | true =>
      rw [Bool.true_and, Bool.not_eq_true', Bool.eq_false_iff]
      intro hremoved
      rw [equalIgnoringCase_iff] at hfound hremoved
      rw [equalIgnoringCase_iff.mpr (hremoved.symm.trans hfound)] at h
      cases h

/-- Removing a name without outer blanks removes what a lookup of the name finds, and removing one
with outer blanks nothing of it. -/
theorem find_remove : (registry.remove name).find name =
    if isTrimmed name then [] else registry.find name := by
  split
  · next htrimmed =>
      unfold find remove StoredMacro.isNamed
      rw [List.filter_filter, beq_iff_eq.mp htrimmed]
      simp
  · next hblanks =>
      refine find_remove_of_ne _ _ ?_
      rw [equalIgnoringCase_trimmed, Bool.eq_false_iff.mpr hblanks, Bool.and_false]

/-- What lookups find after any changes: of the macros that are inserted and not removed since,
those with the name that is looked for, up to case and outer blanks, unless there are blanks around
their own name. So a macro is found by its own name just if there are none. After a name is removed
a lookup of it finds nothing if there are no blanks around it, and what it found before if there are
some. Lookups of other names find what they found. -/
theorem find_ofChanges (changes : List Change) (name : String) :
    (ofChanges changes).find name = (standing changes).filter
      (fun stored => sameName stored.name name && isTrimmed stored.name) ∧
    (∀ stored ∈ standing changes,
      stored ∈ (ofChanges changes).find stored.name ↔ isTrimmed stored.name = true) ∧
    (ofChanges (changes ++ [.remove name])).find name =
      (if isTrimmed name then [] else (ofChanges changes).find name) ∧
    ∀ other, sameName name other = false →
      (ofChanges (changes ++ [.remove name])).find other = (ofChanges changes).find other := by
  refine ⟨?_, fun stored hstored => ?_, ?_, fun other hother => ?_⟩
  · rw [find_eq, ofChanges_eq]
  · have hown : sameName stored.name stored.name = true := equalIgnoringCase_refl _
    rw [find_eq, List.mem_filter, hown, Bool.true_and, ofChanges_eq, and_iff_right hstored]
  · rw [ofChanges_append_remove, find_remove]
  · rw [ofChanges_append_remove, find_remove_of_ne]
    rw [equalIgnoringCase_trimmed, hother, Bool.false_and]

def tonic : StoredMacro := { name := "Tonic", contents := "/echo tonic" }

def brew : StoredMacro := { name := " Brew ", contents := "/echo brew" }

theorem find_ofChanges_tonic :
    tonic ∈ standing [.insert tonic, .remove "brew", .insert brew] ∧
    tonic ∈ (ofChanges [.insert tonic, .remove "brew", .insert brew]).find "Tonic" ∧
    sameName " brew" "TONIC" = false ∧
    (ofChanges ([.insert tonic, .remove "brew", .insert brew] ++ [.remove " brew"])).find "TONIC" =
      [tonic] := by
  have hstands : tonic ∈ standing [.insert tonic, .remove "brew", .insert brew] := by decide
  obtain ⟨hfind, hown, -, hother⟩ :=
    find_ofChanges [.insert tonic, .remove "brew", .insert brew] " brew"
  refine ⟨hstands, (hown tonic hstands).mpr (by decide), by decide, ?_⟩
  rw [hother "TONIC" (by decide)]
  decide

/-- No lookup finds a macro with blanks around its name, not even one of that name; and a macro is
still found by a name with blanks around it after that name is removed. -/
theorem find_misses_and_remove_leaves :
    brew ∈ standing [.insert brew] ∧ (ofChanges [.insert brew]).find " Brew " = [] ∧
    (ofChanges [.insert tonic, .remove " tonic"]).find " tonic" = [tonic] := by
  decide

end Registry

end CraftLang
