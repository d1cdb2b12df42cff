import CraftLang.Disk.Basic
import CraftLang.Proofs.Disk.Paths

/-!
Places on a disk. A path leads to the same place as long as the folders on its way are there. In a
folder that a path leads to, the place of a further name depends on the name alone.
-/

namespace CraftLang

namespace Disk

variable {d d' : Disk} {place found : Place} {folder path : Path} {name : List Char}

/-- What holds of every disk: no place comes twice, and places are made of names. -/
structure Sound (d : Disk) : Prop where
  unique : (d.entries.map Prod.fst).Nodup
  named : ∀ found ∈ d.entries, ∀ name ∈ found.1, Path.IsName name
  home : ∀ name ∈ d.home, Path.IsName name

theorem Sound.erase (h : d.Sound) (place : Place) : (d.erase place).Sound where
  unique := h.unique.sublist (List.filter_sublist.map Prod.fst)
  named found hfound := h.named found (List.mem_filter.mp hfound).1
  home := h.home

theorem Sound.set (h : d.Sound) (hplace : ∀ name ∈ place, Path.IsName name) (entry : Entry) :
    (d.set place entry).Sound where
  unique := by
    refine List.nodup_cons.mpr ⟨fun hmem => ?_, (h.erase place).unique⟩
    obtain ⟨found, hfound, heq⟩ := List.mem_map.mp hmem
    have hne := (List.mem_filter.mp hfound).2
    rw [heq] at hne
    exact absurd rfl (bne_iff_ne.mp hne)
  named found hfound := by
    rcases List.mem_cons.mp hfound with rfl | hfound
    · exact hplace
    · exact (h.erase place).named found hfound
  home := h.home

theorem lookup_eq_some_iff_mem {entries : List (Place × Entry)} :
    (∃ entry, entries.lookup place = some entry) ↔ place ∈ entries.map Prod.fst := by
  induction entries with
  | nil => simp
  | cons found entries ih =>
      obtain ⟨other, entry⟩ := found
      by_cases h : place = other
      · simp [h]
      · have hne : (place == other) = false := beq_eq_false_iff_ne.mpr h
        simp only [List.lookup_cons, hne, List.map_cons, List.mem_cons, h, false_or]
        exact ih

/-- The top is a folder. -/
theorem ne_nil_of_lookup (h : d.lookup place ≠ some .folder) : place ≠ [] := fun hnil =>
  h (by rw [hnil]; rfl)

theorem append_singleton_ne (place : Place) {name name' : List Char} (h : name ≠ name') :
    place ++ [name] ≠ place ++ [name'] := fun heq =>
  h (List.singleton_inj.mp (List.append_cancel_left heq))

theorem lookup_erase_self (d : Disk) (h : place ≠ []) : (d.erase place).lookup place = none := by
  rw [lookup, if_neg h, List.lookup_eq_none_iff]
  intro found hfound
  have hne := (List.mem_filter.mp hfound).2
  exact bne_iff_ne.mpr (Ne.symm (bne_iff_ne.mp hne))

@[simp] theorem set_set (d : Disk) (place : Place) (entry entry' : Entry) :
    (d.set place entry).set place entry' = d.set place entry' := by
  simp [set, List.filter_filter]

@[simp] theorem erase_set (d : Disk) (place : Place) (entry : Entry) :
    (d.set place entry).erase place = d.erase place := by
  simp [set, erase, List.filter_filter]

/-! ### Following a path -/

theorem isName_of_follow {next : Place} {piece : List Char} (hslash : '/' ∉ piece)
    (hplace : ∀ name ∈ place, Path.IsName name) (h : d.follow place piece = .ok next) :
    ∀ name ∈ next, Path.IsName name := by
  unfold follow at h
  split at h
  · contradiction
  · contradiction
  split at h
  · cases h
    exact hplace
  · next hidle =>
      split at h
      · cases h
        exact fun name hname => hplace name (List.dropLast_subset _ hname)
      · next hup =>
          split at h
          · contradiction
          · cases h
            intro name hname
            rcases List.mem_append.mp hname with hname | hname
            · exact hplace name hname
            · rw [List.mem_singleton.mp hname]
              exact ⟨by simpa using hidle, hup, hslash⟩

theorem isName_of_foldlM {pieces : List (List Char)} {start : Place}
    (hpieces : ∀ piece ∈ pieces, '/' ∉ piece) (hstart : ∀ name ∈ start, Path.IsName name)
    (h : pieces.foldlM d.follow start = .ok place) : ∀ name ∈ place, Path.IsName name := by
  induction pieces generalizing start with
  | nil =>
      cases h
      exact hstart
  | cons piece pieces ih =>
      obtain ⟨hpiece, hothers⟩ := List.forall_mem_cons.mp hpieces
      rw [List.foldlM_cons] at h
      cases hnext : d.follow start piece with
      | error fault =>
          rw [hnext] at h
          cases h
      | ok next =>
          rw [hnext] at h
          exact ih hothers (isName_of_follow hpiece hstart hnext) h

/-- What a path must be to lead anywhere. -/
theorem locate_eq_ok_iff : d.locate path = .ok place ↔
    path.chars ≠ [] ∧ '\x00' ∉ path.chars ∧ Text.byteLength path.chars ≤ maxPathBytes ∧
      path.pieces.foldlM d.follow (if path.isAbsolute then [] else d.home) = .ok place := by
  unfold locate
  by_cases hempty : path.chars = []
  · simp [hempty]
  · by_cases hnul : '\x00' ∈ path.chars
    · simp [hempty, hnul]
    · by_cases hlong : maxPathBytes < Text.byteLength path.chars
      · simp [hempty, hnul, hlong, Nat.not_le_of_lt hlong]
      · simp [hempty, hnul, hlong, Nat.le_of_not_lt hlong]

theorem Sound.isName_of_locate (hd : d.Sound) (h : d.locate path = .ok place) :
    ∀ name ∈ place, Path.IsName name := by
  obtain ⟨-, -, -, hfold⟩ := locate_eq_ok_iff.mp h
  refine isName_of_foldlM (fun piece hpiece => Text.not_mem_of_mem_splitOn hpiece) ?_ hfold
  split
  · nofun
  · exact hd.home

theorem follow_of_folder (h : d.lookup place = some .folder) (h' : d'.lookup place = some .folder)
    (piece : List Char) : d'.follow place piece = d.follow place piece := by
  simp only [follow, h, h']

theorem folder_of_follow {next : Place} {piece : List Char} (h : d.follow place piece = .ok next) :
    d.lookup place = some .folder := by
  unfold follow at h
  split at h
  · contradiction
  · contradiction
  · next hfolder => exact hfolder

theorem foldlM_of_folders (hfolders : ∀ q, d.lookup q = some .folder → d'.lookup q = some .folder)
    {pieces : List (List Char)} {start : Place} (h : pieces.foldlM d.follow start = .ok place) :
    pieces.foldlM d'.follow start = .ok place := by
  induction pieces generalizing start with
  | nil => exact h
  | cons piece pieces ih =>
      rw [List.foldlM_cons] at h ⊢
      cases hnext : d.follow start piece with
      | error fault =>
          rw [hnext] at h
          cases h
      | ok next =>
          have hfolder := folder_of_follow hnext
          rw [follow_of_folder hfolder (hfolders start hfolder), hnext]
          rw [hnext] at h
          exact ih h

/-- A path goes on to lead where it leads as long as all folders are there. -/
theorem locate_of_folders (hfolders : ∀ q, d.lookup q = some .folder → d'.lookup q = some .folder)
    (hhome : d'.home = d.home) (h : d.locate path = .ok place) : d'.locate path = .ok place := by
  obtain ⟨hne, hnul, hlong, hfold⟩ := locate_eq_ok_iff.mp h
  rw [← hhome] at hfold
  exact locate_eq_ok_iff.mpr ⟨hne, hnul, hlong, foldlM_of_folders hfolders hfold⟩

/-! ### Folders -/

structure Opens (d : Disk) (folder : Path) (place : Place) : Prop where
  located : d.locate folder = .ok place
  isFolder : d.lookup place = some .folder

/-- A name leads from a folder to its place in the folder. -/
theorem eq_append_of_follow (hname : Path.IsName name) (h : d.follow place name = .ok found) :
    found = place ++ [name] := by
  simp only [follow, folder_of_follow h, hname.1, Bool.false_eq_true, if_false, hname.2.1] at h
  split at h
  · contradiction
  · exact (Except.ok.inj h).symm

/-- A path that ends in a name leads to the folder before the name first. -/
theorem exists_outer (hname : Path.IsName name) {front : List (List Char)}
    (hpieces : path.pieces = front ++ [name]) (h : d.locate path = .ok found) :
    ∃ outer, front.foldlM d.follow (if path.isAbsolute then [] else d.home) = .ok outer ∧
      found = outer ++ [name] ∧ d.lookup outer = some .folder := by
  obtain ⟨-, -, -, hfold⟩ := locate_eq_ok_iff.mp h
  rw [hpieces, List.foldlM_append] at hfold
  cases houter : front.foldlM d.follow (if path.isAbsolute then [] else d.home) with
  | error fault =>
      rw [houter] at hfold
      cases hfold
  | ok outer =>
      rw [houter] at hfold
      have hlast : d.follow outer name = .ok found := by
        rw [← hfold]
        exact (bind_pure (d.follow outer name)).symm
      exact ⟨outer, rfl, eq_append_of_follow hname hlast, folder_of_follow hlast⟩

/-- A folder whose path ends in a name is in a folder. -/
theorem Opens.outer (h : d.Opens folder place) (hfolder : folder.EndsInName) :
    ∃ outer name, place = outer ++ [name] ∧ d.lookup outer = some .folder := by
  obtain ⟨front, name, hpieces, hname⟩ := hfolder
  obtain ⟨outer, -, hplace, houter⟩ := exists_outer hname hpieces h.located
  exact ⟨outer, name, hplace, houter⟩

/-- Where a name leads to in a folder. -/
def within (folder : Path) (place : Place) (name : List Char) : Except FileFault Place :=
  if name.contains '\x00' then .error (.refused "file name contained an unexpected NUL byte")
  else if maxPathBytes < Text.byteLength (folder.join ⟨name⟩).chars then .error .nameTooLong
  else if Path.isIdle name then .ok place
  else if name = Path.upward then .ok place.dropLast
  else if maxNameBytes < Text.byteLength name then .error .nameTooLong
  else .ok (place ++ [name])

theorem Opens.locate_join (h : d.Opens folder place) (hfolder : folder.EndsInName)
    (hslash : '/' ∉ name) : d.locate (folder.join ⟨name⟩) = within folder place name := by
  obtain ⟨hne, hnul, -, hfold⟩ := locate_eq_ok_iff.mp h.located
  have hne' : (folder.join ⟨name⟩).chars.isEmpty = false := by
    simp [Path.join_name hfolder hslash, hne]
  have hnul' : (folder.join ⟨name⟩).chars.contains '\x00' = name.contains '\x00' := by
    simp [Path.join_name hfolder hslash, hnul]
  rw [locate, hne', hnul', Path.pieces_join hfolder hslash, Path.isAbsolute_join hfolder hslash,
    List.foldlM_append, hfold, within]
  have hlast : (do
      let found ← (.ok place : Except FileFault Place)
      [name].foldlM d.follow found) = d.follow place name := bind_pure (d.follow place name)
  rw [hlast, follow, h.isFolder]
  rfl

theorem within_eq_ok (hname : Path.IsName name) {found : Place}
    (h : within folder place name = .ok found) : found = place ++ [name] := by
  obtain ⟨hidle, hup, -⟩ := hname
  unfold within at h
  split at h
  · contradiction
  split at h
  · contradiction
  simp only [hidle, Bool.false_eq_true, if_false] at h
  split at h
  · contradiction
  · exact (Except.ok.inj h).symm

/-- Two dots lead from a folder to the folder that it is in. -/
theorem Opens.folder_of_upward (h : d.Opens folder place) (hfolder : folder.EndsInName)
    {found : Place} (hfound : within folder place Path.upward = .ok found) :
    d.lookup found = some .folder := by
  obtain ⟨outer, last, rfl, houter⟩ := h.outer hfolder
  have hidle : Path.isIdle Path.upward = false := by decide
  unfold within at hfound
  split at hfound
  · contradiction
  split at hfound
  · contradiction
  simp only [hidle, Bool.false_eq_true, if_false, if_true, List.dropLast_concat] at hfound
  rwa [← Except.ok.inj hfound]

/-! ### Files that come and go -/

structure SameFolders (d d' : Disk) : Prop where
  home : d'.home = d.home
  folders (place : Place) : d'.lookup place = some .folder ↔ d.lookup place = some .folder

namespace SameFolders

theorem refl (d : Disk) : SameFolders d d := ⟨rfl, fun _ => Iff.rfl⟩

theorem trans {d'' : Disk} (h : SameFolders d d') (h' : SameFolders d' d'') : SameFolders d d'' :=
  ⟨h'.home.trans h.home, fun place => (h'.folders place).trans (h.folders place)⟩

theorem set_file (hfree : d.lookup place ≠ some .folder) (bytes : List UInt8) :
    SameFolders d (d.set place (.file bytes)) where
  home := rfl
  folders other := by
    by_cases h : other = place
    · subst h
      simp [ne_nil_of_lookup hfree, hfree]
    · rw [lookup_set_of_ne d h]

theorem erase_file (hfree : d.lookup place ≠ some .folder) :
    SameFolders d (d.erase place) where
  home := rfl
  folders other := by
    by_cases h : other = place
    · subst h
      simp [lookup_erase_self d (ne_nil_of_lookup hfree), hfree]
    · rw [lookup_erase_of_ne d h]

theorem locate_iff (h : SameFolders d d') :
    d'.locate path = .ok place ↔ d.locate path = .ok place :=
  ⟨locate_of_folders (fun q => (h.folders q).mp) h.home.symm,
    locate_of_folders (fun q => (h.folders q).mpr) h.home⟩

theorem opens_iff (h : SameFolders d d') : d'.Opens folder place ↔ d.Opens folder place :=
  ⟨fun ⟨hlocated, hfolder⟩ => ⟨h.locate_iff.mp hlocated, (h.folders place).mp hfolder⟩,
    fun ⟨hlocated, hfolder⟩ => ⟨h.locate_iff.mpr hlocated, (h.folders place).mpr hfolder⟩⟩

end SameFolders

theorem create_eq_ok (h : d.create path = .ok d') :
    ∃ place, d.locate path = .ok place ∧ d.lookup place ≠ some .folder ∧
      d' = d.set place (.file []) := by
  unfold create at h
  cases hplace : d.locate path with
  | error fault =>
      rw [hplace] at h
      cases h
  | ok place =>
      by_cases hfree : d.lookup place = some .folder
      · simp [hplace, bind, Except.bind, hasFolder, hfree] at h
      · simp only [hplace, bind, Except.bind, hasFolder, beq_iff_eq, hfree, if_false,
          Except.ok.injEq] at h
        exact ⟨place, rfl, hfree, h.symm⟩

theorem read_eq_ok_iff {bytes : List UInt8} : d.read path = .ok bytes ↔
    ∃ place, d.locate path = .ok place ∧ d.lookup place = some (.file bytes) := by
  unfold read entryAt
  cases hplace : d.locate path with
  | error fault => simp [bind, Except.bind]
  | ok place =>
      simp only [bind, Except.bind, Except.ok.injEq, exists_eq_left']
      rcases d.lookup place with _ | (bytes' | _) <;> simp

theorem append_eq_ok {bytes : List UInt8} (h : d.append path bytes = .ok d') :
    ∃ place before, d.locate path = .ok place ∧ d.lookup place = some (.file before) ∧
      d' = d.set place (.file (before ++ bytes)) := by
  unfold append at h
  cases hread : d.read path with
  | error fault =>
      rw [hread] at h
      cases h
  | ok before =>
      obtain ⟨place, hplace, hfile⟩ := read_eq_ok_iff.mp hread
      simp only [hread, hplace, bind, Except.bind, Except.ok.injEq] at h
      exact ⟨place, before, hplace, hfile, h.symm⟩

theorem rename_eq_ok {target : Path} (h : d.rename path target = .ok d') :
    ∃ start place bytes, d.locate path = .ok start ∧ d.lookup start = some (.file bytes) ∧
      d.locate target = .ok place ∧ d.lookup place ≠ some .folder ∧
        d' = (d.erase start).set place (.file bytes) := by
  unfold rename at h
  cases hread : d.read path with
  | error fault =>
      rw [hread] at h
      cases h
  | ok bytes =>
      obtain ⟨start, hstart, hfile⟩ := read_eq_ok_iff.mp hread
      cases hplace : d.locate target with
      | error fault =>
          simp only [hread, hstart, hplace, bind, Except.bind] at h
          cases h
      | ok place =>
          by_cases hfree : d.lookup place = some .folder
          · simp [hread, hstart, hplace, bind, Except.bind, hasFolder, hfree] at h
          · simp only [hread, hstart, hplace, bind, Except.bind, hasFolder, beq_iff_eq, hfree,
              if_false, Except.ok.injEq] at h
            exact ⟨start, place, bytes, hstart, hfile, rfl, hfree, h.symm⟩

/-! ### Names in a folder -/

def nameIn? (place found : Place) : Option (List Char) :=
  match found.getLast? with
  | some name => if found.dropLast = place then some name else none
  | none => none

def namesIn (d : Disk) (place : Place) : List (List Char) :=
  (d.entries.map Prod.fst).filterMap (nameIn? place)

theorem nameIn?_eq_some_iff {found : Place} :
    nameIn? place found = some name ↔ found = place ++ [name] := by
  rcases List.eq_nil_or_concat found with rfl | ⟨outer, last, rfl⟩
  · simp [nameIn?]
  · have hends : outer ++ [last] = place ++ [name] ↔ outer = place ∧ last = name := by
      refine ⟨fun heq => ?_, fun ⟨houter, hlast⟩ => by rw [houter, hlast]⟩
      obtain ⟨houter, hlast⟩ := List.append_inj' heq rfl
      exact ⟨houter, List.singleton_inj.mp hlast⟩
    simp [nameIn?, hends]

theorem Opens.names (h : d.Opens folder place) :
    d.names folder = .ok ((d.namesIn place).map String.ofList) := by
  have hname (found : Place) : (match found.getLast? with
      | some name => if found.dropLast = place then some (String.ofList name) else none
      | none => none) = (nameIn? place found).map String.ofList := by
    unfold nameIn?
    cases found.getLast? with
    | none => rfl
    | some name => by_cases hplace : found.dropLast = place <;> simp [hplace]
  rw [Disk.names, h.located, namesIn, List.map_filterMap, List.filterMap_map]
  simp only [bind, Except.bind, h.isFolder]
  refine congrArg (fun name? => Except.ok (d.entries.filterMap name?)) ?_
  funext found
  exact hname found.1

theorem opens_of_names {names : List String} (h : d.names folder = .ok names) :
    ∃ place, d.Opens folder place := by
  unfold Disk.names at h
  cases hplace : d.locate folder with
  | error fault =>
      rw [hplace] at h
      cases h
  | ok place =>
      rw [hplace] at h
      simp only [bind, Except.bind] at h
      split at h
      · contradiction
      · contradiction
      · next hfolder => exact ⟨place, hplace, hfolder⟩

theorem mem_namesIn : name ∈ d.namesIn place ↔ d.lookup (place ++ [name]) ≠ none := by
  have hne : place ++ [name] ≠ [] := by simp
  rw [lookup, if_neg hne, ← Option.isSome_iff_ne_none, Option.isSome_iff_exists,
    lookup_eq_some_iff_mem, namesIn, List.mem_filterMap]
  simp [nameIn?_eq_some_iff]

theorem Sound.nodup_namesIn (hd : d.Sound) (place : Place) : (d.namesIn place).Nodup := by
  refine List.Pairwise.filterMap (nameIn? place)
    (fun found other hne name hname name' hname' heq => ?_) hd.unique
  rw [nameIn?_eq_some_iff] at hname hname'
  exact hne (by rw [hname, hname', heq])

theorem Sound.isName_of_mem (hd : d.Sound) (h : name ∈ d.namesIn place) : Path.IsName name := by
  obtain ⟨place', hmem, hname⟩ := List.mem_filterMap.mp h
  obtain ⟨found, hfound, rfl⟩ := List.mem_map.mp hmem
  exact hd.named found hfound name (by simp [nameIn?_eq_some_iff.mp hname])

end Disk

end CraftLang
