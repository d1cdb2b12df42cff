import CraftLang.Proofs.Disk.Places
import CraftLang.Proofs.Store.Mishaps

/-!
Making the folders on the way to a folder. Only folders are made, where there was nothing before. If
the folder is there already, nothing happens.
-/

namespace CraftLang

open Disk

variable {d d' d'' : Disk} {place : Place} {folder path : Path}

structure Disk.Grown (d d' : Disk) : Prop where
  home : d'.home = d.home
  lookup (place : Place) : d'.lookup place = d.lookup place ∨
    (d.lookup place = none ∧ d'.lookup place = some .folder)

namespace Disk

theorem Grown.refl (d : Disk) : Grown d d := ⟨rfl, fun _ => .inl rfl⟩

theorem Grown.trans (h : Grown d d') (h' : Grown d' d'') : Grown d d'' where
  home := h'.home.trans h.home
  lookup place := by
    rcases h.lookup place with hsame | ⟨hnone, hmade⟩
    · rcases h'.lookup place with hsame' | ⟨hnone, hmade⟩
      · exact .inl (hsame'.trans hsame)
      · exact .inr ⟨hsame.symm.trans hnone, hmade⟩
    · rcases h'.lookup place with hsame' | ⟨hnone', -⟩
      · exact .inr ⟨hnone, hsame'.trans hmade⟩
      · rw [hmade] at hnone'
        contradiction

theorem Grown.keeps_folder (h : Grown d d') {q : Place} (hq : d.lookup q = some .folder) :
    d'.lookup q = some .folder := by
  rcases h.lookup q with hsame | ⟨-, hmade⟩
  · rw [hsame, hq]
  · exact hmade

theorem makeFolder_eq_ok (h : d.makeFolder path = .ok d') :
    ∃ place, d.locate (if path.chars.all (· == '/') then path else dropSlashes path) = .ok place ∧
      d.lookup place = none ∧ d' = d.set place .folder := by
  unfold makeFolder at h
  cases hplace : d.locate (if path.chars.all (· == '/') then path else dropSlashes path) with
  | error fault =>
      simp only [hplace, bind, Except.bind] at h
      contradiction
  | ok place =>
      simp only [hplace, bind, Except.bind] at h
      split at h
      · contradiction
      · next hnone => exact ⟨place, rfl, hnone, (Except.ok.inj h).symm⟩

theorem grown_of_makeFolder (h : d.makeFolder path = .ok d') : Grown d d' := by
  obtain ⟨place, -, hnone, rfl⟩ := makeFolder_eq_ok h
  have hne : place ≠ [] := ne_nil_of_lookup (by rw [hnone]; simp)
  refine ⟨rfl, fun other => ?_⟩
  by_cases hother : other = place
  · rw [hother]
    exact .inr ⟨hnone, lookup_set_self d hne _⟩
  · exact .inl (lookup_set_of_ne d hother _)

/-- What the calls of programs leave of a disk is a disk. -/
theorem Sound.answer (hd : d.Sound) (call : FileCall) : (d.answer call).2.Sound := by
  have hchanged {made : Except FileFault Disk} (hmade : ∀ d', made = .ok d' → d'.Sound) :
      (d.changed made).2.Sound := by
    cases made with
    | error fault => exact hd
    | ok d' => exact hmade d' rfl
  cases call with
  | makeFolder path =>
      refine hchanged fun d' h => ?_
      obtain ⟨place, hplace, -, rfl⟩ := makeFolder_eq_ok h
      exact hd.set (hd.isName_of_locate hplace) _
  | create path =>
      refine hchanged fun d' h => ?_
      obtain ⟨place, hplace, -, rfl⟩ := create_eq_ok h
      exact hd.set (hd.isName_of_locate hplace) _
  | append path bytes =>
      refine hchanged fun d' h => ?_
      obtain ⟨place, before, hplace, -, rfl⟩ := append_eq_ok h
      exact hd.set (hd.isName_of_locate hplace) _
  | rename source target =>
      refine hchanged fun d' h => ?_
      obtain ⟨start, place, bytes, -, -, hplace, -, rfl⟩ := rename_eq_ok h
      exact (hd.erase start).set (hd.isName_of_locate hplace) _
  | «exists» | isFolder | names | read | sync | openFolder | syncFolder => exact hd

theorem dropSlashes_of_endsInName (hfolder : folder.EndsInName) : dropSlashes folder = folder := by
  obtain ⟨cs, c, hcs⟩ : ∃ cs c, folder.chars = cs ++ [c] :=
    ⟨_, _, (List.dropLast_concat_getLast hfolder.chars_ne_nil).symm⟩
  have hc : c ≠ '/' := fun heq => hfolder.getLast?_ne (by simp [hcs, heq])
  have hchars : (folder.chars.reverse.dropWhile (· == '/')).reverse = folder.chars := by
    simp [hcs, hc]
  rw [dropSlashes, hchars]

/-- A folder that is there is not made again. -/
theorem Opens.makeFolder (h : d.Opens folder place) (hfolder : folder.EndsInName) :
    d.makeFolder folder = .error .alreadyThere := by
  rw [Disk.makeFolder, dropSlashes_of_endsInName hfolder, ite_self, h.located]
  simp only [bind, Except.bind, h.isFolder]

/-- A folder that has been made is there. -/
theorem opens_of_makeFolder (hfolder : folder.EndsInName) (h : d.makeFolder folder = .ok d') :
    ∃ place, d'.Opens folder place := by
  have hgrown := grown_of_makeFolder h
  obtain ⟨place, hplace, hnone, rfl⟩ := makeFolder_eq_ok h
  rw [dropSlashes_of_endsInName hfolder, ite_self] at hplace
  have hne : place ≠ [] := ne_nil_of_lookup (by rw [hnone]; simp)
  exact ⟨place, locate_of_folders (fun q => hgrown.keeps_folder) hgrown.home hplace,
    lookup_set_self d hne _⟩

theorem opens_of_entryAt (h : d.entryAt folder = .ok .folder) : ∃ place, d.Opens folder place := by
  unfold entryAt at h
  cases hplace : d.locate folder with
  | error fault =>
      rw [hplace] at h
      cases h
  | ok place =>
      rw [hplace] at h
      simp only [bind, Except.bind] at h
      split at h
      · next hentry => exact ⟨place, hplace, hentry.trans (congrArg some (Except.ok.inj h))⟩
      · contradiction

end Disk

namespace FileProgram

def IsFolderCall (call : FileCall) : Prop :=
  ∃ path, call = .makeFolder path ∨ call = .isFolder path

theorem makeFolder_asks (path : Path) : (makeFolder path).Asks IsFolderCall := by
  refine ⟨⟨path, .inl rfl⟩, fun reply => ?_⟩
  rcases reply with fault | _
  · exact ⟨⟨path, .inr rfl⟩, fun _ => trivial⟩
  · trivial

theorem makeFolders_asks (paths : List Path) : (makeFolders paths).Asks IsFolderCall := by
  induction paths with
  | nil => trivial
  | cons path parents ih =>
      rw [makeFolders]
      split
      · trivial
      · refine (makeFolder_asks path).bind fun result => ?_
        split
        · refine ih.bind fun result => ?_
          split
          · exact makeFolder_asks path
          · trivial
        · trivial

theorem grown_of_leaves {paths : List Path} {result : Option (Except FileFault Unit)}
    (h : Leaves (makeFolders paths) d result d') : Grown d d' := by
  refine h.keeps Grown.refl Grown.trans (fun call d hcall => ?_) ?_ (makeFolders_asks paths)
  · obtain ⟨path, rfl | rfl⟩ := hcall
    · cases hmade : d.makeFolder path with
      | error fault =>
          have hsame : (d.answer (.makeFolder path)).2 = d := by
            simp only [answer, hmade, changed]
          rw [hsame]
          exact .refl d
      | ok made =>
          have hmade' : (d.answer (.makeFolder path)).2 = made := by
            simp only [answer, hmade, changed]
          rw [hmade']
          exact grown_of_makeFolder hmade
    · exact .refl d
  · rintro path written unwritten ⟨path', h | h⟩ <;> cases h

/-- What a program leaves of a disk is a disk. -/
theorem Leaves.sound {α : Type} {program : FileProgram α} {result : Option α}
    (h : Leaves program d result d') (hd : d.Sound) : d'.Sound :=
  h.keeps (Q := fun _ => True) (R := fun d d' => d.Sound → d'.Sound) (fun _ => id)
    (fun h h' => h' ∘ h) (fun call _ _ hd => hd.answer call) (fun _ _ _ _ => trivial)
    (Program.asks_of_forall fun _ => trivial) hd

/-- A folder that is there is looked at, and nothing is done about it. -/
theorem leaves_makeFolder_open {result : Option (Except FileFault Unit)}
    (h : Leaves (makeFolder folder) d result d') (hopen : d.Opens folder place)
    (hfolder : folder.EndsInName) : d' = d ∧ result ≠ some (.error .missing) := by
  have hdone {fault : FileFault} (hfault : fault ≠ .missing) (isFolder : Bool)
      (h : Leaves (.done (if isFolder then .ok () else .error fault)) d result d') :
      d' = d ∧ result ≠ some (.error .missing) := by
    cases h with
    | stopped => exact ⟨rfl, nofun⟩
    | done => cases isFolder <;> simp [hfault]
  have hlook (fault : FileFault) (hfault : fault ≠ .missing)
      (h : Leaves (.call (.isFolder folder) fun (isFolder : Bool) =>
        .done (if isFolder then .ok () else .error fault)) d result d') :
      d' = d ∧ result ≠ some (.error .missing) := by
    cases h with
    | stopped => exact ⟨rfl, nofun⟩
    | answered h => exact hdone hfault _ h
    | failed reason h => exact hdone hfault _ h
  cases h with
  | stopped => exact ⟨rfl, nofun⟩
  | answered h =>
      simp only [answer, hopen.makeFolder hfolder, changed] at h
      exact hlook .alreadyThere (by decide) h
  | failed reason h => exact hlook (.refused reason) (fun h => FileFault.noConfusion h) h

theorem leaves_makeFolders_open {parents : List Path} {result : Option (Except FileFault Unit)}
    (h : Leaves (makeFolders (folder :: parents)) d result d') (hopen : d.Opens folder place)
    (hfolder : folder.EndsInName) : d' = d := by
  have hne : folder.chars.isEmpty = false := by simpa using hfolder.chars_ne_nil
  simp only [makeFolders, hne, Bool.false_eq_true, if_false] at h
  rcases h.bind_cases with ⟨-, hfirst⟩ | ⟨made, d₁, hfirst, hrest⟩
  · exact (leaves_makeFolder_open hfirst hopen hfolder).1
  · obtain ⟨rfl, hfound⟩ := leaves_makeFolder_open hfirst hopen hfolder
    split at hrest
    · exact absurd rfl hfound
    · cases hrest <;> rfl

theorem answer_isFolder (d : Disk) (path : Path) :
    (d.answer (.isFolder path)).1 = true ↔ d.entryAt path = .ok .folder := by
  simp only [answer]
  split
  · next h => exact ⟨fun _ => h, fun _ => rfl⟩
  · next h => exact ⟨fun hno => absurd hno Bool.false_ne_true, fun hyes => absurd hyes h⟩

/-- A folder is there if making it has come to an end without a fault. -/
theorem opens_of_leaves_makeFolder (hfolder : folder.EndsInName)
    (h : Leaves (makeFolder folder) d (some (.ok ())) d') : ∃ place, d'.Opens folder place := by
  have hlook {fault : FileFault} (h : Leaves (.call (.isFolder folder) fun (isFolder : Bool) =>
      .done (if isFolder then .ok () else .error fault : Except FileFault Unit)) d
      (some (.ok ())) d') : ∃ place, d'.Opens folder place := by
    cases h with
    | answered h =>
        have hreply := answer_isFolder d folder
        generalize (d.answer (.isFolder folder)).1 = isFolder at h hreply
        cases isFolder with
        | false => cases h
        | true =>
            cases h
            exact opens_of_entryAt (hreply.mp rfl)
    | failed reason h => cases h
  cases h with
  | answered h =>
      simp only [answer] at h
      cases hmade : d.makeFolder folder with
      | error fault =>
          simp only [hmade, changed] at h
          exact hlook h
      | ok made =>
          simp only [hmade, changed] at h
          cases h
          exact opens_of_makeFolder hfolder hmade
  | failed reason h => exact hlook h

theorem opens_of_leaves {parents : List Path} (hfolder : folder.EndsInName)
    (h : Leaves (makeFolders (folder :: parents)) d (some (.ok ())) d') :
    ∃ place, d'.Opens folder place := by
  have hne : folder.chars.isEmpty = false := by simpa using hfolder.chars_ne_nil
  simp only [makeFolders, hne, Bool.false_eq_true, if_false] at h
  rcases h.bind_cases with ⟨hnone, -⟩ | ⟨made, d₁, hfirst, hrest⟩
  · cases hnone
  split at hrest
  · rcases hrest.bind_cases with ⟨hnone, -⟩ | ⟨made, d₂, -, hrest⟩
    · cases hnone
    split at hrest
    · exact opens_of_leaves_makeFolder hfolder hrest
    · cases hrest
  · cases hrest
    exact opens_of_leaves_makeFolder hfolder hfirst

end FileProgram

namespace Storing

variable {result : Option (Except StoreError Unit)}

theorem grown_of_leaves (h : Leaves (makeFolders path) d result d') : Grown d d' := by
  obtain ⟨reply, hprogram, -⟩ := h.carryOut_cases
  exact FileProgram.grown_of_leaves hprogram

theorem leaves_open (h : Leaves (makeFolders folder) d result d') (hopen : d.Opens folder place)
    (hfolder : folder.EndsInName) : d' = d := by
  obtain ⟨reply, hprogram, -⟩ := h.carryOut_cases
  exact FileProgram.leaves_makeFolders_open hprogram hopen hfolder

theorem opens_of_leaves (hfolder : folder.EndsInName)
    (h : Leaves (makeFolders folder) d (some (.ok ())) d') : ∃ place, d'.Opens folder place := by
  obtain ⟨reply, hprogram, hreply⟩ := h.carryOut_cases
  rw [hreply () rfl] at hprogram
  exact FileProgram.opens_of_leaves hfolder hprogram

theorem run_makeFolders_open (hopen : d.Opens folder place) (hfolder : folder.EndsInName) :
    d.run (makeFolders folder).run = (.ok (), d) := by
  have hne : folder.chars.isEmpty = false := by simpa using hfolder.chars_ne_nil
  have hentry : d.entryAt folder = .ok .folder := by
    rw [entryAt, hopen.located]
    simp only [bind, Except.bind, hopen.isFolder]
  have hmake : (FileProgram.makeFolder folder).run answer d = (.ok (), d) := by
    simp only [FileProgram.makeFolder, Program.run, answer, hopen.makeFolder hfolder, changed,
      hentry, if_true]
  have hmakes : (FileProgram.makeFolders folder.lineage).run answer d = (.ok (), d) := by
    simp only [Path.lineage, Path.ancestors, FileProgram.makeFolders, hne, Bool.false_eq_true,
      if_false, Program.run_bind, hmake]
    rfl
  rw [Disk.run, makeFolders, carryOut, ExceptT.run_mk, Program.run_bind, hmakes]
  rfl

end Storing

end CraftLang
