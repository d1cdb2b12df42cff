import CraftLang.Proofs.Store.Folders
import CraftLang.Proofs.Store.Naming
import CraftLang.Proofs.Store.Settings
import CraftLang.Proofs.Store.Writing

/-!
What saving a macro leaves on the disk. A source and its settings are two files, and each of them is
there as it was or as it will be: at first both as they were, then the source new, then both.
-/

namespace CraftLang

open Disk CraftLang.Path Text

namespace Store

variable {d d' : Disk} {folder : Path} {place : Place} {stem extension : List Char}
  {bytes : List UInt8} {result : Option (Except StoreError Unit)}

def Kept (d d' : Disk) (place : Place) (name : List Char) : Prop :=
  d'.lookup (place ++ [name]) = d.lookup (place ++ [name])

/-- A file with these bytes is under a name in a folder, and the path of the name leads to it. -/
structure Holds (d : Disk) (folder : Path) (place : Place) (name : List Char)
    (bytes : List UInt8) : Prop where
  file : d.lookup (place ++ [name]) = some (.file bytes)
  leads : within folder place name = .ok (place ++ [name])

structure Rewritten (d d' : Disk) (folder : Path) (place : Place) (name : List Char)
    (bytes : List UInt8) (result : Option (Except StoreError Unit)) : Prop where
  folders : SameFolders d d'
  others (q : Place) (hfile : q ≠ place ++ [name])
    (htemporary : q ≠ place ++ [temporaryName name]) : d'.lookup q = d.lookup q
  file : (result ≠ some (.ok ()) ∧ Kept d d' place name) ∨ Holds d' folder place name bytes
  blocked : temporaryName name = upward → d' = d ∧ result ≠ some (.ok ())

theorem rewritten_of_wrote (hopen : d.Opens folder place) (hfolder : folder.EndsInName)
    (hstem : '/' ∉ stem) (hextension : IsExtension extension)
    (hne : extension ≠ temporaryExtension)
    (h : Storing.Wrote d (folder.join ⟨stem ++ '.' :: extension⟩) bytes result d') :
    Rewritten d d' folder place (stem ++ '.' :: extension) bytes result := by
  have hname := isName_append hstem hextension
  have hslash := slash_not_mem_temporaryName hstem hextension
  have hpath : Storing.temporary (folder.join ⟨stem ++ '.' :: extension⟩) =
      folder.join ⟨temporaryName (stem ++ '.' :: extension)⟩ :=
    withExtension_join hfolder hname hslash
  -- Where the path of the temporary file leads to the folder above, that is in the way.
  have hfound {found : Place} (hlocate : d.locate
      (Storing.temporary (folder.join ⟨stem ++ '.' :: extension⟩)) = .ok found)
      (hfree : d.lookup found ≠ some .folder) :
      found = place ++ [temporaryName (stem ++ '.' :: extension)] ∧
        temporaryName (stem ++ '.' :: extension) ≠ upward := by
    rw [hpath, hopen.locate_join hfolder hslash] at hlocate
    rcases temporaryName_cases hstem hextension with ⟨-, hup⟩ | ⟨-, htemporary, -⟩
    · rw [hup] at hlocate
      exact absurd (hopen.folder_of_upward hfolder hlocate) hfree
    · exact ⟨within_eq_ok htemporary hlocate, htemporary.2.1⟩
  have hdistinct : place ++ [stem ++ '.' :: extension] ≠
      place ++ [temporaryName (stem ++ '.' :: extension)] :=
    append_singleton_ne place (ne_temporaryName hstem hextension hstem hextension hne)
  cases h with
  | nothing hmissed =>
      exact ⟨.refl d, fun _ _ _ => rfl, .inl ⟨hmissed, rfl⟩, fun _ => ⟨rfl, hmissed⟩⟩
  | temporary hlocate hfree hmissed =>
      obtain ⟨rfl, hnot⟩ := hfound hlocate hfree
      exact ⟨.set_file hfree _, fun q _ htemporary => lookup_set_of_ne d htemporary _,
        .inl ⟨hmissed, lookup_set_of_ne d hdistinct _⟩, fun hup => absurd hup hnot⟩
  | whole hlocate hfree htarget hfree' =>
      obtain ⟨rfl, hnot⟩ := hfound hlocate hfree
      rw [hopen.locate_join hfolder hname.2.2] at htarget
      have hleads := within_eq_ok hname htarget
      rw [hleads] at htarget
      obtain rfl := hleads
      have herased := SameFolders.erase_file hfree
      refine ⟨herased.trans (.set_file (fun h => hfree' ((herased.folders _).mp h)) _),
        fun q hfile htemporary => ?_, .inr ⟨lookup_set_self _ (by simp) _, htarget⟩,
        fun hup => absurd hup hnot⟩
      rw [lookup_set_of_ne _ hfile, lookup_erase_of_ne _ htemporary]

def settingsBytes (stored : StoredMacro) : List UInt8 :=
  utf8Bytes (MacroSettings.ofStored stored).toJson.pretty

structure Saved (d d' : Disk) (folder : Path) (place : Place) (stored : StoredMacro)
    (result : Option (Except StoreError Unit)) : Prop where
  folders : SameFolders d d'
  others (q : Place) (hsource : q ≠ place ++ [sourceName (fileStem stored.name)])
    (hsettings : q ≠ place ++ [settingsName (fileStem stored.name)])
    (htemporary : ∀ name, IsTemporary (fileStem stored.name) name → q ≠ place ++ [name]) :
    d'.lookup q = d.lookup q
  files : (result ≠ some (.ok ()) ∧ Kept d d' place (settingsName (fileStem stored.name)) ∧
      (Kept d d' place (sourceName (fileStem stored.name)) ∨
        Holds d' folder place (sourceName (fileStem stored.name)) (utf8Bytes stored.contents))) ∨
    (Holds d' folder place (sourceName (fileStem stored.name)) (utf8Bytes stored.contents) ∧
      Holds d' folder place (settingsName (fileStem stored.name)) (settingsBytes stored))
  blocked : fileStem stored.name = ['.'] → d' = d ∧ result ≠ some (.ok ())

variable {store : Store} {stored : StoredMacro}

/-- Writing the source of a macro leaves its settings alone. -/
theorem rewritten_source {name : String} (hopen : d.Opens store.macrosFolder place)
    (h : Storing.Leaves (Storing.writeAtomic (store.macroPath name) bytes) d result d') :
    Rewritten d d' store.macrosFolder place (sourceName (fileStem name)) bytes result ∧
      Kept d d' place (settingsName (fileStem name)) := by
  have hstem := slash_not_mem_fileStem name
  have hrewritten := rewritten_of_wrote hopen store.macrosFolder_endsInName hstem
    isExtension_source (by decide) (Storing.wrote_of_leaves h)
  refine ⟨hrewritten, hrewritten.others _
    (append_singleton_ne place (sourceName_ne_settingsName _ _).symm)
    (append_singleton_ne place fun heq => ?_)⟩
  exact settingsName_not_isTemporary hstem hstem (.inl heq)

/-- Writing the settings of a macro leaves its source alone. -/
theorem rewritten_settings {name : String} (hopen : d.Opens store.macrosFolder place)
    (h : Storing.Leaves (Storing.writeAtomic (store.settingsPath name) bytes) d result d') :
    Rewritten d d' store.macrosFolder place (settingsName (fileStem name)) bytes result ∧
      Kept d d' place (sourceName (fileStem name)) := by
  have hstem := slash_not_mem_fileStem name
  have hrewritten := rewritten_of_wrote hopen store.macrosFolder_endsInName hstem
    isExtension_settings (by decide) (Storing.wrote_of_leaves h)
  refine ⟨hrewritten, hrewritten.others _
    (append_singleton_ne place (sourceName_ne_settingsName _ _))
    (append_singleton_ne place fun heq => ?_)⟩
  exact sourceName_not_isTemporary hstem hstem (.inr heq)

/-- Saving a macro in a folder that is there. -/
theorem saved_of_writes (hopen : d.Opens store.macrosFolder place)
    (h : Storing.Leaves (do
      Storing.writeAtomic (store.macroPath stored.name) (utf8Bytes stored.contents)
      Storing.writeAtomic (store.settingsPath stored.name) (settingsBytes stored)) d result d') :
    Saved d d' store.macrosFolder place stored result := by
  -- With a dot for its stem, the temporary file of the source would be the folder above.
  have hblocked (hdot : fileStem stored.name = ['.']) :
      temporaryName (sourceName (fileStem stored.name)) = upward := by
    rw [hdot]
    decide
  rcases h.bind_cases with ⟨_, hfirst, hmissed⟩ | ⟨⟨⟩, d₂, hfirst, hsecond⟩
  · obtain ⟨hsource, hkept⟩ := rewritten_source hopen hfirst
    exact ⟨hsource.folders,
      fun q hq _ htemporary => hsource.others q hq (htemporary _ (.inl rfl)),
      .inl ⟨hmissed (), hkept, hsource.file.imp And.right id⟩,
      fun hdot => ⟨(hsource.blocked (hblocked hdot)).1, hmissed ()⟩⟩
  · obtain ⟨hsource, hkept⟩ := rewritten_source hopen hfirst
    have hwritten := hsource.file.resolve_left fun h => h.1 rfl
    obtain ⟨hsettings, hkept'⟩ :=
      rewritten_settings (hsource.folders.opens_iff.mpr hopen) hsecond
    have hheld : Holds d' store.macrosFolder place (sourceName (fileStem stored.name))
        (utf8Bytes stored.contents) := ⟨hkept'.trans hwritten.file, hwritten.leads⟩
    refine ⟨hsource.folders.trans hsettings.folders, fun q hq hq' htemporary => ?_, ?_,
      fun hdot => absurd rfl (hsource.blocked (hblocked hdot)).2⟩
    · rw [hsettings.others q hq' (htemporary _ (.inr rfl)),
        hsource.others q hq (htemporary _ (.inl rfl))]
    · rcases hsettings.file with ⟨hmissed, hsame⟩ | hnew
      · exact .inl ⟨hmissed, hsame.trans hkept, .inr hheld⟩
      · exact .inr ⟨hheld, hnew⟩

/-- To save a macro, the folders on the way are made first, as far as they are missing. Unless that
is done, the macro has not been saved. -/
theorem save_cases (h : Storing.Leaves (store.save stored) d result d') :
    ∃ first d₀, Storing.Leaves (Storing.makeFolders store.macrosFolder) d first d₀ ∧
      ((d' = d₀ ∧ result ≠ some (.ok ())) ∨
        ∃ place, d₀.Opens store.macrosFolder place ∧
          Saved d₀ d' store.macrosFolder place stored result) := by
  rcases h.bind_cases with ⟨first, hmake, hmissed⟩ | ⟨⟨⟩, d₀, hmake, hwrites⟩
  · exact ⟨first, d', hmake, .inl ⟨rfl, hmissed ()⟩⟩
  · obtain ⟨place, hopen⟩ := Storing.opens_of_leaves store.macrosFolder_endsInName hmake
    exact ⟨_, d₀, hmake, .inr ⟨place, hopen, saved_of_writes hopen hwrites⟩⟩

end Store

end CraftLang
