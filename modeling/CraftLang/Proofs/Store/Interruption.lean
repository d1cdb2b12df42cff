import CraftLang.Proofs.Store.Listing

/-!
Saving a macro that is broken off, or goes wrong. A macro has two files, which are written one after
the other; each of them is there as it was or as it will be, but the first can be new while the
second is old.
-/

namespace CraftLang

open Disk

namespace Store

variable {d d' : Disk} {store : Store} {stored : StoredMacro}
  {result : Option (Except StoreError Unit)}

/-- Wherever saving a macro is broken off, and whichever of its calls fail, all other macros are
read as before, in a folder that may have been made for the purpose. The macro itself is read as
before, or as it was to be saved, or, if it has not been saved, with its new source and the settings
of before. -/
theorem reads_of_interrupted_save (hd : d.Sound) (hcount : Json.Is32Bit stored.craftCount)
    (h : Storing.Leaves (store.save stored) d result d') :
    ∃ d₀, Grown d d₀ ∧ (∀ place, d.Opens store.macrosFolder place → d₀ = d) ∧
      ((d' = d₀ ∧ result ≠ some (.ok ())) ∨ ∃ before after,
        store.readings d₀ = .ok before ∧ store.readings d' = .ok after ∧
        (d'.run store.load.run).1 = after.mapM (·.2) ∧
        otherReadings (store.macroPath stored.name) after =
          otherReadings (store.macroPath stored.name) before ∧
        Turns d₀ (store.macroPath stored.name) stored result before after) := by
  have hfolder := store.macrosFolder_endsInName
  obtain ⟨first, d₀, hmake, hrest⟩ := save_cases h
  refine ⟨d₀, Storing.grown_of_leaves hmake,
    fun place hopen => Storing.leaves_open hmake hopen hfolder, hrest.imp id ?_⟩
  rintro ⟨place, hopen, hsaved⟩
  have hd₀ := hmake.sound hd
  have hd' := h.sound hd
  have hopen' := hsaved.folders.opens_iff.mpr hopen
  obtain ⟨before, hbefore⟩ : ∃ before, store.readings d₀ = .ok before := ⟨_, readings_eq hd₀ hopen⟩
  obtain ⟨after, hafter⟩ : ∃ after, store.readings d' = .ok after := ⟨_, readings_eq hd' hopen'⟩
  have hload : d'.found store.load = after.mapM (·.2) := by
    rw [found_load, hafter]
    rfl
  exact ⟨before, after, hbefore, hafter, hload,
    hsaved.turns hd₀ hd' hopen hcount hbefore hafter⟩

def repeatedCraft : StoredMacro := { name := "Potion", contents := "/ac Touch", craftLoop := true }

/-- What is left if saving is broken off before the settings are written. -/
def withoutSettings : Disk :=
  (atTop.save repeatedCraft).run.runFor answer 8 emptyShelf

theorem reads_withoutSettings : ∃ before after,
    atTop.readings emptyShelf = .ok before ∧ atTop.readings withoutSettings = .ok after ∧
      (withoutSettings.run atTop.load.run).1 = after.mapM (·.2) ∧
      otherReadings (atTop.macroPath "Potion") after =
        otherReadings (atTop.macroPath "Potion") before ∧
      Turns emptyShelf (atTop.macroPath "Potion") repeatedCraft none before after := by
  obtain ⟨d₀, -, hsame, ⟨heq, -⟩ | hreads⟩ := reads_of_interrupted_save sound_emptyShelf
    (by decide) (FileProgram.leaves_runFor (atTop.save repeatedCraft).run 8 emptyShelf)
  · obtain rfl := hsame _ opens_emptyShelf
    exact absurd heq (by decide +kernel)
  · obtain rfl := hsame _ opens_emptyShelf
    exact hreads

/-- A disk on which a folder is in the way of the settings of a macro. -/
def obstructed : Disk :=
  emptyShelf.set ["macros".toList, "Potion.json".toList] .folder

theorem load_obstructed : ((obstructed.run (atTop.save repeatedCraft).run).2.run atTop.load.run).1 =
    .error ⟨.readFile (.ofText "/macros/Potion.json"), FileFault.isFolder.message⟩ := by
  have hnames : (obstructed.run (atTop.save repeatedCraft).run).2.names atTop.macrosFolder =
      .ok ["Potion.tmp", "Potion.macro", "Potion.json"] := by
    decide +kernel
  have hsorted : ["Potion.tmp", "Potion.macro", "Potion.json"].mergeSort (· ≤ ·) =
      ["Potion.json", "Potion.macro", "Potion.tmp"] := by
    simp [List.mergeSort, List.MergeSort.Internal.splitInTwo]
  change Disk.found _ atTop.load = _
  rw [found_load, readings, found_list_of_names hnames, hsorted]
  decide +kernel

/-- A macro of which only the source has been written is read with the default settings, although
there was no such macro before; and where its settings cannot be written, no macro is read any
more. -/
theorem load_of_save_without_settings :
    Storing.Leaves (atTop.save repeatedCraft) emptyShelf none withoutSettings ∧
      (emptyShelf.run atTop.load.run).1 = .ok [] ∧
      (withoutSettings.run atTop.load.run).1 = .ok [{ repeatedCraft with craftLoop := false }] ∧
      (obstructed.run atTop.load.run).1 = .ok [] ∧
      ((obstructed.run (atTop.save repeatedCraft).run).2.run atTop.load.run).1 =
        .error ⟨.readFile (.ofText "/macros/Potion.json"), FileFault.isFolder.message⟩ :=
  ⟨FileProgram.leaves_runFor _ _ _, by decide +kernel, by decide +kernel, by decide +kernel,
    load_obstructed⟩

end Store

end CraftLang
