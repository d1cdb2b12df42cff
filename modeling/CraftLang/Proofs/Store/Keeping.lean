import CraftLang.Proofs.Store.Listing

/-!
Saving several macros. What has been saved stays, as long as no other macro is saved in the same
files.
-/

namespace CraftLang

open Disk Text Storing

variable {d d' : Disk} {store : Store} {stored : StoredMacro}

namespace Store

structure Legible (store : Store) (d : Disk) (readings : List (Path × Reading)) : Prop where
  sound : d.Sound
  opens : ∃ place, d.Opens store.macrosFolder place
  each : store.readings d = .ok readings
  legible : ∀ reading ∈ readings, ∃ stored, reading.2 = .ok stored

theorem lookup_of_mem_readings {readings : List (Path × Reading)} {reading : Path × Reading}
    (h : store.readings d = .ok readings) (hmem : reading ∈ readings) :
    readings.lookup reading.1 = some reading.2 := by
  unfold Store.readings at h
  cases hlist : d.found store.list with
  | error e =>
      rw [hlist] at h
      cases h
  | ok sources =>
      rw [hlist] at h
      obtain rfl := Except.ok.inj h
      obtain ⟨source, hsource, rfl⟩ := List.mem_map.mp hmem
      exact List.lookup_graph _ hsource

theorem mem_of_mem_others {source : Path} {before after : List (Path × Reading)}
    {reading : Path × Reading} (h : otherReadings source after = otherReadings source before)
    (hmem : reading ∈ before) (hne : reading.1 ≠ source) : reading ∈ after := by
  have hother : reading ∈ otherReadings source before :=
    List.mem_filter.mpr ⟨hmem, bne_iff_ne.mpr hne⟩
  rw [← h] at hother
  exact (List.mem_filter.mp hother).1

/-- Another macro is saved: it can be read as it was saved, and the others as before. -/
theorem Legible.save {before : List (Path × Reading)} (h : Legible store d before)
    (hcount : Json.Is32Bit stored.craftCount)
    (hsave : d.run (store.save stored).run = (.ok (), d')) :
    ∃ after, Legible store d' after ∧
      otherReadings (store.macroPath stored.name) after =
        otherReadings (store.macroPath stored.name) before ∧
      (fileStem stored.name ≠ [] → (store.macroPath stored.name, .ok stored) ∈ after) := by
  have hleaves := leaves_of_run hsave
  obtain ⟨place, hopen⟩ := h.opens
  obtain ⟨first, d₀, hmake, ⟨-, hmissed⟩ | ⟨place', hopen₀, hsaved⟩⟩ := save_cases hleaves
  · exact absurd rfl hmissed
  obtain rfl := Storing.leaves_open hmake hopen store.macrosFolder_endsInName
  have hd' := hleaves.sound h.sound
  have hopen' := hsaved.folders.opens_iff.mpr hopen₀
  obtain ⟨after, hafter⟩ : ∃ after, store.readings d' = .ok after := ⟨_, readings_eq hd' hopen'⟩
  obtain ⟨hothers, hturns⟩ := hsaved.turns h.sound hd' hopen₀ hcount h.each hafter
  have hlegible : ∀ reading ∈ after, ∃ stored, reading.2 = .ok stored := by
    intro reading hmem
    by_cases hown : reading.1 = store.macroPath stored.name
    · rcases hturns.of_ok with ⟨rfl, -⟩ | hlookup
      · exact h.legible reading hmem
      · rw [← hown, lookup_of_mem_readings hafter hmem] at hlookup
        exact ⟨stored, Option.some.inj hlookup⟩
    · exact h.legible reading (mem_of_mem_others hothers.symm hmem hown)
  refine ⟨after, ⟨hd', ⟨place', hopen'⟩, hafter, hlegible⟩, hothers, fun hne => ?_⟩
  rcases hturns.of_ok with ⟨-, hnil⟩ | hlookup
  · exact absurd hnil hne
  · obtain ⟨front, back, hafter, -⟩ := List.lookup_eq_some_iff.mp hlookup
    rw [hafter]
    exact List.mem_append_right _ List.mem_cons_self

/-- A macro is read as before after others have been saved elsewhere. -/
theorem Legible.saves {saves : List StoredMacro} {before : List (Path × Reading)}
    (h : Legible store d before) (hcounts : ∀ saved ∈ saves, Json.Is32Bit saved.craftCount)
    (hsaves : d.run (saves.forM store.save).run = (.ok (), d')) :
    ∃ after, Legible store d' after ∧ ∀ reading ∈ before,
      (∀ saved ∈ saves, reading.1 ≠ store.macroPath saved.name) → reading ∈ after := by
  induction saves generalizing d before with
  | nil =>
      cases hsaves
      exact ⟨before, h, fun reading hmem _ => hmem⟩
  | cons saved saves ih =>
      obtain ⟨hcount, hcounts⟩ := List.forall_mem_cons.mp hcounts
      obtain ⟨⟨⟩, d₁, hsave, hrest⟩ := run_bind_ok hsaves
      obtain ⟨between, hbetween, hothers, -⟩ := h.save hcount hsave
      obtain ⟨after, hafter, hkept⟩ := ih hbetween hcounts hrest
      refine ⟨after, hafter, fun reading hmem hne => ?_⟩
      obtain ⟨hfirst, hothers'⟩ := List.forall_mem_cons.mp hne
      exact hkept reading (mem_of_mem_others hothers hmem hfirst) hothers'

theorem mapM_of_ok {readings : List (Path × Reading)}
    (h : ∀ reading ∈ readings, ∃ stored, reading.2 = .ok stored) :
    ∃ macros, readings.mapM (·.2) = .ok macros ∧
      ∀ reading ∈ readings, ∀ stored, reading.2 = .ok stored → stored ∈ macros := by
  induction readings with
  | nil => exact ⟨[], rfl, nofun⟩
  | cons reading readings ih =>
      obtain ⟨⟨first, hfirst⟩, hrest⟩ := List.forall_mem_cons.mp h
      obtain ⟨macros, hmacros, hmem⟩ := ih hrest
      refine ⟨first :: macros, ?_, List.forall_mem_cons.mpr ⟨fun stored hstored => ?_, ?_⟩⟩
      · rw [List.mapM_cons, hfirst, hmacros]
        rfl
      · rw [Except.ok.inj (hstored.symm.trans hfirst)]
        exact List.mem_cons_self
      · exact fun other hother stored hstored =>
          List.mem_cons_of_mem _ (hmem other hother stored hstored)

theorem looks_load (store : Store) : Looks store.load :=
  store.looks_list.bind fun sources => .mapM looks_loadMacro sources

/-- A folder of which all macros can be read is loaded. -/
theorem Legible.load {readings : List (Path × Reading)} (h : Legible store d readings) :
    ∃ macros, d.run store.load.run = (.ok macros, d) ∧
      (∀ source stored, (source, .ok stored) ∈ readings → stored ∈ macros) ∧
        ∀ name, d.run (store.find name).run = (.ok (Registry.find macros name), d) := by
  obtain ⟨macros, hmacros, hmem⟩ := mapM_of_ok h.legible
  have hload : d.run store.load.run = (.ok macros, d) := by
    rw [store.looks_load.run_eq, found_load, h.each]
    exact congrArg (·, d) hmacros
  refine ⟨macros, hload, fun source stored hstored => hmem _ hstored stored rfl, fun name => ?_⟩
  rw [find, run_bind, hload]
  rfl

theorem macroPath_ne {name name' : String} (h : fileStem name ≠ fileStem name') :
    store.macroPath name ≠ store.macroPath name' := by
  intro heq
  rw [macroPath_eq, macroPath_eq] at heq
  exact h (sourceName_injective (Path.join_injective store.macrosFolder_endsInName
    (isName_sourceName (slash_not_mem_fileStem name)).2.2
    (isName_sourceName (slash_not_mem_fileStem name')).2.2 heq))

/-- Whether the macro folder has been there or is made first makes no difference for the first macro
that is saved. -/
theorem run_saves_of_folder {d₀ : Disk} {place : Place} (hopen : d₀.Opens store.macrosFolder place)
    (hmake : d.run (makeFolders store.macrosFolder).run = (.ok (), d₀))
    (saves : List StoredMacro) :
    d.run ((stored :: saves).forM store.save).run =
      d₀.run ((stored :: saves).forM store.save).run := by
  have hsave : d.run (store.save stored).run = d₀.run (store.save stored).run := by
    have hmade := run_makeFolders_open hopen store.macrosFolder_endsInName
    rw [save, run_bind_of_ok hmake, run_bind_of_ok hmade]
  change d.run (store.save stored >>= fun _ => saves.forM store.save).run =
    d₀.run (store.save stored >>= fun _ => saves.forM store.save).run
  rw [run_bind, run_bind, hsave]

theorem legible_of_names (hd : d.Sound) (hnames : d.names store.macrosFolder = .ok []) :
    Legible store d [] where
  sound := hd
  opens := opens_of_names hnames
  each := by
    rw [readings, found_list_of_names hnames, List.mergeSort_nil]
    rfl
  legible := nofun

/-- After macros have been saved in an empty folder, each of them is read as it was saved, and found
by its name if there are no blanks around that, unless a later one was saved in the same files. A
name of nothing but blanks leads to files that are not looked at. -/
theorem loaded_after_saves {before after : List StoredMacro} (hd : d.Sound)
    (hempty : (d.run (makeFolders store.macrosFolder).run).2.names store.macrosFolder = .ok [])
    (hcounts : ∀ saved ∈ before ++ stored :: after, Json.Is32Bit saved.craftCount)
    (hsaves : d.run ((before ++ stored :: after).forM store.save).run = (.ok (), d'))
    (hname : ∃ c ∈ stored.name.toList, isBlank c = false)
    (hlater : ∀ later ∈ after, fileStem later.name ≠ fileStem stored.name) :
    ∃ macros, d'.run store.load.run = (.ok macros, d') ∧ stored ∈ macros ∧
      (trimmed stored.name = stored.name →
        ∃ found, d'.run (store.find stored.name).run = (.ok found, d') ∧ stored ∈ found) := by
  obtain ⟨d₀, hmake⟩ : ∃ d₀, d.run (makeFolders store.macrosFolder).run = (.ok (), d₀) := by
    obtain ⟨first, saves, heq⟩ := List.exists_cons_of_ne_nil
      (show before ++ stored :: after ≠ [] by simp)
    rw [heq] at hsaves
    obtain ⟨⟨⟩, d₁, hsave, -⟩ := run_bind_ok hsaves
    obtain ⟨⟨⟩, d₀, hmake, -⟩ := run_bind_ok hsave
    exact ⟨d₀, hmake⟩
  rw [hmake] at hempty
  obtain ⟨place, hopen⟩ := opens_of_names hempty
  have hd₀ : d₀.Sound := (leaves_of_run hmake).sound hd
  -- All is saved on the disk with the folder, first what comes before the macro.
  have hrun : d₀.run ((before ++ stored :: after).forM store.save).run = (.ok (), d') := by
    cases before with
    | nil => rw [← hsaves, List.nil_append, run_saves_of_folder hopen hmake]
    | cons first before => rw [← hsaves, List.cons_append, run_saves_of_folder hopen hmake]
  rw [List.forM_eq_forM, List.forM_append] at hrun
  obtain ⟨⟨⟩, d₁, hbefore, hrest⟩ := run_bind_ok hrun
  obtain ⟨⟨⟩, d₂, hsave, hafter⟩ := run_bind_ok hrest
  obtain ⟨hcountsBefore, hcounts⟩ := List.forall_mem_append.mp hcounts
  obtain ⟨hcount, hcountsAfter⟩ := List.forall_mem_cons.mp hcounts
  obtain ⟨readings₁, hlegible₁, -⟩ := (legible_of_names hd₀ hempty).saves hcountsBefore hbefore
  obtain ⟨readings₂, hlegible₂, -, hown⟩ := hlegible₁.save hcount hsave
  obtain ⟨readings, hlegible, hkept⟩ := hlegible₂.saves hcountsAfter hafter
  obtain ⟨macros, hload, hmem, hfind⟩ := hlegible.load
  have hstored : stored ∈ macros := hmem _ stored (hkept _ (hown (fileStem_ne_nil hname))
    fun later hmem => macroPath_ne (hlater later hmem).symm)
  refine ⟨macros, hload, hstored, fun htrimmed => ⟨_, hfind stored.name, ?_⟩⟩
  rw [Registry.mem_find_iff, htrimmed]
  exact ⟨hstored, equalIgnoringCase_refl _⟩

def touch : StoredMacro :=
  { name := "Touch: a.b", contents := "/ac Touch", language := .script, craftCount := -1 }

def touchInCapitals : StoredMacro :=
  { name := "TOUCH: A.B", contents := "/ac Touch", craftLoop := true }

theorem loaded_after_save_in_capitals :
    ∃ d' macros found,
      emptyShelf.run (([] ++ touch :: [touchInCapitals]).forM atTop.save).run = (.ok (), d') ∧
        d'.run atTop.load.run = (.ok macros, d') ∧ touch ∈ macros ∧
        d'.run (atTop.find touch.name).run = (.ok found, d') ∧ touch ∈ found := by
  obtain ⟨d', hsaves⟩ : ∃ d', emptyShelf.run
      (([] ++ touch :: [touchInCapitals]).forM atTop.save).run = (.ok (), d') :=
    ⟨_, Prod.ext (by decide +kernel) rfl⟩
  obtain ⟨macros, hload, hmem, hfind⟩ := loaded_after_saves sound_emptyShelf (by decide +kernel)
    (by decide) hsaves ⟨'T', by decide, by decide⟩ (by decide)
  obtain ⟨found, hfind, hfound⟩ := hfind (by decide)
  exact ⟨d', macros, found, hsaves, hload, hmem, hfind, hfound⟩

/-- A macro is lost if another is saved in the same files. One with blanks around its name is not
found by that, and one with a name of nothing but blanks is not even looked at. -/
theorem find_after_clashes :
    let saves : List StoredMacro := [{ name := "a:b", contents := "/x" },
      { name := "a_b", contents := "/y" }, { name := " c ", contents := "/z" },
      { name := " ", contents := "/w" }]
    let d' := (emptyShelf.run (saves.forM atTop.save).run).2
    (emptyShelf.run (saves.forM atTop.save).run).1 = .ok () ∧
      d'.run (atTop.find "a:b").run = (.ok [], d') ∧
      d'.run (atTop.find " c ").run = (.ok [], d') ∧
      d'.run (atTop.find " ").run = (.ok [], d') := by
  intro saves d'
  have hnames : d'.names atTop.macrosFolder =
      .ok [".json", ".macro", "c.json", "c.macro", "a_b.json", "a_b.macro"] := by
    decide +kernel
  have hsorted : [".json", ".macro", "c.json", "c.macro", "a_b.json", "a_b.macro"].mergeSort
      (· ≤ ·) = [".json", ".macro", "a_b.json", "a_b.macro", "c.json", "c.macro"] := by
    simp [List.mergeSort, List.MergeSort.Internal.splitInTwo]
  have hload : d'.run atTop.load.run =
      (.ok [{ name := "a_b", contents := "/y" }, { name := " c ", contents := "/z" }], d') := by
    rw [(looks_load atTop).run_eq, found_load, readings, found_list_of_names hnames, hsorted]
    exact Prod.ext (by decide +kernel) rfl
  have hfind (name : String) : d'.run (atTop.find name).run = (.ok (Registry.find
      [{ name := "a_b", contents := "/y" }, { name := " c ", contents := "/z" }] name), d') :=
    run_bind_of_ok hload _
  refine ⟨by decide +kernel, ?_, ?_, ?_⟩ <;> exact hfind _

end Store

end CraftLang
