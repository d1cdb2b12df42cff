import CraftLang.Proofs.Store.Keeping
import Mathlib.Data.List.Nodup

/-!
Saving a macro and reading the folder again. The macros of a folder are told by their sources, in
the order of the paths; saving one puts it in at the place of its source and leaves all others where
they are, together with their files and the settings of the engine.
-/

namespace CraftLang

open Disk CraftLang.Path Text Storing

variable {d d' : Disk} {place : Place} {store : Store} {stored : StoredMacro}

namespace Disk

def SameAt (d d' : Disk) (path : Path) : Prop :=
  ∀ entry, d'.entryAt path = .ok entry ↔ d.entryAt path = .ok entry

theorem entryAt_eq_ok_iff {path : Path} {entry : Entry} :
    d.entryAt path = .ok entry ↔
      ∃ found, d.locate path = .ok found ∧ d.lookup found = some entry := by
  unfold entryAt
  cases d.locate path with
  | error fault => simp [bind, Except.bind]
  | ok found =>
      simp only [bind, Except.bind, Except.ok.injEq, exists_eq_left']
      cases d.lookup found <;> simp

end Disk

/-! ### Paths in order -/

namespace Path

theorem text_injective {p q : Path} (h : p.text = q.text) : p = q := by
  obtain ⟨cs⟩ := p
  obtain ⟨ds⟩ := q
  exact congrArg Path.mk (String.ofList_injective h)

/-- The paths of the files in a folder are in the order of their names. -/
theorem text_join_lt {folder : Path} {name name' : String} (hfolder : folder.EndsInName)
    (hname : '/' ∉ name.toList) (hname' : '/' ∉ name'.toList) (h : name < name') :
    (folder.join (.ofText name)).text < (folder.join (.ofText name')).text := by
  rw [Path.ofText, Path.ofText, join_name hfolder hname, join_name hfolder hname']
  show (String.ofList _).toList < (String.ofList _).toList
  rw [String.toList_ofList, String.toList_ofList]
  exact List.append_left_lt (List.cons_lt_cons_self.mpr h)

end Path

namespace Store

/-! ### Macros by their sources -/

def InOrder (entries : List (Path × StoredMacro)) : Prop :=
  entries.Pairwise fun entry later => entry.1.text < later.1.text

/-- The macros of a folder: the sources that its list names, in the order of their paths, each with
the macro that is read from it. -/
structure Catalogued (store : Store) (d : Disk) (entries : List (Path × StoredMacro)) : Prop where
  ordered : InOrder entries
  listed : d.run store.list.run = (.ok (entries.map Prod.fst), d)
  read : ∀ entry ∈ entries, d.run (loadMacro entry.1).run = (.ok entry.2, d)
  loaded : d.run store.load.run = (.ok (entries.map Prod.snd), d)

/-- The entries with a macro put in, in path order. It takes the place of the entry with the same
source, if there is one. -/
def shelve (source : Path) (stored : StoredMacro) :
    List (Path × StoredMacro) → List (Path × StoredMacro)
  | [] => [(source, stored)]
  | entry :: entries =>
    if source.text < entry.1.text then (source, stored) :: entry :: entries
    else if source = entry.1 then (source, stored) :: entries
    else entry :: shelve source stored entries

section Shelve

variable {source : Path} {entries : List (Path × StoredMacro)}

theorem mem_shelve (h : InOrder entries)
    (entry : Path × StoredMacro) :
    entry ∈ shelve source stored entries ↔
      entry = (source, stored) ∨ (entry ∈ entries ∧ entry.1 ≠ source) := by
  induction entries with
  | nil => simp [shelve]
  | cons first entries ih =>
      obtain ⟨hfirst, hrest⟩ := List.pairwise_cons.mp h
      rw [shelve]
      split
      · next hlt =>
          -- All the others come after the new source, so none of them is from it.
          have hne : ∀ other ∈ first :: entries, other.1 ≠ source := by
            intro other hmem heq
            rcases List.mem_cons.mp hmem with rfl | hmem
            · exact String.lt_irrefl _ (heq ▸ hlt)
            · exact String.lt_irrefl _ (heq ▸ String.lt_trans hlt (hfirst other hmem))
          rw [List.mem_cons]
          exact or_congr_right ⟨fun hmem => ⟨hmem, hne entry hmem⟩, And.left⟩
      · split
        · next heq =>
            have hne : ∀ other ∈ entries, other.1 ≠ source := by
              intro other hmem hother
              exact String.lt_irrefl _ (hother ▸ heq ▸ hfirst other hmem)
            rw [List.mem_cons, List.mem_cons]
            refine or_congr_right ⟨fun hmem => ⟨.inr hmem, hne entry hmem⟩, ?_⟩
            rintro ⟨rfl | hmem, hother⟩
            · exact absurd heq.symm hother
            · exact hmem
        · next hne =>
            rw [List.mem_cons, ih hrest, List.mem_cons]
            constructor
            · rintro (rfl | rfl | ⟨hmem, hother⟩)
              · exact .inr ⟨.inl rfl, Ne.symm hne⟩
              · exact .inl rfl
              · exact .inr ⟨.inr hmem, hother⟩
            · rintro (rfl | ⟨rfl | hmem, hother⟩)
              · exact .inr (.inl rfl)
              · exact .inl rfl
              · exact .inr (.inr ⟨hmem, hother⟩)

theorem inOrder_shelve (h : InOrder entries) :
    InOrder (shelve source stored entries) := by
  induction entries with
  | nil => exact List.pairwise_singleton _ _
  | cons first entries ih =>
      obtain ⟨hfirst, hrest⟩ := List.pairwise_cons.mp h
      rw [shelve]
      split
      · next hlt =>
          refine List.pairwise_cons.mpr ⟨fun other hmem => ?_, h⟩
          rcases List.mem_cons.mp hmem with rfl | hmem
          · exact hlt
          · exact String.lt_trans hlt (hfirst other hmem)
      · next hnot =>
          split
          · next heq => exact List.pairwise_cons.mpr ⟨fun other hmem => heq ▸ hfirst other hmem,
              hrest⟩
          · next hne =>
              refine List.pairwise_cons.mpr ⟨fun other hmem => ?_, ih hrest⟩
              rcases (mem_shelve hrest other).mp hmem with rfl | ⟨hmem, -⟩
              · by_contra hlater
                exact hne (Path.text_injective
                  (String.le_antisymm (String.not_lt.mp hlater) (String.not_lt.mp hnot)))
              · exact hfirst other hmem

theorem InOrder.nodup_sources (h : InOrder entries) : (entries.map Prod.fst).Nodup := by
  refine List.pairwise_map.mpr (List.Pairwise.imp (fun {entry later} hlt heq => ?_) h)
  rw [heq] at hlt
  exact String.lt_irrefl _ hlt

/-- Only one entry is from a source. -/
theorem InOrder.eq_of_source (h : InOrder entries) {entry other : Path × StoredMacro}
    (hentry : entry ∈ entries) (hother : other ∈ entries) (heq : entry.1 = other.1) :
    entry = other :=
  List.inj_on_of_nodup_map h.nodup_sources hentry hother heq

/-- Two lists of entries in path order are the same if they have the same entries. -/
theorem InOrder.eq_of_mem_iff {entries' : List (Path × StoredMacro)} (h : InOrder entries)
    (h' : InOrder entries') (hmem : ∀ entry, entry ∈ entries' ↔ entry ∈ entries) :
    entries' = entries := by
  have hperm := (List.perm_ext_iff_of_nodup h'.nodup_sources.of_map h.nodup_sources.of_map).mpr hmem
  exact hperm.eq_of_pairwise (fun _ _ _ _ hlt hlt' => absurd hlt' (String.lt_asymm hlt)) h' h

end Shelve

/-! ### Reading the folder -/

def Reading.ofEntry (entry : Path × StoredMacro) : Path × Reading :=
  (entry.1, .ok entry.2)

theorem mem_map_ofEntry {entries : List (Path × StoredMacro)} {entry : Path × StoredMacro} :
    Reading.ofEntry entry ∈ entries.map Reading.ofEntry ↔ entry ∈ entries := by
  refine List.mem_map_of_injective fun entry entry' h => ?_
  obtain ⟨hsource, hmacro⟩ := Prod.mk.inj h
  exact Prod.ext hsource (Except.ok.inj hmacro)

theorem mapM_ofEntry (entries : List (Path × StoredMacro)) :
    (entries.map Reading.ofEntry).mapM (·.2) = .ok (entries.map Prod.snd) := by
  induction entries with
  | nil => rfl
  | cons entry entries ih =>
      rw [List.map_cons, List.mapM_cons, ih]
      rfl

/-- If all readings together succeed, each of them does. -/
theorem exists_entries {readings : List (Path × Reading)} {macros : List StoredMacro}
    (h : readings.mapM (·.2) = .ok macros) :
    ∃ entries : List (Path × StoredMacro), readings = entries.map Reading.ofEntry := by
  induction readings generalizing macros with
  | nil => exact ⟨[], rfl⟩
  | cons reading readings ih =>
      obtain ⟨source, e | stored⟩ := reading
      · rw [List.mapM_cons] at h
        cases h
      · rw [List.mapM_cons] at h
        cases hrest : readings.mapM (·.2) with
        | error e =>
            rw [hrest] at h
            cases h
        | ok macros =>
            obtain ⟨entries, rfl⟩ := ih hrest
            exact ⟨(source, stored) :: entries, rfl⟩

theorem opens_of_readings {readings : List (Path × Reading)} (h : store.readings d = .ok readings) :
    ∃ place, d.Opens store.macrosFolder place := by
  cases hnames : d.names store.macrosFolder with
  | ok names => exact opens_of_names hnames
  | error fault =>
      have hlist : d.found store.list =
          .error ⟨.listFolder store.macrosFolder, fault.message⟩ := by
        rw [list, found_bind (looks_names _), found_carryOut]
        change (d.names store.macrosFolder).mapError _ >>= _ = _
        rw [hnames]
        rfl
      rw [Store.readings, hlist] at h
      cases h

/-- A folder that has been loaded has all its macros. -/
theorem Legible.of_load {macros : List StoredMacro} (hd : d.Sound)
    (h : (d.run store.load.run).1 = .ok macros) :
    ∃ entries : List (Path × StoredMacro), Legible store d (entries.map Reading.ofEntry) ∧
      macros = entries.map Prod.snd := by
  change d.found store.load = _ at h
  rw [found_load] at h
  cases hreadings : store.readings d with
  | error e =>
      rw [hreadings] at h
      cases h
  | ok readings =>
      rw [hreadings] at h
      obtain ⟨entries, rfl⟩ := exists_entries h
      rw [show (Except.ok (entries.map Reading.ofEntry) >>= _) = _ from mapM_ofEntry entries] at h
      refine ⟨entries, ⟨hd, ?_, hreadings, fun reading hmem => ?_⟩, (Except.ok.inj h).symm⟩
      · exact opens_of_readings hreadings
      · obtain ⟨entry, -, rfl⟩ := List.mem_map.mp hmem
        exact ⟨entry.2, rfl⟩

theorem Legible.catalogued {entries : List (Path × StoredMacro)}
    (h : Legible store d (entries.map Reading.ofEntry)) : Catalogued store d entries := by
  obtain ⟨place, hopen⟩ := h.opens
  have heach := h.each
  rw [readings_eq h.sound hopen] at heach
  have hpaths := congrArg (List.map Prod.fst) (Except.ok.inj heach)
  rw [List.map_map, List.map_map] at hpaths
  have hsources : (d.sourcesIn place).map store.sourcePath = entries.map Prod.fst := hpaths
  have hsourcePath {name : String} (hmem : name ∈ d.sourcesIn place) : '/' ∉ name.toList :=
    (h.sound.isName_of_mem (mem_namesIn.mpr (mem_sourcesIn.mp hmem).1)).2.2
  constructor
  · have hordered : (d.sourcesIn place).Pairwise (· < ·) := by
      refine ((pairwise_sourcesIn d place).and (h.sound.nodup_sourcesIn place)).imp ?_
      rintro name name' ⟨hle, hne⟩
      by_contra hlt
      exact hne (String.le_antisymm hle (String.not_lt.mp hlt))
    refine List.Pairwise.of_map (S := fun p q : Path => p.text < q.text) Prod.fst (fun _ _ => id) ?_
    rw [← hsources]
    refine List.pairwise_map.mpr (hordered.imp_of_mem fun hname hname' hlt => ?_)
    exact Path.text_join_lt store.macrosFolder_endsInName (hsourcePath hname)
      (hsourcePath hname') hlt
  · rw [store.looks_list.run_eq, found_list h.sound hopen, hsources]
  · intro entry hmem
    have hreading := mem_map_ofEntry.mpr hmem
    rw [← Except.ok.inj heach] at hreading
    obtain ⟨name, -, heq⟩ := List.mem_map.mp hreading
    obtain ⟨hsource, hmacro⟩ := Prod.mk.inj heq
    rw [(looks_loadMacro _).run_eq, ← hsource, hmacro]
  · rw [(looks_load store).run_eq, found_load, h.each]
    exact congrArg (·, d) (mapM_ofEntry entries)

/-! ### What saving leaves alone -/

/-- The files of a macro with another stem are not touched. -/
theorem Saved.sameAt (h : Saved d d' store.macrosFolder place stored (some (.ok ())))
    (hopen : d.Opens store.macrosFolder place) {stem : List Char} (hstem : '/' ∉ stem)
    (hne : stem ≠ fileStem stored.name) :
    SameAt d d' (store.macrosFolder.join ⟨sourceName stem⟩) ∧
      SameAt d d' (store.macrosFolder.join ⟨settingsName stem⟩) := by
  have hopen' := h.folders.opens_iff.mpr hopen
  have hfolder := store.macrosFolder_endsInName
  obtain ⟨hsource, hsettings⟩ := h.kept hstem hne
  constructor <;> intro entry
  · rw [hsource.entryAt hopen hopen' hfolder (isName_sourceName hstem)]
  · rw [hsettings.entryAt hopen hopen' hfolder (isName_settingsName hstem)]

/-- Nor are those of another macro that is there, wherever its settings are looked for. -/
theorem Saved.sameAt_of_catalogued {entries : List (Path × StoredMacro)}
    (h : Saved d d' store.macrosFolder place stored (some (.ok ())))
    (hopen : d.Opens store.macrosFolder place) (hd : d.Sound)
      (hentries : Catalogued store d entries)
    {entry : Path × StoredMacro} (hmem : entry ∈ entries)
    (hne : entry.1 ≠ store.macroPath stored.name) :
    SameAt d d' entry.1 ∧ SameAt d d' (entry.1.withExtension settingsExtension) := by
  have hopen' := h.folders.opens_iff.mpr hopen
  have hfolder := store.macrosFolder_endsInName
  have hlisted := hentries.listed
  rw [store.looks_list.run_eq, found_list hd hopen] at hlisted
  have hsource : entry.1 ∈ (d.sourcesIn place).map store.sourcePath := by
    rw [Except.ok.inj (Prod.mk.inj hlisted).1]
    exact List.mem_map_of_mem hmem
  obtain ⟨name, hname, heq⟩ := List.mem_map.mp hsource
  obtain ⟨stem, hstem, hnil, rfl⟩ := hd.stem_of_mem hname
  rw [sourcePath, Path.ofText, String.toList_ofList] at heq
  rw [← heq] at hne ⊢
  have hother : stem ≠ fileStem stored.name := fun hsame => hne (by rw [hsame]; rfl)
  refine ⟨(h.sameAt hopen hstem hother).1, fun found => ?_⟩
  rw [Kept.entryAt_settings hopen hopen' hfolder hstem hnil (h.kept hstem hother).2]

/-- The settings of the engine are outside the folder with the macros. -/
theorem Saved.sameAt_configPath (h : Saved d d' store.macrosFolder place stored (some (.ok ())))
    (hopen : d.Opens store.macrosFolder place) : SameAt d d' store.configPath := by
  obtain ⟨front, hfront⟩ := exists_pieces_join store.root
  obtain ⟨hmacros, habsolute⟩ := hfront "macros".toList (by decide) (by decide)
  obtain ⟨hconfig, habsolute'⟩ := hfront "config.json".toList (by decide) (by decide)
  have houter {found : Place} (hfound : d.locate store.configPath = .ok found) (name : List Char) :
      found ≠ place ++ [name] := by
    obtain ⟨outer, houter, hplace, -⟩ := exists_outer (by decide) hmacros hopen.located
    obtain ⟨outer', houter', hfound, -⟩ := exists_outer (by decide) hconfig hfound
    -- Both are in one folder, so a file of a macro is one level further down.
    have hsame : outer' = outer := by
      rw [habsolute] at houter
      rw [habsolute'] at houter'
      exact Except.ok.inj (houter'.symm.trans houter)
    rw [hplace, hfound, hsame]
    intro heq
    have hlength := congrArg List.length heq
    simp at hlength
  intro entry
  rw [entryAt_eq_ok_iff, entryAt_eq_ok_iff]
  refine exists_congr fun found => ?_
  rw [h.folders.locate_iff]
  refine and_congr_right fun hfound => ?_
  rw [h.others found (houter hfound _) (houter hfound _) fun name _ => houter hfound name]

/-! ### Loading what has been saved -/

/-- After a macro has been saved in a folder of which all macros can be read, the folder is read
with that macro put in at the place of its source, exactly as it was saved. Nothing has happened to
the files of any other macro, whatever its name, nor to the settings of the engine. -/
theorem load_after_save {macros : List StoredMacro} (hd : d.Sound)
    (hload : (d.run store.load.run).1 = .ok macros)
    (hname : ∃ c ∈ stored.name.toList, isBlank c = false)
    (hcount : Json.Is32Bit stored.craftCount)
    (hsave : d.run (store.save stored).run = (.ok (), d')) :
    ∃ entries, Catalogued store d entries ∧ macros = entries.map Prod.snd ∧
      Catalogued store d' (shelve (store.macroPath stored.name) stored entries) ∧
      (∀ entry ∈ entries, entry.1 ≠ store.macroPath stored.name →
        SameAt d d' entry.1 ∧ SameAt d d' (entry.1.withExtension settingsExtension)) ∧
      (∀ name, fileStem name ≠ fileStem stored.name →
        SameAt d d' (store.macroPath name) ∧ SameAt d d' (store.settingsPath name)) ∧
      SameAt d d' store.configPath := by
  obtain ⟨entries, hlegible, rfl⟩ := Legible.of_load hd hload
  obtain ⟨place, hopen⟩ := hlegible.opens
  have hcatalogued := hlegible.catalogued
  -- The folder is there, so that only the files are written.
  obtain ⟨first, d₀, hmake, ⟨-, hmissed⟩ | ⟨place', hopen', hsaved⟩⟩ :=
    save_cases (leaves_of_run hsave)
  · exact absurd rfl hmissed
  obtain rfl := Storing.leaves_open hmake hopen store.macrosFolder_endsInName
  refine ⟨entries, hcatalogued, rfl, ?_, fun entry hmem hne =>
    hsaved.sameAt_of_catalogued hopen' hd hcatalogued hmem hne, fun name hne =>
    hsaved.sameAt hopen' (slash_not_mem_fileStem name) hne, hsaved.sameAt_configPath hopen'⟩
  obtain ⟨after, hlegible', hothers, hown⟩ := hlegible.save hcount hsave
  obtain ⟨macros', hload', -⟩ := hlegible'.load
  obtain ⟨entries', hentries', -⟩ :=
    Legible.of_load hlegible'.sound (show (d'.run store.load.run).1 = _ by rw [hload'])
  obtain rfl := Except.ok.inj (hlegible'.each.symm.trans hentries'.each)
  have hcatalogued' := hentries'.catalogued
  have hmem : (store.macroPath stored.name, stored) ∈ entries' :=
    mem_map_ofEntry.mp (hown (fileStem_ne_nil hname))
  have heq : entries' = shelve (store.macroPath stored.name) stored entries := by
    refine (inOrder_shelve hcatalogued.ordered).eq_of_mem_iff hcatalogued'.ordered fun entry => ?_
    rw [mem_shelve hcatalogued.ordered]
    by_cases hsource : entry.1 = store.macroPath stored.name
    · simp only [hsource, ne_eq, not_true, and_false, or_false]
      refine ⟨fun hentry => hcatalogued'.ordered.eq_of_source hentry hmem hsource, ?_⟩
      rintro rfl
      exact hmem
    · have hother : entry ≠ (store.macroPath stored.name, stored) := fun h => hsource (by rw [h])
      simp only [hother, false_or, ne_eq, hsource, not_false_iff, and_true]
      constructor
      · intro hentry
        exact mem_map_ofEntry.mp
          (mem_of_mem_others hothers.symm (mem_map_ofEntry.mpr hentry) hsource)
      · intro hentry
        exact mem_map_ofEntry.mp (mem_of_mem_others hothers (mem_map_ofEntry.mpr hentry) hsource)
  rw [← heq]
  exact hcatalogued'

def dottedShelf : Disk :=
  emptyShelf.set ["macros".toList, "a.b.macro".toList] (.file (utf8Bytes "/ac Touch"))

def dottedJson : StoredMacro :=
  { name := " a.b:json ", contents := "/ac Touch\n/loop", language := .script, craftCount := -1 }

theorem load_after_save_dotted :
    ∃ d' entries,
      (dottedShelf.run atTop.load.run).1 = .ok [{ name := "a.b", contents := "/ac Touch" }] ∧
      dottedShelf.run (atTop.save dottedJson).run = (.ok (), d') ∧
      [{ name := "a.b", contents := "/ac Touch" }] = entries.map Prod.snd ∧
      Catalogued atTop d' (shelve (atTop.macroPath " a.b:json ") dottedJson entries) ∧
      SameAt dottedShelf d' (atTop.settingsPath "a.b") := by
  obtain ⟨d', hsave⟩ : ∃ d', dottedShelf.run (atTop.save dottedJson).run = (.ok (), d') :=
    ⟨_, Prod.ext (by decide +kernel) rfl⟩
  have hload : (dottedShelf.run atTop.load.run).1 =
      .ok [{ name := "a.b", contents := "/ac Touch" }] := by
    decide +kernel
  obtain ⟨entries, -, hentries, hcatalogued, -, hothers, -⟩ :=
    load_after_save ⟨by decide, by decide, by decide⟩ hload ⟨'a', by decide, by decide⟩ (by decide)
      hsave
  exact ⟨d', entries, hload, hsave, hentries, hcatalogued, (hothers "a.b" (by decide)).2⟩

end Store

end CraftLang
