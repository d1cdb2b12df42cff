import Mathlib.Data.List.Sort
import CraftLang.Proofs.Store.Reading

/-!
Reading all macros of a folder. The sources are read one by one in the order of their names, so what
becomes of one of them when a macro is saved has nothing to do with the others.
-/

namespace CraftLang

open Disk CraftLang.Path Text Storing

variable {d d' : Disk} {place : Place} {store : Store} {stored : StoredMacro}
  {result : Option (Except StoreError Unit)}

namespace Disk

def isSource (name : String) : Bool :=
  (splitExtension name.toList).2 == some Store.sourceExtension

def sourcesIn (d : Disk) (place : Place) : List String :=
  (((d.namesIn place).map String.ofList).mergeSort (· ≤ ·)).filter isSource

theorem mem_sourcesIn {name : String} : name ∈ d.sourcesIn place ↔
    d.lookup (place ++ [name.toList]) ≠ none ∧ isSource name = true := by
  rw [sourcesIn, List.mem_filter, List.mem_mergeSort, ← mem_namesIn]
  refine and_congr_left fun _ => ⟨fun hmem => ?_, fun hmem => ?_⟩
  · obtain ⟨chars, hchars, rfl⟩ := List.mem_map.mp hmem
    rwa [String.toList_ofList]
  · exact List.mem_map.mpr ⟨_, hmem, String.ofList_toList⟩

theorem pairwise_sourcesIn (d : Disk) (place : Place) : (d.sourcesIn place).Pairwise (· ≤ ·) := by
  have hsorted := @List.pairwise_mergeSort String (fun a b => decide (a ≤ b))
    (fun _ _ _ hab hbc =>
      decide_eq_true (String.le_trans (of_decide_eq_true hab) (of_decide_eq_true hbc)))
    (fun a b => by simpa using String.le_total a b) ((d.namesIn place).map String.ofList)
  exact (hsorted.imp of_decide_eq_true).filter _

theorem Sound.nodup_sourcesIn (hd : d.Sound) (place : Place) : (d.sourcesIn place).Nodup := by
  refine List.Nodup.filter _ ((List.mergeSort_perm _ _).nodup_iff.mpr ?_)
  exact (hd.nodup_namesIn place).map fun chars chars' h => by simpa using congrArg String.toList h

/-- The name of a source has a stem. -/
theorem Sound.stem_of_mem (hd : d.Sound) {name : String} (h : name ∈ d.sourcesIn place) :
    ∃ stem, '/' ∉ stem ∧ stem ≠ [] ∧ name = String.ofList (Store.sourceName stem) := by
  obtain ⟨hlookup, hsource⟩ := mem_sourcesIn.mp h
  obtain ⟨hstem, -, hname⟩ := eq_append_of_splitExtension (beq_iff_eq.mp hsource)
  have hslash := (hd.isName_of_mem (mem_namesIn.mpr hlookup)).2.2
  refine ⟨_, fun hmem => hslash ?_, hstem, by rw [Store.sourceName, ← hname, String.ofList_toList]⟩
  rw [hname]
  exact List.mem_append_left _ hmem

theorem mem_sourcesIn_sourceName {stem : List Char} (hne : stem ≠ []) :
    String.ofList (Store.sourceName stem) ∈ d.sourcesIn place ↔
      d.lookup (place ++ [Store.sourceName stem]) ≠ none := by
  have hsource : isSource (String.ofList (Store.sourceName stem)) = true := by
    rw [isSource, String.toList_ofList, Store.sourceName,
      splitExtension_append hne Store.isExtension_source.dot, beq_self_eq_true]
  rw [mem_sourcesIn, String.toList_ofList, and_iff_left hsource]

/-- Two folders with the same sources but for some have the same list of the others. -/
theorem filter_sourcesIn (hd : d.Sound) (hd' : d'.Sound) (p : String → Bool)
    (h : ∀ stem, '/' ∉ stem → stem ≠ [] → p (String.ofList (Store.sourceName stem)) = true →
      d'.lookup (place ++ [Store.sourceName stem]) = d.lookup (place ++ [Store.sourceName stem])) :
    (d'.sourcesIn place).filter p = (d.sourcesIn place).filter p := by
  have hperm : ((d'.sourcesIn place).filter p).Perm ((d.sourcesIn place).filter p) := by
    refine (List.perm_ext_iff_of_nodup ((hd'.nodup_sourcesIn place).filter p)
      ((hd.nodup_sourcesIn place).filter p)).mpr fun name => ?_
    rw [List.mem_filter, List.mem_filter]
    refine and_congr_left fun hp => ⟨fun hmem => ?_, fun hmem => ?_⟩
    · obtain ⟨stem, hslash, hne, rfl⟩ := hd'.stem_of_mem hmem
      rw [mem_sourcesIn_sourceName hne] at hmem ⊢
      rwa [← h stem hslash hne hp]
    · obtain ⟨stem, hslash, hne, rfl⟩ := hd.stem_of_mem hmem
      rw [mem_sourcesIn_sourceName hne] at hmem ⊢
      rwa [h stem hslash hne hp]
  exact hperm.eq_of_pairwise (fun _ _ _ _ => String.le_antisymm)
    ((pairwise_sourcesIn d' place).filter p) ((pairwise_sourcesIn d place).filter p)

end Disk

namespace Store

theorem looks_names (folder : Path) :
    Looks (carryOut (.listFolder folder) (FileProgram.names folder)) :=
  looks_carryOut (.ask fun _ => rfl)

theorem looks_list (store : Store) : Looks store.list :=
  (looks_names _).bind fun _ => looks_pure _

def sourcePath (store : Store) (name : String) : Path :=
  store.macrosFolder.join (.ofText name)

theorem found_list_of_names {names : List String}
    (h : d.names store.macrosFolder = .ok names) :
    d.found store.list = .ok (((names.mergeSort (· ≤ ·)).map store.sourcePath).filter
      fun path => path.extension? == some sourceExtension) := by
  have hnames : d.found (carryOut (.listFolder store.macrosFolder)
      (FileProgram.names store.macrosFolder)) = .ok names := by
    rw [found_carryOut]
    change (d.names store.macrosFolder).mapError _ = _
    rw [h]
    rfl
  rw [list, found_bind (looks_names _), hnames]
  rfl

theorem found_list (hd : d.Sound) (hopen : d.Opens store.macrosFolder place) :
    d.found store.list = .ok ((d.sourcesIn place).map store.sourcePath) := by
  rw [found_list_of_names hopen.names, sourcesIn, List.filter_map]
  refine congrArg (Except.ok ∘ List.map _) (List.filter_congr fun name hname => ?_)
  obtain ⟨chars, hchars, rfl⟩ := List.mem_map.mp ((List.mergeSort_perm _ _).mem_iff.mp hname)
  have hisName := hd.isName_of_mem hchars
  rw [Function.comp_apply, sourcePath, Path.ofText, isSource, String.toList_ofList,
    extension?_join store.macrosFolder_endsInName hisName]

abbrev Reading := Except StoreError StoredMacro

def readings (store : Store) (d : Disk) : Except StoreError (List (Path × Reading)) :=
  (d.found store.list).map fun sources =>
    sources.map fun source => (source, d.found (loadMacro source))

/-- All macros are read, or the first that cannot be read is told. -/
theorem found_load (store : Store) (d : Disk) :
    d.found store.load = store.readings d >>= fun readings => readings.mapM (·.2) := by
  rw [load, found_bind store.looks_list, readings]
  cases d.found store.list with
  | error e => rfl
  | ok sources =>
      change d.found (sources.mapM loadMacro) = (sources.map _).mapM _
      rw [found_mapM looks_loadMacro, List.mapM_map]
      rfl

theorem readings_eq (hd : d.Sound) (hopen : d.Opens store.macrosFolder place) :
    store.readings d = .ok ((d.sourcesIn place).map fun name =>
      (store.sourcePath name, d.found (loadMacro (store.sourcePath name)))) := by
  rw [readings, found_list hd hopen]
  exact congrArg Except.ok (List.map_map ..)

def otherReadings (source : Path) (readings : List (Path × Reading)) : List (Path × Reading) :=
  readings.filter (·.1 != source)

/-- As long as their files are kept, macros are read as they were. -/
theorem filter_readings {before after : List (Path × Reading)} (hd : d.Sound) (hd' : d'.Sound)
    (hopen : d.Opens store.macrosFolder place) (hopen' : d'.Opens store.macrosFolder place)
    (hbefore : store.readings d = .ok before) (hafter : store.readings d' = .ok after)
    (p : Path → Bool)
    (h : ∀ stem, '/' ∉ stem → stem ≠ [] → p (store.macrosFolder.join ⟨sourceName stem⟩) = true →
      Kept d d' place (sourceName stem) ∧ Kept d d' place (settingsName stem)) :
    after.filter (p ·.1) = before.filter (p ·.1) := by
  rw [readings_eq hd hopen] at hbefore
  rw [readings_eq hd' hopen'] at hafter
  obtain rfl := Except.ok.inj hbefore
  obtain rfl := Except.ok.inj hafter
  have hpath (stem : List Char) : store.sourcePath (String.ofList (sourceName stem)) =
      store.macrosFolder.join ⟨sourceName stem⟩ := by
    rw [sourcePath, Path.ofText, String.toList_ofList]
  rw [List.filter_map, List.filter_map]
  change ((d'.sourcesIn place).filter fun name => p (store.sourcePath name)).map _ =
    ((d.sourcesIn place).filter fun name => p (store.sourcePath name)).map _
  rw [filter_sourcesIn hd hd' (fun name => p (store.sourcePath name))
    fun stem hslash hne hp => (h stem hslash hne (by rwa [hpath] at hp)).1]
  refine List.map_congr_left fun name hname => ?_
  obtain ⟨hmem, hp⟩ := List.mem_filter.mp hname
  obtain ⟨stem, hslash, hne, rfl⟩ := hd.stem_of_mem hmem
  rw [hpath] at hp ⊢
  obtain ⟨hsource, hsettings⟩ := h stem hslash hne hp
  rw [found_loadMacro_of_kept hopen hopen' store.macrosFolder_endsInName hslash hne hsource
    hsettings]

/-! ### Saving -/

theorem Saved.kept {folder : Path} (h : Saved d d' folder place stored result) {stem : List Char}
    (hstem : '/' ∉ stem) (hne : stem ≠ fileStem stored.name) :
    Kept d d' place (sourceName stem) ∧ Kept d d' place (settingsName stem) := by
  have hslash := slash_not_mem_fileStem stored.name
  constructor
  · refine h.others _ (append_singleton_ne place fun heq => hne (sourceName_injective heq))
      (append_singleton_ne place (sourceName_ne_settingsName _ _))
      fun name htemporary => append_singleton_ne place fun heq => ?_
    exact sourceName_not_isTemporary hstem hslash (heq ▸ htemporary)
  · refine h.others _ (append_singleton_ne place (sourceName_ne_settingsName _ _).symm)
      (append_singleton_ne place fun heq => hne (settingsName_injective heq))
      fun name htemporary => append_singleton_ne place fun heq => ?_
    exact settingsName_not_isTemporary hstem hslash (heq ▸ htemporary)

/-- What becomes of a macro that is saved: nothing, or it is read as it was saved, or with the
settings that were there before. -/
inductive Turns (d : Disk) (source : Path) (stored : StoredMacro)
    (result : Option (Except StoreError Unit)) (before after : List (Path × Reading)) : Prop
  | same (h : after = before) (hresult : result = some (.ok ()) → fileStem stored.name = [])
  | saved (h : after.lookup source = some (.ok stored))
  | mixed (h : after.lookup source = some ((d.found (settingsBeside source)).map fun settings =>
      settings.stored (fileName source) stored.contents)) (hresult : result ≠ some (.ok ()))

/-- A macro that has been saved is read as it was saved, if it is looked at. -/
theorem Turns.of_ok {source : Path} {before after : List (Path × Reading)}
    (h : Turns d source stored (some (.ok ())) before after) :
    (after = before ∧ fileStem stored.name = []) ∨ after.lookup source = some (.ok stored) := by
  rcases h with ⟨hsame, hnil⟩ | hlookup | ⟨-, hmissed⟩
  · exact .inl ⟨hsame, hnil rfl⟩
  · exact .inr hlookup
  · exact absurd rfl hmissed

theorem Saved.turns {before after : List (Path × Reading)} (hd : d.Sound) (hd' : d'.Sound)
    (hopen : d.Opens store.macrosFolder place) (hcount : Json.Is32Bit stored.craftCount)
    (h : Saved d d' store.macrosFolder place stored result)
    (hbefore : store.readings d = .ok before) (hafter : store.readings d' = .ok after) :
    otherReadings (store.macroPath stored.name) after =
        otherReadings (store.macroPath stored.name) before ∧
      Turns d (store.macroPath stored.name) stored result before after := by
  have hfolder := store.macrosFolder_endsInName
  have hslash := slash_not_mem_fileStem stored.name
  have hopen' := h.folders.opens_iff.mpr hopen
  have hfilter := filter_readings hd hd' hopen hopen' hbefore hafter
  have hall (hown : fileStem stored.name = [] ∨
      Kept d d' place (sourceName (fileStem stored.name)) ∧
        Kept d d' place (settingsName (fileStem stored.name))) : after = before := by
    have hsame := hfilter (fun _ => true) fun stem hstem hne _ => by
      by_cases heq : stem = fileStem stored.name
      · rw [heq] at hne ⊢
        exact hown.resolve_left hne
      · exact h.kept hstem heq
    simpa using hsame
  refine ⟨hfilter (· != store.macroPath stored.name) fun stem hstem _ hp => h.kept hstem fun heq =>
    bne_iff_ne.mp hp (by rw [heq]; rfl), ?_⟩
  by_cases hnil : fileStem stored.name = []
  · exact .same (hall (.inl hnil)) fun _ => hnil
  by_cases hdot : fileStem stored.name = ['.']
  · obtain ⟨rfl, hmissed⟩ := h.blocked hdot
    exact .same (Except.ok.inj (hafter.symm.trans hbefore)) fun hok => absurd hok hmissed
  have hlookup (hsource : Holds d' store.macrosFolder place (sourceName (fileStem stored.name))
      (utf8Bytes stored.contents)) : after.lookup (store.macroPath stored.name) =
        some (d'.found (loadMacro (store.macroPath stored.name))) := by
    have hmem : String.ofList (sourceName (fileStem stored.name)) ∈ d'.sourcesIn place :=
      (mem_sourcesIn_sourceName hnil).mpr (by rw [hsource.file]; simp)
    rw [readings, found_list hd' hopen'] at hafter
    obtain rfl := Except.ok.inj hafter
    refine List.lookup_graph _ (List.mem_map.mpr ⟨_, hmem, ?_⟩)
    rw [sourcePath, Path.ofText, String.toList_ofList, macroPath_eq]
  rcases h.files with ⟨hmissed, hsettings, hsource | hsource⟩ | ⟨hsource, hsettings⟩
  · exact .same (hall (.inr ⟨hsource, hsettings⟩)) fun hok => absurd hok hmissed
  · refine .mixed ?_ hmissed
    rw [hlookup hsource, macroPath_eq, found_loadMacro_of_text
      (hsource.entryAt hopen' hfolder (isName_sourceName hslash).2.2),
      found_settingsBeside_of_kept hopen hopen' hfolder hslash hnil hsettings]
  · refine .saved ?_
    rw [hlookup hsource, macroPath_eq,
      found_loadMacro_of_holds hopen' hfolder hslash hnil hdot hcount hsource hsettings]

/-! ### An empty folder -/

def atTop : Store := ⟨.ofText "/"⟩

def emptyShelf : Disk := { entries := [(["macros".toList], .folder)] }

theorem sound_emptyShelf : emptyShelf.Sound := ⟨by decide, by decide, by decide⟩

theorem opens_emptyShelf : emptyShelf.Opens atTop.macrosFolder ["macros".toList] :=
  ⟨by decide, by decide⟩

end Store

end CraftLang
