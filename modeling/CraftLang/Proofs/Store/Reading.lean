import CraftLang.Proofs.Store.Looking
import CraftLang.Proofs.Store.Saving

/-!
Reading a macro. It is put together from a source and the settings beside it, so it changes only
when one of these two files does.
-/

namespace CraftLang

open Disk CraftLang.Path Text Storing

variable {d d' : Disk} {folder source path : Path} {place : Place} {name stem : List Char}
  {bytes : List UInt8}

namespace Disk

theorem read_congr (h : d'.entryAt path = d.entryAt path) : d'.read path = d.read path := by
  rw [read, h, read]

end Disk

theorem Storing.found_bytesOf_file (h : d.entryAt path = .ok (.file bytes)) :
    d.found (bytesOf path) = .ok bytes := by
  rw [found_bytesOf, Disk.read, h]
  rfl

namespace Store

/-! ### A macro and its settings -/

/-- The settings beside a source, or the default ones if there are none. -/
def settingsBeside (source : Path) : Storing MacroSettings := do
  let settingsPath := source.withExtension settingsExtension
  if ← FileProgram.fileExists settingsPath then do
    let bytes ← bytesOf settingsPath
    decoded (.decodeSettings settingsPath) "not the settings of a macro"
      (Json.read? bytes >>= MacroSettings.ofJson?)
  else pure {}

def fileName (source : Path) : String := String.ofList (source.stem?.getD [])

theorem loadMacro_eq (source : Path) :
    loadMacro source = (do
      let bytes ← bytesOf source
      let contents ← decoded (.decodeText source) "invalid utf-8 sequence" (utf8Text? bytes)
      let settings ← settingsBeside source
      pure (settings.stored (fileName source) contents)) := by
  simp only [loadMacro, settingsBeside, bind_assoc]
  refine congrArg (bytesOf source >>= ·) (funext fun bytes => ?_)
  refine congrArg (decoded _ _ _ >>= ·) (funext fun contents => ?_)
  refine congrArg (liftM _ >>= ·) (funext fun isThere => ?_)
  cases isThere
  · rfl
  · simp only [if_true, bind_assoc]
    rfl

theorem looks_settingsBeside (source : Path) : Looks (settingsBeside source) := by
  refine (looks_exists _).bind fun isThere => ?_
  cases isThere
  · exact looks_pure _
  · exact (looks_bytesOf _).bind fun bytes => looks_decoded _ _ _

theorem looks_loadMacro (source : Path) : Looks (loadMacro source) := by
  rw [loadMacro_eq]
  exact (looks_bytesOf _).bind fun bytes => (looks_decoded _ _ _).bind fun contents =>
    (looks_settingsBeside _).bind fun settings => looks_pure _

theorem found_settingsBeside (d : Disk) (source : Path) :
    d.found (settingsBeside source) =
      if (d.entryAt (source.withExtension settingsExtension)).isOk then do
        let bytes ← d.found (bytesOf (source.withExtension settingsExtension))
        decoding (.decodeSettings (source.withExtension settingsExtension))
          "not the settings of a macro" (Json.read? bytes >>= MacroSettings.ofJson?)
      else .ok {} := by
  rw [settingsBeside, found_bind (looks_exists _), found_exists]
  change d.found (if _ then _ else _) = _
  split
  · rw [found_bind (looks_bytesOf _)]
    simp only [found_decoded]
  · rfl

theorem found_loadMacro (d : Disk) (source : Path) :
    d.found (loadMacro source) = (do
      let bytes ← d.found (bytesOf source)
      let contents ← decoding (.decodeText source) "invalid utf-8 sequence" (utf8Text? bytes)
      let settings ← d.found (settingsBeside source)
      pure (settings.stored (fileName source) contents)) := by
  simp only [loadMacro_eq, found_bind (looks_bytesOf _), found_bind (looks_decoded _ _ _),
    found_bind (looks_settingsBeside _), found_decoded, found_pure]
  rfl

theorem found_settingsBeside_congr
    (h : d'.entryAt (source.withExtension settingsExtension) =
      d.entryAt (source.withExtension settingsExtension)) :
    d'.found (settingsBeside source) = d.found (settingsBeside source) := by
  rw [found_settingsBeside, found_settingsBeside, found_bytesOf, found_bytesOf, h, read_congr h]

theorem found_loadMacro_congr (hsource : d'.entryAt source = d.entryAt source)
    (hsettings : d'.found (settingsBeside source) = d.found (settingsBeside source)) :
    d'.found (loadMacro source) = d.found (loadMacro source) := by
  rw [found_loadMacro, found_loadMacro, found_bytesOf, found_bytesOf, hsettings,
    read_congr hsource]

/-- With a text in its source, a macro is what its settings make of that. -/
theorem found_loadMacro_of_text {contents : String}
    (h : d.entryAt source = .ok (.file (utf8Bytes contents))) :
    d.found (loadMacro source) =
      (d.found (settingsBeside source)).map fun settings =>
        settings.stored (fileName source) contents := by
  rw [found_loadMacro, found_bytesOf_file h]
  simp only [utf8Text?_utf8Bytes, decoding, bind, Except.bind]
  cases d.found (settingsBeside source) <;> rfl

theorem found_settingsBeside_of_json {settings : MacroSettings}
    (hcount : Json.Is32Bit settings.craftCount)
    (h : d.entryAt (source.withExtension settingsExtension) =
      .ok (.file (utf8Bytes settings.toJson.pretty))) :
    d.found (settingsBeside source) = .ok settings := by
  rw [found_settingsBeside, h, found_bytesOf_file h]
  simp only [Except.isOk, Except.toBool, if_true, bind, Except.bind]
  exact congrArg (decoding _ _) (MacroSettings.read_pretty hcount)

/-! ### Its two files -/

theorem withExtension_source (hfolder : folder.EndsInName) (hstem : '/' ∉ stem)
    (hne : stem ≠ []) (hdot : stem ≠ ['.']) :
    (folder.join ⟨sourceName stem⟩).withExtension settingsExtension =
      folder.join ⟨settingsName stem⟩ := by
  have heq : renamed (sourceName stem) settingsExtension false = settingsName stem :=
    renamed_append hne hdot isExtension_source.dot _
  rw [withExtension_join hfolder (isName_sourceName hstem), heq]
  rw [heq]
  exact (isName_settingsName hstem).2.2

/-- A source whose stem is a dot has the folder above for its settings. -/
theorem withExtension_source_dot (hfolder : folder.EndsInName) :
    (folder.join ⟨sourceName ['.']⟩).withExtension settingsExtension = folder.join ⟨upward⟩ :=
  withExtension_join hfolder (isName_sourceName (by decide)) (by decide)

theorem Holds.entryAt (h : Holds d folder place name bytes) (hopen : d.Opens folder place)
    (hfolder : folder.EndsInName) (hslash : '/' ∉ name) :
    d.entryAt (folder.join ⟨name⟩) = .ok (.file bytes) := by
  rw [Disk.entryAt, hopen.locate_join hfolder hslash, h.leads]
  simp only [bind, Except.bind, h.file]

theorem Kept.entryAt (h : Kept d d' place name) (hopen : d.Opens folder place)
    (hopen' : d'.Opens folder place) (hfolder : folder.EndsInName) (hname : IsName name) :
    d'.entryAt (folder.join ⟨name⟩) = d.entryAt (folder.join ⟨name⟩) := by
  rw [Disk.entryAt, Disk.entryAt, hopen.locate_join hfolder hname.2.2,
    hopen'.locate_join hfolder hname.2.2]
  cases hfound : within folder place name with
  | error fault => rfl
  | ok found =>
      obtain rfl := within_eq_ok hname hfound
      simp only [bind, Except.bind, show d'.lookup (place ++ [name]) = _ from h]

theorem entryAt_upward (hopen : d.Opens folder place) (hopen' : d'.Opens folder place)
    (hfolder : folder.EndsInName) :
    d'.entryAt (folder.join ⟨upward⟩) = d.entryAt (folder.join ⟨upward⟩) := by
  have hslash : '/' ∉ upward := by decide
  rw [Disk.entryAt, Disk.entryAt, hopen.locate_join hfolder hslash,
    hopen'.locate_join hfolder hslash]
  cases hfound : within folder place upward with
  | error fault => rfl
  | ok found =>
      simp only [bind, Except.bind, hopen.folder_of_upward hfolder hfound,
        hopen'.folder_of_upward hfolder hfound]

/-- Where the settings of a macro are looked for, there is what there was. -/
theorem Kept.entryAt_settings (hopen : d.Opens folder place) (hopen' : d'.Opens folder place)
    (hfolder : folder.EndsInName) (hstem : '/' ∉ stem) (hne : stem ≠ [])
    (hkept : Kept d d' place (settingsName stem)) :
    d'.entryAt ((folder.join ⟨sourceName stem⟩).withExtension settingsExtension) =
      d.entryAt ((folder.join ⟨sourceName stem⟩).withExtension settingsExtension) := by
  by_cases hdot : stem = ['.']
  · rw [hdot, withExtension_source_dot hfolder]
    exact entryAt_upward hopen hopen' hfolder
  · rw [withExtension_source hfolder hstem hne hdot]
    exact hkept.entryAt hopen hopen' hfolder (isName_settingsName hstem)

/-- A macro whose settings are kept has the settings that it had. -/
theorem found_settingsBeside_of_kept (hopen : d.Opens folder place)
    (hopen' : d'.Opens folder place) (hfolder : folder.EndsInName) (hstem : '/' ∉ stem)
    (hne : stem ≠ []) (hkept : Kept d d' place (settingsName stem)) :
    d'.found (settingsBeside (folder.join ⟨sourceName stem⟩)) =
      d.found (settingsBeside (folder.join ⟨sourceName stem⟩)) :=
  found_settingsBeside_congr (hkept.entryAt_settings hopen hopen' hfolder hstem hne)

/-- A macro of which both files are kept is read as it was. -/
theorem found_loadMacro_of_kept (hopen : d.Opens folder place) (hopen' : d'.Opens folder place)
    (hfolder : folder.EndsInName) (hstem : '/' ∉ stem) (hne : stem ≠ [])
    (hsource : Kept d d' place (sourceName stem))
    (hsettings : Kept d d' place (settingsName stem)) :
    d'.found (loadMacro (folder.join ⟨sourceName stem⟩)) =
      d.found (loadMacro (folder.join ⟨sourceName stem⟩)) :=
  found_loadMacro_congr (hsource.entryAt hopen hopen' hfolder (isName_sourceName hstem))
    (found_settingsBeside_of_kept hopen hopen' hfolder hstem hne hsettings)

/-- A macro of which both files are there is read from them. -/
theorem found_loadMacro_of_holds {stored : StoredMacro} (hopen : d.Opens folder place)
    (hfolder : folder.EndsInName) (hstem : '/' ∉ stem) (hne : stem ≠ []) (hdot : stem ≠ ['.'])
    (hcount : Json.Is32Bit stored.craftCount)
    (hsource : Holds d folder place (sourceName stem) (utf8Bytes stored.contents))
    (hsettings : Holds d folder place (settingsName stem) (settingsBytes stored)) :
    d.found (loadMacro (folder.join ⟨sourceName stem⟩)) = .ok stored := by
  have hentry := hsettings.entryAt hopen hfolder (isName_settingsName hstem).2.2
  rw [← withExtension_source hfolder hstem hne hdot] at hentry
  have hfound : d.found (settingsBeside (folder.join ⟨sourceName stem⟩)) =
      .ok (MacroSettings.ofStored stored) := found_settingsBeside_of_json hcount hentry
  rw [found_loadMacro_of_text (hsource.entryAt hopen hfolder (isName_sourceName hstem).2.2), hfound]
  rfl

end Store

end CraftLang
