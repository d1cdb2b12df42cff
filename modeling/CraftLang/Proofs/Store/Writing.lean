import CraftLang.Proofs.Disk.Places
import CraftLang.Proofs.Store.Mishaps

/-!
Writing a file so that it is there as it was or as it will be. Whatever happens while it is written,
nothing else is touched but the temporary file, and it takes the place of the file in one call.
-/

namespace CraftLang

namespace Storing

open Disk

variable {d d' : Disk} {path : Path} {bytes : List UInt8}
  {result : Option (Except StoreError Unit)}

/-- What writing a file leaves: nothing, a temporary file, or the file as it will be. -/
inductive Wrote (d : Disk) (path : Path) (bytes : List UInt8)
    (result : Option (Except StoreError Unit)) : Disk → Prop
  | nothing (hmissed : result ≠ some (.ok ())) : Wrote d path bytes result d
  | temporary {place : Place} {written : List UInt8}
      (hplace : d.locate (temporary path) = .ok place) (hfree : d.lookup place ≠ some .folder)
      (hmissed : result ≠ some (.ok ())) :
      Wrote d path bytes result (d.set place (.file written))
  | whole {place target : Place} (hplace : d.locate (temporary path) = .ok place)
      (hfree : d.lookup place ≠ some .folder) (htarget : d.locate path = .ok target)
      (hfree' : d.lookup target ≠ some .folder) :
      Wrote d path bytes result ((d.erase place).set target (.file bytes))

/-- What comes after the temporary file has taken its place. -/
theorem leaves_synced
    (h : Leaves (match path.parent? with
      | none => pure ()
      | some folder => do
        carryOut (.openFolder folder) (Program.ask (FileCall.openFolder folder))
        carryOut .syncFolder (Program.ask (FileCall.syncFolder folder))) d result d') :
    d' = d := by
  split at h
  · cases h <;> rfl
  · rcases h.bind_cases with ⟨_, hfirst, -⟩ | ⟨_, d₁, hfirst, hsecond⟩
    · exact hfirst.quiet fun _ => FileProgram.Leaves.ask_quiet nofun rfl
    · obtain rfl := hfirst.quiet fun _ => FileProgram.Leaves.ask_quiet nofun rfl
      exact hsecond.quiet fun _ => FileProgram.Leaves.ask_quiet nofun rfl

/-- Something is appended to a file. -/
theorem append_set {place : Place} {before written : List UInt8}
    (hplace : d.locate path = .ok place) (hfree : d.lookup place ≠ some .folder)
    (h : (d.set place (.file before)).append path written = .ok d') :
    d' = d.set place (.file (before ++ written)) := by
  obtain ⟨found, bytes, hfound, hbytes, rfl⟩ := append_eq_ok h
  obtain rfl : place = found := Except.ok.inj
    (hplace.symm.trans ((SameFolders.set_file hfree before).locate_iff.mp hfound))
  rw [lookup_set_self d (ne_nil_of_lookup hfree)] at hbytes
  cases hbytes
  exact set_set d place _ _

/-- A file takes the place of another. -/
theorem wrote_of_rename {place : Place} (hplace : d.locate (temporary path) = .ok place)
    (hfree : d.lookup place ≠ some .folder)
    (h : (d.set place (.file bytes)).rename (temporary path) path = .ok d') :
    Wrote d path bytes result d' := by
  have hsame := SameFolders.set_file hfree bytes
  obtain ⟨start, target, moved, hstart, hmoved, htarget, hfree', rfl⟩ := rename_eq_ok h
  obtain rfl : place = start :=
    Except.ok.inj (hplace.symm.trans (hsame.locate_iff.mp hstart))
  rw [lookup_set_self d (ne_nil_of_lookup hfree)] at hmoved
  cases hmoved
  rw [erase_set]
  exact .whole hplace hfree (hsame.locate_iff.mp htarget)
    fun hfolder => hfree' ((hsame.folders target).mpr hfolder)

/-- Whatever happens while a file is written, it is as it was, or as it will be. -/
theorem wrote_of_leaves (h : Leaves (writeAtomic path bytes) d result d') :
    Wrote d path bytes result d' := by
  rcases h.bind_cases with ⟨_, hfirst, hmissed⟩ | ⟨⟨⟩, d₁, hfirst, hwrite⟩
  · rcases hfirst.create_cases with ⟨rfl, -⟩ | hcreate
    · exact .nothing (hmissed ())
    · obtain ⟨place, hplace, hfree, rfl⟩ := create_eq_ok hcreate
      exact .temporary hplace hfree (hmissed ())
  obtain ⟨-, hne⟩ | hcreate := hfirst.create_cases
  · exact absurd rfl hne
  obtain ⟨place, hplace, hfree, rfl⟩ := create_eq_ok hcreate
  rcases hwrite.bind_cases with ⟨_, hsecond, hmissed⟩ | ⟨⟨⟩, d₂, hsecond, hsync⟩
  · rcases hsecond.append_cases with ⟨rfl, -⟩ | ⟨written, happend, -⟩
    · exact .temporary hplace hfree (hmissed ())
    · rw [append_set hplace hfree happend]
      exact .temporary hplace hfree (hmissed ())
  obtain ⟨-, hne⟩ | ⟨written, happend, hall⟩ := hsecond.append_cases
  · exact absurd rfl hne
  obtain rfl := append_set hplace hfree happend
  obtain rfl := hall rfl
  rcases hsync.bind_cases with ⟨_, hthird, hmissed⟩ | ⟨⟨⟩, d₃, hthird, hmove⟩
  · obtain rfl := hthird.quiet fun _ => FileProgram.Leaves.ask_quiet nofun rfl
    exact .temporary hplace hfree (hmissed ())
  obtain rfl := hthird.quiet fun _ => FileProgram.Leaves.ask_quiet nofun rfl
  rcases hmove.bind_cases with ⟨_, hfourth, hmissed⟩ | ⟨⟨⟩, d₄, hfourth, hrest⟩
  · rcases hfourth.rename_cases with ⟨rfl, -⟩ | hrename
    · exact .temporary hplace hfree (hmissed ())
    · exact wrote_of_rename hplace hfree hrename
  obtain ⟨-, hne⟩ | hrename := hfourth.rename_cases
  · exact absurd rfl hne
  obtain rfl := leaves_synced hrest
  exact wrote_of_rename hplace hfree hrename

end Storing

end CraftLang
