import CraftLang.Disk.Basic
import CraftLang.Proofs.Program.Paths
import CraftLang.Store.Basic

/-!
Mishaps of programs that work with files. Any call can fail for a reason that has nothing to do with
what is on the disk, and a program can be stopped between any two calls or while it writes. What it
leaves on the disk then is what its calls have done up to there.
-/

namespace CraftLang

/-- The reply of a call that fails, although the disk would let it succeed. -/
def FileCall.failure (reason : String) : (call : FileCall) → call.Reply
  | .exists _ | .isFolder _ => false
  | .names _ | .read _ | .makeFolder _ | .create _ | .append _ _ | .sync _ | .rename _ _
  | .openFolder _ | .syncFolder _ => .error (.refused reason)

namespace FileProgram

variable {α β : Type} {d d' : Disk}

/-- `Leaves program d result d'` says that a program that begins on the disk `d` can leave the disk
`d'` behind. It has no result if it is stopped. A call that fails does nothing to the disk, but a
part of what was to be appended can be there. -/
inductive Leaves : FileProgram α → Disk → Option α → Disk → Prop
  | stopped (program : FileProgram α) (d : Disk) : Leaves program d none d
  | done (value : α) (d : Disk) : Leaves (.done value) d (some value) d
  | answered {call : FileCall} {next : call.Reply → FileProgram α} {d d' : Disk}
      {result : Option α} (h : Leaves (next (d.answer call).1) (d.answer call).2 result d') :
      Leaves (.call call next) d result d'
  | failed {call : FileCall} {next : call.Reply → FileProgram α} {d d' : Disk}
      {result : Option α} (reason : String)
      (h : Leaves (next (call.failure reason)) d result d') : Leaves (.call call next) d result d'
  | torn {path : Path} {written unwritten : List UInt8}
      {next : FileCall.Reply (.append path (written ++ unwritten)) → FileProgram α} {d d' : Disk}
      {result : Option α} (reason : String)
      (h : Leaves (next (.error (.refused reason))) (d.answer (.append path written)).2 result d') :
      Leaves (.call (.append path (written ++ unwritten)) next) d result d'

/-- Without any mishap a program leaves what it makes of the disk. -/
theorem leaves_run (program : FileProgram α) (d : Disk) :
    Leaves program d (some (d.run program).1) (d.run program).2 := by
  induction program generalizing d with
  | done value => exact .done value d
  | call request next ih => exact .answered (ih _ _)

/-- A program can be stopped after any number of calls. -/
theorem leaves_runFor (program : FileProgram α) (steps : Nat) (d : Disk) :
    Leaves program d none (program.runFor Disk.answer steps d) := by
  induction steps generalizing program d with
  | zero => exact .stopped program d
  | succ steps ih =>
      cases program with
      | done value => exact .stopped _ d
      | call request next => exact .answered (ih _ _)

/-- What each call of a program does to the disk, or leaves undone, the program does in the end. -/
theorem Leaves.keeps {Q : FileCall → Prop} {R : Disk → Disk → Prop} (hrefl : ∀ d, R d d)
    (htrans : ∀ {d d' d''}, R d d' → R d' d'' → R d d'')
    (hcall : ∀ call d, Q call → R d (d.answer call).2)
    (htorn : ∀ path written unwritten, Q (.append path (written ++ unwritten)) →
      Q (.append path written))
    {program : FileProgram α} {result : Option α} (hprogram : program.Asks Q)
    (h : Leaves program d result d') : R d d' := by
  induction h with
  | stopped program d => exact hrefl d
  | done value d => exact hrefl d
  | answered _ ih => exact htrans (hcall _ _ hprogram.1) (ih (hprogram.2 _))
  | failed reason _ ih => exact ih (hprogram.2 _)
  | torn reason _ ih => exact htrans (hcall _ _ (htorn _ _ _ hprogram.1)) (ih (hprogram.2 _))

/-- A program is stopped in its first part, or that comes to a result and the rest begins. -/
theorem Leaves.bind_cases {program : FileProgram α} {f : α → FileProgram β} {result : Option β}
    (h : Leaves (program >>= f) d result d') :
    (result = none ∧ Leaves program d none d') ∨
      ∃ value d₁, Leaves program d (some value) d₁ ∧ Leaves (f value) d₁ result d' := by
  induction program generalizing d with
  | done value => exact .inr ⟨value, d, .done value d, h⟩
  | call request next ih =>
      cases h with
      | stopped => exact .inl ⟨rfl, .stopped _ _⟩
      | answered h =>
          rcases ih _ h with ⟨hnone, hfirst⟩ | ⟨value, d₁, hfirst, hrest⟩
          · exact .inl ⟨hnone, .answered hfirst⟩
          · exact .inr ⟨value, d₁, .answered hfirst, hrest⟩
      | failed reason h =>
          rcases ih _ h with ⟨hnone, hfirst⟩ | ⟨value, d₁, hfirst, hrest⟩
          · exact .inl ⟨hnone, .failed reason hfirst⟩
          · exact .inr ⟨value, d₁, .failed reason hfirst, hrest⟩
      | torn reason h =>
          rcases ih _ h with ⟨hnone, hfirst⟩ | ⟨value, d₁, hfirst, hrest⟩
          · exact .inl ⟨hnone, .torn reason hfirst⟩
          · exact .inr ⟨value, d₁, .torn reason hfirst, hrest⟩

/-- A single call has failed, or has been answered, or has been torn. -/
theorem Leaves.ask_cases {call : FileCall} {reply : Option call.Reply}
    (h : Leaves (Program.ask call) d reply d') :
    (d' = d ∧ ∀ value, reply = some value → ∃ reason, value = call.failure reason) ∨
      (d' = (d.answer call).2 ∧ ∀ value, reply = some value → value = (d.answer call).1) ∨
      ∃ path written unwritten, call = .append path (written ++ unwritten) ∧
        d' = (d.answer (.append path written)).2 ∧
          ∀ value, reply = some value → ∃ reason, value = call.failure reason := by
  cases h with
  | stopped => exact .inl ⟨rfl, nofun⟩
  | answered h =>
      refine .inr (.inl ?_)
      cases h with
      | stopped => exact ⟨rfl, nofun⟩
      | done => exact ⟨rfl, fun value hvalue => (Option.some.inj hvalue).symm⟩
  | failed reason h =>
      refine .inl ?_
      cases h with
      | stopped => exact ⟨rfl, nofun⟩
      | done => exact ⟨rfl, fun value hvalue => ⟨reason, (Option.some.inj hvalue).symm⟩⟩
  | torn reason h =>
      refine .inr (.inr ⟨_, _, _, rfl, ?_⟩)
      cases h with
      | stopped => exact ⟨rfl, nofun⟩
      | done => exact ⟨rfl, fun value hvalue => ⟨reason, (Option.some.inj hvalue).symm⟩⟩

/-- A call that leaves the disk as it is does so whatever happens to it. -/
theorem Leaves.ask_quiet {call : FileCall} {reply : Option call.Reply}
    (hwhole : ∀ path bytes, call ≠ .append path bytes) (hquiet : (d.answer call).2 = d)
    (h : Leaves (Program.ask call) d reply d') : d' = d := by
  rcases h.ask_cases with ⟨rfl, -⟩ | ⟨rfl, -⟩ | ⟨path, _, _, hcall, -⟩
  · rfl
  · exact hquiet
  · exact absurd hcall (hwhole path _)

end FileProgram

namespace Storing

open FileProgram

variable {α β : Type} {d d' : Disk}

/-- What a program for a store leaves behind. -/
abbrev Leaves (program : Storing α) (d : Disk) (result : Option (Except StoreError α))
    (d' : Disk) : Prop :=
  FileProgram.Leaves program.run d result d'

theorem leaves_of_run {program : Storing α} {result : Except StoreError α}
    (h : d.run program.run = (result, d')) : Leaves program d (some result) d' := by
  have hrun := FileProgram.leaves_run program.run d
  rwa [h] at hrun

/-- A program has no result because its first part has none, or that has one and the rest
begins. -/
theorem Leaves.bind_cases {program : Storing α} {f : α → Storing β}
    {result : Option (Except StoreError β)} (h : Leaves (program >>= f) d result d') :
    (∃ first, Leaves program d first d' ∧ ∀ value, result ≠ some (.ok value)) ∨
      ∃ value d₁, Leaves program d (some (.ok value)) d₁ ∧ Leaves (f value) d₁ result d' := by
  rcases FileProgram.Leaves.bind_cases h with ⟨rfl, hfirst⟩ | ⟨value | value, d₁, hfirst, hrest⟩
  · exact .inl ⟨none, hfirst, nofun⟩
  · cases hrest with
    | stopped => exact .inl ⟨_, hfirst, nofun⟩
    | done => exact .inl ⟨_, hfirst, nofun⟩
  · exact .inr ⟨value, d₁, hfirst, hrest⟩

/-- A task is done as its only call is, or fails with it. -/
theorem Leaves.carryOut_cases {task : StoreTask} {program : FileProgram (Except FileFault α)}
    {result : Option (Except StoreError α)} (h : Leaves (carryOut task program) d result d') :
    ∃ reply, FileProgram.Leaves program d reply d' ∧
      ∀ value, result = some (.ok value) → reply = some (.ok value) := by
  rcases FileProgram.Leaves.bind_cases h with ⟨rfl, hprogram⟩ | ⟨reply, d₁, hprogram, hrest⟩
  · exact ⟨none, hprogram, nofun⟩
  · rcases reply with fault | value
    all_goals
      cases hrest
      · exact ⟨_, hprogram, nofun⟩
      · exact ⟨_, hprogram, by simp⟩

variable {task : StoreTask} {path : Path} {result : Option (Except StoreError Unit)}

/-- A call that changes the disk has failed, or leaves what it makes of the disk. -/
theorem change_cases {made : Except FileFault Disk} {reply : Option (Except FileFault Unit)}
    (hreply : ∀ value, result = some (.ok value) → reply = some (.ok value))
    (h : (d' = d ∧ ∀ value, reply = some value → ∃ fault, value = .error fault) ∨
      (d' = (d.changed made).2 ∧ ∀ value, reply = some value → value = (d.changed made).1)) :
    (d' = d ∧ result ≠ some (.ok ())) ∨ made = .ok d' := by
  rcases h with ⟨rfl, hfail⟩ | ⟨rfl, hdone⟩
  · refine .inl ⟨rfl, fun hok => ?_⟩
    obtain ⟨fault, hfault⟩ := hfail _ (hreply () hok)
    cases hfault
  · cases made with
    | ok made => exact .inr rfl
    | error fault => exact .inl ⟨rfl, fun hok => nomatch hdone _ (hreply () hok)⟩

theorem Leaves.create_cases
    (h : Leaves (carryOut task (Program.ask (FileCall.create path))) d result d') :
    (d' = d ∧ result ≠ some (.ok ())) ∨ d.create path = .ok d' := by
  obtain ⟨reply, hask, hreply⟩ := h.carryOut_cases
  rcases hask.ask_cases with ⟨hsame, hfailed⟩ | hdone | ⟨_, _, _, hcall, -⟩
  · exact change_cases hreply (.inl ⟨hsame, fun _ hvalue => (hfailed _ hvalue).imp' _ fun _ => id⟩)
  · exact change_cases hreply (.inr hdone)
  · cases hcall

theorem Leaves.rename_cases {source target : Path}
    (h : Leaves (carryOut task (Program.ask (FileCall.rename source target))) d result d') :
    (d' = d ∧ result ≠ some (.ok ())) ∨ d.rename source target = .ok d' := by
  obtain ⟨reply, hask, hreply⟩ := h.carryOut_cases
  rcases hask.ask_cases with ⟨hsame, hfailed⟩ | hdone | ⟨_, _, _, hcall, -⟩
  · exact change_cases hreply (.inl ⟨hsame, fun _ hvalue => (hfailed _ hvalue).imp' _ fun _ => id⟩)
  · exact change_cases hreply (.inr hdone)
  · cases hcall

/-- A part of what was to be appended is there, or all of it. -/
theorem Leaves.append_cases {bytes : List UInt8}
    (h : Leaves (carryOut task (Program.ask (FileCall.append path bytes))) d result d') :
    (d' = d ∧ result ≠ some (.ok ())) ∨
      ∃ written, d.append path written = .ok d' ∧ (result = some (.ok ()) → written = bytes) := by
  obtain ⟨reply, hask, hreply⟩ := h.carryOut_cases
  have hall (hmade : d.append path bytes = .ok d') : ∃ written, d.append path written = .ok d' ∧
      (result = some (.ok ()) → written = bytes) := ⟨bytes, hmade, fun _ => rfl⟩
  rcases hask.ask_cases with ⟨hsame, hfailed⟩ | hdone | ⟨_, written, unwritten, hcall, rfl, hfailed⟩
  · exact (change_cases hreply
      (.inl ⟨hsame, fun _ hvalue => (hfailed _ hvalue).imp' _ fun _ => id⟩)).imp id hall
  · exact (change_cases hreply (.inr hdone)).imp id hall
  · obtain ⟨rfl, rfl⟩ := FileCall.append.inj hcall
    have hne : result ≠ some (.ok ()) := fun hok => by
      obtain ⟨fault, hfault⟩ := hfailed _ (hreply () hok)
      cases hfault
    cases hmade : d.append path written with
    | error fault => exact .inl ⟨by simp only [Disk.answer, hmade, Disk.changed], hne⟩
    | ok made =>
        refine .inr ⟨written, ?_, fun hok => absurd hok hne⟩
        simp only [Disk.answer, hmade, Disk.changed]

/-- A task whose call only looks leaves the disk as it is. -/
theorem Leaves.quiet {program : FileProgram (Except FileFault α)}
    {result : Option (Except StoreError α)} (h : Leaves (carryOut task program) d result d')
    (hquiet : ∀ reply, FileProgram.Leaves program d reply d' → d' = d) : d' = d := by
  obtain ⟨reply, hprogram, -⟩ := h.carryOut_cases
  exact hquiet reply hprogram

end Storing

end CraftLang
