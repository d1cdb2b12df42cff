import CraftLang.Disk.Basic
import CraftLang.Proofs.Program.Paths
import CraftLang.Store.Basic

/-!
Programs that only look at a disk. What such a program finds is put together from what its parts
find on the same disk.
-/

namespace CraftLang

variable {α β : Type} {d : Disk}

/-- A call that leaves every disk as it is. -/
def FileCall.Looks (call : FileCall) : Prop :=
  ∀ d : Disk, (d.answer call).2 = d

theorem Disk.run_of_looks {program : FileProgram α} (h : program.Asks FileCall.Looks) (d : Disk) :
    (d.run program).2 = d := by
  induction program with
  | done value => rfl
  | call request next ih =>
      have hrest := ih (d.answer request).1 (h.2 _)
      change ((next (d.answer request).1).run answer (d.answer request).2).2 = d
      rw [h.1 d]
      exact hrest

/-- What a program for a store comes to. -/
def Disk.found (d : Disk) (program : Storing α) : Except StoreError α :=
  (d.run program.run).1

namespace Storing

def Looks (program : Storing α) : Prop :=
  program.run.Asks FileCall.Looks

theorem Looks.run_eq {program : Storing α} (h : Looks program) (d : Disk) :
    d.run program.run = (d.found program, d) :=
  Prod.ext rfl (Disk.run_of_looks h d)

theorem run_bind (program : Storing α) (f : α → Storing β) (d : Disk) :
    d.run (program >>= f).run =
      match (d.run program.run).1 with
      | .ok value => (d.run program.run).2.run (f value).run
      | .error e => (.error e, (d.run program.run).2) := by
  simp only [ExceptT.run_bind, Disk.run, Program.run_bind]
  cases (program.run.run Disk.answer d).1 <;> rfl

theorem run_bind_of_ok {program : Storing α} {value : α} {d₁ : Disk}
    (h : d.run program.run = (.ok value, d₁)) (f : α → Storing β) :
    d.run (program >>= f).run = d₁.run (f value).run := by
  rw [run_bind, h]

/-- Both parts of a program that succeeds have succeeded. -/
theorem run_bind_ok {program : Storing α} {f : α → Storing β} {value : β} {d' : Disk}
    (h : d.run (program >>= f).run = (.ok value, d')) :
    ∃ first d₁, d.run program.run = (.ok first, d₁) ∧ d₁.run (f first).run = (.ok value, d') := by
  rw [run_bind] at h
  cases hfirst : (d.run program.run).1 with
  | error e =>
      rw [hfirst] at h
      cases h
  | ok first =>
      rw [hfirst] at h
      exact ⟨first, _, Prod.ext hfirst rfl, h⟩

theorem found_bind {program : Storing α} (h : Looks program) (f : α → Storing β) :
    d.found (program >>= f) = d.found program >>= fun value => d.found (f value) := by
  rw [Disk.found, run_bind, h.run_eq]
  cases d.found program <;> rfl

theorem Looks.bind {program : Storing α} {f : α → Storing β} (h : Looks program)
    (hf : ∀ value, Looks (f value)) : Looks (program >>= f) := by
  rw [Looks, ExceptT.run_bind]
  refine Program.Asks.bind h fun result => ?_
  rcases result with e | value
  · trivial
  · exact hf value

theorem looks_pure (value : α) : Looks (pure value) := trivial

@[simp] theorem found_pure (value : α) : d.found (pure value) = .ok value := rfl

theorem looks_decoded (task : StoreTask) (reason : String) (value? : Option α) :
    Looks (decoded task reason value?) := by
  cases value? <;> trivial

def decoding (task : StoreTask) (reason : String) : Option α → Except StoreError α
  | some value => .ok value
  | none => .error ⟨task, reason⟩

@[simp] theorem found_decoded (task : StoreTask) (reason : String) (value? : Option α) :
    d.found (decoded task reason value?) = decoding task reason value? := by
  cases value? <;> rfl

theorem looks_carryOut {task : StoreTask} {program : FileProgram (Except FileFault α)}
    (h : program.Asks FileCall.Looks) : Looks (carryOut task program) := by
  refine Program.Asks.bind h fun result => ?_
  rcases result with fault | value <;> trivial

theorem found_carryOut (task : StoreTask) (program : FileProgram (Except FileFault α)) :
    d.found (carryOut task program) =
      (d.run program).1.mapError fun fault => ⟨task, fault.message⟩ := by
  simp only [Disk.found, carryOut, ExceptT.run_mk, Disk.run, Program.run_bind]
  cases (program.run Disk.answer d).1 <;> rfl

theorem looks_bytesOf (path : Path) : Looks (bytesOf path) :=
  looks_carryOut (.ask fun _ => rfl)

@[simp] theorem found_bytesOf (path : Path) :
    d.found (bytesOf path) =
      (d.read path).mapError fun fault => ⟨.readFile path, fault.message⟩ :=
  found_carryOut _ _

theorem looks_exists (path : Path) : Looks (liftM (FileProgram.fileExists path)) :=
  Program.Asks.ask fun _ => rfl

@[simp] theorem found_exists (path : Path) :
    d.found (liftM (FileProgram.fileExists path)) = .ok (d.entryAt path).isOk := rfl

theorem Looks.mapM {f : α → Storing β} (h : ∀ x, Looks (f x)) (xs : List α) :
    Looks (xs.mapM f) := by
  induction xs with
  | nil => trivial
  | cons x xs ih =>
      rw [List.mapM_cons]
      exact (h x).bind fun y => ih.bind fun ys => looks_pure _

theorem found_mapM {f : α → Storing β} (h : ∀ x, Looks (f x)) (xs : List α) :
    d.found (xs.mapM f) = xs.mapM fun x => d.found (f x) := by
  induction xs with
  | nil => rfl
  | cons x xs ih =>
      rw [List.mapM_cons, List.mapM_cons, found_bind (h x)]
      refine congrArg (d.found (f x) >>= ·) (funext fun y => ?_)
      rw [found_bind (Looks.mapM h xs), ih]
      rfl

end Storing

end CraftLang
