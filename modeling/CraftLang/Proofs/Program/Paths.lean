import CraftLang.Program

/-!
What holds along all paths of a program, whatever it gets for its calls: that each of its calls is
of some kind, and that each of its results has some property.
-/

namespace CraftLang

namespace Program

variable {C : Type} {R : C → Type} {α β : Type}

instance : LawfulMonad (Program C R) :=
  .mk' _ bind_done (fun _ _ => rfl) bind_assoc

/-- Every call satisfies `Q`. -/
def Asks (Q : C → Prop) : Program C R α → Prop
  | .done _ => True
  | .call request next => Q request ∧ ∀ reply, (next reply).Asks Q

/-- Every result satisfies `P`. -/
def Ends (P : α → Prop) : Program C R α → Prop
  | .done value => P value
  | .call _ next => ∀ reply, (next reply).Ends P

variable {Q : C → Prop} {P P' : α → Prop} {program : Program C R α}

@[simp] theorem asks_done (value : α) : (done value : Program C R α).Asks Q := trivial

@[simp] theorem asks_pure (value : α) : (pure value : Program C R α).Asks Q := trivial

@[simp] theorem ends_done {value : α} : (done value : Program C R α).Ends P ↔ P value := Iff.rfl

@[simp] theorem ends_pure {value : α} : (pure value : Program C R α).Ends P ↔ P value := Iff.rfl

theorem Asks.bind {f : α → Program C R β} (h : program.Asks Q) (hf : ∀ value, (f value).Asks Q) :
    (program >>= f).Asks Q := by
  induction program with
  | done value => exact hf value
  | call request next ih => exact ⟨h.1, fun reply => ih reply (h.2 reply)⟩

/-- All results are taken on by what follows. -/
theorem Ends.bind {P : β → Prop} {f : α → Program C R β}
    (h : program.Ends fun value => (f value).Ends P) : (program >>= f).Ends P := by
  induction program with
  | done value => exact h
  | call request next ih => exact fun reply => ih reply (h reply)

theorem Ends.mono (h : program.Ends P) (hP : ∀ value, P value → P' value) : program.Ends P' := by
  induction program with
  | done value => exact hP value h
  | call request next ih => exact fun reply => ih reply (h reply)

theorem ends_of_forall (h : ∀ value, P value) : program.Ends P := by
  induction program with
  | done value => exact h value
  | call request next ih => exact fun reply => ih reply

theorem asks_of_forall (h : ∀ request, Q request) : program.Asks Q := by
  induction program with
  | done value => trivial
  | call request next ih => exact ⟨h request, ih⟩

theorem Asks.ask {request : C} (h : Q request) : (Program.ask request : Program C R _).Asks Q :=
  ⟨h, fun _ => trivial⟩

/-- `Leads p q` says that `p` can have become `q` in some calls. -/
inductive Leads (p : Program C R α) : Program C R α → Prop
  | refl : Leads p p
  | call {request : C} {next : R request → Program C R α} (reply : R request) :
      Leads p (.call request next) → Leads p (next reply)

theorem Leads.asks {p q : Program C R α} (h : p.Leads q) (hp : p.Asks Q) : q.Asks Q := by
  induction h with
  | refl => exact hp
  | call reply _ ih => exact ih.2 reply

theorem Leads.ends {p q : Program C R α} (h : p.Leads q) (hp : p.Ends P) : q.Ends P := by
  induction h with
  | refl => exact hp
  | call reply _ ih => exact ih reply

end Program

end CraftLang
