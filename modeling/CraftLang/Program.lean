/-!
Programs that talk to their surroundings. A program is done, or it makes a call and goes on with
the reply. What a call does is left to whoever runs the program, so one program can be run to its
end at once, be suspended between two calls, or be stopped after any number of them.
-/

namespace CraftLang

/-- A program with calls from `C`, where `R c` is the type of replies to the call `c`. -/
inductive Program (C : Type) (R : C → Type) (α : Type) where
  | done (value : α)
  | call (request : C) (next : R request → Program C R α)

namespace Program

variable {C : Type} {R : C → Type} {α β γ : Type}

/-- One program after the other. -/
def bind : Program C R α → (α → Program C R β) → Program C R β
  | .done value, f => f value
  | .call request next, f => .call request fun reply => (next reply).bind f

instance : Monad (Program C R) where
  pure := .done
  bind := bind

def ask (request : C) : Program C R (R request) :=
  .call request .done

@[simp] theorem pure_eq (value : α) : (pure value : Program C R α) = .done value := rfl

@[simp] theorem done_bind (value : α) (f : α → Program C R β) :
    (Program.done value : Program C R α) >>= f = f value := rfl

@[simp] theorem call_bind (request : C) (next : R request → Program C R α)
    (f : α → Program C R β) :
    (Program.call request next : Program C R α) >>= f =
      .call request fun reply => next reply >>= f := rfl

theorem bind_done (program : Program C R α) : program >>= Program.done = program := by
  induction program with
  | done value => rfl
  | call request next ih => rw [call_bind]; congr 1; funext reply; exact ih reply

theorem bind_assoc (program : Program C R α) (f : α → Program C R β) (g : β → Program C R γ) :
    program >>= f >>= g = program >>= fun value => f value >>= g := by
  induction program with
  | done value => rfl
  | call request next ih =>
    simp only [call_bind]
    congr 1
    funext reply
    exact ih reply

/-- Run a program to its end on a state. -/
def run {σ : Type} (answer : (request : C) → σ → R request × σ) :
    Program C R α → σ → α × σ
  | .done value, s => (value, s)
  | .call request next, s =>
    let (reply, s) := answer request s
    (next reply).run answer s

/-- The state after at most `steps` calls of a program. -/
def runFor {σ : Type} (answer : (request : C) → σ → R request × σ) :
    Nat → Program C R α → σ → σ
  | 0, _, s => s
  | _ + 1, .done _, s => s
  | steps + 1, .call request next, s =>
    let (reply, s) := answer request s
    (next reply).runFor answer steps s

theorem run_bind {σ : Type} (answer : (request : C) → σ → R request × σ)
    (program : Program C R α) (f : α → Program C R β) (s : σ) :
    (program >>= f).run answer s =
      (f (program.run answer s).1).run answer (program.run answer s).2 := by
  induction program generalizing s with
  | done value => rfl
  | call request next ih => exact ih _ _

end Program

end CraftLang
