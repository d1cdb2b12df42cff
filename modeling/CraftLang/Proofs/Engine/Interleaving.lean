import CraftLang.Engine.Calls

/-!
Engines among their callers. One thing happens at a time: the engine takes a step along one of
its ways, a caller makes a call, time passes, or the surroundings of the engine change by
themselves. A run is any sequence of such events, so what is proved of all runs holds however the
steps of the engine and the calls of its callers fall between each other.
-/

namespace CraftLang

inductive Call where
  | enqueue (stored : StoredMacro) (loops : Option Int)
  | enqueueSource (name : String) (source : LineSource)
  | runByName (name : String) (loops : Option Int)
  | pause (atLoop : Bool)
  | stop (atLoop : Bool)
  | resume
  | step
  | setReady (isReady : Bool)
  | shutdown
  | feed (id : Nat) (item : Fed)
  | closeChannel (id : Nat)
  deriving DecidableEq

inductive Event (σ : Type) where
  | work (branch : Engine.Branch)
  | call (call : Call)
  | pass (ms : Nat)
  /-- The state of the host changes without a call. -/
  | change (world : σ)

namespace Engine

variable {σ : Type}

def receive (e : Engine σ) : Call → Engine σ
  | .enqueue stored loops => (e.enqueue stored loops).2
  | .enqueueSource name source => e.enqueueSource name source
  | .runByName name loops => (e.runByName name loops).2
  | .pause atLoop => e.pauseNow atLoop
  | .stop atLoop => e.stopNow atLoop
  | .resume => e.resume
  | .step => e.stepOver
  | .setReady isReady => e.setReady isReady
  | .shutdown => e.shutdown
  | .feed id item => (e.feed id item).2
  | .closeChannel id => e.closeChannel id

/-- The engine after an event. A step that cannot be taken gives nothing. -/
def on? (e : Engine σ) : Event σ → Option (Engine σ)
  | .work branch => e.take? branch
  | .call call => some (e.receive call)
  | .pass ms => some { e with now := e.now + ms }
  | .change world => some { e with world }

def run? (e : Engine σ) : List (Event σ) → Option (Engine σ)
  | [] => some e
  | event :: events => (e.on? event).bind fun e => e.run? events

@[simp] theorem run?_nil (e : Engine σ) : e.run? [] = some e := rfl

theorem run?_cons_eq_some {e e' : Engine σ} {event : Event σ} {events : List (Event σ)} :
    e.run? (event :: events) = some e' ↔
      ∃ e₁, e.on? event = some e₁ ∧ e₁.run? events = some e' := by
  simp only [run?, Option.bind_eq_some_iff]

/-- The engine after a run, or as it is if the run is not possible. -/
def ran (e : Engine σ) (events : List (Event σ)) : Engine σ :=
  (e.run? events).getD e

theorem run?_eq_some_ran {e : Engine σ} {events : List (Event σ)}
    (h : (e.run? events).isSome = true) : e.run? events = some (e.ran events) := by
  obtain ⟨e', hrun⟩ := Option.isSome_iff_exists.mp h
  rw [ran, hrun, Option.getD_some]

/-- What every event of a run keeps, the run keeps. -/
theorem run?_keeps {P : Engine σ → Prop} {events : List (Event σ)}
    (keeps : ∀ event ∈ events, ∀ e e' : Engine σ, P e → e.on? event = some e' → P e')
    {e e' : Engine σ} (he : P e) (hrun : e.run? events = some e') : P e' := by
  induction events generalizing e with
  | nil =>
      obtain rfl : e = e' := by simpa using hrun
      exact he
  | cons event events ih =>
      obtain ⟨e₁, hon, hrest⟩ := run?_cons_eq_some.mp hrun
      exact ih (fun event hmem => keeps event (List.mem_cons_of_mem _ hmem))
        (keeps event List.mem_cons_self e e₁ he hon) hrest

/-- The engines that can come up: those that were spawned, and what happens to them. -/
inductive Reachable : Engine σ → Prop
  | spawn (host : Host σ) (settings : Settings) (world : σ) (catalog : Catalog) :
      Reachable (Engine.spawn host settings world catalog)
  | on {e e' : Engine σ} (event : Event σ) : Reachable e → e.on? event = some e' → Reachable e'

theorem Reachable.run {e e' : Engine σ} {events : List (Event σ)} (h : e.Reachable)
    (hrun : e.run? events = some e') : e'.Reachable :=
  run?_keeps (fun event _ _ _ he hon => he.on event hon) h hrun

def starting? (e : Engine σ) : Option Command :=
  match e.phase with
  | .drawing command => some command
  | _ => none

def startedOn (e : Engine σ) : Event σ → List Command
  | .work _ => e.starting?.toList
  | _ => []

/-- The commands that the engine starts in the course of a run. -/
def started (e : Engine σ) : List (Event σ) → List Command
  | [] => []
  | event :: events =>
    match e.on? event with
    | none => []
    | some e' => e.startedOn event ++ e'.started events

theorem started_cons {e e₁ : Engine σ} {event : Event σ} (hon : e.on? event = some e₁)
    (events : List (Event σ)) :
    e.started (event :: events) = e.startedOn event ++ e₁.started events := by
  simp only [started, hon]

def onItsOwn (steps : Nat) : List (Event σ) :=
  List.replicate steps (.work .proceed)

theorem forall_onItsOwn {P : Event σ → Prop} (h : P (.work .proceed)) (steps : Nat) :
    ∀ event ∈ onItsOwn steps, P event := by
  intro event hmem
  rw [List.eq_of_mem_replicate hmem]
  exact h

end Engine

end CraftLang
