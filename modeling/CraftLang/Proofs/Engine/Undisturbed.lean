import CraftLang.Proofs.Engine.Work
import CraftLang.Proofs.Frame.Evaluation

/-!
Engines that are left to themselves. Nobody calls them, the host changes by their calls only, and
they may run: then they go from one command to the next. What is shown of a frame on top of others
leaves those below it alone.
-/

namespace CraftLang

def Event.isOwn {σ : Type} : Event σ → Bool
  | .work _ | .pass _ => true
  | .call _ | .change _ => false

def IsAbove (base stack : List Frame) : Prop :=
  ∃ above, above ≠ [] ∧ stack = above ++ base

theorem isAbove_cons (frame : Frame) (base : List Frame) : IsAbove base (frame :: base) :=
  ⟨[frame], List.cons_ne_nil _ _, rfl⟩

theorem IsAbove.of_cons {caller : Frame} {base stack : List Frame}
    (h : IsAbove (caller :: base) stack) : IsAbove base stack := by
  obtain ⟨above, -, hstack⟩ := h
  exact ⟨above ++ [caller], by simp, by simpa using hstack⟩

theorem IsAbove.ne_nil {base stack : List Frame} (h : IsAbove base stack) : stack ≠ [] := by
  obtain ⟨above, hne, rfl⟩ := h
  exact List.append_ne_nil_of_left_ne_nil hne _

namespace Engine

variable {σ : Type}

/-- `Passes base e events e'` says that the engine comes from `e` to `e'` by itself, and that until
then there are frames on top of `base`. -/
inductive Passes (base : List Frame) : Engine σ → List (Event σ) → Engine σ → Prop
  | here (e : Engine σ) : Passes base e [] e
  | on {e e₁ e' : Engine σ} {event : Event σ} {events : List (Event σ)}
      (hown : event.isOwn = true) (habove : IsAbove base e.stack) (hon : e.on? event = some e₁)
      (hrest : Passes base e₁ events e') : Passes base e (event :: events) e'

namespace Passes

variable {base : List Frame} {e e₁ e' : Engine σ} {events events' : List (Event σ)}

theorem run (h : Passes base e events e') : e.run? events = some e' := by
  induction h with
  | here => rfl
  | on _ _ hon _ ih => exact run?_cons_eq_some.mpr ⟨_, hon, ih⟩

theorem own (h : Passes base e events e') : ∀ event ∈ events, event.isOwn = true := by
  induction h with
  | here => exact nofun
  | on hown _ _ _ ih =>
      intro event hmem
      rcases List.mem_cons.mp hmem with rfl | hmem
      · exact hown
      · exact ih event hmem

theorem trans (h : Passes base e events e₁) (h' : Passes base e₁ events' e') :
    Passes base e (events ++ events') e' := by
  induction h with
  | here => exact h'
  | on hown habove hon _ ih => exact .on hown habove hon (ih h')

theorem of_cons {caller : Frame} (h : Passes (caller :: base) e events e') :
    Passes base e events e' := by
  induction h with
  | here => exact .here _
  | on hown habove hon _ ih => exact .on hown habove.of_cons hon ih

end Passes

theorem run?_append (e : Engine σ) (events events' : List (Event σ)) :
    e.run? (events ++ events') = (e.run? events).bind fun e => e.run? events' := by
  induction events generalizing e with
  | nil => rfl
  | cons event events ih => simp only [List.cons_append, run?, ih, Option.bind_assoc]

theorem started_append {e e₁ : Engine σ} {events : List (Event σ)}
    (hrun : e.run? events = some e₁) (events' : List (Event σ)) :
    e.started (events ++ events') = e.started events ++ e₁.started events' := by
  induction events generalizing e with
  | nil =>
      obtain rfl : e = e₁ := by simpa using hrun
      rfl
  | cons event events ih =>
      obtain ⟨e₂, hon, hrest⟩ := run?_cons_eq_some.mp hrun
      rw [List.cons_append, started_cons hon, started_cons hon, ih hrest, List.append_assoc]

/-- The engine comes from `e` to `e'` by itself and starts `commands` on the way. -/
def Goes (base : List Frame) (e : Engine σ) (commands : List Command) (e' : Engine σ) : Prop :=
  ∃ events, Passes base e events e' ∧ e.started events = commands

namespace Goes

variable {base : List Frame} {e e₁ e' : Engine σ} {commands commands' : List Command}

theorem refl (e : Engine σ) : Goes base e [] e :=
  ⟨[], .here e, rfl⟩

theorem trans (h : Goes base e commands e₁) (h' : Goes base e₁ commands' e') :
    Goes base e (commands ++ commands') e' := by
  obtain ⟨events, hpasses, rfl⟩ := h
  obtain ⟨events', hpasses', rfl⟩ := h'
  exact ⟨events ++ events', hpasses.trans hpasses', started_append hpasses.run events'⟩

theorem of_cons {caller : Frame} (h : Goes (caller :: base) e commands e') :
    Goes base e commands e' := by
  obtain ⟨events, hpasses, hstarted⟩ := h
  exact ⟨events, hpasses.of_cons, hstarted⟩

theorem work (habove : IsAbove base e.stack) (hstep : e.proceed? = some e') :
    Goes base e e.starting?.toList e' := by
  have hon : e.on? (.work .proceed) = some e' := hstep
  refine ⟨[.work .proceed], .on rfl habove hon (.here e'), ?_⟩
  rw [started_cons hon]
  exact List.append_nil _

theorem pass (habove : IsAbove base e.stack) (ms : Nat) :
    Goes base e [] { e with now := e.now + ms } :=
  ⟨[.pass ms], .on rfl habove rfl (.here _), rfl⟩

/-- A step outside of the start of a command, and what comes after it. -/
theorem step (hphase : e.starting? = none) (habove : IsAbove base e.stack)
    (hstep : e.proceed? = some e₁) (h : Goes base e₁ commands e') :
    Goes base e commands e' := by
  have hfirst := work habove hstep
  rw [hphase] at hfirst
  exact hfirst.trans h

end Goes

/-! ### Between two commands -/

/-- An engine that may run and has no requests in its queue. With `untilLoop` a pause or a stop is
deferred to the next loop. -/
structure Undisturbed (host : Host σ) (settings : Settings) (untilLoop : Bool) (e : Engine σ) :
    Prop where
  host : e.host = host
  settings : e.settings = settings
  ready : e.ready.isOpen = true
  pause : e.pause.isOpen = true
  cancel : e.cancel.isCancelled = false
  queue : e.queue = []
  untilLoop : (e.pauseAtLoop || e.stopAtLoop) = untilLoop

def timeline (e : Engine σ) : Timeline σ :=
  { world := e.world, catalog := e.catalog, now := e.now }

def moveTo (e : Engine σ) (timeline : Timeline σ) : Engine σ :=
  { e with world := timeline.world, catalog := timeline.catalog, now := timeline.now }

/-- An engine between two commands, with what matters for the next one. -/
structure Sits (host : Host σ) (settings : Settings) (untilLoop : Bool) (stack : List Frame)
    (timeline : Timeline σ) (retired : Nat) (e : Engine σ) : Prop where
  undisturbed : Undisturbed host settings untilLoop e
  phase : e.phase = .top ∨ e.phase = .draining
  stack : e.stack = stack
  timeline : e.timeline = timeline
  retired : e.retired = retired

variable {host : Host σ} {settings : Settings} {untilLoop : Bool} {base : List Frame} {e : Engine σ}

theorem Undisturbed.moveTo (h : Undisturbed host settings untilLoop e) (timeline : Timeline σ) :
    Undisturbed host settings untilLoop (e.moveTo timeline) :=
  ⟨h.host, h.settings, h.ready, h.pause, h.cancel, h.queue, h.untilLoop⟩

theorem Undisturbed.goto (h : Undisturbed host settings untilLoop e) (phase : Phase) :
    Undisturbed host settings untilLoop (e.goto phase) :=
  ⟨h.host, h.settings, h.ready, h.pause, h.cancel, h.queue, h.untilLoop⟩

theorem Undisturbed.publish (h : Undisturbed host settings untilLoop e) (state : EngineState) :
    Undisturbed host settings untilLoop (e.publish state) :=
  ⟨h.host, h.settings, h.ready, h.pause, h.cancel, h.queue, h.untilLoop⟩

theorem Undisturbed.setStack (h : Undisturbed host settings untilLoop e) (stack : List Frame)
    (retired : Nat) : Undisturbed host settings untilLoop { e with stack, retired } :=
  ⟨h.host, h.settings, h.ready, h.pause, h.cancel, h.queue, h.untilLoop⟩

/-- Both gates are open, so the engine gets to the next command. -/
theorem Undisturbed.unpaused (h : Undisturbed host settings untilLoop e)
    (hphase : e.phase = .checkingPause) (habove : IsAbove base e.stack) :
    Goes base e [] ((e.publish .running).goto .fetching) := by
  have hframes : ¬e.stack.isEmpty = true := by simpa using habove.ne_nil
  refine .step (by rw [starting?, hphase]) habove ?_ (.refl _)
  simp only [proceed?, hphase]
  exact (if_pos h.pause).trans (if_neg hframes)

theorem Undisturbed.readied (h : Undisturbed host settings untilLoop e)
    (hphase : e.phase = .checkingReady) (habove : IsAbove base e.stack) :
    Goes base e [] ((e.publish .running).goto .fetching) := by
  refine .step (by rw [starting?, hphase]) habove ?_ ((h.goto .checkingPause).unpaused rfl habove)
  simp only [proceed?, hphase]
  exact if_pos h.ready

theorem Undisturbed.drained (h : Undisturbed host settings untilLoop e)
    (hphase : e.phase = .draining) (habove : IsAbove base e.stack) :
    Goes base e [] ((e.publish .running).goto .fetching) := by
  refine .step (by rw [starting?, hphase]) habove ?_ ((h.goto .checkingReady).readied rfl habove)
  simp only [proceed?, hphase, h.queue, List.isEmpty_nil, if_true]

theorem Undisturbed.round (h : Undisturbed host settings untilLoop e)
    (hphase : e.phase = .top ∨ e.phase = .draining) (habove : IsAbove base e.stack) :
    Goes base e [] ((e.publish .running).goto .fetching) := by
  rcases hphase with hphase | hphase
  · refine .step (by rw [starting?, hphase]) habove ?_ ((h.goto .draining).drained rfl habove)
    simp only [proceed?, hphase, h.cancel, if_false, Bool.false_eq_true]
  · exact h.drained hphase habove

/-- The delay after a command passes. -/
theorem Undisturbed.rest (h : Undisturbed host settings untilLoop e) (habove : IsAbove base e.stack)
    (delay : Nat) : Goes base (e.rest delay) [] ((e.moveTo (e.timeline.pass delay)).goto .top) := by
  unfold Engine.rest
  simp only [h.cancel, if_false, Bool.false_eq_true]
  split
  · next hzero =>
      subst hzero
      exact .refl _
  · have hwait := Goes.pass (e := e.goto (.resting (e.now + sleepMs delay))) habove (sleepMs delay)
    refine hwait.trans (.step rfl habove ?_ (.refl _))
    exact if_pos (Nat.le_refl _)

/-! ### The next command -/

/-- Looking for a command goes on as long as lines are dealt with. -/
theorem goes_of_fetch {rest : List Frame} {frame frame' : Frame} {fetched : Fetched} {steps : Nat}
    (hphase : e.phase = .fetching) (hstack : e.stack = frame :: rest)
    (hfetch : frame.fetchWithin steps = (fetched, frame')) (hfound : fetched ≠ .waiting) :
    ∃ last : Frame, last.fetchStep = (fetched, frame') ∧
      Goes rest e [] { e with stack := last :: rest } := by
  induction steps generalizing e frame with
  | zero =>
      cases hfetch
      exact absurd rfl hfound
  | succ steps ih =>
      unfold Frame.fetchWithin at hfetch
      split at hfetch
      · next next hagain =>
          obtain ⟨last, hlast, hgoes⟩ :=
            ih (e := { e with stack := next :: rest }) hphase rfl hfetch
          refine ⟨last, hlast,
            .step (by rw [starting?, hphase]) (hstack ▸ isAbove_cons _ _) ?_ hgoes⟩
          simp only [proceed?, hphase, fetch?, hstack, hagain]
      · refine ⟨frame, hfetch, ?_⟩
        rw [← hstack]
        exact .refl e

/-- The command that is found is the next one. -/
theorem goes_of_command {rest : List Frame} {frame frame' : Frame} {command : Command}
    (hphase : e.phase = .fetching) (hstack : e.stack = frame :: rest)
    (hfetch : frame.fetch = (.command command, frame')) :
    Goes rest e [] ({ e with stack := frame' :: rest }.goto (.drawing command)) := by
  obtain ⟨last, hlast, hgoes⟩ := goes_of_fetch hphase hstack hfetch nofun
  refine hgoes.trans (.step (by simp only [starting?, hphase]) (isAbove_cons _ _) ?_ (.refl _))
  simp only [proceed?, hphase, fetch?, hlast]

/-- At the end of its commands a frame goes. -/
theorem goes_of_finished {rest : List Frame} {frame frame' : Frame} (hphase : e.phase = .fetching)
    (hstack : e.stack = frame :: rest) (hfetch : frame.fetch = (.finished, frame')) :
    Goes rest e [] ({ e with stack := rest, retired := e.retired + 1 }.goto .top) := by
  obtain ⟨last, hlast, hgoes⟩ := goes_of_fetch hphase hstack hfetch nofun
  refine hgoes.trans (.step (by simp only [starting?, hphase]) (isAbove_cons _ _) ?_ (.refl _))
  simp only [proceed?, hphase, fetch?, hlast, pop]

end Engine

end CraftLang
