import CraftLang.Host.Scripted
import CraftLang.Proofs.Frame.Evaluation
import Mathlib.Algebra.Order.Floor.Div

/-!
Polling. Where nothing cancels it, a poll makes its tries one interval after the other and ends with
the first one that holds, or with the first one that is not before the deadline. The calls of its
run are those of its tries and the sleeps between them. A sleep that is cancelled is its last call.
-/

namespace CraftLang

variable {σ α β : Type}

namespace Timeline

/-! ### Runs and their calls -/

/-- The calls that a run of an action makes, in order. The one that fails is the last. -/
def performed (host : Host σ) : Action α → Timeline σ → List Effect
  | .done _, _ => []
  | .call effect next, timeline =>
    effect ::
      match timeline.perform host effect with
      | (.ok reply, timeline) => performed host (next reply) timeline
      | (.error _, _) => []

theorem performed_bind (host : Host σ) (action : Action α) (next : α → Action β)
    (timeline : Timeline σ) :
    timeline.performed host (action >>= next) = timeline.performed host action ++
      match timeline.run host action with
      | (.ok value, timeline) => timeline.performed host (next value)
      | (.error _, _) => [] := by
  induction action generalizing timeline with
  | done value => rfl
  | call effect rest ih =>
      simp only [Program.call_bind, performed, run, List.cons_append]
      rcases timeline.perform host effect with ⟨error | reply, after⟩
      · rfl
      · exact congrArg (effect :: ·) (ih reply after)

@[simp] theorem pass_now (timeline : Timeline σ) (delay : Nat) :
    (timeline.pass delay).now = timeline.now + sleepMs delay := rfl

@[simp] theorem pass_cancelAt (timeline : Timeline σ) (delay : Nat) :
    (timeline.pass delay).cancelAt = timeline.cancelAt := rfl

theorem sleepMs_pos {ms : Nat} (h : 0 < ms) : 0 < sleepMs ms :=
  Nat.lt_min.mpr ⟨h, by decide⟩

def LastsUntil (timeline : Timeline σ) (time : Nat) : Prop :=
  ∀ cancelAt, timeline.cancelAt = some cancelAt → time ≤ cancelAt

theorem LastsUntil.mono {timeline : Timeline σ} {time time' : Nat} (h : timeline.LastsUntil time)
    (hle : time' ≤ time) : timeline.LastsUntil time' :=
  fun cancelAt hcancel => hle.trans (h cancelAt hcancel)

theorem isCancelledBefore_eq_false {timeline : Timeline σ} {time : Nat} :
    timeline.isCancelledBefore time = false ↔ timeline.LastsUntil time := by
  unfold isCancelledBefore LastsUntil
  cases timeline.cancelAt <;> simp

theorem sleep_of_lastsUntil {timeline : Timeline σ} {ms : Nat} (hms : 0 < ms)
    (h : timeline.LastsUntil (timeline.now + sleepMs ms)) :
    timeline.sleep ms = (.ok (), timeline.pass ms) := by
  have hpos := sleepMs_pos hms
  have hearly : timeline.LastsUntil (timeline.now + 1) := h.mono (by omega)
  have hnow := isCancelledBefore_eq_false.mpr hearly
  simp only [sleep, hnow, isCancelledBefore_eq_false.mpr h, Bool.false_eq_true, if_false]
  rfl

/-- A sleep that is cancelled ends when that happens, or at once if that has happened before. -/
theorem sleep_of_cancelled {timeline : Timeline σ} {ms cancelAt : Nat}
    (hcancel : timeline.cancelAt = some cancelAt) (h : cancelAt < timeline.now + sleepMs ms) :
    timeline.sleep ms =
      (.error .cancelled, { timeline with now := max timeline.now cancelAt }) := by
  simp only [sleep, isCancelledBefore, hcancel, Option.any_some, Option.getD_some,
    decide_eq_true_eq, if_pos h]
  split
  · next hle =>
      rw [Nat.max_eq_left (by omega), ← hcancel]
  · next hlt => rw [Nat.max_eq_right (by omega)]

theorem run_ask_bind (host : Host σ) (effect : Effect) (next : effect.Reply → Action α)
    (timeline : Timeline σ) :
    timeline.run host (Program.ask effect >>= next) =
      match timeline.perform host effect with
      | (.ok reply, timeline) => timeline.run host (next reply)
      | (.error error, timeline) => (.error error, timeline) := by
  rw [Program.ask, Program.call_bind, run]
  rfl

theorem performed_ask_bind (host : Host σ) (effect : Effect) (next : effect.Reply → Action α)
    (timeline : Timeline σ) :
    timeline.performed host (Program.ask effect >>= next) =
      effect ::
        match timeline.perform host effect with
        | (.ok reply, timeline) => timeline.performed host (next reply)
        | (.error _, _) => [] := by
  rw [Program.ask, Program.call_bind, performed]
  rfl

section Sleep

variable {ms : Nat} {timeline after : Timeline σ}

theorem sleep_bind_of_ok (h : timeline.sleep ms = (.ok (), after)) (host : Host σ)
    (next : Unit → Action α) :
    timeline.run host (Action.sleep ms >>= next) = after.run host (next ()) ∧
    timeline.performed host (Action.sleep ms >>= next) =
      .sleep ms :: after.performed host (next ()) := by
  have hperform : timeline.perform host (.sleep ms) = (.ok (), after) := h
  have hrun := run_ask_bind host (.sleep ms) next timeline
  have hcalls := performed_ask_bind host (.sleep ms) next timeline
  rw [hperform] at hrun hcalls
  exact ⟨hrun, hcalls⟩

theorem sleep_bind_of_error {error : RunError} (h : timeline.sleep ms = (.error error, after))
    (host : Host σ) (next : Unit → Action α) :
    timeline.run host (Action.sleep ms >>= next) = (.error error, after) ∧
    timeline.performed host (Action.sleep ms >>= next) = [.sleep ms] := by
  have hperform : timeline.perform host (.sleep ms) = (.error error, after) := h
  have hrun := run_ask_bind host (.sleep ms) next timeline
  have hcalls := performed_ask_bind host (.sleep ms) next timeline
  rw [hperform] at hrun hcalls
  exact ⟨hrun, hcalls⟩

end Sleep

end Timeline

namespace Action

/-! ### Tries -/

/-- The probe answers at once: it does not fail and no time passes. -/
def AnswersAt (host : Host σ) (probe : Action Bool) (timeline : Timeline σ) : Prop :=
  ∃ answer world catalog, timeline.run host probe = (.ok answer, { timeline with world, catalog })

def holdsAt (host : Host σ) (probe : Action Bool) (timeline : Timeline σ) : Bool :=
  match (timeline.run host probe).1 with
  | .ok answer => answer
  | .error _ => false

/-- What the tries of a poll find, counted from zero. Every try leaves its traces behind, and the
interval passes before the next one. -/
def tryAt (host : Host σ) (probe : Action Bool) (intervalMs : Nat) (timeline : Timeline σ) :
    Nat → Timeline σ
  | 0 => timeline
  | n + 1 => ((tryAt host probe intervalMs timeline n).run host probe).2.pass intervalMs

def triesBefore (host : Host σ) (probe : Action Bool) (intervalMs : Nat) (timeline : Timeline σ)
    (n : Nat) : List Effect :=
  (List.range n).flatMap fun m =>
    (tryAt host probe intervalMs timeline m).performed host probe ++ [.sleep intervalMs]

theorem triesBefore_succ (host : Host σ) (probe : Action Bool) (intervalMs : Nat)
    (timeline : Timeline σ) (n : Nat) :
    triesBefore host probe intervalMs timeline (n + 1) =
      triesBefore host probe intervalMs timeline n ++
        ((tryAt host probe intervalMs timeline n).performed host probe ++ [.sleep intervalMs]) := by
  simp only [triesBefore, List.range_succ, List.flatMap_append, List.flatMap_singleton]

/-- The last of the tries, of which there are no more than `most` after the first: the first that
holds, if there is one. -/
structure IsLastTry (answers : Nat → Bool) (most last : Nat) : Prop where
  le_most : last ≤ most
  before : ∀ n < last, answers n = false
  ends : answers last = true ∨ last = most

theorem exists_isLastTry (answers : Nat → Bool) (most : Nat) :
    ∃ last, IsLastTry answers most last := by
  induction most with
  | zero => exact ⟨0, Nat.le_refl 0, nofun, .inr rfl⟩
  | succ most ih =>
      obtain ⟨last, hle, hbefore, hends⟩ := ih
      cases hlast : answers last with
      | true => exact ⟨last, Nat.le_succ_of_le hle, hbefore, .inl hlast⟩
      | false =>
          obtain rfl := hends.resolve_left (by simp [hlast])
          refine ⟨last + 1, Nat.le_refl _, fun n hn => ?_, .inr rfl⟩
          rcases Nat.lt_succ_iff_lt_or_eq.mp hn with hn | rfl
          · exact hbefore n hn
          · exact hlast

theorem IsLastTry.le {answers : Nat → Bool} {most last last' : Nat}
    (h : IsLastTry answers most last) (h' : IsLastTry answers most last') : last ≤ last' := by
  by_contra hlt
  rcases h'.ends with hlast | rfl
  · rw [h.before last' (by omega)] at hlast
    cases hlast
  · exact hlt h.le_most

theorem IsLastTry.unique {answers : Nat → Bool} {most last last' : Nat}
    (h : IsLastTry answers most last) (h' : IsLastTry answers most last') : last = last' :=
  Nat.le_antisymm (h.le h') (h'.le h)

/-- The last try holds if any of the possible ones does. -/
theorem IsLastTry.holds_iff {answers : Nat → Bool} {most last : Nat}
    (h : IsLastTry answers most last) :
    answers last = true ↔ ∃ n ≤ most, answers n = true := by
  refine ⟨fun hlast => ⟨last, h.le_most, hlast⟩, ?_⟩
  rintro ⟨n, hn, hholds⟩
  rcases h.ends with hlast | rfl
  · exact hlast
  · rcases Nat.lt_or_eq_of_le hn with hlt | rfl
    · rw [h.before n hlt] at hholds
      cases hholds
    · exact hholds

section Poll

variable {host : Host σ} {probe : Action Bool} {maxMs intervalMs : Nat} {timeline : Timeline σ}

theorem AnswersAt.run_eq (h : AnswersAt host probe timeline) :
    timeline.run host probe =
      (.ok (holdsAt host probe timeline), (timeline.run host probe).2) := by
  obtain ⟨answer, world, catalog, hrun⟩ := h
  simp only [holdsAt, hrun]

theorem AnswersAt.now_eq (h : AnswersAt host probe timeline) :
    (timeline.run host probe).2.now = timeline.now := by
  obtain ⟨answer, world, catalog, hrun⟩ := h
  rw [hrun]

theorem AnswersAt.cancelAt_eq (h : AnswersAt host probe timeline) :
    (timeline.run host probe).2.cancelAt = timeline.cancelAt := by
  obtain ⟨answer, world, catalog, hrun⟩ := h
  rw [hrun]

variable (hprobe : ∀ n, AnswersAt host probe (tryAt host probe intervalMs timeline n))
include hprobe

theorem now_tryAt (n : Nat) :
    (tryAt host probe intervalMs timeline n).now = timeline.now + n * sleepMs intervalMs := by
  induction n with
  | zero => simp [tryAt]
  | succ n ih =>
      rw [tryAt, Timeline.pass_now, (hprobe n).now_eq, ih, Nat.succ_mul, Nat.add_assoc]

theorem cancelAt_tryAt (n : Nat) :
    (tryAt host probe intervalMs timeline n).cancelAt = timeline.cancelAt := by
  induction n with
  | zero => rfl
  | succ n ih => rw [tryAt, Timeline.pass_cancelAt, (hprobe n).cancelAt_eq, ih]

end Poll

/-! ### The loop -/

/-- What is left of a poll at a try, with a sleep before each try but the first. -/
def pollAt (probe : Action Bool) (maxMs intervalMs n : Nat) : Action Bool :=
  pollFrom probe maxMs intervalMs (UInt64.size - n) (n * intervalMs)

/-- As long as the time waited for is a number of 64 bits, neither it nor the tries run out. -/
theorem pollAt_eq {probe : Action Bool} {maxMs intervalMs n : Nat} (hpos : 0 < intervalMs)
    (hsum : maxMs + intervalMs < UInt64.size) (hn : n * intervalMs < maxMs + intervalMs) :
    pollAt probe maxMs intervalMs n = probe >>= fun holds =>
      if holds then pure true
      else if maxMs ≤ n * intervalMs then pure false
      else sleep intervalMs >>= fun _ => pollAt probe maxMs intervalMs (n + 1) := by
  have hle : n ≤ n * intervalMs := Nat.le_mul_of_pos_right n hpos
  have htries : UInt64.size - n = UInt64.size - (n + 1) + 1 := by omega
  rw [pollAt, htries, pollFrom]
  congr 1
  funext holds
  split
  · rfl
  · split
    · rfl
    · have hwaited : (n * intervalMs + intervalMs) % UInt64.size = (n + 1) * intervalMs := by
        rw [Nat.succ_mul]
        exact Nat.mod_eq_of_lt (by omega)
      rw [hwaited, pollAt]

section Loop

variable {host : Host σ} {probe : Action Bool} {maxMs intervalMs n cancelAt : Nat}
  {timeline : Timeline σ} (hpos : 0 < intervalMs) (hsum : maxMs + intervalMs < UInt64.size)
  (hprobe : ∀ n, AnswersAt host probe (tryAt host probe intervalMs timeline n))
include hpos hsum hprobe

/-- The poll ends at a try that holds, or that is not before the deadline. -/
theorem pollAt_ends (hn : n * intervalMs < maxMs + intervalMs)
    (hends : holdsAt host probe (tryAt host probe intervalMs timeline n) = true ∨
      maxMs ≤ n * intervalMs) :
    (tryAt host probe intervalMs timeline n).run host (pollAt probe maxMs intervalMs n) =
      (tryAt host probe intervalMs timeline n).run host probe ∧
    (tryAt host probe intervalMs timeline n).performed host (pollAt probe maxMs intervalMs n) =
      (tryAt host probe intervalMs timeline n).performed host probe := by
  rw [pollAt_eq hpos hsum hn, Timeline.run_bind, Timeline.performed_bind, (hprobe n).run_eq]
  cases hholds : holdsAt host probe (tryAt host probe intervalMs timeline n) with
  | true => exact ⟨rfl, List.append_nil _⟩
  | false =>
      have hdeadline := hends.resolve_left (by simp [hholds])
      simp only [Bool.false_eq_true, if_false, if_pos hdeadline]
      exact ⟨rfl, List.append_nil _⟩

/-- Otherwise it sleeps, and the next try is made if it is not cancelled before. -/
theorem pollAt_goes_on
    (hholds : holdsAt host probe (tryAt host probe intervalMs timeline n) = false)
    (hbefore : n * intervalMs < maxMs)
    (hlasts : timeline.LastsUntil (timeline.now + (n + 1) * sleepMs intervalMs)) :
    (tryAt host probe intervalMs timeline n).run host (pollAt probe maxMs intervalMs n) =
      (tryAt host probe intervalMs timeline (n + 1)).run host
        (pollAt probe maxMs intervalMs (n + 1)) ∧
    (tryAt host probe intervalMs timeline n).performed host (pollAt probe maxMs intervalMs n) =
      (tryAt host probe intervalMs timeline n).performed host probe ++
        .sleep intervalMs :: (tryAt host probe intervalMs timeline (n + 1)).performed host
          (pollAt probe maxMs intervalMs (n + 1)) := by
  have hsleep : ((tryAt host probe intervalMs timeline n).run host probe).2.sleep intervalMs =
      (.ok (), tryAt host probe intervalMs timeline (n + 1)) := by
    refine Timeline.sleep_of_lastsUntil hpos fun cancelAt hcancel => ?_
    rw [(hprobe n).cancelAt_eq, cancelAt_tryAt hprobe] at hcancel
    rw [(hprobe n).now_eq, now_tryAt hprobe, Nat.add_assoc, ← Nat.succ_mul]
    exact hlasts cancelAt hcancel
  rw [pollAt_eq hpos hsum (by omega), Timeline.run_bind, Timeline.performed_bind,
    (hprobe n).run_eq, hholds]
  simp only [Bool.false_eq_true, if_false, if_neg (Nat.not_le_of_lt hbefore)]
  exact (Timeline.sleep_bind_of_ok hsleep host _).imp_right (congrArg (_ ++ ·))

theorem pollAt_cancelled
    (hholds : holdsAt host probe (tryAt host probe intervalMs timeline n) = false)
    (hbefore : n * intervalMs < maxMs) (hcancel : timeline.cancelAt = some cancelAt)
    (hlt : cancelAt < timeline.now + (n + 1) * sleepMs intervalMs) :
    (tryAt host probe intervalMs timeline n).run host (pollAt probe maxMs intervalMs n) =
      (.error .cancelled, { ((tryAt host probe intervalMs timeline n).run host probe).2 with
        now := max (timeline.now + n * sleepMs intervalMs) cancelAt }) ∧
    (tryAt host probe intervalMs timeline n).performed host (pollAt probe maxMs intervalMs n) =
      (tryAt host probe intervalMs timeline n).performed host probe ++ [.sleep intervalMs] := by
  have hnow := (hprobe n).now_eq.trans (now_tryAt hprobe n)
  have hsleep : ((tryAt host probe intervalMs timeline n).run host probe).2.sleep intervalMs = _ :=
    Timeline.sleep_of_cancelled
      (((hprobe n).cancelAt_eq.trans (cancelAt_tryAt hprobe n)).trans hcancel)
      (by rwa [hnow, Nat.add_assoc, ← Nat.succ_mul])
  rw [pollAt_eq hpos hsum (by omega), Timeline.run_bind, Timeline.performed_bind,
    (hprobe n).run_eq, hholds]
  simp only [Bool.false_eq_true, if_false, if_neg (Nat.not_le_of_lt hbefore)]
  rw [hnow] at hsleep
  exact (Timeline.sleep_bind_of_error hsleep host _).imp_right (congrArg (_ ++ ·))

/-- The tries up to one that none of them holds before are all made. -/
theorem pollAt_zero
    (hfalse : ∀ m < n, holdsAt host probe (tryAt host probe intervalMs timeline m) = false)
    (hbefore : ∀ m < n, m * intervalMs < maxMs)
    (hlasts : timeline.LastsUntil (timeline.now + n * sleepMs intervalMs)) :
    timeline.run host (pollAt probe maxMs intervalMs 0) =
      (tryAt host probe intervalMs timeline n).run host (pollAt probe maxMs intervalMs n) ∧
    timeline.performed host (pollAt probe maxMs intervalMs 0) =
      triesBefore host probe intervalMs timeline n ++
        (tryAt host probe intervalMs timeline n).performed host
        (pollAt probe maxMs intervalMs n) := by
  induction n with
  | zero => exact ⟨rfl, rfl⟩
  | succ n ih =>
      obtain ⟨hrun, hcalls⟩ := ih (fun m hm => hfalse m (Nat.lt_succ_of_lt hm))
        (fun m hm => hbefore m (Nat.lt_succ_of_lt hm))
        (hlasts.mono (Nat.add_le_add_left (Nat.mul_le_mul_right _ (Nat.le_succ n)) _))
      obtain ⟨hrun', hcalls'⟩ := pollAt_goes_on hpos hsum hprobe (hfalse n (Nat.lt_succ_self n))
        (hbefore n (Nat.lt_succ_self n)) hlasts
      refine ⟨hrun.trans hrun', ?_⟩
      rw [hcalls, hcalls', triesBefore_succ]
      simp only [List.append_assoc, List.cons_append, List.nil_append]

end Loop

theorem lt_ceilDiv_iff {maxMs intervalMs n : Nat} (hpos : 0 < intervalMs) :
    n < maxMs ⌈/⌉ intervalMs ↔ n * intervalMs < maxMs := by
  rw [← not_le, ceilDiv_le_iff_le_mul hpos, not_le, Nat.mul_comm]

/-- The sum of the intervals that have passed does not come to the deadline and an interval more. -/
theorem mul_lt_of_le_ceilDiv {maxMs intervalMs n : Nat} (hpos : 0 < intervalMs)
    (h : n ≤ maxMs ⌈/⌉ intervalMs) : n * intervalMs < maxMs + intervalMs := by
  cases n with
  | zero => omega
  | succ n =>
      have hbefore := (lt_ceilDiv_iff hpos).mp h
      rw [Nat.succ_mul]
      omega

/-- A poll tries its probe until it holds, and `maxMs ⌈/⌉ interval + 1` times at most. If nothing
cancels it before, it answers what the last try finds, its calls are those of the tries with a sleep
between two of them, and the sleeps are all the time that passes. If it is cancelled while it sleeps
after a try, or before the first sleep, then that is the last try. -/
theorem pollUntil_exact (host : Host σ) (probe : Action Bool) (maxMs intervalMs : Nat)
    (timeline : Timeline σ) (hsum : maxMs + max intervalMs 1 < UInt64.size)
    (hprobe : ∀ n, AnswersAt host probe (tryAt host probe (max intervalMs 1) timeline n)) :
    let interval := max intervalMs 1
    let found := tryAt host probe interval timeline
    let holds n := holdsAt host probe (found n)
    ∃ last, IsLastTry holds (maxMs ⌈/⌉ interval) last ∧
      (holds last = true ↔ ∃ n ≤ maxMs ⌈/⌉ interval, holds n = true) ∧
      last * interval < maxMs + interval ∧
      (timeline.LastsUntil (timeline.now + last * sleepMs interval) →
        timeline.run host (pollUntil maxMs intervalMs probe) =
          (.ok (holds last), ((found last).run host probe).2) ∧
        timeline.performed host (pollUntil maxMs intervalMs probe) =
          triesBefore host probe interval timeline last ++ (found last).performed host probe ∧
        ((found last).run host probe).2.now = timeline.now + last * sleepMs interval ∧
        (interval ≤ longestSleepMs →
          ((found last).run host probe).2.now = timeline.now + last * interval)) ∧
      ∀ n < last, ∀ cancelAt, timeline.cancelAt = some cancelAt →
        n = 0 ∨ timeline.now + n * sleepMs interval ≤ cancelAt →
        cancelAt < timeline.now + (n + 1) * sleepMs interval →
        timeline.run host (pollUntil maxMs intervalMs probe) =
          (.error .cancelled, { ((found n).run host probe).2 with
            now := max (timeline.now + n * sleepMs interval) cancelAt }) ∧
        timeline.performed host (pollUntil maxMs intervalMs probe) =
          triesBefore host probe interval timeline (n + 1) := by
  intro interval found holds
  have hpos : 0 < interval := Nat.lt_of_lt_of_le Nat.zero_lt_one (Nat.le_max_right _ _)
  have hpoll : pollUntil maxMs intervalMs probe = pollAt probe maxMs interval 0 := by
    rw [pollAt, Nat.zero_mul]
    rfl
  obtain ⟨last, hlast⟩ := exists_isLastTry holds (maxMs ⌈/⌉ interval)
  have hbefore : ∀ n < last, n * interval < maxMs := fun n hn =>
    (lt_ceilDiv_iff hpos).mp (Nat.lt_of_lt_of_le hn hlast.le_most)
  have hwaited := mul_lt_of_le_ceilDiv hpos hlast.le_most
  rw [hpoll]
  refine ⟨last, hlast, hlast.holds_iff, hwaited, fun hlasts => ?_, ?_⟩
  · have hends : holds last = true ∨ maxMs ≤ last * interval := hlast.ends.imp_right fun heq =>
      Nat.le_of_not_lt fun hlt => absurd ((lt_ceilDiv_iff hpos).mpr hlt) (by omega)
    obtain ⟨hrun, hcalls⟩ := pollAt_zero hpos hsum hprobe hlast.before hbefore hlasts
    obtain ⟨hrun', hcalls'⟩ := pollAt_ends hpos hsum hprobe hwaited hends
    have hnow := (hprobe last).now_eq.trans (now_tryAt hprobe last)
    refine ⟨?_, ?_, hnow, fun hexact => ?_⟩
    · rw [hrun, hrun', (hprobe last).run_eq]
    · rw [hcalls, hcalls']
    · rwa [sleepMs, Nat.min_eq_left hexact] at hnow
  · intro n hn cancelAt hcancel hfrom hlt
    have hstart : timeline.run host (pollAt probe maxMs interval 0) =
          (found n).run host (pollAt probe maxMs interval n) ∧
        timeline.performed host (pollAt probe maxMs interval 0) =
          triesBefore host probe interval timeline n ++
            (found n).performed host (pollAt probe maxMs interval n) := by
      rcases hfrom with rfl | hle
      · exact ⟨rfl, rfl⟩
      · refine pollAt_zero hpos hsum hprobe (fun m hm => hlast.before m (hm.trans hn))
          (fun m hm => hbefore m (hm.trans hn)) fun time htime => ?_
        obtain rfl := Option.some.inj (hcancel.symm.trans htime)
        exact hle
    obtain ⟨hrun, hcalls⟩ :=
      pollAt_cancelled hpos hsum hprobe (hlast.before n hn) (hbefore n hn) hcancel hlt
    refine ⟨hstart.1.trans hrun, ?_⟩
    rw [hstart.2, hcalls, triesBefore_succ]

def fourthLook (cancelAt : Option Nat) : Timeline ScriptedHost where
  world := { addons := [("", 3)] }
  cancelAt := cancelAt

theorem answersAt_addonReady (name : String) (timeline : Timeline ScriptedHost) :
    AnswersAt ScriptedHost.host (Action.host (.addonReady name)) timeline :=
  ⟨_, _, _, rfl⟩

/-- The fourth look is after three of the five intervals that may pass; the third is the last one if
the poll is cancelled soon after it. -/
theorem pollUntil_exact_fourth_look :
    1000 + max 300 1 < UInt64.size ∧
    (∀ cancelAt n, AnswersAt ScriptedHost.host (Action.host (.addonReady ""))
      (tryAt ScriptedHost.host (Action.host (.addonReady "")) (max 300 1)
        (fourthLook cancelAt) n)) ∧
    (((fourthLook (some 900)).run ScriptedHost.host
        (pollUntil 1000 300 (Action.host (.addonReady "")))).1 = .ok true ∧
      (fourthLook (some 900)).performed ScriptedHost.host
          (pollUntil 1000 300 (Action.host (.addonReady ""))) =
        [.host (.addonReady ""), .sleep 300, .host (.addonReady ""), .sleep 300,
          .host (.addonReady ""), .sleep 300, .host (.addonReady "")]) ∧
    ((fourthLook (some 650)).run ScriptedHost.host
        (pollUntil 1000 300 (Action.host (.addonReady "")))).1 = .error .cancelled := by
  have hprobe cancelAt n := answersAt_addonReady ""
    (tryAt ScriptedHost.host (Action.host (.addonReady "")) (max 300 1) (fourthLook cancelAt) n)
  have hlast cancelAt : IsLastTry (fun n => holdsAt ScriptedHost.host
      (Action.host (.addonReady "")) (tryAt ScriptedHost.host (Action.host (.addonReady ""))
        (max 300 1) (fourthLook cancelAt) n)) (1000 ⌈/⌉ max 300 1) 3 :=
    ⟨by decide, fun | 0, _ => rfl | 1, _ => rfl | 2, _ => rfl, .inl rfl⟩
  refine ⟨by decide, hprobe, ?_, ?_⟩
  · obtain ⟨last, hl, -, -, hrun, -⟩ := pollUntil_exact ScriptedHost.host
      (Action.host (.addonReady "")) 1000 300 (fourthLook (some 900)) (by decide) (hprobe _)
    obtain rfl := hl.unique (hlast _)
    obtain ⟨hrun, hcalls, -⟩ := hrun (by rintro _ ⟨⟩; decide)
    rw [hrun, hcalls]
    exact ⟨by decide, by decide⟩
  · obtain ⟨last, hl, -, -, -, hcancelled⟩ := pollUntil_exact ScriptedHost.host
      (Action.host (.addonReady "")) 1000 300 (fourthLook (some 650)) (by decide) (hprobe _)
    obtain rfl := hl.unique (hlast _)
    rw [(hcancelled 2 (by decide) 650 rfl (by decide) (by decide)).1]

end Action

end CraftLang
