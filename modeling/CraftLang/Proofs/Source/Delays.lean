import CraftLang.Proofs.Source.Insertion
import CraftLang.Proofs.Source.Lines

/-!
The two ways to write a delay: as a wait modifier of a line, and as the argument of a wait command.
The modifier takes digits of every script and the argument only ASCII digits, but other digits have
no value, and so the same texts are delays of both, with the same policies. No policy that is read
from a source ends before it starts.
-/

namespace CraftLang

open Text Grammar Modifier

namespace Modifier

/-! ### Numerals -/

/-- The digits of a numeral that is found in a text. -/
structure Numeral.IsFound (n : Numeral) : Prop where
  ne_nil : n.whole ≠ []
  whole : ∀ c ∈ n.whole, isDecimalDigit c = true
  fraction : ∀ c ∈ n.fraction, isDecimalDigit c = true

theorem numeral?_sound {cs rest : List Char} {n : Numeral} (h : numeral? cs = some (n, rest)) :
    cs = n.text ++ rest ∧ n.IsFound := by
  have hsplit (ds : List Char) : ds = ds.takeWhile isDecimalDigit ++ ds.dropWhile isDecimalDigit :=
    (List.takeWhile_append_dropWhile ..).symm
  simp only [numeral?] at h
  split at h
  · cases h
  · next hwhole =>
      have hne : cs.takeWhile isDecimalDigit ≠ [] := by simpa using hwhole
      split at h
      · next more hdrop =>
          split at h
          · cases h
            exact ⟨hsplit cs, hne, fun _ => of_mem_takeWhile,
            fun _ hc => absurd hc List.not_mem_nil⟩
          · next hfraction =>
              cases h
              refine ⟨?_, hne, fun _ => of_mem_takeWhile, fun _ => of_mem_takeWhile⟩
              rw [Numeral.text, if_neg hfraction, List.append_assoc,
                List.cons_append, ← hsplit more, ← hdrop, ← hsplit cs]
      · cases h
        exact ⟨hsplit cs, hne, fun _ => of_mem_takeWhile, fun _ hc => absurd hc List.not_mem_nil⟩

/-- A numeral of ASCII digits is a decimal number. -/
theorem isDecimal_of_value {n : Numeral} (h : n.IsFound) {value : Binary64}
    (hvalue : n.value? = some value) : IsDecimal n.text value := by
  unfold Numeral.value? at hvalue
  split at hvalue
  · next hall =>
      cases hvalue
      rw [List.all_append, Bool.and_eq_true, List.all_eq_true, List.all_eq_true] at hall
      unfold Numeral.text
      split
      · next hempty =>
          rw [List.isEmpty_iff.mp hempty]
          exact .whole ⟨h.ne_nil, hall.1⟩
      · next hfraction =>
          exact .point ⟨h.ne_nil, hall.1⟩ ⟨by simpa using hfraction, hall.2⟩
  · cases hvalue

/-- A numeral without a value has a digit of another script. -/
theorem exists_foreign_digit {n : Numeral} (h : n.IsFound) (hvalue : n.value? = none) :
    ∃ c ∈ n.text, isDecimalDigit c = true ∧ c.isDigit = false := by
  unfold Numeral.value? at hvalue
  split at hvalue
  · cases hvalue
  · next hall =>
      rw [Bool.not_eq_true, List.all_eq_false] at hall
      obtain ⟨c, hc, hdigit⟩ := hall
      rw [Bool.not_eq_true] at hdigit
      refine ⟨c, ?_, ?_, hdigit⟩
      · unfold Numeral.text
        split
        · next hempty => rwa [List.isEmpty_iff.mp hempty, List.append_nil] at hc
        · rcases List.mem_append.mp hc with hc | hc
          · exact List.mem_append_left _ hc
          · exact List.mem_append_right _ (List.mem_cons_of_mem _ hc)
      · rcases List.mem_append.mp hc with hc | hc
        · exact h.whole c hc
        · exact h.fraction c hc

end Modifier

/-! ### Texts of delays -/

/-- The text is a delay in seconds, or a range of delays, that gives the policy. -/
def IsDelay (text : List Char) (policy : WaitPolicy) : Prop :=
  ∃ bounds, IsRange text bounds ∧ WaitPolicy.ofSeconds bounds.1 bounds.2 = .ok policy

theorem isDigit_of_mem_decimal {text : List Char} {value : Binary64} (h : IsDecimal text value)
    {c : Char} (hc : c ∈ text) : c.isDigit = true ∨ c = '.' := by
  cases h with
  | whole h => exact .inl (h.2 c hc)
  | point h h' =>
      rcases List.mem_append.mp hc with hc | hc
      · exact .inl (h.2 c hc)
      · rcases List.mem_cons.mp hc with rfl | hc
        · exact .inr rfl
        · exact .inl (h'.2 c hc)

theorem isDigit_of_mem_range {text : List Char} {bounds : Binary64 × Option Binary64}
    (h : IsRange text bounds) {c : Char} (hc : c ∈ text) :
    c.isDigit = true ∨ c = '.' ∨ c = '-' := by
  cases h with
  | single h => exact (isDigit_of_mem_decimal h hc).imp_right .inl
  | pair h h' =>
      rcases List.mem_append.mp hc with hc | hc
      · exact (isDigit_of_mem_decimal h hc).imp_right .inl
      · rcases List.mem_cons.mp hc with rfl | hc
        · exact .inr (.inr rfl)
        · exact (isDigit_of_mem_decimal h' hc).imp_right .inl

/-- Digits of other scripts do not stand in a delay. -/
theorem not_isRange_of_foreign {text : List Char} {c : Char} (hc : c ∈ text)
    (hdecimal : isDecimalDigit c = true) (hdigit : c.isDigit = false)
    (bounds : Binary64 × Option Binary64) : ¬ IsRange text bounds := by
  intro h
  rcases isDigit_of_mem_range h hc with hc | rfl | rfl
  · rw [hdigit] at hc
    cases hc
  · exact absurd hdecimal (by decide)
  · exact absurd hdecimal (by decide)

theorem isRange_unique {text : List Char} {bounds bounds' : Binary64 × Option Binary64}
    (h : IsRange text bounds) (h' : IsRange text bounds') : bounds = bounds' := by
  have hrest : Leaves (fun c => isDecimalPart c || c == '-') [] := nofun
  have hread := range_append h hrest
  rw [range_append h' hrest] at hread
  cases hread
  rfl

theorem isDelay_iff {text : List Char} {bounds : Binary64 × Option Binary64} {policy : WaitPolicy}
    (h : IsRange text bounds) :
    IsDelay text policy ↔ WaitPolicy.ofSeconds bounds.1 bounds.2 = .ok policy := by
  refine ⟨?_, fun hpolicy => ⟨bounds, h, hpolicy⟩⟩
  rintro ⟨bounds', h', hpolicy⟩
  rwa [isRange_unique h h']

/-- A text gives one policy at most. -/
theorem IsDelay.unique {text : List Char} {policy policy' : WaitPolicy} (h : IsDelay text policy)
    (h' : IsDelay text policy') : policy = policy' := by
  obtain ⟨bounds, hrange, hpolicy⟩ := h
  rw [isDelay_iff hrange, hpolicy] at h'
  exact Except.ok.inj h'

namespace Modifier

/-! ### Wait modifiers -/

def waitText (t : List Char) : List Char :=
  '<' :: ("wait.".toList ++ t ++ ['>'])

/-- The delay of a wait modifier is one numeral, or two with a hyphen between them. -/
theorem exists_numerals {t : List Char} {token : Token} (h : Spells .wait (waitText t) token) :
    ∃ (seconds : Numeral) (limit : Option Numeral), token = .wait seconds limit ∧
      seconds.IsFound ∧ (∀ n ∈ limit, n.IsFound) ∧
      t = seconds.text ++ (limit.map fun n => '-' :: n.text).getD [] := by
  unfold Spells waitText token? at h
  simp only at h
  split at h
  · next found rest hbody =>
      cases h
      have hletters : literal? ['w', 'a', 'i', 't', '.'] ("wait.".toList ++ t ++ ['>']) =
          some (t ++ ['>']) := rfl
      simp only [body?, hletters, Option.bind_eq_bind, Option.bind_some, Option.bind_eq_some_iff,
        Option.pure_def] at hbody
      obtain ⟨⟨seconds, after⟩, hseconds, hbody⟩ := hbody
      obtain ⟨htext, hfound⟩ := numeral?_sound hseconds
      split at hbody
      · next more hmore =>
          obtain rfl : after = '-' :: more := hmore
          obtain ⟨⟨limit, after'⟩, hlimit, hbody⟩ := Option.bind_eq_some_iff.mp hbody
          cases hbody
          obtain ⟨rfl, hfound'⟩ := numeral?_sound hlimit
          refine ⟨seconds, some limit, rfl, hfound, fun n hn => Option.some.inj hn ▸ hfound', ?_⟩
          rw [← List.cons_append, ← List.append_assoc] at htext
          exact List.append_cancel_right htext
      · cases hbody
        refine ⟨seconds, none, rfl, hfound, fun n hn => absurd hn (by simp), ?_⟩
        rw [Option.map_none, Option.getD_none, List.append_nil]
        exact List.append_cancel_right htext
  · cases h

/-- The value of a numeral of ASCII digits. -/
theorem millisOf_of_value {n : Numeral} {value : Binary64} (h : n.value? = some value) :
    millisOf n = .ok (millisOfSeconds value) := by
  rw [millisOf, h]

/-- What the bounds of a delay ask for. -/
theorem apply_wait_of_value {seconds : Numeral} {limit : Option Numeral} {first : Binary64}
    {second : Option Binary64} (hseconds : seconds.value? = some first)
    (hlimit : limit.map Numeral.value? = second.map some) :
    apply {} (.wait seconds limit) =
      match WaitPolicy.ofSeconds first second with
      | .ok policy => .ok { wait := policy, hasWait := true }
      | .error error => .error (.invalidRange error) := by
  rw [apply, millisOf_of_value hseconds]
  cases limit with
  | none =>
      cases second with
      | none => rfl
      | some second => cases hlimit
  | some limit =>
      cases second with
      | none => cases hlimit
      | some second =>
          have hvalue : limit.value? = some second := Option.some.inj hlimit
          simp only [millisOf_of_value hvalue]
          rfl

/-- A wait modifier is accepted if its text is a delay, with the policy of the delay. -/
theorem apply_wait_eq_ok_iff {t : List Char} {token : Token} (h : Spells .wait (waitText t) token)
    {found : Modifiers} :
    apply {} token = .ok found ↔
      ∃ policy, IsDelay t policy ∧ found = { wait := policy, hasWait := true } := by
  obtain ⟨seconds, limit, rfl, hseconds, hlimit, htext⟩ := exists_numerals h
  -- Without a value for each of its numerals the text is no delay.
  have hforeign {n : Numeral} (hfound : n.IsFound) (hmem : ∀ c ∈ n.text, c ∈ t)
      (hvalue : n.value? = none) (policy : WaitPolicy) : ¬ IsDelay t policy := by
    rintro ⟨bounds, hrange, -⟩
    obtain ⟨c, hc, hdecimal, hdigit⟩ := exists_foreign_digit hfound hvalue
    exact not_isRange_of_foreign (hmem c hc) hdecimal hdigit bounds hrange
  have hvalued {first : Binary64} (hfirst : seconds.value? = some first) (second : Option Binary64)
      (hsecond : limit.map Numeral.value? = second.map some) (hrange : IsRange t (first, second)) :
      apply {} (.wait seconds limit) = .ok found ↔
        ∃ policy, IsDelay t policy ∧ found = { wait := policy, hasWait := true } := by
    rw [apply_wait_of_value hfirst hsecond]
    simp only [isDelay_iff hrange]
    cases WaitPolicy.ofSeconds first second with
    | error error => simp
    | ok policy => simp [eq_comm]
  cases hfirst : seconds.value? with
  | none =>
      refine iff_of_false ?_ ?_
      · rw [apply, millisOf, hfirst]
        intro hok
        cases hok
      · rintro ⟨policy, hdelay, -⟩
        exact hforeign hseconds (fun c hc => htext ▸ List.mem_append_left _ hc) hfirst policy hdelay
  | some first =>
      have hdecimal := isDecimal_of_value hseconds hfirst
      cases limit with
      | none =>
          rw [Option.map_none, Option.getD_none, List.append_nil] at htext
          exact hvalued hfirst none rfl (htext ▸ .single hdecimal)
      | some limit =>
          rw [Option.map_some, Option.getD_some] at htext
          have hfound := hlimit limit rfl
          cases hsecond : limit.value? with
          | none =>
              refine iff_of_false ?_ ?_
              · rw [apply, millisOf_of_value hfirst]
                simp only [millisOf, hsecond]
                intro hok
                cases hok
              · rintro ⟨policy, hdelay, -⟩
                refine hforeign hfound (fun c hc => ?_) hsecond policy hdelay
                rw [htext]
                exact List.mem_append_right _ (List.mem_cons_of_mem _ hc)
          | some second =>
              exact hvalued hfirst (some second) (congrArg some hsecond)
                (htext ▸ .pair hdecimal (isDecimal_of_value hfound hsecond))

end Modifier

namespace Source

variable {t raw : List Char} {command : Command} {policy : WaitPolicy}

/-! ### Wait commands -/

theorem chars_of_delay {token : Token} (h : Spells .wait (waitText t) token) :
    t ≠ [] ∧ ∀ c ∈ t, IsInner c := by
  constructor
  · obtain ⟨seconds, limit, -, hseconds, -, rfl⟩ := exists_numerals h
    refine List.append_ne_nil_of_left_ne_nil ?_ _
    unfold Numeral.text
    split
    · exact hseconds.ne_nil
    · exact List.append_ne_nil_of_left_ne_nil hseconds.ne_nil _
  · obtain ⟨inner, heq, hinner⟩ := spells_iff.mp h
    intro c hc
    refine hinner.chars c ?_
    rw [← List.append_cancel_right (List.cons.inj heq).2]
    exact List.mem_append_right _ hc

/-- The arguments of a wait command are a delay after a gap. -/
theorem fits_wait_iff (hinner : ∀ c ∈ t, IsInner c) {statement : Statement} :
    Fits (Verb.Spells .wait) (' ' :: t) statement ↔
      ∃ bounds, IsRange t bounds ∧ statement = .wait bounds.1 bounds.2 := by
  have hgap {cs : List Char} (hcs : ∀ c ∈ cs, c ∈ t) (h : IsGap cs) : cs = [] := by
    cases cs with
    | nil => rfl
    | cons c cs =>
        have hvisible := (hinner c (hcs c List.mem_cons_self)).visible
        rw [isBlank_of_isSpace (h c List.mem_cons_self)] at hvisible
        cases hvisible
  constructor
  · rintro ⟨text, tail, htext, htail, hspells⟩
    cases hspells with
    | value hspaced =>
        cases hspaced with
        | @after gap text _ hne hspaces hstart hrange =>
            cases gap with
            | nil => exact absurd rfl hne
            | cons c gap =>
                simp only [List.cons_append, List.append_assoc, List.cons.injEq] at htext
                obtain ⟨-, rfl⟩ := htext
                obtain rfl := hgap (fun c hc => List.mem_append_left _ hc)
                  fun c hc => hspaces c (List.mem_cons_of_mem _ hc)
                obtain rfl := hgap (fun c hc => List.mem_append_right _
                  (List.mem_append_right _ hc)) htail
                rw [List.append_nil] at *
                exact ⟨_, hrange, rfl⟩
  · rintro ⟨bounds, hrange, rfl⟩
    have hstart : Leaves isSpace t := fun c hc => Bool.eq_false_iff.mpr fun hspace =>
      absurd (isBlank_of_isSpace hspace) (by simp [(hinner c (List.mem_of_mem_head? hc)).visible])
    refine ⟨' ' :: t, [], (List.append_nil _).symm, nofun,
      .value (.after (List.cons_ne_nil ' ' []) ?_ hstart hrange)⟩
    intro c hc
    rw [List.mem_singleton.mp hc]
    rfl

/-- A line that is not blank and no comment has a command or a fault. -/
theorem readLine_cases (hne : trim raw ≠ []) (hcomment : isComment (trim raw) = false)
    (number : Nat) :
    (∃ command, readCommand (trim raw) = .ok command ∧
      readLine raw number = .ok (some command)) ∨
    (∃ misfit e, readCommand (trim raw) = .error misfit ∧ readLine raw number = .error e) := by
  have hempty : (trim raw).isEmpty = false := by simpa using hne
  simp only [readLine, hempty, hcomment, Bool.or_self, Bool.false_eq_true, if_false]
  cases readCommand (trim raw) with
  | ok command => exact .inl ⟨command, rfl, rfl⟩
  | error misfit => exact .inr ⟨misfit, _, rfl, rfl⟩

def waitLine (t : List Char) : List Char :=
  "/wait ".toList ++ t

theorem trim_waitLine (hne : t ≠ []) (hinner : ∀ c ∈ t, IsInner c) :
    trim (waitLine t) = waitLine t := by
  have hlast : waitLine t = "/wait ".toList ++ t.dropLast ++ [t.getLast hne] := by
    rw [List.append_assoc, List.dropLast_concat_getLast]
    rfl
  exact trim_of_slash hlast (hinner _ (List.getLast_mem hne)).visible

theorem readCommand_waitLine_iff (hne : t ≠ []) (hinner : ∀ c ∈ t, IsInner c) :
    readCommand (waitLine t) = .ok command ↔ ∃ policy, IsDelay t policy ∧
      command = ⟨String.ofList (waitLine t), { wait := policy }, .wait⟩ := by
  have hplain : '<' ∉ waitLine t := by
    intro hmem
    rcases List.mem_append.mp hmem with hmem | hmem
    · exact absurd hmem (by decide)
    · exact (hinner _ hmem).ne_open rfl
  have hread (statement : Statement) : Statement.read (waitLine t) = .ok statement ↔
      ∃ bounds, IsRange t bounds ∧ statement = .wait bounds.1 bounds.2 := by
    rw [← fits_wait_iff hinner]
    have hname : ∀ c ∈ "wait".toList, isBlank c = false := by simp [isBlank]
    exact Statement.read_eq_ok_iff hname (by rintro c ⟨⟩; decide) (by decide)
  rw [readCommand_eq_ok_iff]
  constructor
  · rintro ⟨m, line, statement, hextract, hstatement, hcommand⟩
    rw [extract_of_not_mem hplain] at hextract
    cases hextract
    rw [Line.masked_ofText, trim_waitLine hne hinner, hread] at hstatement
    obtain ⟨bounds, hrange, rfl⟩ := hstatement
    rw [Source.command, if_neg (by decide)] at hcommand
    split at hcommand
    · next policy hpolicy =>
        cases hcommand
        exact ⟨policy, ⟨bounds, hrange, hpolicy⟩, rfl⟩
    · cases hcommand
  · rintro ⟨policy, ⟨bounds, hrange, hpolicy⟩, rfl⟩
    refine ⟨{}, Line.ofText (waitLine t), .wait bounds.1 bounds.2, extract_of_not_mem hplain, ?_,
    ?_⟩
    · rw [Line.masked_ofText, trim_waitLine hne hinner, hread]
      exact ⟨bounds, hrange, rfl⟩
    · rw [Source.command, if_neg (by decide), hpolicy]

/-- A wait command is read if its argument is a delay, with the policy of the delay, and is an error
otherwise. -/
theorem readLine_waitLine (hne : t ≠ []) (hinner : ∀ c ∈ t, IsInner c) (number : Nat) :
    (∃ policy, IsDelay t policy ∧ readLine (waitLine t) number =
      .ok (some ⟨String.ofList (waitLine t), { wait := policy }, .wait⟩)) ∨
    ((∀ policy, ¬ IsDelay t policy) ∧ ∃ e, readLine (waitLine t) number = .error e) := by
  have htrim := trim_waitLine hne hinner
  have htext : trim (waitLine t) ≠ [] := by
    rw [htrim]
    exact List.cons_ne_nil _ _
  have hcases := readLine_cases htext (by rw [htrim]; rfl) number
  rw [htrim] at hcases
  rcases hcases with ⟨command, hcommand, hread⟩ | ⟨misfit, e, hmisfit, hread⟩
  · obtain ⟨policy, hdelay, rfl⟩ := (readCommand_waitLine_iff hne hinner).mp hcommand
    exact .inl ⟨policy, hdelay, hread⟩
  · refine .inr ⟨fun policy hdelay => ?_, e, hread⟩
    rw [(readCommand_waitLine_iff hne hinner).mpr ⟨policy, hdelay, rfl⟩] at hmisfit
    cases hmisfit

/-! ### Lines for the game -/

/-- A line for the game with a wait modifier. It has no other wait modifier and all else of it is as
it should be, so that it is right if the modifier has a delay. -/
structure WaitsNatively (raw front t back : List Char) : Prop where
  eq_append : raw = front ++ (waitText t ++ back)
  stands : ∃ token, Stands .wait false raw ⟨front.length, (waitText t).length, token⟩
  only : ∀ o, Stands .wait false raw o → o.position = front.length
  others : ∀ kind ≠ .wait, ∃ found, Gives kind raw found
  notComment : isComment (trim raw) = false
  native : Statement.read (trim (scanned false raw).masked) = .ok .native

section Native

variable {front back : List Char}

theorem WaitsNatively.trim_ne_nil (h : WaitsNatively raw front t back) : trim raw ≠ [] := by
  have hsplit : raw = front ++ '<' :: ("wait.".toList ++ t ++ ['>'] ++ back) := h.eq_append
  rw [hsplit, trim_append_cons front (by decide)]
  exact List.append_ne_nil_of_right_ne_nil _ (List.cons_ne_nil _ _)

/-- The modifier is the one that stands where it is written. -/
theorem WaitsNatively.exists_token (h : WaitsNatively raw front t back) :
    ∃ o, Stands .wait false raw o ∧ Spells .wait (waitText t) o.token ∧
      ∀ o', Stands .wait false raw o' → o' = o := by
  obtain ⟨token, hstands⟩ := h.stands
  refine ⟨_, hstands, ?_, fun o' ho' => ?_⟩
  · obtain ⟨front', text, rest, hraw, hspells, hposition, hlength, -⟩ := hstands
    rw [h.eq_append] at hraw
    obtain ⟨-, hrest⟩ := List.append_inj hraw hposition
    obtain ⟨htext, -⟩ := List.append_inj hrest hlength
    exact htext ▸ hspells
  · have hplace := h.only o' ho'
    exact (ho'.eq_of_covers hstands ho'.covers_position (hplace ▸ hstands.covers_position)).2

theorem exists_modifiers {cs : List Char} (h : ∀ kind, ∃ found, Gives kind cs found) :
    ∃ m : Modifiers, ∀ kind, Gives kind cs (m.only kind) := by
  choose found hfound using h
  refine ⟨{
    wait := (found .wait).wait
    hasWait := (found .wait).hasWait
    maxWaitMs := (found .maxWait).maxWaitMs
    unconfirmed := (found .unconfirmed).unconfirmed
    echo := (found .echo).echo
    index := (found .index).index
    quality := (found .quality).quality
    condition := (found .condition).condition }, fun kind => ?_⟩
  have hgives := hfound kind
  rw [← hgives.only_eq] at hgives
  cases kind <;> exact hgives

/-- What the wait modifier of the line gives. -/
theorem WaitsNatively.gives_iff (h : WaitsNatively raw front t back) {found : Modifiers} :
    Gives .wait raw found ↔
      ∃ policy, IsDelay t policy ∧ found = { wait := policy, hasWait := true } := by
  obtain ⟨o, hstands, hspells, honly⟩ := h.exists_token
  rw [← apply_wait_eq_ok_iff hspells]
  constructor
  · intro hgives
    cases hgives with
    | none hnone => exact absurd hstands (hnone o)
    | one ho _ happly => exact honly _ ho ▸ happly
  · exact .one hstands honly

/-- Such a line is read if the modifier has a delay, with the policy of the delay, and is an error
otherwise. -/
theorem readLine_native (h : WaitsNatively raw front t back) (number : Nat) :
    (∃ policy m text, IsDelay t policy ∧ m.wait = policy ∧ m.hasWait = true ∧
      readLine raw number = .ok (some ⟨String.ofList (trim raw), m, .native text⟩)) ∨
    ((∀ policy, ¬ IsDelay t policy) ∧ ∃ e, readLine raw number = .error e) := by
  rcases readLine_cases h.trim_ne_nil h.notComment number with
    ⟨command, -, hread⟩ | ⟨misfit, e, -, hread⟩
  · obtain ⟨-, -, m, statement, hgives, hstatement, hcommand⟩ := readLine_eq_some_iff.mp hread
    rw [h.native] at hstatement
    cases hstatement
    cases hcommand
    obtain ⟨policy, hdelay, honly⟩ := h.gives_iff.mp (hgives .wait)
    exact .inl ⟨policy, m, _, hdelay, congrArg Modifiers.wait honly,
      congrArg Modifiers.hasWait honly, hread⟩
  · refine .inr ⟨fun policy hdelay => ?_, e, hread⟩
    obtain ⟨m, hgives⟩ : ∃ m : Modifiers, ∀ kind, Gives kind raw (m.only kind) := by
      refine exists_modifiers fun kind => ?_
      by_cases hkind : kind = .wait
      · exact hkind ▸ ⟨_, h.gives_iff.mpr ⟨policy, hdelay, rfl⟩⟩
      · exact h.others kind hkind
    have hok : readLine raw number = .ok (some _) := readLine_eq_some_iff.mpr
      ⟨h.trim_ne_nil, h.notComment, m, .native, hgives, h.native, rfl⟩
    rw [hread] at hok
    cases hok

end Native

end Source

/-! ### Policies -/

namespace WaitPolicy

/-- A range does not end before it starts; zero stands for no range. -/
def IsOrdered (policy : WaitPolicy) : Prop :=
  policy.untilMs = 0 ∨ policy.waitMs ≤ policy.untilMs

theorem isOrdered_of_ofMillis {waitMs untilMs : Nat} {policy : WaitPolicy}
    (h : ofMillis waitMs untilMs = .ok policy) : policy.IsOrdered := by
  unfold ofMillis at h
  split at h
  · cases h
  · next hbounds =>
      cases h
      rw [not_and_or, not_not, Nat.not_lt] at hbounds
      exact hbounds

end WaitPolicy

namespace Modifier

theorem exists_of_bind {ε α β : Type} {first : Except ε α} {next : α → Except ε β} {value : β}
    (h : first >>= next = .ok value) : ∃ found, first = .ok found ∧ next found = .ok value := by
  cases first with
  | error error => cases h
  | ok found => exact ⟨found, rfl, h⟩

theorem isOrdered_of_apply {token : Token} {found : Modifiers} (h : apply {} token = .ok found) :
    found.wait.IsOrdered := by
  cases token with
  | wait seconds limit =>
      obtain ⟨waitMs, -, h⟩ := exists_of_bind h
      obtain ⟨untilMs, h⟩ : ∃ untilMs, (match WaitPolicy.ofMillis waitMs untilMs with
          | .ok wait => (.ok { wait, hasWait := true } : Except Fault Modifiers)
          | .error error => .error (.invalidRange error)) = .ok found := by
        cases limit with
        | none => exact ⟨0, h⟩
        | some limit =>
            obtain ⟨untilMs, -, h⟩ := exists_of_bind h
            exact ⟨untilMs, h⟩
      split at h
      · next hpolicy =>
          cases h
          exact WaitPolicy.isOrdered_of_ofMillis hpolicy
      · cases h
  | maxWait | index | unconfirmed | echo | quality | condition =>
      rw [← only_of_apply h]
      exact .inl rfl

theorem isOrdered_of_gives {cs : List Char} {found : Modifiers} (h : Gives .wait cs found) :
    found.wait.IsOrdered := by
  cases h with
  | none => exact .inl rfl
  | one _ _ happly => exact isOrdered_of_apply happly

end Modifier

namespace Source

/-- A command of a source is the command of one of its lines. -/
theorem exists_line_of_mem {lines : List (List Char)} {number : Nat} {commands : List Command}
    {command : Command} (h : readLines number lines = .ok commands) (hmem : command ∈ commands) :
    ∃ raw ∈ lines, ∃ number, readLine raw number = .ok (some command) := by
  induction lines generalizing number commands with
  | nil =>
      cases h
      cases hmem
  | cons raw lines ih =>
      rw [readLines] at h
      cases hfirst : readLine raw number with
      | error e =>
          rw [hfirst] at h
          cases h
      | ok found =>
          cases hothers : readLines (number + 1) lines with
          | error e =>
              rw [hfirst, hothers] at h
              cases h
          | ok others =>
              rw [hfirst, hothers] at h
              cases h
              rcases List.mem_append.mp hmem with hmem | hmem
              · exact ⟨raw, List.mem_cons_self, number, by rw [hfirst, Option.mem_toList.mp hmem]⟩
              · obtain ⟨raw', hraw', hread⟩ := ih hothers hmem
                exact ⟨raw', List.mem_cons_of_mem _ hraw', hread⟩

/-- No command of a source has a range of delays that ends before it starts. -/
theorem isOrdered_of_readLine {raw : List Char} {number : Nat} {command : Command}
    (h : readLine raw number = .ok (some command)) : command.modifiers.wait.IsOrdered := by
  obtain ⟨-, -, m, statement, hgives, -, hcommand⟩ := readLine_eq_some_iff.mp h
  have hwait : (m.only .wait).wait.IsOrdered := Modifier.isOrdered_of_gives (hgives .wait)
  cases statement with
  | wait seconds limit =>
      rw [Source.command] at hcommand
      split at hcommand
      · cases hcommand
      · split at hcommand
        · next policy hpolicy =>
            cases hcommand
            exact WaitPolicy.isOrdered_of_ofMillis hpolicy
        · cases hcommand
  | _ =>
      cases hcommand
      exact hwait

end Source

end CraftLang
