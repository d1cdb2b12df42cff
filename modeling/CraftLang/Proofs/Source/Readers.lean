import CraftLang.Source.Statement
import Mathlib.Data.List.TakeWhile

/-!
What the readers of arguments read. Each kind of argument has its texts, said without reading: the
characters that they are made of and the value that they stand for. A reader finds such a text at
the start of its input, and finds all of it, if what goes on after the text could not belong to it.
A reader that fails leaves a part of its input that does not start with a space or a tab.
-/

namespace CraftLang.Grammar

open Text

/-! ### Texts of arguments -/

/-- The text ends, or goes on with a character outside the class. -/
def Leaves (p : Char → Bool) (rest : List Char) : Prop :=
  ∀ c ∈ rest.head?, p c = false

def IsGap (cs : List Char) : Prop :=
  ∀ c ∈ cs, isSpace c = true

def IsDigits (cs : List Char) : Prop :=
  cs ≠ [] ∧ ∀ c ∈ cs, c.isDigit = true

inductive IsArgument : List Char → String → Prop
  | quoted {text : List Char} (h : quote ∉ text) :
      IsArgument (quote :: (text ++ [quote])) (String.ofList text)
  | bare {word : List Char} (hne : word ≠ []) (h : ∀ c ∈ word, isBare c = true) :
      IsArgument word (String.ofList word)

/-- A closed quoted text, or a text without quotation marks that is not all blank. The blanks at
the end of the latter are not part of the name. -/
inductive IsName : List Char → String → Prop
  | quoted {text : List Char} (h : quote ∉ text) :
      IsName (quote :: (text ++ [quote])) (String.ofList text)
  | bare {text : List Char} (hquote : quote ∉ text) (hvisible : ∃ c ∈ text, isBlank c = false) :
      IsName text (String.ofList (trimEnd text))

inductive IsDecimal : List Char → Binary64 → Prop
  | whole {digits : List Char} (h : IsDigits digits) :
      IsDecimal digits (Decimal.valueOf digits [])
  | point {digits fraction : List Char} (h : IsDigits digits) (h' : IsDigits fraction) :
      IsDecimal (digits ++ '.' :: fraction) (Decimal.valueOf digits fraction)

inductive IsRange : List Char → Binary64 × Option Binary64 → Prop
  | single {text : List Char} {first : Binary64} (h : IsDecimal text first) :
      IsRange text (first, none)
  | pair {text text' : List Char} {first second : Binary64} (h : IsDecimal text first)
      (h' : IsDecimal text' second) : IsRange (text ++ '-' :: text') (first, some second)

inductive IsCount : List Char → Nat → Prop
  | digits {digits : List Char} (h : IsDigits digits)
      (hsmall : Decimal.natOfDigits digits < countLimit) :
      IsCount digits (Decimal.natOfDigits digits)

section Combinators

variable {α β : Type}

/-- All the spaces and tabs up to a text, of which there is at least one. -/
inductive Spaced (P : List Char → α → Prop) : List Char → α → Prop
  | after {gap text : List Char} {value : α} (hne : gap ≠ []) (hgap : IsGap gap)
      (hstart : Leaves isSpace text) (h : P text value) : Spaced P (gap ++ text) value

inductive Maybe (P : List Char → α → Prop) : List Char → Option α → Prop
  | absent : Maybe P [] none
  | present {text : List Char} {value : α} (h : P text value) : Maybe P text (some value)

inductive Given (P : List Char → α → Prop) (f : α → β) : List Char → β → Prop
  | value {text : List Char} {value : α} (h : P text value) : Given P f text (f value)

def Fits (P : List Char → α → Prop) (cs : List Char) (value : α) : Prop :=
  ∃ text tail, cs = text ++ tail ∧ IsGap tail ∧ P text value

end Combinators

/-! ### Spans of characters -/

section Spans

variable {p : Char → Bool} {word rest cs : List Char}

theorem takeWhile_append (hword : ∀ c ∈ word, p c = true) (hrest : Leaves p rest) :
    (word ++ rest).takeWhile p = word := by
  rw [List.takeWhile_append_of_pos hword]
  cases rest with
  | nil => simp
  | cons c rest => simp [hrest c rfl]

theorem dropWhile_append (hword : ∀ c ∈ word, p c = true) (hrest : Leaves p rest) :
    (word ++ rest).dropWhile p = rest := by
  rw [List.dropWhile_append_of_pos hword]
  cases rest with
  | nil => rfl
  | cons c rest => simp [hrest c rfl]

theorem of_mem_takeWhile {c : Char} (h : c ∈ cs.takeWhile p) : p c = true :=
  List.all_eq_true.mp List.all_takeWhile c h

theorem leaves_dropWhile (p : Char → Bool) (cs : List Char) : Leaves p (cs.dropWhile p) := by
  intro c hc
  have hhead := List.head?_dropWhile_not p cs
  rw [Option.mem_def.mp hc] at hhead
  simpa using hhead

theorem Leaves.append (hword : Leaves p word) (hne : word ≠ []) : Leaves p (word ++ rest) := by
  cases word with
  | nil => exact absurd rfl hne
  | cons c word => exact hword

theorem isBlank_of_isDigit {c : Char} (h : c.isDigit = true) : isBlank c = false := by
  simp only [Char.isDigit, Bool.and_eq_true, decide_eq_true_eq, ge_iff_le,
    UInt32.le_iff_toNat_le] at h
  obtain ⟨hlow, hhigh⟩ := h
  have hn : 48 ≤ c.toNat ∧ c.toNat ≤ 57 := ⟨hlow, hhigh⟩
  simp [isBlank]
  omega

theorem isSpace_iff {c : Char} : isSpace c = true ↔ c = ' ' ∨ c = '\t' := by
  simp [isSpace]

theorem isBlank_of_isSpace {c : Char} (h : isSpace c = true) : isBlank c = true := by
  rcases isSpace_iff.mp h with rfl | rfl <;> decide

theorem isGap_space : IsGap [' '] := by
  intro c hc
  rw [List.mem_singleton.mp hc]
  rfl

/-- A gap leaves every class of characters that has neither the space nor the tab. -/
theorem IsGap.leaves (h : IsGap rest) (hspace : p ' ' = false) (htab : p '\t' = false) :
    Leaves p rest := by
  intro c hc
  rcases isSpace_iff.mp (h c (List.mem_of_mem_head? hc)) with rfl | rfl
  · exact hspace
  · exact htab

theorem IsGap.append_leaves {gap : List Char} (h : IsGap gap) (hne : gap ≠ [])
    (hspace : p ' ' = false) (htab : p '\t' = false) : Leaves p (gap ++ rest) :=
  (h.leaves hspace htab).append hne

@[simp] theorem skipSpaces_of_isGap (h : IsGap cs) : skipSpaces cs = [] :=
  List.dropWhile_eq_nil_iff.mpr h

theorem isGap_of_skipSpaces (h : skipSpaces cs = []) : IsGap cs :=
  List.dropWhile_eq_nil_iff.mp h

end Spans

/-! ### Readers of one argument -/

section Argument

variable {cs text rest : List Char}

theorem quoted_append (h : quote ∉ text) (rest : List Char) :
    quoted (quote :: (text ++ quote :: rest)) = .ok (text, rest) := by
  have hinside : ∀ c ∈ text, (c != quote) = true := by
    intro c hc
    exact bne_iff_ne.mpr fun heq => h (heq ▸ hc)
  have hstop : Leaves (· != quote) (quote :: rest) := by simp [Leaves]
  simp only [quoted, if_true, takeWhile_append hinside hstop, dropWhile_append hinside hstop]

theorem quoted_sound (h : quoted cs = .ok (text, rest)) :
    quote ∉ text ∧ cs = quote :: (text ++ quote :: rest) := by
  cases cs with
  | nil => cases h
  | cons c cs =>
      rw [quoted] at h
      split at h
      · next hc =>
          split at h
          · cases h
          · next d after hdrop =>
              cases h
              have hd : d = quote := by
                have hleft := leaves_dropWhile (· != quote) cs d (by rw [hdrop]; rfl)
                simpa using hleft
              refine ⟨fun hmem => ?_, ?_⟩
              · exact absurd (of_mem_takeWhile hmem) (by simp)
              · have hcs := List.takeWhile_append_dropWhile (p := (· != quote)) (l := cs)
                rw [hdrop, hd] at hcs
                rw [hc, hcs]
      · cases h

/-- Any text without quotation marks is a name, between such marks. -/
theorem isName_quoted {name : String} (h : quote ∉ name.toList) :
    IsName (quote :: (name.toList ++ [quote])) name := by
  have hname := IsName.quoted h
  rwa [String.ofList_toList] at hname

theorem isArgument_quoted {name : String} (h : quote ∉ name.toList) :
    IsArgument (quote :: (name.toList ++ [quote])) name := by
  have hname := IsArgument.quoted h
  rwa [String.ofList_toList] at hname

theorem leaves_quote (cs : List Char) : Leaves isSpace (quote :: cs) := by
  rintro c ⟨⟩
  rfl

theorem quoted_of_ne {c : Char} (h : c ≠ quote) (cs : List Char) :
    quoted (c :: cs) = .error { remaining := c :: cs } :=
  if_neg h

theorem ne_quote_of_isBare {c : Char} (h : isBare c = true) : c ≠ quote := by
  rintro rfl
  exact absurd h (by decide)

theorem argument_append {value : String} (h : IsArgument text value) (hrest : Leaves isBare rest) :
    argument (text ++ rest) = .ok (value, rest) := by
  cases h with
  | quoted h =>
      simp only [List.cons_append, List.append_assoc, List.nil_append, argument,
        quoted_append h rest]
  | bare hne hbare =>
      cases text with
      | nil => exact absurd rfl hne
      | cons c text =>
          have hquoted := quoted_of_ne (ne_quote_of_isBare (hbare c List.mem_cons_self))
            (text ++ rest)
          rw [← List.cons_append] at hquoted
          simp only [argument, hquoted, bare, takeWhile_append hbare hrest,
            dropWhile_append hbare hrest]
          rfl

theorem argument_sound {value : String} (h : argument cs = .ok (value, rest)) :
    ∃ text, cs = text ++ rest ∧ IsArgument text value := by
  unfold argument at h
  split at h
  · next hquoted =>
      cases h
      obtain ⟨hmem, hcs⟩ := quoted_sound hquoted
      exact ⟨_, by simp [hcs], .quoted hmem⟩
  · split at h
    · next hbare =>
        cases h
        unfold bare at hbare
        simp only at hbare
        split at hbare
        · cases hbare
        · next hne =>
            cases hbare
            refine ⟨_, (List.takeWhile_append_dropWhile ..).symm, .bare ?_ ?_⟩
            · simpa using hne
            · exact fun c hc => of_mem_takeWhile hc
    · cases h

theorem all_isBlank_eq_false : text.all isBlank = false ↔ ∃ c ∈ text, isBlank c = false := by
  simp

/-- An unquoted name goes on to the end of the text, but the blanks there are not part of it. -/
theorem nameArgument_append {value : String} {tail : List Char} (h : IsName text value)
    (htail : IsGap tail) :
    ∃ tail', nameArgument (text ++ tail) = .ok (value, tail') ∧ IsGap tail' := by
  cases h with
  | quoted h =>
      refine ⟨tail, ?_, htail⟩
      simp only [List.cons_append, List.append_assoc, List.nil_append, nameArgument,
        quoted_append h tail]
  | bare hquote hvisible =>
      have hblank : ∀ c ∈ tail, isBlank c = true := fun c hc => isBlank_of_isSpace (htail c hc)
      have hinside : ∀ c ∈ text ++ tail, (c != quote) = true := by
        intro c hc
        rcases List.mem_append.mp hc with hc | hc
        · exact bne_iff_ne.mpr fun heq => hquote (heq ▸ hc)
        · rcases isSpace_iff.mp (htail c hc) with rfl | rfl <;> decide
      have htake : (text ++ tail).takeWhile (· != quote) = text ++ tail :=
        List.takeWhile_eq_self_iff.mpr hinside
      have hdrop : (text ++ tail).dropWhile (· != quote) = [] :=
        List.dropWhile_eq_nil_iff.mpr hinside
      obtain ⟨c, hc, hvisible⟩ := hvisible
      have hall : (text ++ tail).all isBlank = false :=
        all_isBlank_eq_false.mpr ⟨c, List.mem_append_left _ hc, hvisible⟩
      have hquoted : ∃ m, quoted (text ++ tail) = .error m := by
        cases hcs : text ++ tail with
        | nil => exact ⟨_, rfl⟩
        | cons d ds =>
            have hd := hinside d (hcs ▸ List.mem_cons_self)
            exact ⟨_, quoted_of_ne (bne_iff_ne.mp hd) ds⟩
      obtain ⟨m, hquoted⟩ := hquoted
      refine ⟨[], ?_, nofun⟩
      simp only [nameArgument, hquoted, htake, hdrop, hall, trimEnd_append_of_blank text hblank]
      rfl

theorem nameArgument_sound {value : String} (h : nameArgument cs = .ok (value, rest)) :
    ∃ text, cs = text ++ rest ∧ IsName text value := by
  unfold nameArgument at h
  split at h
  · next hquoted =>
      cases h
      obtain ⟨hmem, hcs⟩ := quoted_sound hquoted
      exact ⟨_, by simp [hcs], .quoted hmem⟩
  · simp only at h
    split at h
    · cases h
    · next hall =>
        cases h
        refine ⟨_, (List.takeWhile_append_dropWhile ..).symm, .bare ?_ ?_⟩
        · exact fun hmem => absurd (of_mem_takeWhile hmem) (by simp)
        · exact all_isBlank_eq_false.mp (Bool.eq_false_iff.mpr hall)

end Argument

/-! ### Readers of numbers -/

section Number

variable {cs text rest digits : List Char}

theorem isDigits_takeWhile (h : ¬ (cs.takeWhile Char.isDigit).isEmpty = true) :
    IsDigits (cs.takeWhile Char.isDigit) :=
  ⟨by simpa using h, fun _ hc => of_mem_takeWhile hc⟩

theorem IsDigits.isEmpty (h : IsDigits digits) : digits.isEmpty = false := by
  simpa using h.1

theorem uint_append (h : IsDigits digits) (hsmall : Decimal.natOfDigits digits < countLimit)
    (hrest : Leaves Char.isDigit rest) :
    uint (digits ++ rest) = .ok (Decimal.natOfDigits digits, rest) := by
  have hlimit : decide (countLimit ≤ Decimal.natOfDigits digits) = false := by simpa using hsmall
  simp only [uint, takeWhile_append h.2 hrest, dropWhile_append h.2 hrest, h.isEmpty, hlimit]
  rfl

theorem uint_sound {value : Nat} (h : uint cs = .ok (value, rest)) :
    ∃ text, cs = text ++ rest ∧ IsCount text value := by
  unfold uint at h
  simp only at h
  split at h
  · cases h
  · next hdigits =>
      cases h
      rw [Bool.or_eq_true, not_or, decide_eq_true_eq, Nat.not_le] at hdigits
      exact ⟨_, (List.takeWhile_append_dropWhile ..).symm,
        .digits (isDigits_takeWhile hdigits.1) hdigits.2⟩

def isDecimalPart (c : Char) : Bool :=
  c.isDigit || c == '.'

theorem number_append {value : Binary64} (h : IsDecimal text value)
    (hrest : Leaves isDecimalPart rest) : number (text ++ rest) = .ok (value, rest) := by
  have hdigit : Leaves Char.isDigit rest :=
    fun c hc => (Bool.or_eq_false_iff.mp (hrest c hc)).1
  cases h with
  | whole h =>
      simp only [number, takeWhile_append h.2 hdigit, dropWhile_append h.2 hdigit, h.isEmpty,
        Bool.false_eq_true, if_false]
      split
      · next more => exact absurd (hrest '.' rfl) (by decide)
      · rfl
  | point h h' =>
      next digits fraction =>
      have hpoint : Leaves Char.isDigit ('.' :: (fraction ++ rest)) := by
        simp [Leaves]
      rw [List.append_assoc, List.cons_append]
      simp only [number, takeWhile_append h.2 hpoint, dropWhile_append h.2 hpoint, h.isEmpty,
        takeWhile_append h'.2 hdigit, dropWhile_append h'.2 hdigit, h'.isEmpty,
        Bool.false_eq_true, if_false]

theorem number_sound {value : Binary64} (h : number cs = .ok (value, rest)) :
    ∃ text, cs = text ++ rest ∧ IsDecimal text value := by
  have hcs : cs = cs.takeWhile Char.isDigit ++ cs.dropWhile Char.isDigit :=
    (List.takeWhile_append_dropWhile ..).symm
  unfold number at h
  simp only at h
  split at h
  · cases h
  · next hwhole =>
      have hdigits := isDigits_takeWhile hwhole
      split at h
      · next more hpoint =>
          split at h
          · cases h
            exact ⟨_, hcs, .whole hdigits⟩
          · next hfraction =>
              cases h
              refine ⟨_, ?_, .point hdigits (isDigits_takeWhile hfraction)⟩
              rw [List.append_assoc, List.cons_append,
                List.takeWhile_append_dropWhile, ← hpoint, ← hcs]
      · cases h
        exact ⟨_, hcs, .whole hdigits⟩

theorem range_append {value : Binary64 × Option Binary64} (h : IsRange text value)
    (hrest : Leaves (fun c => isDecimalPart c || c == '-') rest) :
    range (text ++ rest) = .ok (value, rest) := by
  have hdecimal : Leaves isDecimalPart rest :=
    fun c hc => (Bool.or_eq_false_iff.mp (hrest c hc)).1
  cases h with
  | single h =>
      simp only [range, number_append h hdecimal, bind, Except.bind]
      split
      · next more => exact absurd (hrest '-' rfl) (by decide)
      · rfl
  | pair h h' =>
      next text text' first second =>
      have hhyphen : Leaves isDecimalPart ('-' :: (text' ++ rest)) := by
        rintro c ⟨⟩
        decide
      rw [List.append_assoc, List.cons_append]
      simp only [range, number_append h hhyphen, bind, Except.bind, number_append h' hdecimal]

theorem range_sound {value : Binary64 × Option Binary64} (h : range cs = .ok (value, rest)) :
    ∃ text, cs = text ++ rest ∧ IsRange text value := by
  cases hfirst : number cs with
  | error m => simp [range, hfirst, bind, Except.bind] at h
  | ok found =>
      obtain ⟨first, after⟩ := found
      obtain ⟨text, rfl, htext⟩ := number_sound hfirst
      simp only [range, hfirst, bind, Except.bind] at h
      split at h
      · next more =>
          split at h
          · next second after' hsecond =>
              cases h
              obtain ⟨text', rfl, htext'⟩ := number_sound hsecond
              exact ⟨text ++ '-' :: text', by simp, .pair htext htext'⟩
          · cases h
            exact ⟨text, rfl, .single htext⟩
      · cases h
        exact ⟨text, rfl, .single htext⟩

end Number

/-! ### Whole arguments -/

section Accepts

variable {α β : Type} {reader : Reader α} {P : List Char → α → Prop}

/-- The reader finds texts of one kind, and reads such a text where only spaces and tabs follow it;
it may take some of them along. -/
structure Accepts (reader : Reader α) (P : List Char → α → Prop) : Prop where
  sound : ∀ {cs value rest}, reader cs = .ok (value, rest) → ∃ text, cs = text ++ rest ∧
    P text value
  complete : ∀ {text value tail}, P text value → IsGap tail →
    ∃ tail', reader (text ++ tail) = .ok (value, tail') ∧ IsGap tail'

theorem accepts_argument : Accepts argument IsArgument where
  sound := argument_sound
  complete h htail := ⟨_, argument_append h (htail.leaves (by decide) (by decide)), htail⟩

theorem accepts_nameArgument : Accepts nameArgument IsName where
  sound := nameArgument_sound
  complete := nameArgument_append

theorem accepts_range : Accepts range IsRange where
  sound := range_sound
  complete h htail := ⟨_, range_append h (htail.leaves (by decide) (by decide)), htail⟩

theorem accepts_uint : Accepts uint IsCount where
  sound := uint_sound
  complete h htail := by
    cases h with
    | digits h hsmall =>
        exact ⟨_, uint_append h hsmall (htail.leaves (by decide) (by decide)), htail⟩

/-- The gap before an argument is passed over, and the argument is read as if it stood alone. -/
theorem required_append {gap cs : List Char} (hne : gap ≠ []) (hgap : IsGap gap)
    (hstart : Leaves isSpace cs) : required reader (gap ++ cs) = reader cs := by
  have hskip : skipSpaces (gap ++ cs) = cs := dropWhile_append hgap hstart
  cases gap with
  | nil => exact absurd rfl hne
  | cons c gap =>
      rw [List.cons_append] at hskip ⊢
      simp only [required, hgap c List.mem_cons_self, if_true, hskip]

/-- A reader that asks for a gap is either given one, or fails where it starts. -/
theorem required_cases (reader : Reader α) (cs : List Char) :
    (∃ gap text, cs = gap ++ text ∧ gap ≠ [] ∧ IsGap gap ∧ Leaves isSpace text ∧
      required reader cs = reader text) ∨
    (Leaves isSpace cs ∧ required reader cs = .error { remaining := cs }) := by
  cases cs with
  | nil => exact .inr ⟨nofun, rfl⟩
  | cons c cs =>
      by_cases hc : isSpace c = true
      · refine .inl ⟨(c :: cs).takeWhile isSpace, skipSpaces (c :: cs),
          (List.takeWhile_append_dropWhile ..).symm, ?_, fun _ hd => of_mem_takeWhile hd,
          leaves_dropWhile isSpace _, if_pos hc⟩
        simp [hc]
      · refine .inr ⟨?_, if_neg hc⟩
        rintro d ⟨⟩
        exact Bool.eq_false_iff.mpr hc

theorem Accepts.required (h : Accepts reader P) (hne : ∀ {text value}, P text value → text ≠ []) :
    Accepts (required reader) (Spaced P) where
  sound {cs value rest} hread := by
    rcases required_cases reader cs with ⟨gap, text, rfl, hgap, hspaces, hstart, heq⟩ | ⟨-, heq⟩
    · rw [heq] at hread
      obtain ⟨word, rfl, hword⟩ := h.sound hread
      refine ⟨gap ++ word, (List.append_assoc ..).symm, .after hgap hspaces ?_ hword⟩
      cases word with
      | nil => exact nofun
      | cons c word => exact hstart
    · rw [heq] at hread
      cases hread
  complete htext htail := by
    cases htext with
    | after hgap hspaces hstart hword =>
        rw [List.append_assoc, required_append hgap hspaces (hstart.append (hne hword))]
        exact h.complete hword htail

theorem Accepts.mapped (h : Accepts reader P) (f : α → β) :
    Accepts (mapped f reader) (Given P f) where
  sound {cs value rest} hread := by
    unfold Grammar.mapped at hread
    cases hcs : reader cs with
    | error m =>
        rw [hcs] at hread
        cases hread
    | ok found =>
        rw [hcs] at hread
        cases hread
        obtain ⟨text, htext, hP⟩ := h.sound hcs
        exact ⟨text, htext, .value hP⟩
  complete htext htail := by
    cases htext with
    | value hP =>
        obtain ⟨tail', hread, htail'⟩ := h.complete hP htail
        exact ⟨tail', by rw [Grammar.mapped, hread]; rfl, htail'⟩

theorem Accepts.optional (h : Accepts reader P)
    (hgap : ∀ {text value}, P text value → ¬ IsGap text) :
    Accepts (optional reader) (Maybe P) where
  sound {cs value rest} hread := by
    unfold Grammar.optional at hread
    cases hcs : reader cs with
    | error m =>
        rw [hcs] at hread
        cases hread
        exact ⟨[], rfl, .absent⟩
    | ok found =>
        rw [hcs] at hread
        cases hread
        obtain ⟨text, htext, hP⟩ := h.sound hcs
        exact ⟨text, htext, .present hP⟩
  complete {text value tail} htext htail := by
    cases htext with
    | absent =>
        -- A gap is not read as a value, so nothing of it is taken.
        cases hcs : reader tail with
        | error m => exact ⟨tail, by rw [List.nil_append, Grammar.optional, hcs], htail⟩
        | ok found =>
            obtain ⟨text, rfl, hP⟩ := h.sound hcs
            exact absurd (fun c hc => htail c (List.mem_append_left _ hc)) (hgap hP)
    | present hP =>
        obtain ⟨tail', hread, htail'⟩ := h.complete hP htail
        exact ⟨tail', by rw [Grammar.optional, hread], htail'⟩

/-- A whole text is accepted if it is of the right kind, up to the spaces and tabs at its end. -/
theorem Accepts.complete_iff (h : Accepts reader P) {cs : List Char} {value : α} :
    Grammar.complete reader cs = .ok value ↔ Fits P cs value := by
  constructor
  · intro hread
    cases hcs : reader cs with
    | error m => simp [Grammar.complete, hcs, bind, Except.bind] at hread
    | ok found =>
        obtain ⟨found, rest⟩ := found
        simp only [Grammar.complete, hcs, bind, Except.bind] at hread
        split at hread
        · next hskip =>
            cases hread
            obtain ⟨text, htext, hP⟩ := h.sound hcs
            exact ⟨text, rest, htext, isGap_of_skipSpaces hskip, hP⟩
        · cases hread
  · rintro ⟨text, tail, rfl, htail, hP⟩
    obtain ⟨tail', hread, htail'⟩ := h.complete hP htail
    simp only [Grammar.complete, hread, bind, Except.bind, skipSpaces_of_isGap htail']

end Accepts

/-! ### Where readers stop -/

section Orderly

variable {α β : Type} {reader : Reader α}

/-- What a reader leaves is the end of its input, and does not start with a space or a tab if the
reader fails there. -/
structure Orderly (reader : Reader α) : Prop where
  rest : ∀ {cs value rest}, reader cs = .ok (value, rest) → rest <:+ cs
  remaining : ∀ {cs m}, reader cs = .error m → m.remaining <:+ cs ∧ Leaves isSpace m.remaining

def FailsAtStart (reader : Reader α) : Prop :=
  ∀ {cs m}, reader cs = .error m → m.remaining = cs

theorem failsAtStart_argument : FailsAtStart argument := by
  intro cs m h
  unfold argument at h
  split at h
  · cases h
  · split at h <;> cases h
    rfl

theorem failsAtStart_nameArgument : FailsAtStart nameArgument := by
  intro cs m h
  unfold nameArgument at h
  split at h
  · cases h
  · simp only at h
    split at h <;> cases h
    rfl

theorem failsAtStart_number : FailsAtStart number := by
  intro cs m h
  unfold number at h
  simp only at h
  split at h
  · cases h
    rfl
  · split at h
    · split at h <;> cases h
    · cases h

theorem failsAtStart_range : FailsAtStart range := by
  intro cs m h
  cases hfirst : number cs with
  | error m' =>
      simp only [range, hfirst, bind, Except.bind] at h
      cases h
      exact failsAtStart_number hfirst
  | ok found =>
      simp only [range, hfirst, bind, Except.bind] at h
      split at h
      · split at h <;> cases h
      · cases h

theorem failsAtStart_uint : FailsAtStart uint := by
  intro cs m h
  unfold uint at h
  simp only at h
  split at h <;> cases h
  rfl

theorem Accepts.orderly {P : List Char → α → Prop} (h : Accepts reader P)
    (hfails : FailsAtStart reader) : Orderly (Grammar.required reader) where
  rest {cs value rest} hread := by
    rcases required_cases reader cs with ⟨gap, text, rfl, -, -, -, heq⟩ | ⟨-, heq⟩
    · rw [heq] at hread
      obtain ⟨word, rfl, -⟩ := h.sound hread
      exact ⟨gap ++ word, List.append_assoc ..⟩
    · rw [heq] at hread
      cases hread
  remaining {cs m} hread := by
    rcases required_cases reader cs with ⟨gap, text, rfl, -, -, hstart, heq⟩ | ⟨hstart, heq⟩
    · rw [heq] at hread
      rw [hfails hread]
      exact ⟨List.suffix_append .., hstart⟩
    · rw [heq] at hread
      cases hread
      exact ⟨List.suffix_refl _, hstart⟩

theorem Orderly.mapped (h : Orderly reader) (f : α → β) : Orderly (Grammar.mapped f reader) where
  rest {cs value rest} hread := by
    unfold Grammar.mapped at hread
    cases hcs : reader cs with
    | error m =>
        rw [hcs] at hread
        cases hread
    | ok found =>
        rw [hcs] at hread
        cases hread
        exact h.rest hcs
  remaining {cs m} hread := by
    unfold Grammar.mapped at hread
    cases hcs : reader cs with
    | error m' =>
        rw [hcs] at hread
        cases hread
        exact h.remaining hcs
    | ok found =>
        rw [hcs] at hread
        cases hread

theorem Orderly.optional (h : Orderly reader) : Orderly (Grammar.optional reader) where
  rest {cs value rest} hread := by
    unfold Grammar.optional at hread
    cases hcs : reader cs with
    | error m =>
        rw [hcs] at hread
        cases hread
        exact List.suffix_refl _
    | ok found =>
        rw [hcs] at hread
        cases hread
        exact h.rest hcs
  remaining {cs m} hread := by
    unfold Grammar.optional at hread
    split at hread <;> cases hread

/-- A text that is not accepted as a whole is left from some place on, and not before a gap. -/
theorem Orderly.complete (h : Orderly reader) {cs : List Char} {m : Mismatch}
    (hread : Grammar.complete reader cs = .error m) :
    m.remaining <:+ cs ∧ Leaves isSpace m.remaining := by
  cases hcs : reader cs with
  | error m' =>
      simp only [Grammar.complete, hcs, bind, Except.bind] at hread
      cases hread
      exact h.remaining hcs
  | ok found =>
      obtain ⟨found, rest⟩ := found
      simp only [Grammar.complete, hcs, bind, Except.bind] at hread
      split at hread
      · cases hread
      · cases hread
        exact ⟨(List.dropWhile_suffix _).trans (h.rest hcs), leaves_dropWhile isSpace _⟩

end Orderly

end CraftLang.Grammar
