import CraftLang.Engine.Control
import CraftLang.Proofs.Source.Readers

/-!
The language of control lines. It is said without reading: a request is a keyword, alone or with
what may stand after it, and only `run` takes a name. A count of loops stands in front of the name;
where what looks like a count has no name after it, it is the beginning of a name itself.
-/

namespace CraftLang

open Text Grammar

namespace ControlCommand

/-! ### The language -/

/-- The word is the keyword in some case of its letters. -/
def Spells (keyword : String) (word : List Char) : Prop :=
  asciiLower word = keyword.toList

inductive IsLoopCount : List Char → Int → Prop
  | count {word gap digits gap' : List Char} (hword : Spells "loop" word) (hne : gap ≠ [])
      (hgap : IsGap gap) (hdigits : IsDigits digits)
      (hmost : Decimal.natOfDigits digits ≤ mostLoops) (hne' : gap' ≠ []) (hgap' : IsGap gap') :
      IsLoopCount (word ++ (gap ++ (digits ++ gap'))) (Decimal.natOfDigits digits)

inductive IsCounted : List Char → String → Int → Prop
  | named {count text : List Char} {loops : Int} {name : String} (hcount : IsLoopCount count loops)
      (hstart : Leaves isSpace text) (hname : IsName text name) :
      IsCounted (count ++ text) name loops

/-- What says which macro to run: a name, with a count of loops in front of it or without. What can
be taken as a count with a name is not a name alone. -/
inductive IsSelection : List Char → String → Option Int → Prop
  | counted {text : List Char} {name : String} {loops : Int} (h : IsCounted text name loops) :
      IsSelection text name (some loops)
  | plain {text : List Char} {name : String} (hname : IsName text name)
      (hcount : ∀ other loops, ¬ IsCounted text other loops) : IsSelection text name none

inductive IsDeferral : List Char → Bool → Prop
  | now : IsDeferral [] false
  | atLoop {gap word : List Char} (hne : gap ≠ []) (hgap : IsGap gap) (hword : Spells "loop" word) :
      IsDeferral (gap ++ word) true

inductive IsRequest : List Char → ControlCommand → Prop
  | run {word gap text : List Char} {name : String} {loops : Option Int}
      (hword : Spells "run" word) (hne : gap ≠ []) (hgap : IsGap gap)
      (hstart : Leaves isSpace text) (h : IsSelection text name loops) :
      IsRequest (word ++ (gap ++ text)) (.run name loops)
  | pause {word after : List Char} {deferred : Bool} (hword : Spells "pause" word)
      (h : IsDeferral after deferred) : IsRequest (word ++ after) (.pause deferred)
  | resume {word : List Char} (hword : Spells "resume" word) : IsRequest word .resume
  | stop {word after : List Char} {deferred : Bool} (hword : Spells "stop" word)
      (h : IsDeferral after deferred) : IsRequest (word ++ after) (.stop deferred)
  | step {word : List Char} (hword : Spells "step" word) : IsRequest word .step
  | status {word : List Char} (hword : Spells "status" word) : IsRequest word .status

/-! ### Keywords and gaps -/

section Parts

variable {cs rest word gap : List Char} {keyword : String}

theorem keyword?_append (h : Spells keyword word) (rest : List Char) :
    keyword? keyword.toList (word ++ rest) = some rest := by
  unfold Spells at h
  rw [← h]
  clear h
  induction word with
  | nil => rfl
  | cons c word ih =>
      show (if c.toLower = c.toLower then keyword? (asciiLower word) (word ++ rest) else none) = _
      rw [if_pos rfl, ih]

theorem keyword?_sound {letters : List Char} (h : keyword? letters cs = some rest) :
    ∃ word, cs = word ++ rest ∧ asciiLower word = letters := by
  induction letters generalizing cs with
  | nil =>
      cases h
      exact ⟨[], rfl, rfl⟩
  | cons k letters ih =>
      cases cs with
      | nil => cases h
      | cons c cs =>
          rw [keyword?] at h
          split at h
          · next hc =>
              obtain ⟨word, rfl, hword⟩ := ih h
              exact ⟨c :: word, rfl, by rw [← hword, ← hc]; rfl⟩
          · cases h

/-- A keyword is not found where a word stands that differs from it in a letter. -/
theorem keyword?_eq_none {letters : List Char}
    (h : (letters.zip (asciiLower word)).any (fun (k, c) => k != c) = true) (rest : List Char) :
    keyword? letters (word ++ rest) = none := by
  induction letters generalizing word with
  | nil => cases h
  | cons k letters ih =>
      cases word with
      | nil => cases h
      | cons c word =>
          rw [List.cons_append, keyword?]
          split
          · next hc =>
              refine ih ?_
              have hdiffers : (k != c.toLower || (letters.zip (asciiLower word)).any fun (k, c) =>
                k != c) = true := h
              rwa [hc, bne_self_eq_false, Bool.false_or] at hdiffers
          · rfl

theorem Spells.keyword?_eq_none (h : Spells keyword word) {letters : List Char}
    (hother : (letters.zip keyword.toList).any (fun (k, c) => k != c) = true) (rest : List Char) :
    keyword? letters (word ++ rest) = none :=
  ControlCommand.keyword?_eq_none (by rwa [h]) rest

theorem spaces?_append (hne : gap ≠ []) (hgap : IsGap gap) (hstart : Leaves isSpace rest) :
    spaces? (gap ++ rest) = some rest := by
  cases gap with
  | nil => exact absurd rfl hne
  | cons c gap =>
      obtain ⟨hc, hgap⟩ := List.forall_mem_cons.mp hgap
      rw [List.cons_append, spaces?, if_pos hc]
      exact congrArg some (dropWhile_append hgap hstart)

theorem spaces?_sound (h : spaces? cs = some rest) :
    ∃ gap, cs = gap ++ rest ∧ gap ≠ [] ∧ IsGap gap ∧ Leaves isSpace rest := by
  cases cs with
  | nil => cases h
  | cons c cs =>
      rw [spaces?] at h
      split at h
      · next hc =>
          cases h
          refine ⟨c :: cs.takeWhile isSpace, ?_, List.cons_ne_nil _ _,
            List.forall_mem_cons.mpr ⟨hc, fun _ hd => of_mem_takeWhile hd⟩,
            leaves_dropWhile isSpace _⟩
          rw [List.cons_append, skipSpaces, List.takeWhile_append_dropWhile]
      · cases h

/-- A keyword does not start with a space. -/
theorem Spells.leaves (h : Spells keyword word) (hne : Leaves isSpace keyword.toList) :
    Leaves isSpace word := by
  cases word with
  | nil => exact nofun
  | cons c word =>
      rintro d ⟨⟩
      have hlower := hne c.toLower (by rw [← h]; rfl)
      rw [Bool.eq_false_iff] at hlower ⊢
      intro hspace
      rcases isSpace_iff.mp hspace with rfl | rfl <;> exact hlower rfl

theorem leaves_of_isDigits {digits : List Char} (h : IsDigits digits) (rest : List Char) :
    Leaves isSpace (digits ++ rest) := by
  refine Leaves.append (fun c hc => ?_) h.1
  have hdigit := h.2 c (List.mem_of_mem_head? hc)
  rw [Bool.eq_false_iff]
  intro hspace
  rcases isSpace_iff.mp hspace with rfl | rfl <;> cases hdigit

def EndsVisibly (cs : List Char) : Prop :=
  ∀ tail, tail <:+ cs → (∀ c ∈ tail, isBlank c = true) → tail = []

theorem EndsVisibly.suffix {front : List Char} (h : EndsVisibly (front ++ rest)) :
    EndsVisibly rest :=
  fun tail hsuffix => h tail (hsuffix.trans (List.suffix_append ..))

theorem EndsVisibly.eq_nil_of_isGap (h : EndsVisibly rest) (hrest : IsGap rest) : rest = [] :=
  h rest List.suffix_rfl fun c hc => isBlank_of_isSpace (hrest c hc)

theorem endsVisibly_trim (raw : List Char) : EndsVisibly (trim raw) := by
  rintro tail ⟨front, hfront⟩ hblank
  have htwice : trimEnd (trim raw) = trim raw := trimEnd_trimEnd _
  rw [← hfront, trimEnd_append_of_blank front hblank] at htwice
  have hlength := (trimEnd_isPrefix front).length_le
  rw [htwice, List.length_append] at hlength
  exact List.eq_nil_of_length_eq_zero (by omega)

end Parts

/-! ### Counts and names -/

section Selection

variable {cs text rest : List Char} {name : String} {loops : Int}

theorem loopCount?_append {count : List Char} (h : IsLoopCount count loops)
    (hstart : Leaves isSpace rest) : loopCount? (count ++ rest) = some (loops, rest) := by
  cases h with
  | @count word gap digits gap' hword hne hgap hdigits hmost hne' hgap' =>
      have hsmall : Decimal.natOfDigits digits < countLimit := Nat.lt_of_le_of_lt hmost (by decide)
      have hdigit : Leaves Char.isDigit (gap' ++ rest) :=
        hgap'.append_leaves hne' (by decide) (by decide)
      have hloop : keyword? ['l', 'o', 'o', 'p'] (word ++ (gap ++ (digits ++ (gap' ++ rest)))) =
        _ :=
        keyword?_append hword _
      have hspaces := spaces?_append hne hgap (leaves_of_isDigits hdigits (gap' ++ rest))
      simp only [List.append_assoc, loopCount?, hloop, Option.bind_eq_bind, Option.bind_some,
        hspaces, uint_append hdigits hsmall hdigit, spaces?_append hne' hgap' hstart, if_pos hmost,
        Option.pure_def]

theorem loopCount?_sound (h : loopCount? cs = some (loops, rest)) :
    ∃ count, cs = count ++ rest ∧ IsLoopCount count loops ∧ Leaves isSpace rest := by
  simp only [loopCount?, Option.bind_eq_bind, Option.bind_eq_some_iff] at h
  obtain ⟨afterWord, hloop, afterGap, hspaces, h⟩ := h
  obtain ⟨word, rfl, hword⟩ := keyword?_sound hloop
  obtain ⟨gap, rfl, hne, hgap, -⟩ := spaces?_sound hspaces
  split at h
  · next n afterDigits hread =>
      obtain ⟨digits, rfl, hdigits⟩ := uint_sound hread
      cases hdigits with
      | digits hdigits hsmall =>
          obtain ⟨afterGap', hspaces', hbound⟩ := Option.bind_eq_some_iff.mp h
          obtain ⟨gap', rfl, hne', hgap', hstart⟩ := spaces?_sound hspaces'
          split at hbound
          · next hmost =>
              cases hbound
              exact ⟨word ++ (gap ++ (digits ++ gap')), by simp only [List.append_assoc],
                .count hword hne hgap hdigits hmost hne' hgap', hstart⟩
          · cases hbound
  · cases h

/-- A name that stands alone is read to its end, or up to a gap that belongs to nothing. -/
theorem nameArgument_of_isName (h : IsName text name) :
    ∃ tail, nameArgument text = .ok (name, tail) ∧ IsGap tail := by
  have hgap : IsGap [] := nofun
  have hread := nameArgument_append h hgap
  rwa [List.append_nil] at hread

theorem loopCount?_quote (cs : List Char) : loopCount? (quote :: cs) = none :=
  rfl

/-- What goes on after a count as far as the end of a name without a count is a name itself. -/
theorem isName_after_count {count : List Char} (hcount : IsLoopCount count loops)
    (hstart : Leaves isSpace rest) (hend : EndsVisibly (count ++ rest))
    (hname : IsName (count ++ rest) name) : ∃ other, IsName rest other := by
  have hread := loopCount?_append hcount hstart
  generalize htext : count ++ rest = text at hname hread
  cases hname with
  | quoted hquote =>
      rw [loopCount?_quote] at hread
      cases hread
  | bare hquote hvisible =>
      rw [← htext] at hquote
      by_cases hblank : ∀ c ∈ rest, isBlank c = true
      · -- Nothing is left of the text, which would then end with the gap of the count.
        obtain rfl := hend rest (List.suffix_append ..) hblank
        rw [List.append_nil] at hend
        cases hcount with
        | @count word gap digits gap' hword hne hgap hdigits hmost hne' hgap' =>
            simp only [← List.append_assoc] at hend
            exact absurd (hend.suffix.eq_nil_of_isGap hgap') hne'
      · simp only [not_forall, Bool.not_eq_true] at hblank
        obtain ⟨c, hc, hc'⟩ := hblank
        exact ⟨_, .bare (fun hmem => hquote (List.mem_append_right _ hmem)) ⟨c, hc, hc'⟩⟩

theorem runArguments?_append {gap : List Char} {loops : Option Int} (hne : gap ≠ [])
    (hgap : IsGap gap) (hstart : Leaves isSpace text) (h : IsSelection text name loops)
    (hend : EndsVisibly text) :
    ∃ tail, runArguments? (gap ++ text) = some (.run name loops, tail) ∧ IsGap tail := by
  have hspaces := spaces?_append hne hgap hstart
  cases h with
  | counted hcounted =>
      cases hcounted with
      | @named count text loops name hcount hstart' hname =>
          obtain ⟨tail, hread, htail⟩ := nameArgument_of_isName hname
          refine ⟨tail, ?_, htail⟩
          simp only [runArguments?, hspaces, loopCount?_append hcount hstart', hread,
            Option.bind_eq_bind, Option.bind_some, Option.pure_def]
  | plain hname hcount =>
      have hnone : loopCount? text = none := by
        rw [Option.eq_none_iff_forall_ne_some]
        rintro ⟨loops, rest⟩ hread
        obtain ⟨count, rfl, hcount', hstart'⟩ := loopCount?_sound hread
        obtain ⟨other, hother⟩ := isName_after_count hcount' hstart' hend hname
        exact hcount other loops (.named hcount' hstart' hother)
      obtain ⟨tail, hread, htail⟩ := nameArgument_of_isName hname
      refine ⟨tail, ?_, htail⟩
      simp only [runArguments?, hspaces, hnone, hread, Option.bind_eq_bind, Option.bind_some,
        Option.pure_def]

theorem runArguments?_sound {command : ControlCommand} (h : runArguments? cs = some (command, rest))
    (hrest : IsGap rest) (hend : EndsVisibly cs) :
    ∃ gap text name loops, cs = gap ++ text ∧ gap ≠ [] ∧ IsGap gap ∧ Leaves isSpace text ∧
      IsSelection text name loops ∧ command = .run name loops := by
  simp only [runArguments?, Option.bind_eq_bind, Option.bind_eq_some_iff] at h
  obtain ⟨text, hspaces, h⟩ := h
  obtain ⟨gap, rfl, hne, hgap, hstart⟩ := spaces?_sound hspaces
  refine ⟨gap, text, ?_⟩
  cases hcount : loopCount? text with
  | some found =>
      obtain ⟨loops, after⟩ := found
      obtain ⟨count, rfl, hcount', hstart'⟩ := loopCount?_sound hcount
      simp only [hcount] at h
      split at h
      · next name rest' hread =>
          cases h
          obtain ⟨text, rfl, hname⟩ := nameArgument_sound hread
          obtain rfl := hend.suffix.suffix.suffix.eq_nil_of_isGap hrest
          rw [List.append_nil] at hstart' ⊢
          exact ⟨name, some loops, rfl, hne, hgap, by rwa [List.append_nil] at hstart,
            .counted (.named hcount' hstart' hname), rfl⟩
      · cases h
  | none =>
      simp only [hcount] at h
      split at h
      · next name rest' hread =>
          cases h
          obtain ⟨text, rfl, hname⟩ := nameArgument_sound hread
          obtain rfl := hend.suffix.suffix.eq_nil_of_isGap hrest
          rw [List.append_nil] at hstart hcount ⊢
          refine ⟨name, none, rfl, hne, hgap, hstart, .plain hname ?_, rfl⟩
          rintro other loops hcounted
          cases hcounted with
          | named hcount' hstart' hname' =>
              rw [loopCount?_append hcount' hstart'] at hcount
              cases hcount
      · cases h

end Selection

/-! ### Requests -/

section Requests

variable {cs rest : List Char} {deferred : Bool} {command : ControlCommand}

theorem atLoop_of_isDeferral (h : IsDeferral cs deferred) : atLoop cs = (deferred, []) := by
  cases h with
  | now => rfl
  | @atLoop gap word hne hgap hword =>
      have hspaces := spaces?_append hne hgap (hword.leaves (by rintro c ⟨⟩; decide))
      have hloop : keyword? ['l', 'o', 'o', 'p'] (word ++ []) = _ := keyword?_append hword []
      rw [List.append_nil] at hloop
      simp only [ControlCommand.atLoop, hspaces, hloop]

theorem isDeferral_of_atLoop (h : atLoop cs = (deferred, rest)) (hrest : IsGap rest)
    (hend : EndsVisibly cs) : IsDeferral cs deferred := by
  unfold atLoop at h
  split at h
  · next after hspaces =>
      obtain ⟨gap, rfl, hne, hgap, -⟩ := spaces?_sound hspaces
      split at h
      · next after hloop =>
          cases h
          obtain ⟨word, rfl, hword⟩ := keyword?_sound hloop
          obtain rfl := hend.suffix.suffix.eq_nil_of_isGap hrest
          rw [List.append_nil]
          exact .atLoop hne hgap hword
      · cases h
        exact absurd (hend.eq_nil_of_isGap hrest) (by simp [hne])
  · cases h
    obtain rfl := hend.eq_nil_of_isGap hrest
    exact .now

variable {word : List Char}

/-- The words that requests start with, and how what follows them is read. -/
def readers : List (String × (List Char → Option (ControlCommand × List Char))) :=
  [("run", runArguments?),
    ("pause", fun rest => some (.pause (atLoop rest).1, (atLoop rest).2)),
    ("resume", fun rest => some (.resume, rest)),
    ("stop", fun rest => some (.stop (atLoop rest).1, (atLoop rest).2)),
    ("step", fun rest => some (.step, rest)),
    ("status", fun rest => some (.status, rest))]

theorem request?_eq_findSome? (cs : List Char) :
    request? cs = readers.findSome? fun entry => (keyword? entry.1.toList cs).bind entry.2 := by
  have hcons {α β : Type} (f : α → Option β) (a : α) (as : List α) :
      (a :: as).findSome? f = (f a <|> as.findSome? f) := by
    rw [List.findSome?_cons]
    cases f a <;> rfl
  have hnil {α : Type} (last : Option α) : (last.orElse fun _ => none) = last := by
    cases last <;> rfl
  simp only [request?, readers, hcons, List.findSome?_nil, Option.map_eq_bind,
    Option.orElse_eq_orElse, hnil]
  rfl

variable {reader : List Char → Option (ControlCommand × List Char)}

/-- No keyword is the beginning of another, so the one that is found tells the request. -/
theorem request?_append (hmem : (keyword, reader) ∈ readers) (h : Spells keyword word)
    (rest : List Char) : request? (word ++ rest) = reader rest := by
  have hkeyword := keyword?_append h rest
  simp only [readers, List.mem_cons, Prod.mk.injEq, List.not_mem_nil, or_false] at hmem
  rw [request?_eq_findSome?, readers]
  rcases hmem with ⟨rfl, rfl⟩ | ⟨rfl, rfl⟩ | ⟨rfl, rfl⟩ | ⟨rfl, rfl⟩ | ⟨rfl, rfl⟩ | ⟨rfl, rfl⟩
  all_goals
    simp (disch := decide) only [List.findSome?_cons, List.findSome?_nil, hkeyword,
      h.keyword?_eq_none, Option.bind_some, Option.bind_none]
  cases runArguments? rest <;> rfl

/-- What is read starts with one of the keywords, and follows it as it should. -/
theorem exists_reader (h : request? cs = some (command, rest)) :
    ∃ entry ∈ readers, ∃ word after, cs = word ++ after ∧ Spells entry.1 word ∧
      entry.2 after = some (command, rest) := by
  rw [request?_eq_findSome?] at h
  obtain ⟨entry, hmem, hread⟩ := List.exists_of_findSome?_eq_some h
  obtain ⟨after, hkeyword, hafter⟩ := Option.bind_eq_some_iff.mp hread
  obtain ⟨word, rfl, hword⟩ := keyword?_sound hkeyword
  exact ⟨entry, hmem, word, after, rfl, hword, hafter⟩

theorem request?_of_isRequest (h : IsRequest cs command) (hend : EndsVisibly cs) :
    ∃ tail, request? cs = some (command, tail) ∧ IsGap tail := by
  have hsole {keyword : String} {word : List Char} {request : ControlCommand}
      (hmem : (keyword, fun rest => some (request, rest)) ∈ readers) (h : Spells keyword word) :
      request? word = some (request, []) := by
    have hread := request?_append hmem h []
    rwa [List.append_nil] at hread
  cases h with
  | run hword hne hgap hstart hselection =>
      rw [request?_append (List.mem_of_getElem? (i := 0) rfl) hword]
      exact runArguments?_append hne hgap hstart hselection hend.suffix.suffix
  | pause hword hdeferral =>
      rw [request?_append (List.mem_of_getElem? (i := 1) rfl) hword]
      exact ⟨[], by rw [atLoop_of_isDeferral hdeferral], nofun⟩
  | stop hword hdeferral =>
      rw [request?_append (List.mem_of_getElem? (i := 3) rfl) hword]
      exact ⟨[], by rw [atLoop_of_isDeferral hdeferral], nofun⟩
  | resume hword => exact ⟨[], hsole (List.mem_of_getElem? (i := 2) rfl) hword, nofun⟩
  | step hword => exact ⟨[], hsole (List.mem_of_getElem? (i := 4) rfl) hword, nofun⟩
  | status hword => exact ⟨[], hsole (List.mem_of_getElem? (i := 5) rfl) hword, nofun⟩

theorem isRequest_of_request? (h : request? cs = some (command, rest)) (hrest : IsGap rest)
    (hend : EndsVisibly cs) : IsRequest cs command := by
  obtain ⟨entry, hmem, word, after, rfl, hword, hread⟩ := exists_reader h
  have hnone {request : ControlCommand} (heq : some (request, after) = some (command, rest)) :
      request = command ∧ after = [] := by
    cases heq
    exact ⟨rfl, hend.suffix.eq_nil_of_isGap hrest⟩
  simp only [readers, List.mem_cons, List.not_mem_nil, or_false] at hmem
  rcases hmem with rfl | rfl | rfl | rfl | rfl | rfl
  · obtain ⟨gap, text, name, loops, rfl, hne, hgap, hstart, hselection, rfl⟩ :=
      runArguments?_sound hread hrest hend.suffix
    exact .run hword hne hgap hstart hselection
  · cases hread
    exact .pause hword (isDeferral_of_atLoop rfl hrest hend.suffix)
  · obtain ⟨rfl, rfl⟩ := hnone hread
    exact (List.append_nil word).symm ▸ .resume hword
  · cases hread
    exact .stop hword (isDeferral_of_atLoop rfl hrest hend.suffix)
  · obtain ⟨rfl, rfl⟩ := hnone hread
    exact (List.append_nil word).symm ▸ .step hword
  · obtain ⟨rfl, rfl⟩ := hnone hread
    exact (List.append_nil word).symm ▸ .status hword

end Requests

/-! ### Lines -/

section Lines

variable {line name : String} {command : ControlCommand}

theorem read_eq_ok_iff : read line = .ok command ↔ IsRequest (trim line.toList) command := by
  have hend := endsVisibly_trim line.toList
  constructor
  · intro h
    simp only [read] at h
    split at h
    · next found rest hread =>
        split at h
        · next hempty =>
            cases h
            exact isRequest_of_request? hread
              (isGap_of_skipSpaces (List.isEmpty_iff.mp hempty)) hend
        · cases h
    · cases h
  · intro h
    obtain ⟨tail, hread, htail⟩ := request?_of_isRequest h hend
    simp only [read, hread, skipSpaces_of_isGap htail]
    rfl

/-- A line that is refused is told without the blanks around it. -/
theorem line_of_read {e : ParseError} (h : read line = .error e) :
    e = ⟨String.ofList (trim line.toList)⟩ := by
  simp only [read] at h
  split at h
  · split at h <;> cases h
    rfl
  · cases h
    rfl

theorem read_eq_error_iff {e : ParseError} :
    read line = .error e ↔ e = ⟨String.ofList (trim line.toList)⟩ ∧
      ∀ command, ¬ IsRequest (trim line.toList) command := by
  constructor
  · intro h
    refine ⟨line_of_read h, fun command hrequest => ?_⟩
    rw [read_eq_ok_iff.mpr hrequest] at h
    cases h
  · rintro ⟨rfl, hnone⟩
    cases hread : read line with
    | ok command => exact absurd (read_eq_ok_iff.mp hread) (hnone command)
    | error e => rw [line_of_read hread]

def inQuotes (name : String) : List Char :=
  quote :: (name.toList ++ [quote])

theorem isSelection_inQuotes (h : quote ∉ name.toList) : IsSelection (inQuotes name) name none := by
  refine .plain (isName_quoted h) fun other loops hcounted => ?_
  generalize htext : inQuotes name = text at hcounted
  cases hcounted with
  | named hcount hstart hname =>
      have hread := loopCount?_append hcount hstart
      rw [← htext, inQuotes, loopCount?_quote] at hread
      cases hread

def loopText (n : Nat) : List Char :=
  "loop".toList ++ ([' '] ++ (Decimal.ofNat n ++ [' ']))

theorem isLoopCount_loopText {n : Nat} (hn : n ≤ mostLoops) : IsLoopCount (loopText n) n := by
  have hdigits : IsDigits (Decimal.ofNat n) :=
    ⟨Decimal.ofNat_ne_nil n, fun _ hc => Decimal.isDigit_of_mem_ofNat hc⟩
  have hvalue := Decimal.natOfDigits_ofNat n
  have hword : Spells "loop" "loop".toList := rfl
  have hcount := IsLoopCount.count hword (List.cons_ne_nil ' ' []) isGap_space hdigits
    (by rwa [hvalue]) (List.cons_ne_nil ' ' []) isGap_space
  rwa [hvalue] at hcount

theorem read_run {front : List Char} {loops : Option Int}
    (hstart : Leaves isSpace (front ++ inQuotes name))
    (h : IsSelection (front ++ inQuotes name) name loops) :
    read ("run " ++ String.ofList (front ++ inQuotes name)) = .ok (.run name loops) := by
  have hquoted : "run".toList ++ ([' '] ++ (front ++ inQuotes name)) =
      "run".toList ++ ([' '] ++ (front ++ quote :: name.toList)) ++ [quote] := by
    simp only [inQuotes, List.append_assoc, List.cons_append]
  have htrim : trim ("run".toList ++ ([' '] ++ (front ++ inQuotes name))) =
      "run".toList ++ ([' '] ++ (front ++ inQuotes name)) :=
    trim_of_not_blank hquoted (by decide) (by decide)
  have hline : ("run " ++ String.ofList (front ++ inQuotes name)).toList =
      "run".toList ++ ([' '] ++ (front ++ inQuotes name)) := by
    simp only [String.toList_append, String.toList_ofList]
    rfl
  rw [read_eq_ok_iff, hline, htrim]
  exact .run rfl (List.cons_ne_nil ' ' []) isGap_space hstart h

/-- Every line is exactly one request or none: it is accepted as the request whose text it is when
the blanks around it are left out, and refused if it is the text of no request. A macro can be run
by any name without quotation marks, as often as a count can say. -/
theorem read_decides_requests (line : String) :
    (∀ command, read line = .ok command ↔ IsRequest (trim line.toList) command) ∧
    (∀ e, read line = .error e ↔ e = ⟨String.ofList (trim line.toList)⟩ ∧
      ∀ command, ¬ IsRequest (trim line.toList) command) ∧
    (∀ name : String, quote ∉ name.toList →
      read ("run \"" ++ name ++ "\"") = .ok (.run name none) ∧
      ∀ n ≤ mostLoops,
        read ("run loop " ++ Decimal.natText n ++ " \"" ++ name ++ "\"") =
          .ok (.run name (some n))) := by
  refine ⟨fun command => read_eq_ok_iff, fun e => read_eq_error_iff, fun name h => ⟨?_, ?_⟩⟩
  · have hline : "run \"" ++ name ++ "\"" = "run " ++ String.ofList ([] ++ inQuotes name) := by
      rw [← String.toList_inj]
      simp only [String.toList_append, String.toList_ofList]
      rfl
    rw [hline]
    exact read_run (leaves_quote _) (isSelection_inQuotes h)
  · intro n hn
    have hline : "run loop " ++ Decimal.natText n ++ " \"" ++ name ++ "\"" =
        "run " ++ String.ofList (loopText n ++ inQuotes name) := by
      rw [← String.toList_inj]
      simp only [String.toList_append, String.toList_ofList, Decimal.natText, loopText,
        List.append_assoc]
      rfl
    rw [hline]
    refine read_run ?_ (.counted (.named (isLoopCount_loopText hn) (leaves_quote _)
      (isName_quoted h)))
    rintro c ⟨⟩
    rfl

/-- `Run loop 5` names a macro, and so does what follows the largest count of loops. -/
theorem read_decides_requests_loop_name :
    IsRequest "Run loop 5".toList (.run "loop 5" none) ∧ quote ∉ "loop 5".toList ∧
      2147483647 ≤ mostLoops ∧
      read ("run loop " ++ Decimal.natText 2147483647 ++ " \"" ++ "loop 5" ++ "\"") =
        .ok (.run "loop 5" (some 2147483647)) := by
  have hquote : quote ∉ "loop 5".toList := by decide
  have hmost : 2147483647 ≤ mostLoops := by decide
  obtain ⟨hread, -, hnamed⟩ := read_decides_requests " Run loop 5 "
  exact ⟨(hread _).mp (by decide), hquote, hmost, (hnamed "loop 5" hquote).2 2147483647 hmost⟩

/-- A number that is too large for a count belongs to the name. -/
example : read "run LOOP 2147483648 x" = .ok (.run "LOOP 2147483648 x" none) := by
  decide

/-- A count is not given back to the name, if what follows it is no name. -/
example : read "run loop 5 \"x" = .error ⟨"run loop 5 \"x"⟩ := by
  decide

end Lines

end ControlCommand

end CraftLang
