import CraftLang.Proofs.Source.Readers
import Mathlib.Data.List.Nodup

/-!
The grammar of statements. The verbs and the texts of their arguments are a table; a line is read
as a statement exactly if the table has it, as a line for the game if the table does not know its
verb, and as an error at the place where the arguments stop to fit otherwise.
-/

namespace CraftLang

open Text Grammar

theorem Verb.ofName?_eq_none_iff {name : List Char} :
    Verb.ofName? name = none ↔
      ∀ verb, (String.ofList (asciiLower name), verb) ∉ Verb.spellings := by
  rw [Verb.ofName?, List.lookup_eq_none_iff]
  constructor
  · intro h verb hmem
    simpa using h _ hmem
  · rintro h ⟨key, verb⟩ hmem
    refine bne_iff_ne.mpr ?_
    rintro rfl
    exact h verb hmem

/-- No spelling is the one of two verbs. -/
theorem Verb.spellings_injective {key : String} {verb other : Verb}
    (h : (key, verb) ∈ Verb.spellings) (h' : (key, other) ∈ Verb.spellings) : verb = other := by
  have hnodup : (Verb.spellings.map Prod.fst).Nodup := by decide
  exact congrArg Prod.snd (List.inj_on_of_nodup_map hnodup h h' rfl)

theorem Verb.ofName?_eq_some_iff {name : List Char} {verb : Verb} :
    Verb.ofName? name = some verb ↔
      (String.ofList (asciiLower name), verb) ∈ Verb.spellings := by
  constructor
  · intro h
    obtain ⟨before, after, hsplit, -⟩ := List.lookup_eq_some_iff.mp h
    rw [hsplit]
    exact List.mem_append_right _ List.mem_cons_self
  · intro hmem
    cases hfound : Verb.ofName? name with
    | none => exact absurd hmem (Verb.ofName?_eq_none_iff.mp hfound verb)
    | some other =>
        obtain ⟨before, after, hsplit, -⟩ := List.lookup_eq_some_iff.mp hfound
        have hother : (String.ofList (asciiLower name), other) ∈ Verb.spellings := by
          rw [hsplit]
          exact List.mem_append_right _ List.mem_cons_self
        rw [Verb.spellings_injective hmem hother]

namespace Statement

inductive IsStats : List Char → Statement → Prop
  | counts {first second third : List Char} {craftsmanship control cp : Nat}
      (h : Spaced IsCount first craftsmanship) (h' : Spaced IsCount second control)
      (h'' : Spaced IsCount third cp) :
      IsStats (first ++ (second ++ third)) (.requireStats craftsmanship control cp)

end Statement

/-- What may stand after a verb, and the statement that it gives. -/
def Verb.Spells : Verb → List Char → Statement → Prop
  | .action => Given (Spaced IsName) .action
  | .click => Given (Spaced IsArgument) .click
  | .wait => Given (Spaced IsRange) fun delay => .wait delay.1 delay.2
  | .waitAddon => Given (Spaced IsName) .waitAddon
  | .require => Given (Spaced IsName) .require
  | .requireQuality => Given (Spaced IsCount) .requireQuality
  | .requireStats => Statement.IsStats
  | .requireRepair => fun text statement => text = [] ∧ statement = .requireRepair
  | .requireSpiritbond => fun text statement => text = [] ∧ statement = .requireSpiritbond
  | .target => Given (Spaced IsName) .target
  | .send => Given (Spaced IsArgument) .send
  | .loop => Given (Maybe (Spaced IsCount)) .loop
  | .gate => Given (Spaced IsCount) .gate
  | .runMacro => Given (Spaced IsName) .runMacro
  | .item => Given (Spaced IsName) .item
  | .recipe => Given (Spaced IsName) .recipe

namespace Statement

/-! ### Arguments -/

theorem accepts_name : Accepts (required nameArgument) (Spaced IsName) := by
  refine accepts_nameArgument.required fun h => ?_
  cases h with
  | quoted h => exact List.cons_ne_nil _ _
  | bare hquote hvisible =>
      obtain ⟨c, hc, -⟩ := hvisible
      exact List.ne_nil_of_mem hc

theorem accepts_word : Accepts (required argument) (Spaced IsArgument) := by
  refine accepts_argument.required fun h => ?_
  cases h with
  | quoted h => exact List.cons_ne_nil _ _
  | bare hne h => exact hne

theorem accepts_delay : Accepts (required range) (Spaced IsRange) := by
  refine accepts_range.required fun h => ?_
  have hdecimal {text : List Char} {value : Binary64} (h : IsDecimal text value) : text ≠ [] := by
    cases h with
    | whole h => exact h.1
    | point h h' => exact List.append_ne_nil_of_left_ne_nil h.1 _
  cases h with
  | single h => exact hdecimal h
  | pair h h' => exact List.append_ne_nil_of_left_ne_nil (hdecimal h) _

theorem accepts_count : Accepts (required uint) (Spaced IsCount) := by
  refine accepts_uint.required fun h => ?_
  cases h with
  | digits h hsmall => exact h.1

theorem not_isGap_of_count {text : List Char} {value : Nat} (h : Spaced IsCount text value) :
    ¬ IsGap text := by
  cases h with
  | @after gap text _ hne hgap hstart h =>
      cases h with
      | digits h hsmall =>
          intro hall
          cases text with
          | nil => exact h.1 rfl
          | cons c rest =>
              have hc := hall c (List.mem_append_right _ List.mem_cons_self)
              rw [hstart c rfl] at hc
              cases hc

/-- A count is read up to a character that is no digit. -/
theorem required_uint_append {text rest : List Char} {value : Nat} (h : Spaced IsCount text value)
    (hrest : Leaves Char.isDigit rest) : required uint (text ++ rest) = .ok (value, rest) := by
  cases h with
  | after hne hgap hstart h =>
      cases h with
      | digits h hsmall =>
          rw [List.append_assoc, required_append hne hgap (hstart.append h.1)]
          exact uint_append h hsmall hrest

theorem leaves_isDigit_of_count {text rest : List Char} {value : Nat}
    (h : Spaced IsCount text value) : Leaves Char.isDigit (text ++ rest) := by
  cases h with
  | after hne hgap hstart h =>
      rw [List.append_assoc]
      exact hgap.append_leaves hne (by decide) (by decide)

theorem accepts_stats : Accepts stats IsStats where
  sound {cs statement rest} hread := by
    cases hfirst : required uint cs with
    | error m => simp [stats, hfirst, bind, Except.bind] at hread
    | ok found =>
        obtain ⟨craftsmanship, cs₁⟩ := found
        obtain ⟨first, rfl, h⟩ := accepts_count.sound hfirst
        cases hsecond : required uint cs₁ with
        | error m => simp [stats, hfirst, hsecond, bind, Except.bind] at hread
        | ok found =>
            obtain ⟨control, cs₂⟩ := found
            obtain ⟨second, rfl, h'⟩ := accepts_count.sound hsecond
            cases hthird : required uint cs₂ with
            | error m => simp [stats, hfirst, hsecond, hthird, bind, Except.bind] at hread
            | ok found =>
                obtain ⟨cp, cs₃⟩ := found
                obtain ⟨third, rfl, h''⟩ := accepts_count.sound hthird
                simp only [stats, hfirst, hsecond, hthird, bind, Except.bind] at hread
                cases hread
                exact ⟨first ++ (second ++ third), by simp, .counts h h' h''⟩
  complete {text statement tail} htext htail := by
    cases htext with
    | @counts first second third _ _ _ h h' h'' =>
        have hthird := required_uint_append h'' (htail.leaves (by decide) (by decide))
        have hsecond : required uint (second ++ (third ++ tail)) = .ok (_, third ++ tail) :=
          required_uint_append h' (leaves_isDigit_of_count h'')
        have hfirst : required uint (first ++ (second ++ (third ++ tail))) =
            .ok (_, second ++ (third ++ tail)) :=
          required_uint_append h (leaves_isDigit_of_count h')
        refine ⟨tail, ?_, htail⟩
        simp only [List.append_assoc, stats, hfirst, hsecond, hthird, bind, Except.bind]

/-- The arguments of each verb are read as the table spells them. -/
theorem accepts_arguments (verb : Verb) : Accepts (arguments verb) verb.Spells := by
  have hnothing (s : Statement) :
      Accepts (fun cs => .ok (s, cs)) (fun text statement => text = [] ∧ statement = s) :=
    { sound := by
        rintro cs value rest ⟨⟩
        exact ⟨[], rfl, rfl, rfl⟩
      complete := by
        rintro text value tail ⟨rfl, rfl⟩ htail
        exact ⟨tail, rfl, htail⟩ }
  cases verb with
  | action | waitAddon | require | target | runMacro | item | recipe => exact accepts_name.mapped _
  | click | send => exact accepts_word.mapped _
  | wait => exact accepts_delay.mapped fun delay => Statement.wait delay.1 delay.2
  | requireQuality | gate => exact accepts_count.mapped _
  | requireStats => exact accepts_stats
  | requireRepair | requireSpiritbond => exact hnothing _
  | loop => exact (accepts_count.optional not_isGap_of_count).mapped _

theorem orderly_stats : Orderly stats := by
  have horderly : Orderly (required uint) := accepts_uint.orderly failsAtStart_uint
  constructor
  · intro cs statement rest hread
    obtain ⟨text, rfl, -⟩ := accepts_stats.sound hread
    exact List.suffix_append ..
  · intro cs m hread
    cases hfirst : required uint cs with
    | error m' =>
        simp only [stats, hfirst, bind, Except.bind] at hread
        cases hread
        exact horderly.remaining hfirst
    | ok found =>
        obtain ⟨craftsmanship, cs₁⟩ := found
        have hrest := horderly.rest hfirst
        cases hsecond : required uint cs₁ with
        | error m' =>
            simp only [stats, hfirst, hsecond, bind, Except.bind] at hread
            cases hread
            exact (horderly.remaining hsecond).imp_left (·.trans hrest)
        | ok found =>
            obtain ⟨control, cs₂⟩ := found
            have hrest' := (horderly.rest hsecond).trans hrest
            cases hthird : required uint cs₂ with
            | error m' =>
                simp only [stats, hfirst, hsecond, hthird, bind, Except.bind] at hread
                cases hread
                exact (horderly.remaining hthird).imp_left (·.trans hrest')
            | ok found => simp [stats, hfirst, hsecond, hthird, bind, Except.bind] at hread

theorem orderly_arguments (verb : Verb) : Orderly (arguments verb) := by
  have hname : Orderly (required nameArgument) :=
    accepts_nameArgument.orderly failsAtStart_nameArgument
  have hword : Orderly (required argument) := accepts_argument.orderly failsAtStart_argument
  have hdelay : Orderly (required range) := accepts_range.orderly failsAtStart_range
  have hcount : Orderly (required uint) := accepts_uint.orderly failsAtStart_uint
  have hnothing (s : Statement) : Orderly (fun cs => .ok (s, cs)) :=
    { rest := by
        rintro cs value rest ⟨⟩
        exact List.suffix_refl _
      remaining := nofun }
  cases verb with
  | action | waitAddon | require | target | runMacro | item | recipe => exact hname.mapped _
  | click | send => exact hword.mapped _
  | wait => exact hdelay.mapped fun delay => Statement.wait delay.1 delay.2
  | requireQuality | gate => exact hcount.mapped _
  | requireStats => exact orderly_stats
  | requireRepair | requireSpiritbond => exact hnothing _
  | loop => exact hcount.optional.mapped _

/-! ### Lines -/

section Line

variable {name args : List Char}

/-- A verb ends before the first blank, so what stands after it is read as its arguments. -/
theorem read_append (hname : ∀ c ∈ name, isBlank c = false)
    (hargs : ∀ c ∈ args.head?, isBlank c = true) :
    read ('/' :: (name ++ args)) =
      if name = [] then .ok .native
      else
        match Verb.ofName? name with
        | none => .ok .native
        | some verb =>
            (complete (arguments verb) args).mapError
              (describe ('/' :: (name ++ args)) (String.ofList name)) := by
  have hinside : ∀ c ∈ name, (!isBlank c) = true := fun c hc => by simp [hname c hc]
  have hstop : Leaves (!isBlank ·) args := fun c hc => by simp [hargs c hc]
  simp only [read, verb, takeWhile_append hinside hstop, dropWhile_append hinside hstop]
  cases name with
  | nil => rfl
  | cons c name =>
      rw [if_neg (List.cons_ne_nil _ _)]
      simp only [List.isEmpty_cons, Bool.false_eq_true, if_false]
      cases Verb.ofName? (c :: name) with
      | none => rfl
      | some verb =>
          cases hread : complete (arguments verb) args <;> simp only [hread] <;> rfl

theorem exists_verb (cs : List Char) :
    ∃ name args, cs = name ++ args ∧ (∀ c ∈ name, isBlank c = false) ∧
      ∀ c ∈ args.head?, isBlank c = true := by
  refine ⟨cs.takeWhile (!isBlank ·), cs.dropWhile (!isBlank ·),
    (List.takeWhile_append_dropWhile ..).symm, fun c hc => ?_, fun c hc => ?_⟩
  · simpa using of_mem_takeWhile hc
  · simpa using leaves_dropWhile (!isBlank ·) cs c hc

theorem ne_nil_of_mem_spellings {verb : Verb}
    (h : (String.ofList (asciiLower name), verb) ∈ Verb.spellings) : name ≠ [] := by
  rintro rfl
  have hmem : "" ∈ Verb.spellings.map Prod.fst := List.mem_map_of_mem (f := Prod.fst) h
  exact absurd hmem (by decide)

theorem read_of_mem_spellings (hname : ∀ c ∈ name, isBlank c = false)
    (hargs : ∀ c ∈ args.head?, isBlank c = true) {verb : Verb}
    (h : (String.ofList (asciiLower name), verb) ∈ Verb.spellings) :
    read ('/' :: (name ++ args)) =
      (complete (arguments verb) args).mapError
        (describe ('/' :: (name ++ args)) (String.ofList name)) := by
  rw [read_append hname hargs, if_neg (ne_nil_of_mem_spellings h),
    Verb.ofName?_eq_some_iff.mpr h]

theorem read_eq_ok_iff (hname : ∀ c ∈ name, isBlank c = false)
    (hargs : ∀ c ∈ args.head?, isBlank c = true) {verb : Verb}
    (h : (String.ofList (asciiLower name), verb) ∈ Verb.spellings) {statement : Statement} :
    read ('/' :: (name ++ args)) = .ok statement ↔ Fits verb.Spells args statement := by
  rw [read_of_mem_spellings hname hargs h, ← (accepts_arguments verb).complete_iff]
  cases complete (arguments verb) args with
  | error m => exact ⟨nofun, nofun⟩
  | ok found => simp [Except.mapError]

/-- No verb of the table spells a line for the game. -/
theorem not_fits_native (verb : Verb) (cs : List Char) : ¬ Fits verb.Spells cs .native := by
  rintro ⟨text, tail, -, -, h⟩
  cases verb with
  | requireRepair | requireSpiritbond => cases h.2
  | _ => cases h

theorem read_eq_native_iff (hname : ∀ c ∈ name, isBlank c = false)
    (hargs : ∀ c ∈ args.head?, isBlank c = true) :
    read ('/' :: (name ++ args)) = .ok .native ↔
      name = [] ∨ ∀ verb, (String.ofList (asciiLower name), verb) ∉ Verb.spellings := by
  constructor
  · intro hread
    by_contra hknown
    rw [not_or, not_forall] at hknown
    obtain ⟨-, verb, hmem⟩ := hknown
    rw [not_not] at hmem
    exact not_fits_native verb args ((read_eq_ok_iff hname hargs hmem).mp hread)
  · rintro (rfl | hunknown)
    · rw [read_append hname hargs, if_pos rfl]
    · rw [read_append hname hargs, Verb.ofName?_eq_none_iff.mpr hunknown]
      exact ite_self _

/-- A line with a verb is wrong at a place in its arguments, and not before a gap. -/
theorem read_append_error (hname : ∀ c ∈ name, isBlank c = false)
    (hargs : ∀ c ∈ args.head?, isBlank c = true) {e : Error}
    (h : read ('/' :: (name ++ args)) = .error e) :
    ∃ taken rest, args = taken ++ rest ∧ Leaves isSpace rest ∧
      e.offset = byteLength ('/' :: (name ++ taken)) := by
  rw [read_append hname hargs] at h
  split at h
  · cases h
  · split at h
    · cases h
    · next verb _ =>
        cases hread : complete (arguments verb) args with
        | ok statement =>
            rw [hread] at h
            cases h
        | error m =>
            rw [hread] at h
            cases h
            obtain ⟨⟨taken, htaken⟩, hstop⟩ := (orderly_arguments verb).complete hread
            refine ⟨taken, m.remaining, htaken.symm, hstop, ?_⟩
            have hoffset : (describe ('/' :: (name ++ args)) (String.ofList name) m).offset =
                byteLength ('/' :: (name ++ args)) - byteLength m.remaining := by
              unfold describe
              split
              · rfl
              · simp only
                split <;> rfl
            rw [hoffset, ← htaken]
            simp only [byteLength_cons, byteLength_append]
            omega

theorem read_of_head?_ne {line : List Char} (h : line.head? ≠ some '/') :
    read line = .error ⟨.noSlash, 0⟩ := by
  unfold read
  split
  · exact absurd rfl h
  · rfl

end Line

/-- The grammar of statements. A line is wrong from its start if and only if it has no slash there.
After a slash stands the verb, up to the first blank: if it is no spelling of the table, in any case
of its letters, the line is for the game; if it is one, the line is a statement exactly when its
arguments are spelled as the table says, up to the spaces and tabs at the end, and that statement
has the arguments. All else is an error at a character of the arguments, or at the end. -/
theorem read_grammar (line : List Char) :
    ((∃ e, read line = .error e ∧ e.offset = 0) ↔ line.head? ≠ some '/') ∧
    ∀ name args, line = '/' :: (name ++ args) → (∀ c ∈ name, isBlank c = false) →
      (∀ c ∈ args.head?, isBlank c = true) →
      (read line = .ok .native ↔
        name = [] ∨ ∀ verb, (String.ofList (asciiLower name), verb) ∉ Verb.spellings) ∧
      (∀ verb, (String.ofList (asciiLower name), verb) ∈ Verb.spellings →
        ∀ statement, read line = .ok statement ↔ Fits verb.Spells args statement) ∧
      ∀ e, read line = .error e →
        ∃ taken rest, args = taken ++ rest ∧ Leaves isSpace rest ∧
          e.offset = byteLength ('/' :: (name ++ taken)) := by
  refine ⟨⟨?_, fun h => ⟨_, read_of_head?_ne h, rfl⟩⟩, ?_⟩
  · rintro ⟨e, hread, hzero⟩ hslash
    obtain ⟨cs, rfl⟩ : ∃ cs, line = '/' :: cs := by
      cases line with
      | nil => cases hslash
      | cons c cs => exact ⟨cs, by rw [Option.some.inj hslash]⟩
    obtain ⟨name, args, rfl, hname, hargs⟩ := exists_verb cs
    obtain ⟨taken, rest, -, -, hoffset⟩ := read_append_error hname hargs hread
    have hpos : 0 < '/'.utf8Size := Char.utf8Size_pos _
    rw [hzero, byteLength_cons] at hoffset
    omega
  · rintro name args rfl hname hargs
    exact ⟨read_eq_native_iff hname hargs,
      fun verb hmem statement => read_eq_ok_iff hname hargs hmem,
      fun e => read_append_error hname hargs⟩

/-- A delay between two bounds after a gap, and the same with nothing after the hyphen. -/
theorem read_grammar_wait :
    read "/Wait \t1.5-2 ".toList =
      .ok (.wait (Decimal.valueOf ['1'] ['5']) (some (Decimal.valueOf ['2'] []))) ∧
    ∃ e, read "/Wait \t1.5- ".toList = .error e ∧ e.offset = 10 := by
  have hname : ∀ c ∈ "Wait".toList, isBlank c = false := by simp [isBlank]
  have hmem : (String.ofList (asciiLower "Wait".toList), Verb.wait) ∈ Verb.spellings := by decide
  obtain ⟨-, hread⟩ := read_grammar "/Wait \t1.5-2 ".toList
  obtain ⟨-, hwait, -⟩ := hread "Wait".toList " \t1.5-2 ".toList rfl hname
    (by simp [isBlank])
  have hdigits (c : Char) (h : c.isDigit = true) : IsDigits [c] := ⟨by simp, by simpa using h⟩
  have hbounds : IsRange "1.5-2".toList
      (Decimal.valueOf ['1'] ['5'], some (Decimal.valueOf ['2'] [])) :=
    .pair (.point (hdigits '1' (by decide)) (hdigits '5' (by decide)))
      (.whole (hdigits '2' (by decide)))
  have hgap : IsGap " \t".toList := by simp [IsGap, isSpace]
  have hleaves : Leaves isSpace "1.5-2".toList := by simp [Leaves, isSpace]
  have hspaced : Spaced IsRange " \t1.5-2".toList
      (Decimal.valueOf ['1'] ['5'], some (Decimal.valueOf ['2'] [])) :=
    .after (by decide) hgap hleaves hbounds
  have htail : IsGap [' '] := by simp [IsGap, isSpace]
  exact ⟨(hwait .wait hmem _).mpr ⟨_, [' '], rfl, htail, .value hspaced⟩, _, by rfl, by rfl⟩

end Statement

end CraftLang
