import CraftLang.Modifier.Token
import CraftLang.Proofs.Source.Readers

/-!
How tokens are spelled. Between the brackets of a token there is no blank, no quotation mark and no
other bracket, and what a token says depends on the text between its brackets alone, not on what
comes after them. The first letter tells the kind.
-/

namespace CraftLang.Modifier

open Text Grammar

/-! ### Characters between the brackets -/

structure IsInner (c : Char) : Prop where
  visible : isBlank c = false
  ne_quote : c ≠ quote
  ne_open : c ≠ '<'
  ne_close : c ≠ '>'

instance (c : Char) : Decidable (IsInner c) :=
  decidable_of_iff (isBlank c = false ∧ c ≠ quote ∧ c ≠ '<' ∧ c ≠ '>')
    ⟨fun ⟨h, h', h'', h'''⟩ => ⟨h, h', h'', h'''⟩, fun ⟨h, h', h'', h'''⟩ => ⟨h, h', h'', h'''⟩⟩

theorem isBlank_of_isDecimalDigit {c : Char} (h : isDecimalDigit c = true) : isBlank c = false := by
  obtain ⟨r, hr, hlow, hhigh⟩ := inRanges_iff.mp h
  -- The digits lie in four stretches between the blanks.
  have hstretch : ∀ r ∈ decimalDigitRanges, (0x30 ≤ r.1 ∧ r.2 ≤ 0x39) ∨
      (0x660 ≤ r.1 ∧ r.2 ≤ 0x1099) ∨ (0x17E0 ≤ r.1 ∧ r.2 ≤ 0x1C59) ∨ 0xA620 ≤ r.1 := by
    decide
  have hplace := hstretch r hr
  simp [isBlank]
  omega

theorem isInner_of_isDecimalDigit {c : Char} (h : isDecimalDigit c = true) : IsInner c := by
  have hne {d : Char} (hd : isDecimalDigit d = false) : c ≠ d := by
    rintro rfl
    rw [hd] at h
    cases h
  exact ⟨isBlank_of_isDecimalDigit h, hne (by decide), hne (by decide), hne (by decide)⟩

theorem isInner_of_letter {c : Char} (hlow : 65 ≤ c.toNat) (hhigh : c.toNat ≤ 122) :
    IsInner c := by
  have hne {d : Char} (hd : d.toNat < 65) : c ≠ d := by
    rintro rfl
    omega
  refine ⟨?_, hne (by decide), hne (by decide), hne (by decide)⟩
  simp [isBlank]
  omega

theorem isInner_of_folds {letter c : Char} (hletter : IsInner letter) (h : folds letter c = true) :
    IsInner c := by
  simp only [folds, Bool.or_eq_true, Bool.and_eq_true, beq_iff_eq] at h
  obtain (hlower | ⟨-, rfl⟩) | ⟨-, rfl⟩ := h
  · delta Char.toLower at hlower
    split at hlower
    · next hupper =>
        have hlow : 65 ≤ c.toNat := hupper.1
        have hhigh : c.toNat ≤ 90 := hupper.2
        exact isInner_of_letter hlow (by omega)
    · exact hlower ▸ hletter
  · decide
  · decide

theorem isInner_of_isConditionLetter {c : Char} (h : isConditionLetter c = true) : IsInner c := by
  simp only [isConditionLetter, Bool.or_eq_true, beq_iff_eq] at h
  obtain ((halpha | rfl) | rfl) | rfl := h
  · delta Char.isAlpha Char.isUpper Char.isLower at halpha
    simp only [Bool.or_eq_true, Bool.and_eq_true, decide_eq_true_eq, ge_iff_le,
      UInt32.le_iff_toNat_le] at halpha
    rcases halpha with ⟨hlow, hhigh⟩ | ⟨hlow, hhigh⟩
    · have hlow : 65 ≤ c.toNat := hlow
      have hhigh : c.toNat ≤ 90 := hhigh
      exact isInner_of_letter hlow (by omega)
    · have hlow : 97 ≤ c.toNat := hlow
      have hhigh : c.toNat ≤ 122 := hhigh
      exact isInner_of_letter (by omega) hhigh
  · decide
  · decide
  · decide

/-! ### Readers of what stands between the brackets -/

section Readers

variable {cs rest : List Char} {p : Char → Bool}

/-- A span of characters goes as far whatever comes after the character that ends it. -/
theorem dropWhile_eq_cons {c : Char} (h : cs.dropWhile p = c :: rest) :
    cs = cs.takeWhile p ++ c :: rest ∧ p c = false ∧ ∀ rest',
      (cs.takeWhile p ++ c :: rest').takeWhile p = cs.takeWhile p ∧
        (cs.takeWhile p ++ c :: rest').dropWhile p = c :: rest' := by
  have hsplit := (List.takeWhile_append_dropWhile (p := p) (l := cs)).symm
  have hend : p c = false := leaves_dropWhile p cs c (by rw [h]; rfl)
  rw [h] at hsplit
  refine ⟨hsplit, hend, fun rest' => ?_⟩
  have hleaves : Leaves p (c :: rest') := by
    rintro d ⟨⟩
    exact hend
  exact ⟨takeWhile_append (fun _ => of_mem_takeWhile) hleaves,
    dropWhile_append (fun _ => of_mem_takeWhile) hleaves⟩

theorem toLower_of_folds {letter c : Char} (hs : letter ≠ 's') (hk : letter ≠ 'k')
    (h : folds letter c = true) : c.toLower = letter := by
  simpa [folds, hs, hk] using h

/-- Two words with different first letters are not read from one text. -/
theorem literal?_of_other {cs after letters letters' : List Char} {l l' : Char}
    (hne : l ≠ l' ∧ l ≠ 's' ∧ l ≠ 'k' ∧ l' ≠ 's' ∧ l' ≠ 'k')
    (h : literal? (l :: letters) cs = some after) : literal? (l' :: letters') cs = none := by
  obtain ⟨hne, hs, hk, hs', hk'⟩ := hne
  cases cs with
  | nil => cases h
  | cons c cs =>
      rw [literal?] at h ⊢
      split at h
      · next hfolds =>
          rw [if_neg]
          intro hfolds'
          exact hne ((toLower_of_folds hs hk hfolds).symm.trans (toLower_of_folds hs' hk' hfolds'))
      · cases h

theorem literal?_eq_some {letters : List Char} (h : literal? letters cs = some rest)
    (hletters : letters.all (IsInner ·) = true) :
    ∃ span, cs = span ++ rest ∧ (∀ c ∈ span, IsInner c) ∧
      ∀ rest', literal? letters (span ++ rest') = some rest' := by
  induction letters generalizing cs with
  | nil =>
      cases h
      exact ⟨[], rfl, nofun, fun _ => rfl⟩
  | cons l letters ih =>
      cases cs with
      | nil => cases h
      | cons c cs =>
          rw [literal?] at h
          split at h
          · next hfolds =>
              rw [List.all_cons, Bool.and_eq_true, decide_eq_true_eq] at hletters
              obtain ⟨hl, hothers⟩ := hletters
              obtain ⟨span, rfl, hspan, hread⟩ := ih h hothers
              refine ⟨c :: span, rfl, List.forall_mem_cons.mpr ⟨isInner_of_folds hl hfolds, hspan⟩,
                fun rest' => ?_⟩
              rw [List.cons_append, literal?, if_pos hfolds, hread]
          · cases h

theorem numeral?_eq_some {n : Numeral} {c : Char} (h : numeral? cs = some (n, c :: rest))
    (hc : c ≠ '.') :
    ∃ span, cs = span ++ c :: rest ∧ (∀ d ∈ span, IsInner d) ∧
      ∀ rest', numeral? (span ++ c :: rest') = some (n, c :: rest') := by
  have hdigits {ds : List Char} : ∀ d ∈ ds.takeWhile isDecimalDigit, IsInner d :=
    fun d hd => isInner_of_isDecimalDigit (of_mem_takeWhile hd)
  simp only [numeral?] at h
  split at h
  · cases h
  · next hwhole =>
      split at h
      · next more hdrop =>
          obtain ⟨hcs, -, hfirst⟩ := dropWhile_eq_cons hdrop
          split at h
          · -- A point without digits after it is not part of the numeral.
            rw [hdrop] at h
            cases h
            exact absurd rfl hc
          · next hfraction =>
              obtain ⟨rfl, hmore⟩ := Prod.mk.inj (Option.some.inj h)
              obtain ⟨hsplit, -, hsecond⟩ := dropWhile_eq_cons hmore
              refine ⟨cs.takeWhile isDecimalDigit ++ '.' :: more.takeWhile isDecimalDigit, ?_, ?_,
                ?_⟩
              · rw [List.append_assoc, List.cons_append, ← hsplit, ← hcs]
              · simp only [List.forall_mem_append, List.forall_mem_cons]
                exact ⟨hdigits, by decide, hdigits⟩
              · intro rest'
                rw [List.append_assoc, List.cons_append]
                simp only [numeral?, (hfirst _).1, (hfirst _).2, (hsecond _).1, (hsecond _).2,
                  hwhole, hfraction, Bool.false_eq_true, if_false]
      · next hpoint =>
          obtain ⟨rfl, hdrop⟩ := Prod.mk.inj (Option.some.inj h)
          obtain ⟨hcs, -, hread⟩ := dropWhile_eq_cons hdrop
          refine ⟨cs.takeWhile isDecimalDigit, hcs, hdigits, fun rest' => ?_⟩
          simp only [numeral?, (hread _).1, (hread _).2, hwhole, Bool.false_eq_true, if_false]
          split
          · next heq => exact absurd (List.cons.inj heq).1 hc
          · rfl

theorem conditions?_eq_some {names : List String} {c : Char}
    (h : conditions? cs = some (names, c :: rest)) :
    ∃ span, cs = span ++ c :: rest ∧ (∀ d ∈ span, IsInner d) ∧
      ∀ rest', conditions? (span ++ c :: rest') = some (names, c :: rest') := by
  simp only [conditions?] at h
  split at h
  · next hnames =>
      obtain ⟨rfl, hdrop⟩ := Prod.mk.inj (Option.some.inj h)
      obtain ⟨hcs, -, hread⟩ := dropWhile_eq_cons hdrop
      refine ⟨_, hcs, fun d hd => ?_, fun rest' => ?_⟩
      · have hd := of_mem_takeWhile hd
        simp only [Bool.or_eq_true, beq_iff_eq] at hd
        rcases hd with hletter | rfl
        · exact isInner_of_isConditionLetter hletter
        · decide
      · simp only [conditions?, (hread _).1, (hread _).2, hnames, if_true]
  · cases h

end Readers

/-! ### Tokens -/

section Tokens

variable {kind other : Kind} {cs rest inner : List Char} {token : Token}

/-- The text between the brackets of a token. It is read in the same way whatever comes after the
brackets. -/
structure IsBody (kind : Kind) (inner : List Char) (token : Token) : Prop where
  chars : ∀ c ∈ inner, IsInner c
  read (rest : List Char) : body? kind (inner ++ '>' :: rest) = some (token, '>' :: rest)

theorem exists_wait_body (h : body? .wait cs = some (token, '>' :: rest)) :
    ∃ inner, cs = inner ++ '>' :: rest ∧ IsBody .wait inner token := by
  simp only [body?, Option.bind_eq_bind, Option.bind_eq_some_iff, Option.pure_def] at h
  obtain ⟨afterName, hletters, ⟨seconds, afterSeconds⟩, hseconds, h⟩ := h
  obtain ⟨name, rfl, hname, hreadName⟩ := literal?_eq_some hletters (by decide)
  split at h
  · next more hmore =>
      obtain rfl : afterSeconds = '-' :: more := hmore
      obtain ⟨⟨limit, afterLimit⟩, hlimit, h⟩ := Option.bind_eq_some_iff.mp h
      obtain ⟨rfl, rfl⟩ := Prod.mk.inj (Option.some.inj h)
      obtain ⟨first, rfl, hfirst, hreadFirst⟩ := numeral?_eq_some hseconds (by decide)
      obtain ⟨second, rfl, hsecond, hreadSecond⟩ := numeral?_eq_some hlimit (by decide)
      refine ⟨name ++ (first ++ '-' :: second), by simp, ?_, fun rest' => ?_⟩
      · simp only [List.forall_mem_append, List.forall_mem_cons]
        exact ⟨hname, hfirst, by decide, hsecond⟩
      · simp only [List.append_assoc, List.cons_append, body?, hreadName, hreadFirst, hreadSecond,
          Option.bind_eq_bind, Option.bind_some, Option.pure_def]
  · next hsingle =>
      obtain ⟨rfl, rfl⟩ := Prod.mk.inj (Option.some.inj h)
      obtain ⟨first, rfl, hfirst, hreadFirst⟩ := numeral?_eq_some hseconds (by decide)
      refine ⟨name ++ first, by simp, ?_, fun rest' => ?_⟩
      · simp only [List.forall_mem_append]
        exact ⟨hname, hfirst⟩
      · simp only [List.append_assoc, body?, hreadName, hreadFirst, Option.bind_eq_bind,
          Option.bind_some, Option.pure_def]
        rfl

/-- A body that is nothing but a word. -/
theorem exists_word_body {letters : List Char} (hletters : letters.all (IsInner ·) = true)
    (hword : ∀ cs after, literal? letters cs = some after → body? kind cs = some (token, after))
    (h : literal? letters cs = some ('>' :: rest)) :
    ∃ inner, cs = inner ++ '>' :: rest ∧ IsBody kind inner token := by
  obtain ⟨span, rfl, hspan, hread⟩ := literal?_eq_some h hletters
  exact ⟨span, rfl, hspan, fun rest' => hword _ _ (hread _)⟩

theorem exists_body (h : body? kind cs = some (token, '>' :: rest)) :
    ∃ inner, cs = inner ++ '>' :: rest ∧ IsBody kind inner token := by
  cases kind with
  | wait => exact exists_wait_body h
  | maxWait =>
      simp only [body?, Option.bind_eq_bind, Option.bind_eq_some_iff, Option.pure_def] at h
      obtain ⟨afterName, hletters, ⟨seconds, afterSeconds⟩, hseconds, h⟩ := h
      obtain ⟨rfl, rfl⟩ := Prod.mk.inj (Option.some.inj h)
      obtain ⟨name, rfl, hname, hreadName⟩ := literal?_eq_some hletters (by decide)
      obtain ⟨first, rfl, hfirst, hreadFirst⟩ := numeral?_eq_some hseconds (by decide)
      refine ⟨name ++ first, by simp, ?_, fun rest' => ?_⟩
      · simp only [List.forall_mem_append]
        exact ⟨hname, hfirst⟩
      · simp only [List.append_assoc, body?, hreadName, hreadFirst, Option.bind_eq_bind,
          Option.bind_some, Option.pure_def]
  | unconfirmed =>
      obtain ⟨after, hword, heq⟩ := Option.map_eq_some_iff.mp h
      obtain ⟨rfl, rfl⟩ := Prod.mk.inj heq
      exact exists_word_body (by decide) (fun cs after hcs => by rw [body?, hcs]; rfl) hword
  | echo =>
      obtain ⟨after, hword, heq⟩ := Option.map_eq_some_iff.mp h
      obtain ⟨rfl, rfl⟩ := Prod.mk.inj heq
      exact exists_word_body (by decide) (fun cs after hcs => by rw [body?, hcs]; rfl) hword
  | index =>
      simp only [body?, Option.bind_eq_bind, Option.bind_eq_some_iff, Option.pure_def] at h
      obtain ⟨afterName, hletters, h⟩ := h
      split at h
      · cases h
      · next hdigits =>
          obtain ⟨rfl, hdrop⟩ := Prod.mk.inj (Option.some.inj h)
          obtain ⟨name, rfl, hname, hreadName⟩ := literal?_eq_some hletters (by decide)
          obtain ⟨hsplit, -, hread⟩ := dropWhile_eq_cons hdrop
          refine ⟨name ++ afterName.takeWhile isDecimalDigit, ?_, ?_, fun rest' => ?_⟩
          · rw [List.append_assoc, ← hsplit]
          · simp only [List.forall_mem_append]
            exact ⟨hname, fun d hd => isInner_of_isDecimalDigit (of_mem_takeWhile hd)⟩
          · simp only [List.append_assoc, body?, hreadName, Option.bind_eq_bind, Option.bind_some,
              (hread _).1, (hread _).2, hdigits, Bool.false_eq_true, if_false, Option.pure_def]
  | quality =>
      rw [body?] at h
      split at h
      · next after hword =>
          obtain ⟨rfl, rfl⟩ := Prod.mk.inj (Option.some.inj h)
          exact exists_word_body (by decide) (fun cs after hcs => by simp only [body?, hcs]) hword
      · next hnone =>
          obtain ⟨after, hword, heq⟩ := Option.map_eq_some_iff.mp h
          obtain ⟨rfl, rfl⟩ := Prod.mk.inj heq
          refine exists_word_body (by decide) (fun cs after hcs => ?_) hword
          have hother : literal? ['h', 'q'] cs = none := literal?_of_other (by decide) hcs
          simp only [body?, hother, hcs, Option.map_some]
  | condition =>
      simp only [body?, Option.bind_eq_bind, Option.bind_eq_some_iff, Option.pure_def] at h
      obtain ⟨afterName, hletters, ⟨names, afterNames⟩, hnames, h⟩ := h
      obtain ⟨name, rfl, hname, hreadName⟩ := literal?_eq_some hletters (by decide)
      obtain ⟨rfl, rfl⟩ := Prod.mk.inj (Option.some.inj h)
      split at hnames
      · next more =>
          obtain ⟨list, rfl, hlist, hreadList⟩ := conditions?_eq_some hnames
          refine ⟨name ++ '!' :: list, by simp, ?_, fun rest' => ?_⟩
          · simp only [List.forall_mem_append, List.forall_mem_cons]
            exact ⟨hname, by decide, hlist⟩
          · simp only [List.append_assoc, List.cons_append, body?, hreadName, hreadList,
              Option.bind_eq_bind, Option.bind_some, Option.pure_def]
      · next hnot =>
          obtain ⟨list, rfl, hlist, hreadList⟩ := conditions?_eq_some hnames
          refine ⟨name ++ list, by simp, ?_, fun rest' => ?_⟩
          · simp only [List.forall_mem_append]
            exact ⟨hname, hlist⟩
          · have hfirst : ∀ more, list ++ '>' :: rest' ≠ '!' :: more := by
              intro more heq
              cases list with
              | nil => cases heq
              | cons d list => exact hnot _ (congrArg (· :: _) (List.cons.inj heq).1)
            simp only [List.append_assoc, body?, hreadName, hreadList, Option.bind_eq_bind,
              Option.bind_some, Option.pure_def]

/-- The kind of the tokens that begin with a letter, after the bracket. -/
def Kind.ofInitial? (c : Char) : Option Kind :=
  match c.toLower with
  | 'w' => some .wait
  | 'm' => some .maxWait
  | 'u' => some .unconfirmed
  | 'e' => some .echo
  | 'i' => some .index
  | 'h' | 'n' => some .quality
  | 'c' => some .condition
  | _ => none

theorem ofInitial?_of_literal {l : Char} {letters after : List Char} (hs : l ≠ 's') (hk : l ≠ 'k')
    (hlower : l.toLower = l) (h : literal? (l :: letters) cs = some after) :
    ∃ c ∈ cs.head?, Kind.ofInitial? c = Kind.ofInitial? l := by
  cases cs with
  | nil => cases h
  | cons c cs =>
      rw [literal?] at h
      split at h
      · next hfolds =>
          refine ⟨c, rfl, ?_⟩
          rw [Kind.ofInitial?, Kind.ofInitial?, toLower_of_folds hs hk hfolds, hlower]
      · cases h

/-- The first letter of a body tells its kind. -/
theorem ofInitial?_of_body (h : body? kind cs = some (token, rest)) :
    ∃ c ∈ cs.head?, Kind.ofInitial? c = some kind := by
  cases kind <;> simp only [body?, Option.bind_eq_bind, Option.bind_eq_some_iff,
    Option.map_eq_some_iff] at h
  case quality =>
      split at h
      · next hword => exact ofInitial?_of_literal (by decide) (by decide) (by decide) hword
      · obtain ⟨_, hword, -⟩ := Option.map_eq_some_iff.mp h
        exact ofInitial?_of_literal (by decide) (by decide) (by decide) hword
  all_goals
    obtain ⟨_, hword, -⟩ := h
    exact ofInitial?_of_literal (by decide) (by decide) (by decide) hword

theorem kind_of_body (h : body? kind cs = some (token, rest)) : token.kind = kind := by
  cases kind <;> simp only [body?, Option.bind_eq_bind, Option.bind_eq_some_iff,
    Option.map_eq_some_iff, Option.pure_def] at h
  case wait =>
      obtain ⟨_, -, _, -, h⟩ := h
      split at h
      · obtain ⟨_, -, h⟩ := Option.bind_eq_some_iff.mp h
        obtain ⟨rfl, -⟩ := Prod.mk.inj (Option.some.inj h)
        rfl
      · obtain ⟨rfl, -⟩ := Prod.mk.inj (Option.some.inj h)
        rfl
  case maxWait =>
      obtain ⟨_, -, _, -, h⟩ := h
      obtain ⟨rfl, -⟩ := Prod.mk.inj (Option.some.inj h)
      rfl
  case unconfirmed =>
      obtain ⟨_, -, h⟩ := h
      obtain ⟨rfl, -⟩ := Prod.mk.inj h
      rfl
  case echo =>
      obtain ⟨_, -, h⟩ := h
      obtain ⟨rfl, -⟩ := Prod.mk.inj h
      rfl
  case index =>
      obtain ⟨_, -, h⟩ := h
      split at h
      · cases h
      · obtain ⟨rfl, -⟩ := Prod.mk.inj (Option.some.inj h)
        rfl
  case quality =>
      split at h
      · obtain ⟨rfl, -⟩ := Prod.mk.inj (Option.some.inj h)
        rfl
      · obtain ⟨_, -, h⟩ := Option.map_eq_some_iff.mp h
        obtain ⟨rfl, -⟩ := Prod.mk.inj h
        rfl
  case condition =>
      obtain ⟨_, -, _, -, h⟩ := h
      obtain ⟨rfl, -⟩ := Prod.mk.inj (Option.some.inj h)
      rfl

def Spells (kind : Kind) (text : List Char) (token : Token) : Prop :=
  token? kind text = some (token, [])

theorem exists_body_of_token (h : token? kind cs = some (token, rest)) :
    ∃ inner, cs = '<' :: (inner ++ '>' :: rest) ∧ IsBody kind inner token := by
  unfold token? at h
  split at h
  · next cs =>
      split at h
      · next after hbody =>
          cases h
          obtain ⟨inner, rfl, hinner⟩ := exists_body hbody
          exact ⟨inner, rfl, hinner⟩
      · cases h
  · cases h

theorem IsBody.token?_eq (h : IsBody kind inner token) (rest : List Char) :
    token? kind ('<' :: (inner ++ '>' :: rest)) = some (token, rest) := by
  simp only [token?, h.read]

theorem spells_iff {text : List Char} :
    Spells kind text token ↔ ∃ inner, text = '<' :: (inner ++ ['>']) ∧ IsBody kind inner token := by
  constructor
  · exact exists_body_of_token
  · rintro ⟨inner, rfl, h⟩
    exact h.token?_eq []

/-- A token at the start of a text is a part of the text, and does not depend on what follows. -/
theorem token?_eq_some_iff :
    token? kind cs = some (token, rest) ↔ ∃ text, cs = text ++ rest ∧ Spells kind text token := by
  constructor
  · intro h
    obtain ⟨inner, rfl, hinner⟩ := exists_body_of_token h
    exact ⟨'<' :: (inner ++ ['>']), by simp, spells_iff.mpr ⟨inner, rfl, hinner⟩⟩
  · rintro ⟨text, rfl, h⟩
    obtain ⟨inner, rfl, hinner⟩ := spells_iff.mp h
    rw [List.cons_append, List.append_assoc, List.singleton_append]
    exact hinner.token?_eq rest

theorem Spells.kind_token {text : List Char} (h : Spells kind text token) : token.kind = kind := by
  obtain ⟨inner, -, hinner⟩ := spells_iff.mp h
  exact kind_of_body (hinner.read [])

/-- Of two tokens that begin two texts which are the same, each is the other. -/
theorem Spells.unique {text text' rest' : List Char} {token' : Token} (h : Spells kind text token)
    (h' : Spells other text' token') (heq : text ++ rest = text' ++ rest') :
    text = text' ∧ kind = other ∧ token = token' := by
  obtain ⟨inner, rfl, hinner⟩ := spells_iff.mp h
  obtain ⟨inner', rfl, hinner'⟩ := spells_iff.mp h'
  simp only [List.cons_append, List.append_assoc, List.cons.injEq, true_and, List.nil_append] at heq
  -- Neither body has the bracket that ends it.
  have hclose {inner : List Char} {kind : Kind} {token : Token} (h : IsBody kind inner token) :
      ∀ c ∈ inner, (c != '>') = true := fun c hc => bne_iff_ne.mpr (h.chars c hc).ne_close
  have hbodies := congrArg (List.takeWhile (· != '>')) heq
  rw [takeWhile_append (hclose hinner) (by simp [Leaves]),
    takeWhile_append (hclose hinner') (by simp [Leaves])] at hbodies
  obtain rfl := hbodies
  obtain ⟨c, hc, hkind⟩ := ofInitial?_of_body (hinner.read [])
  obtain ⟨c', hc', hother⟩ := ofInitial?_of_body (hinner'.read [])
  obtain rfl := Option.some.inj (hc.symm.trans hc')
  obtain rfl := Option.some.inj (hkind.symm.trans hother)
  have hread := (hinner.read []).symm.trans (hinner'.read [])
  exact ⟨rfl, rfl, (Prod.mk.inj (Option.some.inj hread)).1⟩

end Tokens

end CraftLang.Modifier
