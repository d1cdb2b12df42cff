import CraftLang.Modifier.Extract

/-!
Lines with no modifier, and lines with one at the end. Where nothing opens a bracket there is no
token of any kind. A bracket after text that closes its quotes is a token of at most one kind, and
what is taken of the line is then just that token.
-/

namespace CraftLang.Modifier

open Text

variable {kind : Kind} {front cs : List Char}

theorem token?_of_ne {c : Char} (h : c ≠ '<') (cs : List Char) : token? kind (c :: cs) = none := by
  unfold token?
  split
  · next heq => exact absurd (List.cons.inj heq).1 h
  · rfl

/-- Whether a quoted argument is open after the text, if one is open before it or not. -/
def quotesOpen (odd : Bool) (cs : List Char) : Bool :=
  cs.foldl (fun odd c => odd != (c == Grammar.quote)) odd

theorem quotesOpen_append (odd : Bool) (front cs : List Char) :
    quotesOpen odd (front ++ cs) = quotesOpen (quotesOpen odd front) cs :=
  List.foldl_append

theorem quotesOpen_of_not_mem (h : Grammar.quote ∉ cs) (odd : Bool) : quotesOpen odd cs = odd := by
  induction cs generalizing odd with
  | nil => rfl
  | cons c cs ih =>
      rw [List.mem_cons, not_or] at h
      have hc : (c == Grammar.quote) = false := beq_eq_false_iff_ne.mpr (Ne.symm h.1)
      rw [quotesOpen, List.foldl_cons, hc, Bool.bne_false]
      exact ih h.2 odd

/-- Text without a bracket has no tokens, and moves those after it to the right. -/
theorem occurrencesFrom_append (h : '<' ∉ front) (odd : Bool) (cs : List Char) :
    occurrencesFrom kind odd (front ++ cs) =
      (occurrencesFrom kind (quotesOpen odd front) cs).map
        fun o => { o with position := o.position + front.length } := by
  induction front generalizing odd with
  | nil => exact (List.map_id _).symm
  | cons c front ih =>
      rw [List.mem_cons, not_or] at h
      have hlater := congrArg (List.map (·.shift)) (ih h.2 (odd != (c == Grammar.quote)))
      rw [List.map_map] at hlater
      rw [List.cons_append, occurrencesFrom, token?_of_ne (Ne.symm h.1), ite_self, hlater]
      rfl

theorem occurrencesFrom_of_not_mem (h : '<' ∉ cs) (odd : Bool) :
    occurrencesFrom kind odd cs = [] := by
  simpa [occurrencesFrom] using occurrencesFrom_append h odd []

/-- A token at the end of a line, after text that closes its quotes. -/
theorem occurrencesFrom_of_token {rest : List Char} (hfront : '<' ∉ front)
    (hclosed : quotesOpen false front = false) (hrest : '<' ∉ rest) :
    occurrencesFrom kind false (front ++ '<' :: rest) =
      match token? kind ('<' :: rest) with
      | some (token, after) => [⟨front.length, ('<' :: rest).length - after.length, token⟩]
      | none => [] := by
  rw [occurrencesFrom_append hfront, hclosed, occurrencesFrom, occurrencesFrom_of_not_mem hrest]
  cases token? kind ('<' :: rest) with
  | none => rfl
  | some found => simp

namespace Line

@[simp] theorem shown_ofText (cs : List Char) : (ofText cs).shown = cs := by
  simp [ofText, shown, Function.comp_def]

@[simp] theorem masked_ofText (cs : List Char) : (ofText cs).masked = cs := by
  simp [ofText, masked, List.flatMap_map]

def cut (front token : List Char) : Line :=
  ofText front ++ token.map ({ char := ·, taken := true })

theorem mark_ofText (front token : List Char) :
    (ofText (front ++ token)).mark front.length token.length = cut front token := by
  have hlength : front.length = (ofText front).length := (List.length_map _).symm
  have hsplit : ofText (front ++ token) = ofText front ++ ofText token := List.map_append
  have htoken : (ofText token).take token.length = ofText token :=
    List.take_of_length_le (Nat.le_of_eq (List.length_map _))
  have hend : (ofText front ++ ofText token).drop (front.length + token.length) = [] :=
    List.drop_of_length_le (by simp [ofText])
  rw [mark, hsplit, hend, hlength, List.take_left, List.drop_left, htoken, List.append_nil, cut]
  exact congrArg _ List.map_map

theorem shown_cut (front token : List Char) :
    (cut front token).shown = front ++ List.replicate token.length ' ' := by
  have hfront := shown_ofText front
  rw [shown] at hfront
  simp [cut, shown, hfront, Function.comp_def, List.map_const']

/-- What is taken is blank to a reader of the rest. -/
theorem masked_cut (front token : List Char) :
    ∃ blanks, (cut front token).masked = front ++ blanks ∧ ∀ c ∈ blanks, c = ' ' := by
  have hfront := masked_ofText front
  rw [masked] at hfront
  refine ⟨token.flatMap fun c => List.replicate c.utf8Size ' ', ?_, ?_⟩
  · simp [cut, masked, hfront, List.flatMap_map]
  · intro c hc
    obtain ⟨d, -, hd⟩ := List.mem_flatMap.mp hc
    exact List.eq_of_mem_replicate hd

end Line

/-! ### Extraction -/

theorem takeKind_of_occurrences_nil {modifiers : Modifiers} {line : Line}
    (h : occurrences kind line = []) : takeKind (modifiers, line) kind = .ok (modifiers, line) := by
  simp only [takeKind, h]

theorem foldlM_takeKind_of_nil {kinds : List Kind} {modifiers : Modifiers} {line : Line}
    (h : ∀ kind ∈ kinds, occurrences kind line = []) :
    kinds.foldlM takeKind (modifiers, line) = .ok (modifiers, line) := by
  induction kinds with
  | nil => rfl
  | cons kind kinds ih =>
      rw [List.foldlM_cons, takeKind_of_occurrences_nil (h kind List.mem_cons_self)]
      exact ih fun kind hkind => h kind (List.mem_cons_of_mem _ hkind)

theorem extract_of_not_mem (h : '<' ∉ cs) : extract cs = .ok ({}, Line.ofText cs) := by
  refine foldlM_takeKind_of_nil fun kind _ => ?_
  rw [occurrences, Line.shown_ofText, occurrencesFrom_of_not_mem h]

/-- A line with one token, which is at its end and of one kind only, is cut there. -/
theorem extract_of_token {rest : List Char} {token : Token} {modifiers : Modifiers}
    (hfront : '<' ∉ front) (hclosed : quotesOpen false front = false) (hrest : '<' ∉ rest)
    (htoken : token? kind ('<' :: rest) = some (token, []))
    (hother : ∀ other, other ≠ kind → token? other ('<' :: rest) = none)
    (happly : apply {} token = .ok modifiers) :
    extract (front ++ '<' :: rest) = .ok (modifiers, Line.cut front ('<' :: rest)) := by
  obtain ⟨before, after, hkinds, hbefore⟩ : ∃ before after, Kind.all = before ++ kind :: after ∧
      kind ∉ before := List.eq_append_cons_of_mem (by cases kind <;> decide)
  have hnone : ∀ other ∈ before,
      occurrences other (Line.ofText (front ++ '<' :: rest)) = [] := by
    intro other hmem
    have hne : other ≠ kind := fun heq => hbefore (heq ▸ hmem)
    rw [occurrences, Line.shown_ofText, occurrencesFrom_of_token hfront hclosed hrest,
      hother other hne]
  have htake : takeKind ({}, Line.ofText (front ++ '<' :: rest)) kind =
      .ok (modifiers, Line.cut front ('<' :: rest)) := by
    have hfound : occurrences kind (Line.ofText (front ++ '<' :: rest)) =
        [⟨front.length, ('<' :: rest).length, token⟩] := by
      rw [occurrences, Line.shown_ofText, occurrencesFrom_of_token hfront hclosed hrest, htoken]
      rfl
    simp only [takeKind, hfound, happly, Line.mark_ofText]
  have hdone : ∀ other ∈ after, occurrences other (Line.cut front ('<' :: rest)) = [] := by
    intro other _
    rw [occurrences, Line.shown_cut]
    refine occurrencesFrom_of_not_mem ?_ false
    simp only [List.mem_append, not_or]
    exact ⟨hfront, fun hmem => absurd (List.eq_of_mem_replicate hmem) (by decide)⟩
  rw [extract, extractKinds, hkinds, List.foldlM_append, foldlM_takeKind_of_nil hnone]
  show (kind :: after).foldlM takeKind ({}, Line.ofText (front ++ '<' :: rest)) = _
  rw [List.foldlM_cons, htake]
  exact foldlM_takeKind_of_nil hdone

/-! ### Tokens of the scaffold -/

theorem numeral?_digits {digits rest : List Char} (hne : digits ≠ [])
    (hdigits : ∀ c ∈ digits, c.isDigit = true) :
    numeral? (digits ++ '>' :: rest) = some (⟨digits, []⟩, '>' :: rest) := by
  have hall : ∀ c ∈ digits, isDecimalDigit c = true :=
    fun c hc => isDecimalDigit_of_isDigit (hdigits c hc)
  have hend : isDecimalDigit '>' = false := by decide
  have hnonempty : digits.isEmpty = false := by simpa using hne
  simp only [numeral?, List.takeWhile_append_of_pos hall, List.dropWhile_append_of_pos hall,
    List.takeWhile_cons, List.dropWhile_cons, hend, Bool.false_eq_true, if_false,
    List.append_nil, hnonempty]
  rfl

def maxWaitEnd (seconds : Nat) : List Char :=
  "maxwait.".toList ++ Decimal.ofNat seconds ++ ['>']

theorem token?_maxWaitEnd (seconds : Nat) :
    token? .maxWait ('<' :: maxWaitEnd seconds) =
      some (.maxWait ⟨Decimal.ofNat seconds, []⟩, []) := by
  have hnumeral : numeral? (Decimal.ofNat seconds ++ ['>']) =
      some (⟨Decimal.ofNat seconds, []⟩, ['>']) :=
    numeral?_digits (Decimal.ofNat_ne_nil seconds) fun c hc => Decimal.isDigit_of_mem_ofNat hc
  have hbody : body? .maxWait (maxWaitEnd seconds) =
      some (.maxWait ⟨Decimal.ofNat seconds, []⟩, ['>']) := by
    have hliteral : literal? ['m', 'a', 'x', 'w', 'a', 'i', 't', '.'] (maxWaitEnd seconds) =
        some (Decimal.ofNat seconds ++ ['>']) := rfl
    simp only [body?, hliteral, hnumeral, Option.bind_eq_bind, Option.bind_some, Option.pure_def]
  simp only [token?, hbody]

theorem token?_maxWaitEnd_of_ne (seconds : Nat) {other : Kind} (h : other ≠ .maxWait) :
    token? other ('<' :: maxWaitEnd seconds) = none := by
  cases other <;> first | rfl | exact absurd rfl h

theorem not_mem_maxWaitEnd (seconds : Nat) {c : Char} (hdigit : c.isDigit = false)
    (hother : c ∉ "maxwait.".toList ++ ['>']) : c ∉ maxWaitEnd seconds := by
  have hdigits : c ∉ Decimal.ofNat seconds := by
    intro hmem
    rw [Decimal.isDigit_of_mem_ofNat hmem] at hdigit
    cases hdigit
  show c ∉ "maxwait.".toList ++ Decimal.ofNat seconds ++ ['>']
  simp only [List.mem_append, not_or] at hother ⊢
  exact ⟨⟨hother.1, hdigits⟩, hother.2⟩

theorem apply_maxWait (seconds : Nat) :
    apply {} (.maxWait ⟨Decimal.ofNat seconds, []⟩) =
      .ok { maxWaitMs := some (millisOfSeconds (Decimal.valueOf (Decimal.ofNat seconds) [])) } := by
  have hdigits : (Decimal.ofNat seconds ++ []).all Char.isDigit = true := by
    rw [List.append_nil, List.all_eq_true]
    exact fun c hc => Decimal.isDigit_of_mem_ofNat hc
  have hmillis : millisOf ⟨Decimal.ofNat seconds, []⟩ =
      .ok (millisOfSeconds (Decimal.valueOf (Decimal.ofNat seconds) [])) := by
    simp only [millisOf, Numeral.value?, hdigits, if_true]
  simp only [apply, hmillis]
  rfl

end CraftLang.Modifier
