import CraftLang.Proofs.Modifier.Trailing
import CraftLang.Proofs.Source.Positions

/-!
The kinds of modifier are orthogonal. In whatever order they are taken from a line, the same
modifiers are found and the same text is left, and each kind says what a scan of the line for it
alone says. So the modifiers after a command can be written in any order.
-/

namespace CraftLang

open Text Modifier

/-- All of a command but its text: what it does, and under which modifiers. -/
def Command.sense (c : Command) : CommandKind × Modifiers :=
  (c.kind, c.modifiers)

namespace Source

variable {cs cs' head tail tail' : List Char} {texts texts' : List (List Char)} {m : Modifiers}
  {line line' : Line}

/-- Of the line itself, a command has only what is left when the modifiers are taken out. -/
theorem sense_command (h : line'.stripped = line.stripped) (text text' : String) (m : Modifiers)
    (statement : Statement) :
    (command text' m line' statement).toOption.map Command.sense =
      (command text m line statement).toOption.map Command.sense := by
  cases statement with
  | native =>
      rw [command, command, h]
      rfl
  | wait seconds limit =>
      rw [command, command]
      split
      · rfl
      · split <;> rfl
  | _ => rfl

theorem sense_readCommand (hextract : extract cs = .ok (m, line))
    (hextract' : extract cs' = .ok (m, line')) (hmasked : trim line'.masked = trim line.masked)
    (hstripped : line'.stripped = line.stripped) :
    (readCommand cs').toOption.map Command.sense = (readCommand cs).toOption.map Command.sense := by
  have hread {cs : List Char} {line : Line} (h : extract cs = .ok (m, line)) :
      (readCommand cs).toOption.map Command.sense =
        (Statement.read (trim line.masked)).toOption.bind fun statement =>
          (command (String.ofList cs) m line statement).toOption.map Command.sense := by
    have htrim : trimEnd (trimStart line.masked) = trim line.masked := rfl
    simp only [readCommand, h, htrim]
    cases Statement.read (trim line.masked) with
    | error e => rfl
    | ok statement =>
        simp only [Except.toOption, Option.bind_some]
        cases command (String.ofList cs) m line statement <;> rfl
  rw [hread hextract, hread hextract', hmasked]
  exact congrArg _ (funext fun statement => sense_command hstripped _ _ m statement)

theorem readCommand_of_extract_error {e : Error} (h : extract cs = .error e) :
    (readCommand cs).toOption = none := by
  simp only [readCommand, h]
  rfl

theorem Row.sense_readCommand (h : Row texts tail) (h' : Row texts' tail')
    (hperm : texts.Perm texts') (head : List Char) :
    (readCommand (head ++ tail')).toOption.map Command.sense =
      (readCommand (head ++ tail)).toOption.map Command.sense := by
  cases hextract : extract (head ++ tail) with
  | ok found =>
      obtain ⟨m, line⟩ := found
      obtain ⟨line', hextract', hmasked, hstripped⟩ := h.extract_perm h' hperm hextract
      exact Source.sense_readCommand hextract hextract' hmasked hstripped
  | error e =>
      cases hextract' : extract (head ++ tail') with
      | ok found =>
          obtain ⟨line, hok, -⟩ := h'.extract_perm h hperm.symm hextract'
          rw [hextract] at hok
          cases hok
      | error e' =>
          rw [readCommand_of_extract_error hextract, readCommand_of_extract_error hextract']

theorem isComment_append (htail : Grammar.Leaves isTokenPart tail) (head : List Char) :
    isComment (head ++ tail) = isComment head := by
  have hstart : ∀ c ∈ tail.head?, c ≠ '#' ∧ c ≠ '/' := by
    refine fun c hc => ⟨?_, ?_⟩
    · rintro rfl
      exact absurd (htail _ hc) (by decide)
    · rintro rfl
      exact absurd (htail _ hc) (by decide)
  match head, tail, hstart with
  | [], [], _ => rfl
  | [], c :: tail, hstart =>
      obtain ⟨hhash, hslash⟩ := hstart c rfl
      simp [isComment, List.isPrefixOf, hhash.symm, hslash.symm]
  | [c], [], _ => rfl
  | [c], d :: tail, hstart =>
      obtain ⟨-, hslash⟩ := hstart d rfl
      simp [isComment, List.isPrefixOf, hslash.symm]
  | c :: d :: head, tail, _ => rfl

theorem sense_readLine {raw : List Char} (h : trim raw ≠ []) (number : Nat) :
    (readLine raw number).toOption.map (Option.map Command.sense) =
      if isComment (trim raw) then some none
      else ((readCommand (trim raw)).toOption.map Command.sense).map some := by
  have hvisible : (trim raw).isEmpty = false := by simpa using h
  unfold readLine
  simp only [hvisible, Bool.false_or]
  split
  · rfl
  · cases readCommand (trim raw) <;> rfl

/-- What a line says does not depend on the order of the tokens at its end. -/
theorem sense_readLine_perm (h : Row texts tail) (h' : Row texts' tail')
    (hperm : texts.Perm texts') (head : List Char) (number : Nat) :
    (readLine (head ++ tail') number).toOption.map (Option.map Command.sense) =
      (readLine (head ++ tail) number).toOption.map (Option.map Command.sense) := by
  cases texts with
  | nil =>
      obtain rfl := hperm.nil_eq
      cases h with
      | nil hblank =>
          cases h' with
          | nil hblank' =>
              rw [readLine_append_of_blank head hblank, readLine_append_of_blank head hblank']
  | cons text texts =>
      cases texts' with
      | nil => cases hperm.eq_nil
      | cons text' texts' =>
          obtain ⟨end₁, hrow, hne, htrim⟩ := h.trim_append head
          obtain ⟨end₂, hrow', hne', htrim'⟩ := h'.trim_append head
          have hvisible : trim (head ++ tail) ≠ [] := by simp [htrim, hne]
          have hvisible' : trim (head ++ tail') ≠ [] := by simp [htrim', hne']
          rw [sense_readLine hvisible, sense_readLine hvisible', htrim, htrim',
            isComment_append hrow.leaves, isComment_append hrow'.leaves,
            Row.sense_readCommand hrow hrow' hperm]

/-! ### Orthogonality -/

/-- The kinds can be taken from a line in any order. -/
theorem toOption_extractKinds {kinds : List Kind} (h : kinds.Perm Kind.all) (cs : List Char) :
    (extractKinds kinds (Line.ofText cs)).toOption = (extract cs).toOption := by
  have hmem (kind : Kind) : kind ∈ kinds := h.mem_iff.mpr (mem_all kind)
  have hspans : (Line.ofText cs).cover (spansOf kinds cs) =
      (Line.ofText cs).cover (spansOf Kind.all cs) :=
    Line.cover_congr _ fun o => by simp only [mem_spansOf, hmem, mem_all, true_and]
  have hiff (m : Modifiers) (line : Line) :
      extractKinds kinds (Line.ofText cs) = .ok (m, line) ↔ extract cs = .ok (m, line) := by
    rw [extractKinds_eq_ok_iff (h.nodup_iff.mpr nodup_all), extract_eq_ok_iff, hspans]
    simp only [hmem, true_implies, not_true_eq_false, false_implies, implies_true, true_and]
  cases hextract : extract cs with
  | ok found => rw [(hiff found.1 found.2).mpr hextract]
  | error e =>
      cases hkinds : extractKinds kinds (Line.ofText cs) with
      | ok found =>
          rw [(hiff found.1 found.2).mp hkinds] at hextract
          cases hextract
      | error e' => rfl

/-- A scan of the line for one kind finds what it finds after the others. -/
theorem takeKind_of_extract (h : extract cs = .ok (m, line)) (kind : Kind) :
    ∃ line', takeKind ({}, Line.ofText cs) kind = .ok (m.only kind, line') := by
  have hgives := (extract_eq_ok_iff.mp h).1 kind
  have hspans : ∀ span ∈ ([] : List Occurrence), ∃ other, other ≠ kind ∧
      Stands other false cs span := nofun
  have htake := takeKind_cover hspans (Modifiers.only_neutral kind)
  rw [Line.cover_nil] at htake
  rcases htake with ⟨found, hfound, htake⟩ | ⟨o, fault, hrefuses, -⟩
  · obtain rfl := hgives.unique hfound
    exact ⟨_, htake.trans (by rw [Modifiers.set_only]; rfl)⟩
  · exact absurd hrefuses hgives.not_refuses

theorem exists_extract_iff :
    (∃ m line, extract cs = .ok (m, line)) ↔ ∀ kind, ∃ found, Gives kind cs found := by
  constructor
  · rintro ⟨m, line, h⟩ kind
    exact ⟨m.only kind, (extract_eq_ok_iff.mp h).1 kind⟩
  · intro h
    cases hextract : extract cs with
    | ok found => exact ⟨found.1, found.2, rfl⟩
    | error e =>
        obtain ⟨kind, -, o, hrefuses, -⟩ := extractKinds_eq_error nodup_all hextract
        obtain ⟨found, hgives⟩ := h kind
        exact absurd hrefuses hgives.not_refuses

/-- The kinds of modifier are taken from a line in any order, with the same result; each gives what
a scan of the line for it alone gives, and they are all had if each of them is. So the modifiers at
the end of a line can be permuted without a change to what the line says. -/
theorem modifiers_orthogonal :
    (∀ cs kinds, kinds.Perm Kind.all →
      (extractKinds kinds (Line.ofText cs)).toOption = (extract cs).toOption) ∧
    (∀ cs m line, extract cs = .ok (m, line) → ∀ kind, Gives kind cs (m.only kind) ∧
      ∃ line', takeKind ({}, Line.ofText cs) kind = .ok (m.only kind, line')) ∧
    (∀ cs, (∃ m line, extract cs = .ok (m, line)) ↔ ∀ kind, ∃ found, Gives kind cs found) ∧
    ∀ head texts texts' tail tail' number, Row texts tail → Row texts' tail' → texts.Perm texts' →
      (readLine (head ++ tail') number).toOption.map (Option.map Command.sense) =
        (readLine (head ++ tail) number).toOption.map (Option.map Command.sense) :=
  ⟨fun cs _ hperm => toOption_extractKinds hperm cs,
    fun _ _ _ h kind => ⟨(extract_eq_ok_iff.mp h).1 kind, takeKind_of_extract h kind⟩,
    fun _ => exists_extract_iff,
    fun head _ _ _ _ number h h' hperm => sense_readLine_perm h h' hperm head number⟩

theorem modifiers_orthogonal_observe :
    (extractKinds Kind.all.reverse (Line.ofText "/ac Observe <wait.1> <unſafe>".toList)).toOption =
        (extract "/ac Observe <wait.1> <unſafe>".toList).toOption ∧
      (∀ kind, ∃ line', takeKind ({}, Line.ofText "/ac Observe <unſafe>".toList) kind =
        .ok (({ unconfirmed := true } : Modifiers).only kind, line')) ∧
      (readLine "/ac Observe<unſafe>  <wait.1>".toList 0).toOption.map (Option.map Command.sense) =
        (readLine "/ac Observe <wait.1> <unſafe>".toList 0).toOption.map
          (Option.map Command.sense) := by
  obtain ⟨horder, hscan, -, hrow⟩ := modifiers_orthogonal
  have hextract : extract "/ac Observe <unſafe>".toList =
      .ok ({ unconfirmed := true }, Line.cut "/ac Observe ".toList "<unſafe>".toList) := by rfl
  have hwait : Spells .wait "<wait.1>".toList (.wait ⟨['1'], []⟩ none) := by rfl
  have hunconfirmed : Spells .unconfirmed "<unſafe>".toList .unconfirmed := by rfl
  have hrow₁ : Row ["<wait.1>".toList, "<unſafe>".toList]
      ([' '] ++ ("<wait.1>".toList ++ ([' '] ++ ("<unſafe>".toList ++ [])))) :=
    .cons (by simp [isBlank]) ⟨_, _, hwait⟩
      (.cons (by simp [isBlank]) ⟨_, _, hunconfirmed⟩ (.nil nofun))
  have hrow₂ : Row ["<unſafe>".toList, "<wait.1>".toList]
      ([] ++ ("<unſafe>".toList ++ ([' ', ' '] ++ ("<wait.1>".toList ++ [])))) :=
    .cons nofun ⟨_, _, hunconfirmed⟩ (.cons (by simp [isBlank]) ⟨_, _, hwait⟩ (.nil nofun))
  refine ⟨horder _ _ (List.reverse_perm _), fun kind => (hscan _ _ _ hextract kind).2, ?_⟩
  exact hrow "/ac Observe".toList _ _ _ _ 0 hrow₁ hrow₂ (List.Perm.swap ..)

end Source

end CraftLang
