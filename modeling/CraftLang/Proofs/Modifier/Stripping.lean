import CraftLang.Proofs.Modifier.Trailing

/-!
The words of a stripped line. Stripping loses no visible character outside the tokens, makes up none
and keeps their order. Blanks stay where they are directly in front of a visible character, and go
where the next thing to be seen is a token; so a word that begins right behind a token is joined to
the word before the token, whatever blanks were in front of it.
-/

namespace CraftLang

open Text

namespace Text

def visible (cs : List Char) : List Char :=
  cs.filter (!isBlank ·)

theorem visible_of_blank {blanks : List Char} (h : ∀ c ∈ blanks, isBlank c = true) :
    visible blanks = [] :=
  List.filter_eq_nil_iff.mpr fun c hc => by simp [h c hc]

theorem visible_append (cs ds : List Char) : visible (cs ++ ds) = visible cs ++ visible ds :=
  List.filter_append ..

theorem visible_trimStart (cs : List Char) : visible (trimStart cs) = visible cs := by
  have hlead : visible (cs.takeWhile isBlank) = [] :=
    visible_of_blank fun _ hc => Grammar.of_mem_takeWhile hc
  conv_rhs => rw [← List.takeWhile_append_dropWhile (p := isBlank) (l := cs)]
  rw [visible_append, hlead, List.nil_append, trimStart]

theorem visible_trimEnd (cs : List Char) : visible (trimEnd cs) = visible cs := by
  obtain ⟨blanks, hcs, hblanks⟩ := exists_trimEnd_append cs
  conv_rhs => rw [← hcs]
  rw [visible_append, visible_of_blank hblanks, List.append_nil]

theorem visible_trim (cs : List Char) : visible (trim cs) = visible cs := by
  rw [trim, visible_trimEnd, visible_trimStart]

end Text

namespace Modifier

open Grammar

variable {cs : List Char} {m : Modifiers} {line gap : Line} {cell : Cell} {c d : Char}

namespace Line

def seen (line : Line) : List Char :=
  visible ((line.filter (!·.taken)).map (·.char))

/-- Somewhere a blank stands directly in front of a visible character, neither of them taken. -/
def Breaks (line : Line) : Prop :=
  ∃ front c d back, line = front ++ { char := c } :: { char := d } :: back ∧
    isBlank c = true ∧ isBlank d = false

/-- Somewhere a token ends directly in front of a visible character that is not taken. -/
def Abuts (line : Line) : Prop :=
  ∃ front cell c back, line = front ++ cell :: { char := c } :: back ∧
    cell.taken = true ∧ isBlank c = false

/-! ### What is kept -/

theorem seen_cons (cell : Cell) (line : Line) :
    seen (cell :: line) =
      (if cell.taken || isBlank cell.char then [] else [cell.char]) ++ line.seen := by
  obtain ⟨c, taken⟩ := cell
  cases taken <;> cases hc : isBlank c <;> simp [seen, visible, hc]

theorem visible_kept (line : Line) : visible line.kept = line.seen := by
  induction line with
  | nil => rfl
  | cons cell line ih =>
      rw [kept, seen_cons, ← ih]
      by_cases hout : cell.taken || (isBlank cell.char && cutsNext line)
      · have hunseen : (cell.taken || isBlank cell.char) = true := by
          rw [Bool.or_eq_true, Bool.and_eq_true] at hout
          rw [Bool.or_eq_true]
          exact hout.imp_right And.left
        rw [if_pos hout, if_pos hunseen, List.nil_append]
      · rw [if_neg hout]
        rw [Bool.or_eq_true, not_or] at hout
        cases hblank : isBlank cell.char <;> simp [visible, hout.1, hblank]

/-- A line begins with a break, or has one further on. -/
theorem breaks_cons :
    Breaks (cell :: line) ↔
      ((∃ c, cell = { char := c } ∧ isBlank c = true) ∧
        ∃ d back, line = { char := d } :: back ∧ isBlank d = false) ∨ Breaks line := by
  constructor
  · rintro ⟨front, c, d, back, hline, hc, hd⟩
    cases front with
    | nil =>
        obtain ⟨rfl, rfl⟩ := List.cons.inj hline
        exact .inl ⟨⟨c, rfl, hc⟩, d, back, rfl, hd⟩
    | cons first front =>
        exact .inr ⟨front, c, d, back, (List.cons.inj hline).2, hc, hd⟩
  · rintro (⟨⟨c, rfl, hc⟩, d, back, rfl, hd⟩ | ⟨front, c, d, back, rfl, hc, hd⟩)
    · exact ⟨[], c, d, back, rfl, hc, hd⟩
    · exact ⟨cell :: front, c, d, back, rfl, hc, hd⟩

/-- Behind a blank that is not taken there is a break, unless a token is the next thing to be seen.
-/
theorem breaks_of_not_cutsNext (hc : isBlank c = true) (hd : isBlank d = false)
    (hnext : cutsNext gap = false) : Breaks ({ char := c } :: (gap ++ [{ char := d }])) := by
  induction gap generalizing c with
  | nil => exact breaks_cons.mpr (.inl ⟨⟨c, rfl, hc⟩, d, [], rfl, hd⟩)
  | cons next gap ih =>
      obtain ⟨b, taken⟩ := next
      cases taken with
      | true =>
          rw [cutsNext, List.dropWhile_cons_of_neg (by simp)] at hnext
          cases hnext
      | false =>
          cases hb : isBlank b with
          | true =>
              rw [cutsNext, List.dropWhile_cons_of_pos (by simp [hb]), ← cutsNext] at hnext
              exact breaks_cons.mpr (.inr (ih hb hnext))
          | false => exact breaks_cons.mpr (.inl ⟨⟨c, rfl, hc⟩, b, _, rfl, hb⟩)

/-- Between two visible characters blanks are kept just if they break the line directly in front of
a visible character. -/
theorem exists_blank_kept_iff (hd : isBlank d = false) (gap : Line) :
    (∃ b ∈ gap.kept, isBlank b = true) ↔ Breaks (gap ++ [{ char := d }]) := by
  induction gap with
  | nil =>
      refine iff_of_false nofun ?_
      rintro ⟨front, c, e, back, hline, -⟩
      have hlength := congrArg List.length hline
      simp only [List.nil_append, List.length_append, List.length_cons, List.length_nil] at hlength
      omega
  | cons cell gap ih =>
      obtain ⟨c, taken⟩ := cell
      rw [kept, List.cons_append, breaks_cons, ← ih]
      by_cases hout : taken || (isBlank c && cutsNext gap)
      · rw [if_pos hout]
        refine (or_iff_right ?_).symm
        rintro ⟨⟨b, ⟨⟩, hb⟩, e, back, hnext, he⟩
        -- A visible character would be next, and not a token.
        rw [hb, Bool.true_and, Bool.false_or] at hout
        cases gap with
        | nil => cases hout
        | cons next gap =>
            obtain ⟨rfl, -⟩ := List.cons.inj hnext
            rw [cutsNext, List.dropWhile_cons_of_neg (by simp [he])] at hout
            cases hout
      · rw [if_neg hout]
        rw [Bool.or_eq_true, not_or, Bool.not_eq_true, Bool.and_eq_true, not_and,
          Bool.not_eq_true] at hout
        obtain ⟨rfl, hnext⟩ := hout
        by_cases hc : isBlank c = true
        · have hbreaks := breaks_of_not_cutsNext hc hd (hnext hc)
          rw [breaks_cons, ← ih] at hbreaks
          exact iff_of_true ⟨c, List.mem_cons_self, hc⟩ hbreaks
        · have hnot : ¬ ∃ b, (⟨c, false⟩ : Cell) = { char := b } ∧ isBlank b = true := by
            rintro ⟨b, ⟨⟩, hb⟩
            exact hc hb
          simp only [hnot, false_and, false_or, List.mem_cons, exists_eq_or_imp, hc,
            Bool.false_eq_true]

/-- Something that is not seen and a visible character after it have a break between them, unless
the visible one directly behind a token comes first. -/
theorem breaks_or_abuts (hcell : cell.Unseen) (hd : isBlank d = false) (gap : Line) :
    Breaks (cell :: (gap ++ [{ char := d }])) ∨ Abuts (cell :: (gap ++ [{ char := d }])) := by
  induction gap generalizing cell with
  | nil =>
      obtain ⟨c, taken⟩ := cell
      cases taken with
      | true => exact .inr ⟨[], _, d, [], rfl, rfl, hd⟩
      | false => exact .inl ⟨[], c, d, [], rfl, hcell.resolve_left Bool.false_ne_true, hd⟩
  | cons next gap ih =>
      by_cases hnext : next.Unseen
      · refine (ih hnext).imp ?_ ?_
        · rintro ⟨front, c, e, back, hline, hce⟩
          exact ⟨cell :: front, c, e, back, congrArg (cell :: ·) hline, hce⟩
        · rintro ⟨front, before, e, back, hline, he⟩
          exact ⟨cell :: front, before, e, back, congrArg (cell :: ·) hline, he⟩
      · obtain ⟨b, taken⟩ := next
        rw [Cell.Unseen, not_or, Bool.not_eq_true, Bool.not_eq_true] at hnext
        obtain ⟨rfl, hb⟩ := hnext
        obtain ⟨c, taken⟩ := cell
        cases taken with
        | true => exact .inr ⟨[], _, b, _, rfl, rfl, hb⟩
        | false => exact .inl ⟨[], c, b, _, rfl, hcell.resolve_left Bool.false_ne_true, hb⟩

/-- Where no token ends directly in front of a visible character, every blank breaks the line. -/
theorem breaks_of_not_abuts (hd : isBlank d = false) (hnot : ¬ Abuts (gap ++ [{ char := d }]))
    (hmem : cell ∈ gap) (hcell : cell.Unseen) : Breaks (gap ++ [{ char := d }]) := by
  obtain ⟨front, rest, rfl⟩ := List.append_of_mem hmem
  rw [List.append_assoc, List.cons_append] at hnot ⊢
  rcases breaks_or_abuts hcell hd rest with ⟨before, c, e, back, hline, hce⟩ |
    ⟨before, token, e, back, hline, hce⟩
  · exact ⟨front ++ before, c, e, back, by rw [hline, List.append_assoc], hce⟩
  · exact absurd ⟨front ++ before, token, e, back, by rw [hline, List.append_assoc], hce⟩ hnot

/-! ### Words -/

structure Strips (line : Line) : Prop where
  /-- The visible characters that are not taken are all there, in order, and no others. -/
  visible : visible line.stripped = line.seen
  /-- Of two of them, blanks stand between them in the stripped line just if they do in the line,
  directly in front of a visible character. Where no token ends directly in front of a visible
  character, that is the case whenever something between the two is blank. -/
  apart : ∀ (before : Line) (c : Char) (gap : Line) (d : Char) (after : Line),
    line = before ++ { char := c } :: (gap ++ { char := d } :: after) →
    isBlank c = false → isBlank d = false →
      ∃ front between back, line.stripped = front ++ c :: (between ++ d :: back) ∧
        Text.visible front = before.seen ∧ Text.visible between = gap.seen ∧
        Text.visible back = after.seen ∧
        ((∃ b ∈ between, isBlank b = true) ↔ Breaks (gap ++ [{ char := d }])) ∧
        (¬ Abuts (gap ++ [{ char := d }]) → (∃ b, { char := b } ∈ gap ∧ isBlank b = true) →
          ∃ b ∈ between, isBlank b = true)

theorem strips (line : Line) : Strips line where
  visible := by rw [stripped, visible_trim, visible_kept]
  apart := by
    rintro before c gap d after rfl hc hd
    refine ⟨trimStart before.kept, gap.kept, trimEnd after.kept, ?_, ?_, visible_kept gap, ?_,
      exists_blank_kept_iff hd gap, ?_⟩
    · rw [stripped, kept_append_cons before hc, kept_append_cons gap hd, trim_append_cons _ hc,
        trimEnd_append_cons _ hd]
    · rw [visible_trimStart, visible_kept]
    · rw [visible_trimEnd, visible_kept]
    · rintro hnot ⟨b, hmem, hb⟩
      exact (exists_blank_kept_iff hd gap).mpr (breaks_of_not_abuts hd hnot hmem (.inr hb))

end Line

/-- What is forwarded for a line without a verb of the language is the stripped line. -/
theorem native_of_readLine (h : extract cs = .ok (m, line)) {raw : List Char} (hraw : trim raw = cs)
    {number : Nat} {command : Command} {text : String}
    (hread : Source.readLine raw number = .ok (some command))
    (hkind : command.kind = .native text) : text.toList = line.stripped := by
  simp only [Source.readLine, hraw] at hread
  split at hread
  · cases hread
  · split at hread
    · next hcommand =>
        cases hread
        simp only [Source.readCommand, h] at hcommand
        split at hcommand
        · cases hcommand
        · next statement _ =>
            split at hcommand
            · next hfound =>
                cases hcommand
                cases statement with
                | native =>
                    cases hfound
                    cases hkind
                    exact String.toList_ofList
                | wait seconds limit =>
                    rw [Source.command] at hfound
                    split at hfound
                    · cases hfound
                    · split at hfound <;> cases hfound
                      cases hkind
                | _ =>
                    cases hfound
                    cases hkind
            · cases hcommand
    · cases hread

/-- The words of a line from which the modifiers are taken, as they are forwarded: all that is
visible outside the tokens and nothing else. Two words stay apart just if blanks outside the tokens
stand between them directly in front of a visible character; so they do wherever blanks stand
between them and no token has a visible character directly behind it. -/
theorem strips_of_extract (h : extract cs = .ok (m, line)) :
    line = (Line.ofText cs).cover (spansOf Kind.all cs) ∧ line.Strips ∧
      ∀ raw number command text, trim raw = cs → Source.readLine raw number = .ok (some command) →
        command.kind = .native text → text.toList = line.stripped :=
  ⟨(extract_eq_ok_iff.mp h).2, line.strips,
    fun _ _ _ _ hraw hread hkind => native_of_readLine h hraw hread hkind⟩

theorem strips_of_extract_startEnd :
    ∃ line,
      extract "/echo start <wait.1> end".toList =
        .ok ({ wait := ⟨1000, 0⟩, hasWait := true }, line) ∧
      line.Strips ∧ line.stripped = "/echo start end".toList := by
  have hextract : extract "/echo start <wait.1> end".toList =
      .ok ({ wait := ⟨1000, 0⟩, hasWait := true },
        (Line.ofText "/echo start <wait.1> end".toList).mark 12 8) := by
    rfl
  exact ⟨_, hextract, (strips_of_extract hextract).2.1, by rfl⟩

/-- A blank outside the token parts the two words, and they are one word when the line is stripped.
-/
theorem stripped_joins_words :
    ∃ line,
      extract "/echo start <wait.1>end".toList =
        .ok ({ wait := ⟨1000, 0⟩, hasWait := true }, line) ∧
      line = Line.ofText "/echo star".toList ++ { char := 't' } :: ({ char := ' ' } ::
        "<wait.1>".toList.map ({ char := ·, taken := true }) ++
          { char := 'e' } :: Line.ofText "nd".toList) ∧
      line.stripped = "/echo startend".toList ∧
      Source.readLine "/echo start <wait.1>end".toList 0 =
        .ok (some ⟨"/echo start <wait.1>end", { wait := ⟨1000, 0⟩, hasWait := true },
          .native "/echo startend"⟩) :=
  ⟨(Line.ofText "/echo start <wait.1>end".toList).mark 12 8, by rfl, by rfl, by rfl, by rfl⟩

end Modifier

end CraftLang
