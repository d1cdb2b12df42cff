import CraftLang.Proofs.Modifier.Masking

/-!
Tokens at the end of a line. What a row of tokens asks for does not depend on their order nor on the
blanks between them, and what is left of the line once they are taken is what was left in front of
them.
-/

namespace CraftLang.Modifier

open Text Grammar

variable {kind : Kind} {cs cs' head rest tail text : List Char} {texts texts' : List (List Char)}
  {odd : Bool} {o : Occurrence} {m found : Modifiers} {line : Line}

/-! ### Texts one after the other -/

def isTokenPart (c : Char) : Bool :=
  !isBlank c && c != '<'

/-- A token that begins in a text does not go on in what comes after the text. -/
theorem token?_append (htail : Leaves isTokenPart tail) (c : Char) (cs : List Char) :
    token? kind (c :: (cs ++ tail)) = (token? kind (c :: cs)).map fun (token, rest) =>
      (token, rest ++ tail) := by
  cases hcs : token? kind (c :: cs) with
  | some found =>
      obtain ⟨token, rest⟩ := found
      obtain ⟨text, hsplit, htext⟩ := token?_eq_some_iff.mp hcs
      refine token?_eq_some_iff.mpr ⟨text, ?_, htext⟩
      rw [← List.cons_append, hsplit, List.append_assoc]
  | none =>
      rw [Option.map_none, Option.eq_none_iff_forall_not_mem]
      rintro ⟨token, rest⟩ hfound
      obtain ⟨text, hsplit, htext⟩ := token?_eq_some_iff.mp hfound
      rw [← List.cons_append] at hsplit
      rcases List.append_eq_append_iff.mp hsplit with ⟨beyond, rfl, rfl⟩ | ⟨more, hmore, -⟩
      · cases beyond with
        | nil =>
            rw [List.append_nil] at htext
            rw [token?_eq_some_iff.mpr ⟨c :: cs, (List.append_nil _).symm, htext⟩] at hcs
            cases hcs
        | cons d beyond =>
            -- The first character of what comes after would be inside the token.
            have hpart : isTokenPart d = false := htail d rfl
            have hvisible : isBlank d = false := htext.visible d (by simp)
            obtain ⟨inner, hinner, hopen⟩ := htext.eq_cons
            rw [List.cons_append] at hinner
            obtain ⟨-, rfl⟩ := List.cons.inj hinner
            have hne : d ≠ '<' := fun heq => hopen (by simp [heq])
            simp [isTokenPart, hvisible, hne] at hpart
      · rw [token?_eq_some_iff.mpr ⟨text, hmore, htext⟩] at hcs
        cases hcs

/-- Where no quotation mark follows, it does not matter whether one is open. -/
theorem occurrencesFrom_of_quote_not_mem (h : quote ∉ cs) (odd odd' : Bool) :
    occurrencesFrom kind odd cs = occurrencesFrom kind odd' cs := by
  refine occurrencesFrom_congr fun o => ?_
  have hiff (odd : Bool) : Stands kind odd cs o ↔ ∃ front text rest, cs = front ++ (text ++ rest) ∧
      Spells kind text o.token ∧ o.position = front.length ∧ o.length = text.length := by
    refine exists₃_congr fun front text rest => and_congr_right fun hcs => ?_
    have hrest : quote ∉ rest := fun hmem => h (by simp [hcs, hmem])
    simp only [hrest, not_false_eq_true, or_true, and_true]
  rw [hiff, hiff]

/-- A scan of a text that ends before another one, which has no quotation marks. -/
theorem occurrencesFrom_append_tail (hquote : quote ∉ tail) (htail : Leaves isTokenPart tail)
    (odd : Bool) (head : List Char) :
    occurrencesFrom kind odd (head ++ tail) = occurrencesFrom kind odd head ++
      (occurrencesFrom kind false tail).map (·.moved head.length) := by
  induction head generalizing odd with
  | nil =>
      rw [List.nil_append, occurrencesFrom_of_quote_not_mem hquote odd false]
      exact (List.map_id _).symm
  | cons c head ih =>
      have hcontains : (head ++ tail).contains quote = head.contains quote := by
        rw [Bool.eq_iff_iff, List.contains_iff_mem, List.contains_iff_mem, List.mem_append,
          or_iff_left hquote]
      have hmoved : ((occurrencesFrom kind false tail).map (·.moved head.length)).map (·.shift) =
          (occurrencesFrom kind false tail).map (·.moved (c :: head).length) := List.map_map
      rw [List.cons_append, occurrencesFrom, occurrencesFrom, ih, hcontains, token?_append htail,
        List.map_append, hmoved]
      split
      · rfl
      · cases token? kind (c :: head) with
        | none => rfl
        | some found =>
            obtain ⟨token, rest⟩ := found
            have hlength : (c :: (head ++ tail)).length - (rest ++ tail).length =
                (c :: head).length - rest.length := by
              rw [← List.cons_append, List.length_append, List.length_append, Nat.add_sub_add_right]
            simp only [Option.map_some, hlength, List.cons_append]

/-! ### Rows of tokens -/

/-- A text of tokens, with nothing but blanks between them and after them. -/
inductive Row : List (List Char) → List Char → Prop where
  | nil {blanks : List Char} (h : ∀ c ∈ blanks, isBlank c = true) : Row [] blanks
  | cons {blanks text cs : List Char} {texts : List (List Char)}
      (h : ∀ c ∈ blanks, isBlank c = true) (htext : ∃ kind token, Spells kind text token)
      (hrow : Row texts cs) : Row (text :: texts) (blanks ++ (text ++ cs))

theorem Row.quote_not_mem (h : Row texts cs) : quote ∉ cs := by
  induction h with
  | nil h => exact not_mem_of_blank h (by decide)
  | cons h htext _ ih =>
      obtain ⟨kind, token, hspells⟩ := htext
      rw [List.mem_append, List.mem_append, not_or, not_or]
      exact ⟨not_mem_of_blank h (by decide), hspells.quote_not_mem, ih⟩

theorem Row.leaves (h : Row texts cs) : Leaves isTokenPart cs := by
  have hblank {blanks : List Char} (h : ∀ c ∈ blanks, isBlank c = true) {c : Char}
      (hc : c ∈ blanks.head?) : isTokenPart c = false := by
    simp [isTokenPart, h c (List.mem_of_mem_head? hc)]
  cases h with
  | nil h => exact fun c hc => hblank h hc
  | @cons blanks text cs texts h htext _ =>
      cases blanks with
      | nil =>
          obtain ⟨kind, token, hspells⟩ := htext
          obtain ⟨inner, rfl, -⟩ := hspells.eq_cons
          rintro c ⟨⟩
          decide
      | cons d blanks =>
          rintro c ⟨⟩
          exact hblank h rfl

/-- A token ends visibly. -/
theorem Spells.trimEnd_append {token : Token} (h : Spells kind text token) (head cs : List Char) :
    trimEnd (head ++ (text ++ cs)) = head ++ (text ++ trimEnd cs) := by
  obtain ⟨inner, rfl, -⟩ := spells_iff.mp h
  have hsplit (cs : List Char) : head ++ ('<' :: (inner ++ ['>']) ++ cs) =
      (head ++ '<' :: inner) ++ '>' :: cs := by simp
  rw [hsplit, hsplit, trimEnd_append_cons _ (by decide)]

/-- A row is still a row when the blanks at its end are trimmed. -/
theorem Row.trimEnd (h : Row texts cs) : Row texts (trimEnd cs) := by
  induction h with
  | nil h =>
      rw [trimEnd_of_blank h]
      exact .nil (List.forall_mem_nil _)
  | cons h htext _ ih =>
      obtain ⟨kind, token, hspells⟩ := htext
      rw [hspells.trimEnd_append]
      exact .cons h ⟨kind, token, hspells⟩ ih

/-- A line that ends with tokens is trimmed at its beginning and after its last token. -/
theorem Row.trim_append (h : Row (text :: texts) cs) (head : List Char) :
    ∃ cs', Row (text :: texts) cs' ∧ cs' ≠ [] ∧ trim (head ++ cs) = trimStart head ++ cs' := by
  cases h with
  | @cons blanks _ cs _ h htext hrow =>
      obtain ⟨kind, token, hspells⟩ := htext
      have hne : text ≠ [] := by
        obtain ⟨inner, rfl, -⟩ := hspells.eq_cons
        exact List.cons_ne_nil _ _
      rw [trim, trimStart, List.dropWhile_append]
      split
      · next hhead =>
          have hstart : (blanks ++ (text ++ cs)).dropWhile isBlank = text ++ cs := by
            obtain ⟨inner, rfl, -⟩ := hspells.eq_cons
            have hopen : Leaves isBlank ('<' :: inner ++ cs) := by
              intro c hc
              obtain rfl := Option.some.inj hc
              decide
            exact dropWhile_append h hopen
          have hrow' : Row (text :: texts) ([] ++ (text ++ Text.trimEnd cs)) :=
            .cons (List.forall_mem_nil _) ⟨kind, token, hspells⟩ hrow.trimEnd
          refine ⟨text ++ Text.trimEnd cs, hrow', by simp [hne], ?_⟩
          rw [hstart, trimStart, List.isEmpty_iff.mp hhead]
          exact hspells.trimEnd_append [] cs
      · refine ⟨blanks ++ (text ++ Text.trimEnd cs), .cons h ⟨kind, token, hspells⟩ hrow.trimEnd,
          by simp [hne], ?_⟩
        rw [← List.append_assoc, hspells.trimEnd_append, List.append_assoc, trimStart]

/-! ### What a text says -/

def tokens (kind : Kind) (cs : List Char) : List Token :=
  (occurrencesFrom kind false cs).map (·.token)

/-- What a text gives for a kind depends on the tokens that stand in it, not on where they stand. -/
theorem gives_iff :
    Gives kind cs found ↔ (tokens kind cs = [] ∧ found = {}) ∨
      ∃ token, tokens kind cs = [token] ∧ apply {} token = .ok found := by
  rw [tokens]
  cases hscan : occurrencesFrom kind false cs with
  | nil =>
      have hnone : Gives kind cs {} := .none (stands_of_occurrencesFrom_nil hscan)
      constructor
      · intro h
        exact .inl ⟨rfl, h.unique hnone⟩
      · rintro (⟨-, rfl⟩ | ⟨token, hone, -⟩)
        · exact hnone
        · cases hone
  | cons first others =>
      cases others with
      | nil =>
          obtain ⟨hstands, honly⟩ := stands_of_occurrencesFrom_singleton hscan
          constructor
          · intro h
            cases h with
            | none hnone => exact absurd hstands (hnone first)
            | one h _ happly =>
                rw [honly _ h] at happly
                exact .inr ⟨first.token, rfl, happly⟩
          · rintro (⟨hnil, -⟩ | ⟨token, hone, happly⟩)
            · cases hnil
            · obtain rfl : first.token = token := (List.cons.inj hone).1
              exact .one hstands honly happly
      | cons second others =>
          refine iff_of_false (fun h => h.not_refuses (refuses_of_occurrencesFrom hscan)) ?_
          rintro (⟨hnil, -⟩ | ⟨token, hone, -⟩)
          · cases hnil
          · cases (List.cons.inj hone).2

theorem gives_congr (h : (tokens kind cs).Perm (tokens kind cs')) :
    Gives kind cs found ↔ Gives kind cs' found := by
  rw [gives_iff, gives_iff]
  refine or_congr (and_congr_left fun _ => ?_)
    (exists_congr fun token => and_congr_left fun _ => ?_)
  · exact ⟨fun hnil => (hnil ▸ h).nil_eq.symm, fun hnil => (hnil ▸ h).eq_nil⟩
  · exact ⟨fun hone => List.perm_singleton.mp (hone ▸ h).symm,
      fun hone => List.perm_singleton.mp (hone ▸ h)⟩

theorem tokens_append (hquote : quote ∉ tail) (htail : Leaves isTokenPart tail) :
    tokens kind (head ++ tail) = tokens kind head ++ tokens kind tail := by
  rw [tokens, occurrencesFrom_append_tail hquote htail, List.map_append, List.map_map]
  rfl

/-- In a row stand its tokens, and no others. -/
theorem Row.tokens_eq (h : Row texts cs) :
    tokens kind cs = texts.filterMap fun text => (token? kind text).map (·.1) := by
  induction h with
  | nil h =>
      rw [tokens, occurrencesFrom_of_not_mem (not_mem_of_blank h (by decide))]
      rfl
  | @cons blanks text cs texts h htext hrow ih =>
      obtain ⟨other, token, hspells⟩ := htext
      have hblanks : tokens kind (blanks ++ (text ++ cs)) = tokens kind (text ++ cs) := by
        rw [tokens, occurrencesFrom_of_blank h, List.map_map]
        rfl
      have htext : tokens kind text = ((token? kind text).map (·.1)).toList := by
        obtain ⟨inner, rfl, hinner⟩ := hspells.eq_cons
        have hfront : '<' ∉ ([] : List Char) := List.not_mem_nil
        rw [tokens, ← List.nil_append ('<' :: inner), occurrencesFrom_of_token hfront rfl hinner,
          List.nil_append]
        cases token? kind ('<' :: inner) <;> rfl
      rw [hblanks, tokens_append hrow.quote_not_mem hrow.leaves, htext, ih, List.filterMap_cons]
      cases token? kind text <;> rfl

/-! ### What is left of a line -/

def Cell.Unseen (cell : Cell) : Prop :=
  cell.taken = true ∨ isBlank cell.char = true

namespace Line

variable {after : Line}

theorem blank_of_mem_masked (h : ∀ cell ∈ line, cell.Unseen) :
    ∀ c ∈ line.masked, isBlank c = true := by
  intro c hc
  obtain ⟨cell, hmem, hcell⟩ := List.mem_flatMap.mp hc
  split at hcell
  · rw [List.eq_of_mem_replicate hcell]
    decide
  · next huntaken =>
      rw [List.mem_singleton.mp hcell]
      exact (h cell hmem).resolve_left huntaken

theorem blank_of_mem_kept (h : ∀ cell ∈ line, cell.Unseen) : ∀ c ∈ line.kept, isBlank c = true := by
  induction line with
  | nil => exact List.forall_mem_nil _
  | cons cell line ih =>
      obtain ⟨hcell, hline⟩ := List.forall_mem_cons.mp h
      rw [kept]
      split
      · exact ih hline
      · next hstays =>
          rw [Bool.or_eq_true, not_or] at hstays
          exact List.forall_mem_cons.mpr ⟨hcell.resolve_left hstays.1, ih hline⟩

/-- What comes after a cell that is seen does not tell whether a token is next. -/
theorem cutsNext_append (h : ¬ ∀ cell ∈ line, cell.Unseen) (after : Line) :
    cutsNext (line ++ after) = cutsNext line := by
  rw [cutsNext, cutsNext, List.dropWhile_append]
  cases hline : line.dropWhile fun cell => !cell.taken && isBlank cell.char with
  | cons cell rest => rfl
  | nil =>
      refine absurd (fun cell hmem => .inr ?_) h
      have hblank := List.dropWhile_eq_nil_iff.mp hline cell hmem
      rw [Bool.and_eq_true] at hblank
      exact hblank.2

/-- Where nothing more is to be seen, nothing more is kept but blanks. -/
theorem trimEnd_kept_append (h : ∀ cell ∈ after, cell.Unseen) (line : Line) :
    trimEnd (kept (line ++ after)) = trimEnd line.kept := by
  induction line with
  | nil => exact trimEnd_of_blank (blank_of_mem_kept h)
  | cons cell line ih =>
      by_cases hall : ∀ cell' ∈ cell :: line, cell'.Unseen
      · rw [trimEnd_of_blank (blank_of_mem_kept hall), trimEnd_of_blank (blank_of_mem_kept ?_)]
        exact List.forall_mem_append.mpr ⟨hall, h⟩
      · -- Something is seen in the cell itself or after it, so that what is kept of it is settled.
        have hcuts : (cell.taken || (isBlank cell.char && cutsNext (line ++ after))) =
            (cell.taken || (isBlank cell.char && cutsNext line)) := by
          by_cases hcell : cell.Unseen
          · rw [cutsNext_append fun hline => hall (List.forall_mem_cons.mpr ⟨hcell, hline⟩)]
          · rw [Cell.Unseen, not_or, Bool.not_eq_true, Bool.not_eq_true] at hcell
            rw [hcell.1, hcell.2, Bool.false_and, Bool.false_and]
        rw [List.cons_append, kept, kept, hcuts]
        split
        · exact ih
        · rw [trimEnd, trimEnd, ih]

theorem stripped_append (h : ∀ cell ∈ after, cell.Unseen) (line : Line) :
    stripped (line ++ after) = line.stripped := by
  rw [stripped, ← trim_trimEnd, trimEnd_kept_append h, trim_trimEnd, stripped]

theorem trim_masked_append (h : ∀ cell ∈ after, cell.Unseen) (line : Line) :
    trim (masked (line ++ after)) = trim line.masked := by
  rw [masked_append, trim_append_of_blank _ (blank_of_mem_masked h)]

end Line

theorem stands_append_tail (hquote : quote ∉ tail) (htail : Leaves isTokenPart tail) :
    Stands kind false (head ++ tail) o ↔ Stands kind false head o ∨
      ∃ later, Stands kind false tail later ∧ later.moved head.length = o := by
  simp only [← mem_occurrencesFrom, occurrencesFrom_append_tail hquote htail, List.mem_append,
    List.mem_map]

/-- Whatever is to be seen in a row belongs to a token. -/
theorem Row.covered {place : Nat} {c : Char} (h : Row texts cs) (hc : cs[place]? = some c) :
    isBlank c = true ∨ ∃ kind o, Stands kind false cs o ∧ o.Covers place := by
  induction h generalizing place with
  | nil h => exact .inl (h c (List.mem_of_getElem? hc))
  | @cons blanks text cs texts h htext hrow ih =>
      obtain ⟨kind, token, hspells⟩ := htext
      have hquote : quote ∉ cs := hrow.quote_not_mem
      rcases Nat.lt_or_ge place blanks.length with hblank | hafter
      · rw [List.getElem?_append_left hblank] at hc
        exact .inl (h c (List.mem_of_getElem? hc))
      · obtain ⟨i, rfl⟩ := Nat.exists_eq_add_of_le hafter
        rw [List.getElem?_append_right hafter, Nat.add_sub_cancel_left] at hc
        rcases Nat.lt_or_ge i text.length with hinside | hbeyond
        · exact .inr ⟨kind, ⟨blanks.length, text.length, token⟩,
            ⟨blanks, text, cs, rfl, hspells, rfl, rfl, .inr hquote⟩,
            Nat.le_add_right .., Nat.add_lt_add_left hinside _⟩
        · obtain ⟨j, rfl⟩ := Nat.exists_eq_add_of_le hbeyond
          rw [List.getElem?_append_right hbeyond, Nat.add_sub_cancel_left] at hc
          refine (ih hc).imp_right ?_
          rintro ⟨other, o, ⟨front, text', rest, rfl, htext', hposition, hlength, -⟩, hlow, hhigh⟩
          refine ⟨other, o.moved (blanks.length + text.length),
            ⟨blanks ++ (text ++ front), text', rest,
            by simp, htext', ?_, hlength, .inr fun hmem => hquote (by simp [hmem])⟩, ?_, ?_⟩
          · simp only [Occurrence.moved, hposition, List.length_append]
            omega
          · simp only [Occurrence.moved]
            omega
          · simp only [Occurrence.moved]
            omega

/-- When the tokens of a line that ends with a row of them are taken, nothing is to be seen of the
row, and the rest is what it would be without the row. -/
theorem Row.cover_append (h : Row texts tail) (head : List Char) :
    ∃ after : Line, (Line.ofText (head ++ tail)).cover (spansOf Kind.all (head ++ tail)) =
        (Line.ofText head).cover (spansOf Kind.all head) ++ after ∧
      ∀ cell ∈ after, cell.Unseen := by
  have hstands {kind : Kind} {o : Occurrence} : Stands kind false (head ++ tail) o ↔
      Stands kind false head o ∨
        ∃ later, Stands kind false tail later ∧ later.moved head.length = o :=
    stands_append_tail h.quote_not_mem h.leaves
  have hcovered {place : Nat} (hplace : place < head.length) :
      Covered (spansOf Kind.all (head ++ tail)) place ↔ Covered (spansOf Kind.all head) place := by
    refine exists_congr fun o => and_congr_left fun hcovers => ?_
    rw [mem_spansOf, mem_spansOf]
    refine exists_congr fun kind => and_congr_right fun _ => hstands.trans (or_iff_left ?_)
    rintro ⟨later, -, rfl⟩
    have hlow : later.position + head.length ≤ place := hcovers.1
    omega
  have htake : List.take head.length
      ((Line.ofText (head ++ tail)).cover (spansOf Kind.all (head ++ tail))) =
        (Line.ofText head).cover (spansOf Kind.all head) := by
    refine List.ext_getElem? fun place => ?_
    rw [List.getElem?_take]
    split
    · next hplace =>
        simp only [Line.getElem?_cover_ofText, List.getElem?_append_left hplace, hcovered hplace]
    · next hbeyond =>
        rw [List.getElem?_eq_none]
        rw [Line.length_cover, Line.ofText, List.length_map]
        exact Nat.not_lt.mp hbeyond
  refine ⟨List.drop head.length
    ((Line.ofText (head ++ tail)).cover (spansOf Kind.all (head ++ tail))), ?_, fun cell hmem => ?_⟩
  · rw [← htake, List.take_append_drop]
  · obtain ⟨i, hi⟩ := List.mem_iff_getElem?.mp hmem
    rw [List.getElem?_drop, Line.getElem?_cover_ofText,
      List.getElem?_append_right (Nat.le_add_right ..), Nat.add_sub_cancel_left] at hi
    obtain ⟨c, hc, rfl⟩ := Option.map_eq_some_iff.mp hi
    rcases h.covered hc with hblank | ⟨kind, o, ho, hlow, hhigh⟩
    · exact .inr hblank
    · refine .inl (decide_eq_true ⟨o.moved head.length, ?_, ?_, ?_⟩)
      · exact mem_spansOf.mpr ⟨kind, mem_all kind, hstands.mpr (.inr ⟨o, ho, rfl⟩)⟩
      · simp only [Occurrence.moved]
        omega
      · simp only [Occurrence.moved]
        omega

/-- A line that ends with a row of tokens reads as one with the tokens in any other order. -/
theorem Row.extract_perm (h : Row texts tail) {tail' : List Char} (h' : Row texts' tail')
    (hperm : texts.Perm texts') (hextract : extract (head ++ tail) = .ok (m, line)) :
    ∃ line', extract (head ++ tail') = .ok (m, line') ∧
      trim line'.masked = trim line.masked ∧ line'.stripped = line.stripped := by
  obtain ⟨hgives, rfl⟩ := extract_eq_ok_iff.mp hextract
  have htokens (kind : Kind) : (tokens kind (head ++ tail)).Perm (tokens kind (head ++ tail')) := by
    rw [tokens_append h.quote_not_mem h.leaves, tokens_append h'.quote_not_mem h'.leaves,
      h.tokens_eq, h'.tokens_eq]
    exact (hperm.filterMap _).append_left _
  obtain ⟨after, hcover, hafter⟩ := h.cover_append head
  obtain ⟨after', hcover', hafter'⟩ := h'.cover_append head
  refine ⟨_, extract_eq_ok_iff.mpr ⟨fun kind => (gives_congr (htokens kind)).mp (hgives kind), rfl⟩,
    ?_, ?_⟩
  · rw [hcover, hcover', Line.trim_masked_append hafter, Line.trim_masked_append hafter']
  · rw [hcover, hcover', Line.stripped_append hafter, Line.stripped_append hafter']

end CraftLang.Modifier
