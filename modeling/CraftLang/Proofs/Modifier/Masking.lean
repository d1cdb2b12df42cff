import CraftLang.Proofs.Modifier.Scans

/-!
What is left of a line when its modifiers are taken. The masked line is the line with blanks in the
places of the tokens, byte for byte, and has no modifiers of its own. A quoted argument that is
closed is never touched: it is there in the masked line and in the stripped one, after as many
quotation marks as before.
-/

namespace CraftLang

open Text

namespace Text

/-- Blanks in front of a text are not part of it. -/
theorem trim_append_left {blanks : List Char} (h : ∀ c ∈ blanks, isBlank c = true)
    (cs : List Char) : trim (blanks ++ cs) = trim cs := by
  rw [trim, trim, trimStart, trimStart, List.dropWhile_append_of_pos h]

theorem count_trimStart {c : Char} (h : isBlank c = false) (cs : List Char) :
    (trimStart cs).count c = cs.count c := by
  have hlead : (cs.takeWhile isBlank).count c = 0 := by
    refine List.count_eq_zero.mpr fun hmem => ?_
    rw [Grammar.of_mem_takeWhile hmem] at h
    cases h
  conv_rhs => rw [← List.takeWhile_append_dropWhile (p := isBlank) (l := cs)]
  rw [List.count_append, hlead, Nat.zero_add, trimStart]

end Text

namespace Modifier

open Grammar

variable {kind : Kind} {kinds : List Kind} {cs front inner back : List Char} {o : Occurrence}
  {m : Modifiers} {line : Line}

/-! ### Quoted arguments -/

/-- There is a closed quoted argument in the text, with `inner` between its marks. -/
structure Quotes (cs front inner back : List Char) : Prop where
  eq : cs = front ++ (quote :: (inner ++ quote :: back))
  outside : front.count quote % 2 = 0
  inside : quote ∉ inner

theorem quotesOpen_eq (odd : Bool) (cs : List Char) :
    quotesOpen odd cs = (odd != (cs.count quote % 2 == 1)) := by
  induction cs generalizing odd with
  | nil => exact (Bool.bne_false odd).symm
  | cons c cs ih =>
      rw [quotesOpen, List.foldl_cons, ← quotesOpen, ih, List.count_cons]
      have hparity := Nat.mod_two_eq_zero_or_one (cs.count quote)
      cases hc : c == quote with
      | false => rw [Bool.bne_false, if_neg Bool.false_ne_true, Nat.add_zero]
      | true =>
          rw [if_pos rfl, Nat.add_mod]
          rcases hparity with heven | hodd
          · rw [heven]
            cases odd <;> rfl
          · rw [hodd]
            cases odd <;> rfl

theorem Quotes.getElem?_open (h : Quotes cs front inner back) :
    cs[front.length]? = some quote := by
  rw [h.eq, List.getElem?_append_right (Nat.le_refl _), Nat.sub_self]
  rfl

theorem Quotes.getElem?_close (h : Quotes cs front inner back) :
    cs[front.length + (inner.length + 1)]? = some quote := by
  rw [h.eq, List.getElem?_append_right (Nat.le_add_right ..), Nat.add_sub_cancel_left,
    List.getElem?_cons_succ, List.getElem?_append_right (Nat.le_refl _), Nat.sub_self]
  rfl

/-- No token begins in a closed quoted argument, and none reaches into it. -/
theorem Quotes.place_of_stands (h : Quotes cs front inner back) (ho : Stands kind false cs o) :
    o.position + o.length ≤ front.length ∨ front.length + (inner.length + 2) ≤ o.position := by
  by_contra hnot
  rw [not_or, Nat.not_le, Nat.not_le] at hnot
  have hne {place : Nat} (hquote : cs[place]? = some quote) : ¬ o.Covers place := by
    intro hcovers
    obtain ⟨c, hc, -, hmark, -⟩ := ho.char_at hcovers
    exact hmark (Option.some.inj (hc.symm.trans hquote))
  have hstart : front.length < o.position := by
    by_contra hle
    exact hne h.getElem?_open ⟨Nat.not_lt.mp hle, hnot.1⟩
  have hend : o.position + o.length ≤ front.length + (inner.length + 1) := by
    by_contra hlt
    exact hne h.getElem?_close ⟨by omega, Nat.not_le.mp hlt⟩
  -- So the token would begin after the first mark, with the second one still to come.
  obtain ⟨-, -, houtside⟩ := stands_iff.mp ho
  rcases houtside with hclosed | hnone
  · obtain ⟨i, hi⟩ := Nat.exists_eq_add_of_lt hstart
    have hfront : cs.take o.position = front ++ quote :: inner.take i := by
      rw [h.eq, hi, Nat.add_assoc, List.take_length_add_append, List.take_succ_cons,
        List.take_append_of_le_length (by omega)]
    have hcount : (inner.take i).count quote = 0 :=
      List.count_eq_zero.mpr fun hmem => h.inside (List.mem_of_mem_take hmem)
    have hodd : (front.count quote + 1) % 2 = 1 := by
      rw [Nat.add_mod, h.outside]
    rw [hfront, quotesOpen_eq, List.count_append, List.count_cons_self, hcount, Nat.zero_add,
      hodd] at hclosed
    cases hclosed
  · refine hnone (List.mem_iff_getElem?.mpr
      ⟨front.length + (inner.length + 1) - (o.position + o.length), ?_⟩)
    rw [List.getElem?_drop, Nat.add_sub_cancel' hend]
    exact h.getElem?_close

/-! ### Lines of which no quotation mark is taken -/

namespace Line

def KeepsQuotes (line : Line) : Prop :=
  ∀ cell ∈ line, cell.taken = true → cell.char ≠ quote

theorem count_masked (h : line.KeepsQuotes) : line.masked.count quote = line.text.count quote := by
  induction line with
  | nil => rfl
  | cons cell line ih =>
      obtain ⟨hcell, hline⟩ := List.forall_mem_cons.mp h
      rw [masked_cons, text_cons, List.count_append, List.count_cons, ih hline, Nat.add_comm]
      split
      · next htaken =>
          have hspace : ¬ (' ' == quote) = true := by decide
          rw [List.count_replicate, if_neg hspace, if_neg (by simpa using hcell htaken)]
      · rw [List.count_singleton]

theorem count_kept (h : line.KeepsQuotes) : line.kept.count quote = line.text.count quote := by
  induction line with
  | nil => rfl
  | cons cell line ih =>
      obtain ⟨hcell, hline⟩ := List.forall_mem_cons.mp h
      rw [kept, text_cons, List.count_cons]
      split
      · next hleft =>
          have hne : cell.char ≠ quote := by
            intro heq
            rw [Bool.or_eq_true, Bool.and_eq_true] at hleft
            rcases hleft with htaken | ⟨hblank, -⟩
            · exact hcell htaken heq
            · rw [heq] at hblank
              exact absurd hblank (by decide)
          rw [ih hline, if_neg (by simpa using hne)]
          rfl
      · rw [List.count_cons, ih hline]

theorem masked_append (before after : Line) :
    masked (before ++ after) = before.masked ++ after.masked :=
  List.flatMap_append

theorem cutsNext_append_cons (before : Line) {c : Char} (h : isBlank c = false) (after : Line) :
    cutsNext (before ++ { char := c } :: after) = cutsNext before := by
  have hstop : List.dropWhile (fun cell : Cell => !cell.taken && isBlank cell.char)
      ({ char := c } :: after) = { char := c } :: after :=
    List.dropWhile_cons_of_neg (by simp [h])
  rw [cutsNext, cutsNext, List.dropWhile_append]
  cases hbefore : before.dropWhile fun cell => !cell.taken && isBlank cell.char with
  | nil => rw [List.isEmpty_nil, if_pos rfl, hstop]
  | cons cell rest => rfl

/-- What is kept on one side of a visible character has nothing to do with the other side. -/
theorem kept_append_cons (before : Line) {c : Char} (h : isBlank c = false) (after : Line) :
    kept (before ++ { char := c } :: after) = before.kept ++ c :: after.kept := by
  induction before with
  | nil =>
      have hstays : ¬ (false || (isBlank c && cutsNext after)) = true := by simp [h]
      exact if_neg hstays
  | cons cell before ih =>
      rw [List.cons_append, kept, kept, cutsNext_append_cons before h, ih]
      split <;> rfl

theorem cutsNext_ofText (cs : List Char) : cutsNext (ofText cs) = false := by
  rw [cutsNext]
  split
  · next cell rest hdrop =>
      have hmem : cell ∈ ofText cs :=
        (List.dropWhile_suffix _).subset (hdrop ▸ List.mem_cons_self)
      obtain ⟨c, -, rfl⟩ := List.mem_map.mp hmem
      rfl
  · rfl

/-- Nothing is left out of a line from which nothing is taken. -/
theorem kept_ofText (cs : List Char) : (ofText cs).kept = cs := by
  induction cs with
  | nil => rfl
  | cons c cs ih =>
      have hstays : ¬ (false || (isBlank c && cutsNext (ofText cs))) = true := by
        rw [cutsNext_ofText, Bool.and_false]
        exact Bool.false_ne_true
      conv_rhs => rw [← ih]
      exact if_neg hstays

end Line

/-! ### Quoted arguments in what is left of a line -/

theorem Line.eq_ofText (h : ∀ cell ∈ line, cell.taken = false) : line = Line.ofText line.text := by
  rw [Line.ofText, Line.text, List.map_map]
  refine (List.map_id' line).symm.trans (List.map_congr_left fun cell hmem => ?_)
  obtain ⟨c, taken⟩ := cell
  exact congrArg (Cell.mk c) (h _ hmem)

/-- A quoted argument of a line, in the cells of the line. -/
theorem Quotes.eq_append_of_line {cells : Line} (h : Quotes cs front inner back)
    (htext : cells.text = cs)
    (huntaken : ∀ i cell, cells[front.length + i]? = some cell → i < inner.length + 2 →
      cell.taken = false) :
    ∃ before after : Line, cells = before ++ { char := quote } ::
        (Line.ofText inner ++ { char := quote } :: after) ∧ before.text = front := by
  rw [h.eq] at htext
  obtain ⟨before, argument, rfl, rfl, hargument⟩ := List.map_eq_append_iff.mp htext
  obtain ⟨first, rest, rfl, hfirst, hrest⟩ := List.map_eq_cons_iff.mp hargument
  obtain ⟨middle, closing, rfl, rfl, hclosing⟩ := List.map_eq_append_iff.mp hrest
  obtain ⟨last, after, rfl, hlast, -⟩ := List.map_eq_cons_iff.mp hclosing
  have hcell (i : Nat) (cell : Cell) (hi : (first :: (middle ++ last :: after))[i]? = some cell)
      (hlt : i < middle.length + 2) : cell.taken = false := by
    refine huntaken i cell ?_ (by rwa [List.length_map])
    rw [List.length_map, List.getElem?_append_right (Nat.le_add_right ..),
      Nat.add_sub_cancel_left, hi]
  have hopen : first = { char := quote } := by
    obtain ⟨c, taken⟩ := first
    obtain rfl : c = quote := hfirst
    exact congrArg (Cell.mk quote) (hcell 0 _ rfl (by omega))
  have hclose : last = { char := quote } := by
    obtain ⟨c, taken⟩ := last
    obtain rfl : c = quote := hlast
    refine congrArg (Cell.mk quote) (hcell (middle.length + 1) ⟨quote, taken⟩ ?_ (by omega))
    rw [List.getElem?_cons_succ, List.getElem?_append_right (Nat.le_refl _), Nat.sub_self]
    rfl
  have hmiddle : middle = Line.ofText (Line.text middle) := by
    refine Line.eq_ofText fun cell hmem => ?_
    obtain ⟨i, hi⟩ := List.mem_iff_getElem?.mp hmem
    have hlt : i < middle.length := (List.getElem?_eq_some_iff.mp hi).1
    refine hcell (i + 1) cell ?_ (by omega)
    rw [List.getElem?_cons_succ, List.getElem?_append_left hlt, hi]
  refine ⟨before, after, ?_, rfl⟩
  rw [hopen, hclose, ← Line.text, ← hmiddle]

theorem Quotes.masked (h : Quotes cs front inner back) (hkeeps : line.KeepsQuotes)
    {before after : Line} (hline : line = before ++ { char := quote } ::
      (Line.ofText inner ++ { char := quote } :: after)) (hbefore : before.text = front) :
    ∃ front' back', Quotes line.masked front' inner back' ∧ byteLength front' = byteLength front ∧
      front'.count quote = front.count quote := by
  have hcount : before.masked.count quote = front.count quote := by
    rw [Line.count_masked fun cell hmem => hkeeps cell (by simp [hline, hmem]), hbefore]
  refine ⟨before.masked, after.masked, ⟨?_, ?_, h.inside⟩, ?_, hcount⟩
  · rw [hline, Line.masked_append, Line.masked_cons, Line.masked_append, Line.masked_ofText,
      Line.masked_cons]
    rfl
  · rw [hcount, h.outside]
  · rw [Line.byteLength_masked, hbefore]

theorem Quotes.stripped (h : Quotes cs front inner back) (hkeeps : line.KeepsQuotes)
    {before after : Line} (hline : line = before ++ { char := quote } ::
      (Line.ofText inner ++ { char := quote } :: after)) (hbefore : before.text = front) :
    ∃ front' back', Quotes line.stripped front' inner back' ∧
      front'.count quote = front.count quote := by
  have hquote : isBlank quote = false := by decide
  have hcount : (trimStart before.kept).count quote = front.count quote := by
    rw [count_trimStart hquote,
      Line.count_kept fun cell hmem => hkeeps cell (by simp [hline, hmem]), hbefore]
  refine ⟨trimStart before.kept, trimEnd after.kept, ⟨?_, ?_, h.inside⟩, hcount⟩
  · rw [Line.stripped, hline, Line.kept_append_cons _ hquote, Line.kept_append_cons _ hquote,
      Line.kept_ofText, trim_append_cons _ hquote, trimEnd_append_cons _ hquote]
  · rw [hcount, h.outside]

/-! ### What is taken -/

/-- The tokens of different kinds, and of one kind, are apart from each other. -/
theorem pairwise_spansOf (hnodup : kinds.Nodup) (cs : List Char) :
    (spansOf kinds cs).Pairwise fun o o' => ∀ place, ¬ (o.Covers place ∧ o'.Covers place) := by
  refine List.pairwise_flatMap.mpr ⟨fun kind _ => ?_, hnodup.imp fun {kind other} hne => ?_⟩
  · refine (pairwise_occurrencesFrom kind false cs).imp_of_mem fun {o o'} ho ho' hlt place hplace =>
      ?_
    obtain ⟨-, rfl⟩ := (mem_occurrencesFrom.mp ho).eq_of_covers (mem_occurrencesFrom.mp ho')
      hplace.1 hplace.2
    exact Nat.lt_irrefl _ hlt
  · intro o ho o' ho' place hplace
    exact hne ((mem_occurrencesFrom.mp ho).eq_of_covers (mem_occurrencesFrom.mp ho')
      hplace.1 hplace.2).1

theorem Line.masked_cover (cs : List Char) (spans : List Occurrence) :
    ((Line.ofText cs).cover spans).masked = (cs.mapIdx fun place c =>
      if Covered spans place then List.replicate c.utf8Size ' ' else [c]).flatten := by
  have hcells : ((Line.ofText cs).cover spans).map (fun cell =>
      if cell.taken then List.replicate cell.char.utf8Size ' ' else [cell.char]) =
      cs.mapIdx fun place c =>
        if Covered spans place then List.replicate c.utf8Size ' ' else [c] := by
    refine List.ext_getElem? fun place => ?_
    simp only [List.getElem?_map, Line.getElem?_cover_ofText, List.getElem?_mapIdx,
      Option.map_map, Function.comp_def, decide_eq_true_eq]
  rw [← hcells, Line.masked, List.flatMap_def]

theorem Line.keepsQuotes_cover {spans : List Occurrence}
    (hspans : ∀ span ∈ spans, ∃ kind, Stands kind false cs span) :
    ((Line.ofText cs).cover spans).KeepsQuotes := by
  intro cell hmem htaken hquote
  obtain ⟨place, hplace⟩ := List.mem_iff_getElem?.mp hmem
  rw [Line.getElem?_cover_ofText] at hplace
  obtain ⟨c, hc, rfl⟩ := Option.map_eq_some_iff.mp hplace
  obtain ⟨span, hspan, hcovers⟩ := of_decide_eq_true htaken
  obtain ⟨kind, hstands⟩ := hspans span hspan
  obtain ⟨d, hd, -, hmark, -⟩ := hstands.char_at hcovers
  exact hmark (Option.some.inj (hd.symm.trans hc) ▸ hquote)

/-- Where no token stands there is nothing to be taken. -/
theorem extract_of_not_stands (h : ∀ kind o, ¬ Stands kind false cs o) :
    extract cs = .ok ({}, Line.ofText cs) := by
  refine extract_eq_ok_iff.mpr ⟨fun kind => ?_, ?_⟩
  · rw [Modifiers.only_neutral]
    exact .none (h kind)
  · have hspans : spansOf Kind.all cs = [] := by
      refine List.eq_nil_iff_forall_not_mem.mpr fun o hmem => ?_
      obtain ⟨kind, -, ho⟩ := mem_spansOf.mp hmem
      exact h kind o ho
    rw [hspans, Line.cover_nil]

/-- A line has no modifiers, if all its brackets are in a closed quoted argument. -/
theorem extract_of_quotes (h : Quotes cs front inner back)
    (hfront : '<' ∉ front) (hback : '<' ∉ back) : extract cs = .ok ({}, Line.ofText cs) := by
  refine extract_of_not_stands fun kind o ho => ?_
  obtain ⟨c, hc, -, -, hopen⟩ := ho.char_at ho.covers_position
  obtain rfl := hopen.mpr rfl
  rcases h.place_of_stands ho with hbefore | hafter
  · have hlt : o.position < front.length := Nat.lt_of_lt_of_le ho.covers_position.2 hbefore
    rw [h.eq, List.getElem?_append_left hlt] at hc
    exact hfront (List.mem_of_getElem? hc)
  · have hcs : cs = front ++ (quote :: (inner ++ [quote])) ++ back := by simp [h.eq]
    have hle : (front ++ (quote :: (inner ++ [quote]))).length ≤ o.position := by
      simp only [List.length_append, List.length_cons, List.length_nil]
      omega
    rw [hcs, List.getElem?_append_right hle] at hc
    exact hback (List.mem_of_getElem? hc)

/-- Taking the modifiers from a masked line again finds nothing. -/
theorem extract_masked (h : line = (Line.ofText cs).cover (spansOf Kind.all cs)) :
    extract line.masked = .ok ({}, Line.ofText line.masked) := by
  refine extract_of_not_stands fun kind o ho => ?_
  obtain ⟨o', ho'⟩ := ho.of_masked
  rw [h, stands_shown_cover fun span hmem =>
    (mem_spansOf.mp hmem).imp fun _ => And.right] at ho'
  exact ho'.2 (mem_spansOf.mpr ⟨kind, mem_all kind, ho'.1⟩)

/-- The line is the text with the given tokens taken from it, and masked it is as good as the text
to a reader of anything but modifiers. -/
structure Masks (cs : List Char) (spans : List Occurrence) (line : Line) : Prop where
  /-- What is taken is the tokens. -/
  taken : line = (Line.ofText cs).cover spans
  /-- Offsets in bytes stay valid. -/
  bytes : byteLength line.masked = byteLength cs
  /-- The masked line has as many spaces in the place of a token as the token has bytes, and the
  characters of the text everywhere else. -/
  masked : line.masked = (cs.mapIdx fun place c =>
    if Covered spans place then List.replicate c.utf8Size ' ' else [c]).flatten
  apart : spans.Pairwise fun o o' => ∀ place, ¬ (o.Covers place ∧ o'.Covers place)
  brackets : ∀ o ∈ spans, ∃ inner, (cs.drop o.position).take o.length = '<' :: (inner ++ ['>'])
  /-- No token begins in a closed quoted argument or reaches into it. -/
  outside : ∀ front inner back, Quotes cs front inner back → ∀ o ∈ spans,
    o.position + o.length ≤ front.length ∨ front.length + (inner.length + 2) ≤ o.position
  /-- Every closed quoted argument is there in the masked line, at the same byte. -/
  quoted : ∀ front inner back, Quotes cs front inner back → ∃ front' back',
    Quotes line.masked front' inner back' ∧ byteLength front' = byteLength front ∧
      front'.count quote = front.count quote
  /-- Every closed quoted argument is there in the stripped line, after as many marks. -/
  stripped : ∀ front inner back, Quotes cs front inner back → ∃ front' back',
    Quotes line.stripped front' inner back' ∧ front'.count quote = front.count quote

/-- What is left of a line when its modifiers are taken, and that nothing more can be taken from
it. -/
theorem masks_of_extract (h : extract cs = .ok (m, line)) :
    Masks cs (spansOf Kind.all cs) line ∧
      extract line.masked = .ok ({}, Line.ofText line.masked) := by
  obtain ⟨-, hline⟩ := extract_eq_ok_iff.mp h
  have hspans : ∀ span ∈ spansOf Kind.all cs, ∃ kind, Stands kind false cs span :=
    fun span hmem => (mem_spansOf.mp hmem).imp fun _ => And.right
  have hkeeps : line.KeepsQuotes := hline ▸ Line.keepsQuotes_cover hspans
  have houtside : ∀ front inner back, Quotes cs front inner back → ∀ o ∈ spansOf Kind.all cs,
      o.position + o.length ≤ front.length ∨ front.length + (inner.length + 2) ≤ o.position := by
    intro front inner back hquotes o hmem
    obtain ⟨kind, ho⟩ := hspans o hmem
    exact hquotes.place_of_stands ho
  have hcells : ∀ front inner back, Quotes cs front inner back → ∃ before after : Line,
      line = before ++ { char := quote } :: (Line.ofText inner ++ { char := quote } :: after) ∧
        before.text = front := by
    intro front inner back hquotes
    refine hquotes.eq_append_of_line (by rw [hline, Line.text_cover, Line.text_ofText])
      fun i cell hcell hi => ?_
    rw [hline, Line.getElem?_cover_ofText] at hcell
    obtain ⟨c, -, rfl⟩ := Option.map_eq_some_iff.mp hcell
    refine decide_eq_false ?_
    rintro ⟨o, hmem, hlow, hhigh⟩
    rcases houtside front inner back hquotes o hmem with hbefore | hafter
    · omega
    · omega
  refine ⟨⟨hline, ?_, ?_, pairwise_spansOf nodup_all cs, fun o hmem => ?_, houtside,
    fun front inner back hquotes => ?_, fun front inner back hquotes => ?_⟩, extract_masked hline⟩
  · rw [Line.byteLength_masked, hline, Line.text_cover, Line.text_ofText]
  · rw [hline, Line.masked_cover]
  · obtain ⟨kind, ho⟩ := hspans o hmem
    obtain ⟨inner, htext, -⟩ := spells_iff.mp (stands_iff.mp ho).2.1
    exact ⟨inner, htext⟩
  · obtain ⟨before, after, hsplit, hbefore⟩ := hcells front inner back hquotes
    exact hquotes.masked hkeeps hsplit hbefore
  · obtain ⟨before, after, hsplit, hbefore⟩ := hcells front inner back hquotes
    exact hquotes.stripped hkeeps hsplit hbefore

theorem masks_of_extract_oddItem :
    ∃ m line, extract "/item \"Odd <hq>\" <unſafe>".toList = .ok (m, line) ∧
      Masks "/item \"Odd <hq>\" <unſafe>".toList
        [⟨17, 8, .unconfirmed⟩] line ∧
      line.stripped = "/item \"Odd <hq>\"".toList ∧
      extract line.masked = .ok ({}, Line.ofText line.masked) := by
  have hextract : extract "/item \"Odd <hq>\" <unſafe>".toList =
      .ok ({ unconfirmed := true }, Line.cut "/item \"Odd <hq>\" ".toList "<unſafe>".toList) := by
    rfl
  obtain ⟨hmasks, hagain⟩ := masks_of_extract hextract
  exact ⟨_, _, hextract, hmasks, by rfl, hagain⟩

end Modifier

end CraftLang
