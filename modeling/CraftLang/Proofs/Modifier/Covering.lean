import CraftLang.Proofs.Modifier.Occurrences
import CraftLang.Proofs.Source.Positions

/-!
Lines of which tokens are taken. Two tokens that share a place are the same token. So when some of
the tokens that stand in a line are blanked out, the others still stand where they stood and no
token appears that was not there; quotation marks are never blanked out.
-/

namespace CraftLang.Modifier

open Text Grammar

variable {kind other : Kind} {cs : List Char} {odd : Bool} {o o' : Occurrence} {place : Nat}
  {spans spans' : List Occurrence} {line : Line}

/-! ### The places of a token -/

def Occurrence.moved (o : Occurrence) (n : Nat) : Occurrence :=
  { o with position := o.position + n }

def Occurrence.Covers (o : Occurrence) (place : Nat) : Prop :=
  o.position ≤ place ∧ place < o.position + o.length

instance (o : Occurrence) (place : Nat) : Decidable (o.Covers place) :=
  inferInstanceAs (Decidable (_ ∧ _))

def Covered (spans : List Occurrence) (place : Nat) : Prop :=
  ∃ o ∈ spans, o.Covers place

instance (spans : List Occurrence) (place : Nat) : Decidable (Covered spans place) :=
  inferInstanceAs (Decidable (∃ o ∈ spans, o.Covers place))

theorem covered_append :
    Covered (spans ++ spans') place ↔ Covered spans place ∨ Covered spans' place := by
  simp only [Covered, List.mem_append, or_and_right, exists_or]

theorem Covered.mono (h : Covered spans place) (hsub : spans ⊆ spans') : Covered spans' place :=
  h.imp fun _ => And.imp_left fun hmem => hsub hmem

/-- A standing token, by where it starts and ends. -/
theorem stands_iff :
    Stands kind odd cs o ↔
      o.position + o.length ≤ cs.length ∧
        Spells kind ((cs.drop o.position).take o.length) o.token ∧
          (quotesOpen odd (cs.take o.position) = false ∨
            quote ∉ cs.drop (o.position + o.length)) := by
  constructor
  · rintro ⟨front, text, rest, rfl, htext, hposition, hlength, houtside⟩
    rw [hposition, hlength, ← List.drop_drop, List.drop_left, List.take_left, List.drop_left,
      List.take_left]
    refine ⟨?_, htext, houtside⟩
    rw [List.length_append, List.length_append]
    omega
  · rintro ⟨hbound, htext, houtside⟩
    refine ⟨cs.take o.position, (cs.drop o.position).take o.length,
      cs.drop (o.position + o.length), ?_, htext, ?_, ?_, houtside⟩
    · rw [← List.drop_drop, List.take_append_drop, List.take_append_drop]
    · rw [List.length_take]
      omega
    · rw [List.length_take, List.length_drop]
      omega

/-- The characters of a standing token: no blank, no quotation mark, and just one opening
bracket. -/
theorem Stands.char_at (h : Stands kind odd cs o) (hplace : o.Covers place) :
    ∃ c, cs[place]? = some c ∧ isBlank c = false ∧ c ≠ quote ∧ (c = '<' ↔ place = o.position) := by
  obtain ⟨front, text, rest, rfl, htext, hposition, hlength, -⟩ := h
  obtain ⟨i, rfl⟩ := Nat.exists_eq_add_of_le hplace.1
  have hi : i < text.length := by
    have := hplace.2
    omega
  have hchar : (front ++ (text ++ rest))[o.position + i]? = some text[i] := by
    rw [hposition, List.getElem?_append_right (Nat.le_add_right ..), Nat.add_sub_cancel_left,
      List.getElem?_append_left hi, List.getElem?_eq_getElem hi]
  have hmem : text[i] ∈ text := List.getElem_mem hi
  refine ⟨text[i], hchar, htext.visible _ hmem, ?_, ?_⟩
  · intro heq
    exact htext.quote_not_mem (heq ▸ hmem)
  · obtain ⟨inner, rfl, hinner⟩ := htext.eq_cons
    cases i with
    | zero => simp
    | succ i =>
        have hne : ('<' :: inner)[i + 1] ≠ '<' := by
          intro heq
          rw [List.getElem_cons_succ] at heq
          exact hinner (heq ▸ List.getElem_mem _)
        exact iff_of_false hne (by omega)

theorem Stands.covers_position (h : Stands kind odd cs o) : o.Covers o.position := by
  obtain ⟨front, text, rest, -, htext, -, hlength, -⟩ := h
  obtain ⟨inner, rfl, -⟩ := htext.eq_cons
  exact ⟨Nat.le_refl _, by rw [hlength, List.length_cons]; omega⟩

/-- Of two tokens that share a place, neither starts after the other. -/
theorem Stands.position_le {odd' : Bool} (h : Stands kind odd cs o) (h' : Stands other odd' cs o')
    (hplace : o.Covers place) (hplace' : o'.Covers place) : o'.position ≤ o.position := by
  by_contra hlater
  -- The bracket that opens the later token would be inside the other one.
  have hinside : o.Covers o'.position := by
    obtain ⟨hlow, hhigh⟩ := hplace
    obtain ⟨hlow', hhigh'⟩ := hplace'
    exact ⟨by omega, by omega⟩
  obtain ⟨c, hc, -, -, hopen⟩ := h.char_at hinside
  obtain ⟨c', hc', -, -, hopen'⟩ := h'.char_at h'.covers_position
  obtain rfl := Option.some.inj (hc.symm.trans hc')
  exact hlater (Nat.le_of_eq (hopen.mp (hopen'.mpr rfl)))

/-- Two tokens that share a place are the same token. -/
theorem Stands.eq_of_covers {odd' : Bool} (h : Stands kind odd cs o) (h' : Stands other odd' cs o')
    (hplace : o.Covers place) (hplace' : o'.Covers place) : kind = other ∧ o = o' := by
  have hposition : o.position = o'.position :=
    Nat.le_antisymm (h'.position_le h hplace' hplace) (h.position_le h' hplace hplace')
  obtain ⟨front, text, rest, hcs, htext, hfront, hlength, -⟩ := h
  obtain ⟨front', text', rest', hcs', htext', hfront', hlength', -⟩ := h'
  have hrest : text ++ rest = text' ++ rest' := by
    refine (List.append_inj (hcs.symm.trans hcs') ?_).2
    rw [← hfront, ← hfront', hposition]
  obtain ⟨rfl, hkind, htoken⟩ := htext.unique htext' hrest
  obtain ⟨position, length, token⟩ := o
  obtain ⟨position', length', token'⟩ := o'
  simp only at hposition hlength hlength' htoken
  rw [hposition, hlength, hlength', htoken]
  exact ⟨hkind, rfl⟩

/-- What stands in a text is a token of one kind only. -/
theorem Stands.kind_eq {odd' : Bool} (h : Stands kind odd cs o) (h' : Stands other odd' cs o) :
    kind = other :=
  (h.eq_of_covers h' h.covers_position h'.covers_position).1

/-! ### Lines -/

namespace Line

def cover (line : Line) (spans : List Occurrence) : Line :=
  line.mapIdx fun place cell => { cell with taken := cell.taken || decide (Covered spans place) }

theorem getElem?_cover (cells : Line) (spans : List Occurrence) (place : Nat) :
    (cells.cover spans)[place]? =
      cells[place]?.map fun cell =>
        { cell with taken := cell.taken || decide (Covered spans place) } :=
  List.getElem?_mapIdx

theorem cover_nil (line : Line) : line.cover [] = line := by
  refine List.ext_getElem? fun place => ?_
  have hnot : ¬ Covered [] place := nofun
  simp [getElem?_cover, hnot]

theorem cover_append (line : Line) (spans spans' : List Occurrence) :
    line.cover (spans ++ spans') = (line.cover spans).cover spans' := by
  refine List.ext_getElem? fun place => ?_
  simp only [getElem?_cover, Option.map_map, covered_append, Bool.decide_or, Function.comp_def,
    Bool.or_assoc]

/-- What is taken of a line does not depend on the order in which it is taken. -/
theorem cover_congr (line : Line) (h : ∀ o, o ∈ spans ↔ o ∈ spans') :
    line.cover spans = line.cover spans' := by
  have hcovered (place : Nat) : Covered spans place ↔ Covered spans' place :=
    ⟨fun hplace => hplace.mono fun o => (h o).mp, fun hplace => hplace.mono fun o => (h o).mpr⟩
  simp only [cover, hcovered]

theorem getElem?_mark (cells : Line) (position length place : Nat) :
    (cells.mark position length)[place]? = cells[place]?.map fun cell =>
      if position ≤ place ∧ place < position + length then { cell with taken := true }
        else cell := by
  have hfront : (cells.take position).length = min position cells.length := List.length_take
  have hmid : (((cells.drop position).take length).map ({ · with taken := true })).length =
      min length (cells.length - position) := by
    rw [List.length_map, List.length_take, List.length_drop]
  rw [mark, List.append_assoc]
  rcases Nat.lt_or_ge place cells.length with hplace | hend
  · rcases Nat.lt_or_ge place position with hbefore | hafter
    · rw [List.getElem?_append_left (by omega), List.getElem?_take_of_lt hbefore]
      simp only [Nat.not_le.mpr hbefore, false_and, if_false, Option.map_id']
    · obtain ⟨i, rfl⟩ := Nat.exists_eq_add_of_le hafter
      rw [List.getElem?_append_right (by omega), hfront, Nat.min_eq_left (by omega),
        Nat.add_sub_cancel_left]
      rcases Nat.lt_or_ge i length with hinside | hbeyond
      · rw [List.getElem?_append_left (by omega), List.getElem?_map,
          List.getElem?_take_of_lt hinside, List.getElem?_drop]
        simp only [Nat.le_add_right, Nat.add_lt_add_iff_left, hinside, and_self, if_true]
      · rw [List.getElem?_append_right (by omega), hmid, Nat.min_eq_left (by omega),
          List.getElem?_drop, Nat.add_assoc, Nat.add_sub_cancel' hbeyond]
        simp only [Nat.add_lt_add_iff_left, Nat.not_lt.mpr hbeyond, and_false, if_false,
          Option.map_id']
  · rw [List.getElem?_eq_none hend, List.getElem?_eq_none]
    · rfl
    · rw [List.length_append, List.length_append, hfront, hmid, List.length_drop]
      omega

theorem mark_eq_cover (line : Line) (o : Occurrence) :
    line.mark o.position o.length = line.cover [o] := by
  refine List.ext_getElem? fun place => ?_
  rw [getElem?_mark, getElem?_cover]
  refine congrArg (Option.map · _) (funext fun cell => ?_)
  have hcovered : Covered [o] place ↔ o.position ≤ place ∧ place < o.position + o.length := by
    simp [Covered, Occurrence.Covers]
  by_cases hplace : o.position ≤ place ∧ place < o.position + o.length
  · simp [hcovered, hplace]
  · simp [hcovered, hplace]

@[simp] theorem text_cover (line : Line) (spans : List Occurrence) :
    (line.cover spans).text = line.text := by
  refine List.ext_getElem? fun place => ?_
  simp only [text, List.getElem?_map, getElem?_cover, Option.map_map, Function.comp_def]

theorem shown_cons (cell : Cell) (line : Line) :
    shown (cell :: line) = (if cell.taken then ' ' else cell.char) :: line.shown := rfl

@[simp] theorem length_shown (line : Line) : line.shown.length = line.length :=
  List.length_map _

@[simp] theorem length_cover (line : Line) (spans : List Occurrence) :
    (line.cover spans).length = line.length :=
  List.length_mapIdx

theorem getElem?_cover_ofText (cs : List Char) (spans : List Occurrence) (place : Nat) :
    ((ofText cs).cover spans)[place]? =
      cs[place]?.map fun c => { char := c, taken := decide (Covered spans place) } := by
  simp only [getElem?_cover, ofText, List.getElem?_map, Option.map_map, Function.comp_def,
    Bool.false_or]

theorem getElem?_shown_cover (cs : List Char) (spans : List Occurrence) (place : Nat) :
    ((ofText cs).cover spans).shown[place]? =
      cs[place]?.map fun c => if Covered spans place then ' ' else c := by
  simp only [shown, List.getElem?_map, getElem?_cover_ofText, Option.map_map, Function.comp_def,
    decide_eq_true_eq]

end Line

/-! ### What stands in a line of which tokens are taken -/

theorem quotesOpen_congr {cs' : List Char} (h : cs.map (· == quote) = cs'.map (· == quote)) :
    quotesOpen odd cs = quotesOpen odd cs' := by
  have hmarks (cs : List Char) :
      quotesOpen odd cs = (cs.map (· == quote)).foldl (· != ·) odd := List.foldl_map.symm
  rw [hmarks, hmarks, h]

theorem quote_mem_congr {cs' : List Char} (h : cs.map (· == quote) = cs'.map (· == quote)) :
    quote ∈ cs ↔ quote ∈ cs' := by
  have hmarks (cs : List Char) : quote ∈ cs ↔ true ∈ cs.map (· == quote) := by simp
  rw [hmarks, hmarks, h]

section Taken

variable (hspans : ∀ span ∈ spans, ∃ kind, Stands kind false cs span)
include hspans

/-- Quotation marks are where they were. -/
theorem quotes_shown_cover :
    ((Line.ofText cs).cover spans).shown.map (· == quote) = cs.map (· == quote) := by
  refine List.ext_getElem? fun place => ?_
  rw [List.getElem?_map, List.getElem?_map, Line.getElem?_shown_cover, Option.map_map]
  by_cases hcovered : Covered spans place
  · obtain ⟨span, hmem, hplace⟩ := hcovered
    obtain ⟨kind, hstands⟩ := hspans span hmem
    obtain ⟨c, hc, -, hquote, -⟩ := hstands.char_at hplace
    have hcovered : Covered spans place := ⟨span, hmem, hplace⟩
    have hne : (c == quote) = false := beq_eq_false_iff_ne.mpr hquote
    simp only [hc, Option.map_some, Function.comp_apply, if_pos hcovered, hne]
    rfl
  · simp only [if_neg hcovered, Function.comp_def]

/-- A token none of whose places is taken stands in the line as in the text. -/
theorem stands_shown_cover_of_free (hfree : ∀ place, o.Covers place → ¬ Covered spans place) :
    Stands kind false ((Line.ofText cs).cover spans).shown o ↔ Stands kind false cs o := by
  have hlength : ((Line.ofText cs).cover spans).shown.length = cs.length := by
    rw [Line.length_shown, Line.length_cover, Line.ofText, List.length_map]
  have hslice : (((Line.ofText cs).cover spans).shown.drop o.position).take o.length =
      (cs.drop o.position).take o.length := by
    refine List.ext_getElem? fun i => ?_
    rw [List.getElem?_take, List.getElem?_take]
    split
    · next hi =>
        have hplace : ¬ Covered spans (o.position + i) := hfree _ ⟨by omega, by omega⟩
        rw [List.getElem?_drop, List.getElem?_drop, Line.getElem?_shown_cover]
        simp only [if_neg hplace, Option.map_id']
    · rfl
  have hquotes := quotes_shown_cover hspans
  have hbefore := congrArg (List.take o.position) hquotes
  have hafter := congrArg (List.drop (o.position + o.length)) hquotes
  rw [← List.map_take, ← List.map_take] at hbefore
  rw [← List.map_drop, ← List.map_drop] at hafter
  rw [stands_iff, stands_iff, hlength, hslice, quotesOpen_congr hbefore, quote_mem_congr hafter]

/-- In a line of which some tokens are taken stand the others, and no more. -/
theorem stands_shown_cover :
    Stands kind false ((Line.ofText cs).cover spans).shown o ↔
      Stands kind false cs o ∧ o ∉ spans := by
  constructor
  · intro h
    -- A place that is taken shows a blank, and no token has one.
    have hfree : ∀ place, o.Covers place → ¬ Covered spans place := by
      intro place hplace hcovered
      obtain ⟨c, hc, hvisible, -⟩ := h.char_at hplace
      simp only [Line.getElem?_shown_cover, if_pos hcovered] at hc
      obtain ⟨d, -, rfl⟩ := Option.map_eq_some_iff.mp hc
      exact absurd hvisible (by decide)
    have hstands := (stands_shown_cover_of_free hspans hfree).mp h
    exact ⟨hstands, fun hmem =>
      hfree o.position hstands.covers_position ⟨o, hmem, hstands.covers_position⟩⟩
  · rintro ⟨h, hnot⟩
    refine (stands_shown_cover_of_free hspans fun place hplace hcovered => ?_).mpr h
    obtain ⟨span, hmem, hplace'⟩ := hcovered
    obtain ⟨other, hstands⟩ := hspans span hmem
    obtain ⟨-, rfl⟩ := h.eq_of_covers hstands hplace hplace'
    exact hnot hmem

end Taken

/-! ### Masked lines -/

/-- Text without spaces that a masked line begins with is there in the line itself. -/
theorem exists_shown_of_masked {text rest : List Char} (h : line.masked = text ++ rest)
    (htext : ' ' ∉ text) : ∃ rest', line.shown = text ++ rest' := by
  induction line generalizing text with
  | nil =>
      obtain ⟨rfl, -⟩ := List.append_eq_nil_iff.mp h.symm
      exact ⟨[], rfl⟩
  | cons cell line ih =>
      cases text with
      | nil => exact ⟨_, rfl⟩
      | cons c text =>
          rw [List.mem_cons, not_or] at htext
          rw [Line.masked_cons] at h
          by_cases htaken : cell.taken = true
          · obtain ⟨size, hsize⟩ := Nat.exists_eq_add_of_lt (Char.utf8Size_pos cell.char)
            rw [if_pos htaken, hsize, List.replicate_succ] at h
            exact absurd (List.cons.inj h).1 htext.1
          · rw [if_neg htaken] at h
            obtain ⟨rfl, hlater⟩ := List.cons.inj h
            obtain ⟨rest', hrest⟩ := ih hlater htext.2
            refine ⟨rest', ?_⟩
            rw [Line.shown, List.map_cons, if_neg htaken, ← Line.shown, hrest]
            rfl

theorem mem_masked_iff {c : Char} (hc : c ≠ ' ') : c ∈ line.masked ↔ c ∈ line.shown := by
  induction line with
  | nil => rfl
  | cons cell line ih =>
      rw [Line.masked_cons, Line.shown_cons, List.mem_append, List.mem_cons, ih]
      by_cases htaken : cell.taken = true
      · simp [htaken, hc]
      · simp [htaken]

/-- Blanks in front of a text only move its tokens. -/
theorem occurrencesFrom_of_blank {blanks : List Char} (h : ∀ c ∈ blanks, isBlank c = true)
    (odd : Bool) (cs : List Char) : occurrencesFrom kind odd (blanks ++ cs) =
      (occurrencesFrom kind odd cs).map (·.moved blanks.length) := by
  have hquote : quote ∉ blanks := not_mem_of_blank h (by decide)
  rw [occurrencesFrom_append (not_mem_of_blank h (by decide)), quotesOpen_of_not_mem hquote]
  rfl

/-- No kind of token stands in a masked line that does not stand in the line itself. -/
theorem Stands.of_masked (h : Stands kind odd line.masked o) :
    ∃ o', Stands kind odd line.shown o' := by
  induction line generalizing odd o with
  | nil => exact absurd h not_stands_nil
  | cons cell line ih =>
      rw [Line.masked_cons] at h
      rw [Line.shown_cons]
      by_cases htaken : cell.taken = true
      · rw [if_pos htaken] at h ⊢
        have hblank : ∀ c ∈ List.replicate cell.char.utf8Size ' ', isBlank c = true := by
          intro c hc
          rw [List.eq_of_mem_replicate hc]
          rfl
        rw [← mem_occurrencesFrom, occurrencesFrom_of_blank hblank] at h
        obtain ⟨o', ho', -⟩ := List.mem_map.mp h
        obtain ⟨later, hlater⟩ := ih (mem_occurrencesFrom.mp ho')
        have hodd : (odd != (' ' == quote)) = odd := Bool.bne_false odd
        rw [← hodd] at hlater
        exact ⟨later.shift, stands_cons.mpr (.inr ⟨later, hlater, rfl⟩)⟩
      · rw [if_neg htaken, List.singleton_append] at h
        rw [if_neg htaken]
        rcases stands_cons.mp h with ⟨text, rest, htext, hspells, -, -, houtside⟩
          | ⟨later, hlater, -⟩
        · have hvisible : ' ' ∉ text := fun hmem => absurd (hspells.visible _ hmem) (by decide)
          have hcons : Line.masked ({ char := cell.char } :: line) = text ++ rest := by
            rw [← htext]
            rfl
          obtain ⟨rest', hshown⟩ := exists_shown_of_masked hcons hvisible
          have hquotes : quote ∈ text ++ rest ↔ quote ∈ text ++ rest' := by
            rw [← hcons, ← hshown]
            exact mem_masked_iff (by decide)
          have hrest : quote ∈ rest ↔ quote ∈ rest' := by
            simpa [hspells.quote_not_mem] using hquotes
          exact ⟨⟨0, text.length, o.token⟩, stands_cons.mpr
            (.inl ⟨text, rest', hshown, hspells, rfl, rfl, houtside.imp_right hrest.not.mp⟩)⟩
        · obtain ⟨o', ho'⟩ := ih hlater
          exact ⟨o'.shift, stands_cons.mpr (.inr ⟨o', ho', rfl⟩)⟩

end CraftLang.Modifier
