import CraftLang.Proofs.Modifier.Stripping

/-!
Tokens in the middle of a line. What stands in the first part of a line depends on the rest only
through the quotation marks there, as long as no token goes on from the one part into the other. So
a row of tokens can be put between the two parts: the tokens that stood in the line stand there
still, and what is left of the line is what was left, with blanks between the two parts.
-/

namespace CraftLang

namespace Text

/-- What is trimmed from a text is blank. -/
theorem exists_blanks_trim (cs : List Char) :
    ∃ lead trail, cs = lead ++ (trim cs ++ trail) ∧ (∀ c ∈ lead, isBlank c = true) ∧
      ∀ c ∈ trail, isBlank c = true := by
  obtain ⟨trail, hcs, htrail⟩ := exists_trimEnd_append (trimStart cs)
  refine ⟨cs.takeWhile isBlank, trail, ?_, fun _ => Grammar.of_mem_takeWhile, htrail⟩
  rw [trim, hcs]
  exact (List.takeWhile_append_dropWhile ..).symm

end Text

namespace Modifier

open Text Grammar

variable {kind other : Kind} {odd marked : Bool} {cs head tail row text : List Char}
  {texts : List (List Char)} {token : Token} {m found : Modifiers} {spans spans' : List Occurrence}
  {o : Occurrence} {line gap after : Line}

/-! ### Scans of a text in two parts -/

theorem Occurrence.moved_moved (o : Occurrence) (n k : Nat) :
    (o.moved n).moved k = o.moved (n + k) := by
  simp only [Occurrence.moved, Nat.add_assoc]

theorem map_moved_map (os : List Occurrence) (n k : Nat) :
    (os.map (·.moved n)).map (·.moved k) = os.map (·.moved (n + k)) := by
  rw [List.map_map]
  exact List.map_congr_left fun o _ => o.moved_moved n k

/-- The second part of a text can be exchanged without a change to what stands in the first, if no
token goes on into it and it has a quotation mark just if the other one has. -/
theorem exists_occurrencesFrom_append (kind : Kind) (odd marked : Bool) (head : List Char) :
    ∃ before : List Occurrence, (∀ o ∈ before, o.position + o.length ≤ head.length) ∧
      ∀ tail, head = [] ∨ Leaves isTokenPart tail → tail.contains quote = marked →
        occurrencesFrom kind odd (head ++ tail) = before ++
          (occurrencesFrom kind (quotesOpen odd head) tail).map (·.moved head.length) := by
  induction head generalizing odd with
  | nil => exact ⟨[], nofun, fun tail _ _ => (List.map_id _).symm⟩
  | cons c head ih =>
      obtain ⟨before, hend, htail⟩ := ih (odd != (c == quote))
      have hlater : ∀ o ∈ before.map (·.shift), o.position + o.length ≤ (c :: head).length := by
        intro o hmem
        obtain ⟨o', hmem', rfl⟩ := List.mem_map.mp hmem
        have hbound := hend o' hmem'
        simp only [Occurrence.shift, List.length_cons]
        omega
      have hscan {tail : List Char} (hleaves : c :: head = [] ∨ Leaves isTokenPart tail)
          (hmarked : tail.contains quote = marked) :
          (occurrencesFrom kind (odd != (c == quote)) (head ++ tail)).map (·.shift) =
            before.map (·.shift) ++
              (occurrencesFrom kind (quotesOpen odd (c :: head)) tail).map
                (·.moved (c :: head).length) := by
        have hleaves' := hleaves.resolve_left (List.cons_ne_nil c head)
        rw [htail tail (.inr hleaves') hmarked, List.map_append]
        exact congrArg _ (map_moved_map _ head.length 1)
      have hcontains {tail : List Char} (hmarked : tail.contains quote = marked) :
          (head ++ tail).contains quote = (head.contains quote || marked) := by
        rw [← hmarked, List.contains_append]
      by_cases hinside : (odd && (head.contains quote || marked)) = true
      · refine ⟨before.map (·.shift), hlater, fun tail hleaves hmarked => ?_⟩
        rw [List.cons_append, occurrencesFrom, hcontains hmarked, if_pos hinside,
          hscan hleaves hmarked]
      · cases htoken : token? kind (c :: head) with
        | none =>
            refine ⟨before.map (·.shift), hlater, fun tail hleaves hmarked => ?_⟩
            have hleaves' := hleaves.resolve_left (List.cons_ne_nil c head)
            rw [List.cons_append, occurrencesFrom, hcontains hmarked, if_neg hinside,
              token?_append hleaves', htoken, hscan hleaves hmarked]
            rfl
        | some found =>
            obtain ⟨token, rest⟩ := found
            refine ⟨⟨0, (c :: head).length - rest.length, token⟩ :: before.map (·.shift),
              List.forall_mem_cons.mpr ⟨?_, hlater⟩, fun tail hleaves hmarked => ?_⟩
            · rw [Nat.zero_add]
              exact Nat.sub_le ..
            · have hleaves' := hleaves.resolve_left (List.cons_ne_nil c head)
              have hlength : (c :: (head ++ tail)).length - (rest ++ tail).length =
                  (c :: head).length - rest.length := by
                rw [← List.cons_append, List.length_append, List.length_append,
                  Nat.add_sub_add_right]
              rw [List.cons_append, occurrencesFrom, hcontains hmarked, if_neg hinside,
                token?_append hleaves', htoken, hscan hleaves hmarked]
              simp only [Option.map_some, hlength, List.cons_append]

/-- A token at the start of a text is of its own kind only, whatever comes after it. -/
theorem Spells.token?_append (h : Spells other text token) (rest : List Char) :
    token? kind (text ++ rest) = if kind = other then some (token, rest) else none := by
  split
  · next hkind => exact token?_eq_some_iff.mpr ⟨text, rfl, hkind ▸ h⟩
  · next hkind =>
      rw [Option.eq_none_iff_forall_not_mem]
      rintro ⟨token', rest'⟩ hfound
      obtain ⟨text', heq, h'⟩ := token?_eq_some_iff.mp hfound
      exact hkind (h.unique h' heq).2.1.symm

theorem Spells.occurrencesFrom_append (h : Spells other text token)
    (hquotes : odd = false ∨ quote ∉ cs) :
    occurrencesFrom kind odd (text ++ cs) =
      (if kind = other then [⟨0, text.length, token⟩] else []) ++
        (occurrencesFrom kind odd cs).map (·.moved text.length) := by
  have htoken : token? kind (text ++ cs) = if kind = other then some (token, cs) else none :=
    h.token?_append cs
  have hmark : quote ∉ text := h.quote_not_mem
  obtain ⟨inner, rfl, hinner⟩ := h.eq_cons
  rw [List.mem_cons, not_or] at hmark
  have hopen : ('<' == quote) = false := by decide
  have houtside : ¬ (odd && (inner ++ cs).contains quote) = true := by
    rw [Bool.and_eq_true, List.contains_iff_mem, List.mem_append, or_iff_right hmark.2]
    rintro ⟨rfl, hmem⟩
    exact hquotes.elim Bool.true_eq_false.mp fun hnot => hnot hmem
  have hlater : (occurrencesFrom kind odd (inner ++ cs)).map (·.shift) =
      (occurrencesFrom kind odd cs).map (·.moved ('<' :: inner).length) := by
    rw [Modifier.occurrencesFrom_append hinner, quotesOpen_of_not_mem hmark.2]
    exact map_moved_map _ inner.length 1
  rw [List.cons_append] at htoken ⊢
  rw [occurrencesFrom, hopen, Bool.bne_false, if_neg houtside, hlater, htoken]
  by_cases hkind : kind = other
  · have hlength : ('<' :: (inner ++ cs)).length - cs.length = ('<' :: inner).length := by
      rw [← List.cons_append, List.length_append, Nat.add_sub_cancel]
    simp only [if_pos hkind, hlength]
    rfl
  · rw [if_neg hkind, if_neg hkind, List.nil_append]

/-- A row of tokens at the start of a text is found there, and what stands after it is found as
well. -/
theorem Row.occurrencesFrom_append (h : Row texts row) (hquotes : odd = false ∨ quote ∉ cs) :
    occurrencesFrom kind odd (row ++ cs) = occurrencesFrom kind false row ++
      (occurrencesFrom kind odd cs).map (·.moved row.length) := by
  induction h with
  | nil h =>
      rw [occurrencesFrom_of_blank h, occurrencesFrom_of_not_mem (not_mem_of_blank h (by decide)),
        List.nil_append]
  | @cons blanks text rest texts h htext hrow ih =>
      obtain ⟨other, token, hspells⟩ := htext
      have hrest : odd = false ∨ quote ∉ rest ++ cs := by
        rw [List.mem_append, or_iff_right hrow.quote_not_mem]
        exact hquotes
      rw [List.append_assoc, List.append_assoc, occurrencesFrom_of_blank h,
        occurrencesFrom_of_blank h, hspells.occurrencesFrom_append hrest,
        hspells.occurrencesFrom_append (.inl rfl), ih]
      simp only [List.map_append, map_moved_map, List.append_assoc, List.length_append]
      rw [Nat.add_comm rest.length, Nat.add_comm _ blanks.length, Nat.add_comm _ blanks.length]

/-! ### What is left of a text in two parts -/

/-- A text of which the tokens of all kinds are taken. `odd` says whether an odd number of quotation
marks stands before the text. -/
def scanned (odd : Bool) (cs : List Char) : Line :=
  (Line.ofText cs).cover (Kind.all.flatMap (occurrencesFrom · odd cs))

@[simp] theorem text_scanned (odd : Bool) (cs : List Char) : (scanned odd cs).text = cs := by
  rw [scanned, Line.text_cover, Line.text_ofText]

theorem Line.cover_append_moved (hspans : ∀ o ∈ spans, o.position + o.length ≤ head.length)
    (tail : List Char) (spans' : List Occurrence) :
    (ofText (head ++ tail)).cover (spans ++ spans'.map (·.moved head.length)) =
      (ofText head).cover spans ++ (ofText tail).cover spans' := by
  have hlength : ((ofText head).cover spans).length = head.length := by
    rw [length_cover, ofText, List.length_map]
  refine List.ext_getElem? fun place => ?_
  rcases Nat.lt_or_ge place head.length with hbefore | hafter
  · have hcovered : Covered (spans ++ spans'.map (·.moved head.length)) place ↔
        Covered spans place := by
      rw [covered_append, or_iff_left]
      rintro ⟨o, hmem, hlow, -⟩
      obtain ⟨o', -, rfl⟩ := List.mem_map.mp hmem
      simp only [Occurrence.moved] at hlow
      omega
    rw [List.getElem?_append_left (by rwa [hlength]), getElem?_cover_ofText, getElem?_cover_ofText,
      List.getElem?_append_left hbefore]
    simp only [hcovered]
  · obtain ⟨i, rfl⟩ := Nat.exists_eq_add_of_le hafter
    have hcovered : Covered (spans ++ spans'.map (·.moved head.length)) (head.length + i) ↔
        Covered spans' i := by
      rw [covered_append, or_iff_right]
      · simp only [Covered, List.mem_map, exists_exists_and_eq_and]
        refine exists_congr fun o => and_congr_right fun _ => ?_
        simp only [Occurrence.Covers, Occurrence.moved]
        omega
      · rintro ⟨o, hmem, -, hhigh⟩
        have hend := hspans o hmem
        omega
    rw [List.getElem?_append_right (by rw [hlength]; exact Nat.le_add_right ..), hlength,
      Nat.add_sub_cancel_left, getElem?_cover_ofText, getElem?_cover_ofText,
      List.getElem?_append_right (Nat.le_add_right ..), Nat.add_sub_cancel_left]
    simp only [hcovered]

theorem scanned_append {odd' : Bool} {before : Kind → List Occurrence}
    (hend : ∀ kind, ∀ o ∈ before kind, o.position + o.length ≤ head.length)
    (hscan : ∀ kind, occurrencesFrom kind odd (head ++ tail) =
      before kind ++ (occurrencesFrom kind odd' tail).map (·.moved head.length)) :
    scanned odd (head ++ tail) =
      (Line.ofText head).cover (Kind.all.flatMap before) ++ scanned odd' tail := by
  have hbefore : ∀ o ∈ Kind.all.flatMap before, o.position + o.length ≤ head.length := by
    intro o hmem
    obtain ⟨kind, -, hmem⟩ := List.mem_flatMap.mp hmem
    exact hend kind o hmem
  rw [scanned, scanned, ← Line.cover_append_moved hbefore]
  refine Line.cover_congr _ fun o => ?_
  simp only [List.mem_flatMap, List.mem_append, List.mem_map, hscan]
  constructor
  · rintro ⟨kind, hkind, hmem | ⟨later, hmem, rfl⟩⟩
    · exact .inl ⟨kind, hkind, hmem⟩
    · exact .inr ⟨later, ⟨kind, hkind, hmem⟩, rfl⟩
  · rintro (⟨kind, hkind, hmem⟩ | ⟨later, ⟨kind, hkind, hmem⟩, rfl⟩)
    · exact ⟨kind, hkind, .inl hmem⟩
    · exact ⟨kind, hkind, .inr ⟨later, hmem, rfl⟩⟩

theorem exists_scanned_append (odd marked : Bool) (head : List Char) :
    ∃ front : Line, front.text = head ∧
      ∀ tail, head = [] ∨ Leaves isTokenPart tail → tail.contains quote = marked →
        scanned odd (head ++ tail) = front ++ scanned (quotesOpen odd head) tail := by
  choose before hend hscan using fun kind => exists_occurrencesFrom_append kind odd marked head
  exact ⟨(Line.ofText head).cover (Kind.all.flatMap before), by simp, fun tail hleaves hmarked =>
    scanned_append hend fun kind => hscan kind tail hleaves hmarked⟩

theorem Row.scanned_append (h : Row texts row) (hquotes : odd = false ∨ quote ∉ cs) :
    scanned odd (row ++ cs) = scanned false row ++ scanned odd cs :=
  Modifier.scanned_append
    (fun _ _ hmem => (stands_iff.mp (mem_occurrencesFrom.mp hmem)).1)
    fun _ => h.occurrencesFrom_append hquotes

theorem Row.unseen (h : Row texts row) : ∀ cell ∈ scanned false row, cell.Unseen := by
  obtain ⟨after, hcover, hafter⟩ := h.cover_append []
  have hscan : scanned false row = after := hcover
  exact hscan ▸ hafter

/-! ### A row between two parts of a line -/

theorem Row.leaves_append (h : Row texts row) (htail : Leaves isTokenPart tail) :
    Leaves isTokenPart (row ++ tail) := by
  cases row with
  | nil => exact htail
  | cons c row => exact h.leaves

theorem Row.contains_append (h : Row texts row) (tail : List Char) :
    (row ++ tail).contains quote = tail.contains quote := by
  have hrow : row.contains quote = false := by simpa using h.quote_not_mem
  rw [List.contains_append, hrow, Bool.false_or]

/-- A row of tokens between two parts of a line changes nothing to the left of it or to the right.
-/
theorem Row.exists_scanned (h : Row texts row) (hhead : head = [] ∨ Leaves isTokenPart tail)
    (hquotes : quotesOpen odd head = false ∨ quote ∉ tail) :
    ∃ front : Line, front.text = head ∧
      scanned odd (head ++ tail) = front ++ scanned (quotesOpen odd head) tail ∧
      scanned odd (head ++ (row ++ tail)) =
        front ++ (scanned false row ++ scanned (quotesOpen odd head) tail) := by
  obtain ⟨front, hfront, hscan⟩ := exists_scanned_append odd (tail.contains quote) head
  refine ⟨front, hfront, hscan tail hhead rfl, ?_⟩
  rw [hscan _ (hhead.imp_right h.leaves_append) (h.contains_append tail), h.scanned_append hquotes]

/-- A row of tokens between two parts of a line adds its tokens to those of the line. -/
theorem Row.tokens_perm (h : Row texts row) (hhead : head = [] ∨ Leaves isTokenPart tail)
    (hquotes : quotesOpen false head = false ∨ quote ∉ tail) :
    (tokens kind (head ++ (row ++ tail))).Perm (tokens kind (head ++ tail) ++ tokens kind row) := by
  obtain ⟨before, -, hscan⟩ :=
    exists_occurrencesFrom_append kind false (tail.contains quote) head
  have hmoved (os : List Occurrence) (n : Nat) : (os.map (·.moved n)).map (·.token) =
      os.map (·.token) := List.map_map
  simp only [tokens, hscan tail hhead rfl,
    hscan _ (hhead.imp_right h.leaves_append) (h.contains_append tail),
    h.occurrencesFrom_append hquotes, List.map_append, hmoved, List.append_assoc]
  exact List.perm_append_comm.append_left _

theorem Spells.row_blank (h : Spells kind text token) : Row [text] (' ' :: text) := by
  have hrow : Row [text] ([' '] ++ (text ++ [])) :=
    .cons (by simp [isBlank]) ⟨kind, token, h⟩ (.nil (List.forall_mem_nil _))
  rwa [List.append_nil] at hrow

/-- A token that is put into a line between two blanks adds what it asks for. -/
theorem Spells.gives_insert (h : Spells kind text token) (happly : apply {} token = .ok found)
    (hquotes : quotesOpen false head = false ∨ quote ∉ tail)
    (hfree : ∀ o, ¬ Stands kind false (head ++ ' ' :: tail) o)
    (hgives : ∀ other, Gives other (head ++ ' ' :: tail) (m.only other)) (other : Kind) :
    Gives other (head ++ ' ' :: (text ++ ' ' :: tail)) ((m.set kind found).only other) := by
  have hleaves : Leaves isTokenPart (' ' :: tail) := by
    rintro c ⟨⟩
    decide
  have hquotes' : quotesOpen false head = false ∨ quote ∉ ' ' :: tail :=
    hquotes.imp_right fun hnot => List.not_mem_cons_of_ne_of_not_mem (by decide) hnot
  have hperm : (tokens other (head ++ ' ' :: (text ++ ' ' :: tail))).Perm
      (tokens other (head ++ ' ' :: tail) ++ if other = kind then [token] else []) := by
    have hrow : tokens other (' ' :: text) = if other = kind then [token] else [] := by
      have htoken : token? other (text ++ []) = if other = kind then some (token, []) else none :=
        h.token?_append []
      rw [List.append_nil] at htoken
      rw [h.row_blank.tokens_eq, List.filterMap_cons, List.filterMap_nil, htoken]
      by_cases hother : other = kind
      · simp only [if_pos hother, Option.map_some]
      · simp only [if_neg hother, Option.map_none]
    rw [← hrow]
    exact h.row_blank.tokens_perm (.inr hleaves) hquotes'
  by_cases hother : other = kind
  · subst hother
    have hnone : tokens other (head ++ ' ' :: tail) = [] := by
      rw [tokens, List.map_eq_nil_iff, List.eq_nil_iff_forall_not_mem]
      exact fun o hmem => hfree o (mem_occurrencesFrom.mp hmem)
    rw [hnone, if_pos rfl, List.nil_append] at hperm
    rw [Modifiers.only_set, ← h.kind_token, only_of_apply happly, h.kind_token]
    exact gives_iff.mpr (.inr ⟨token, List.perm_singleton.mp hperm, happly⟩)
  · rw [if_neg hother, List.append_nil] at hperm
    rw [Modifiers.only_set_of_ne m found hother]
    exact (gives_congr hperm).mpr (hgives other)

/-! ### What is kept around a token -/

namespace Line

theorem exists_kept_append_of_unseen (h : ∀ cell ∈ gap, cell.Unseen) (after : Line) :
    ∃ blanks, (∀ c ∈ blanks, isBlank c = true) ∧ kept (gap ++ after) = blanks ++ after.kept := by
  induction gap with
  | nil => exact ⟨[], nofun, rfl⟩
  | cons cell gap ih =>
      obtain ⟨hcell, hgap⟩ := List.forall_mem_cons.mp h
      obtain ⟨blanks, hblanks, hkept⟩ := ih hgap
      rw [List.cons_append, kept]
      split
      · exact ⟨blanks, hblanks, hkept⟩
      · next hstays =>
          rw [Bool.or_eq_true, not_or] at hstays
          exact ⟨cell.char :: blanks,
            List.forall_mem_cons.mpr ⟨hcell.resolve_left hstays.1, hblanks⟩, congrArg _ hkept⟩

/-- Behind what a scan stops at, nothing tells whether a token is next. -/
theorem cutsNext_append_of_stop (h : ∃ cell ∈ line, cell.taken = true ∨ isBlank cell.char = false)
    (after : Line) : cutsNext (line ++ after) = cutsNext line := by
  obtain ⟨cell, hmem, hcell⟩ := h
  rw [cutsNext, cutsNext, List.dropWhile_append]
  cases hline : line.dropWhile fun cell => !cell.taken && isBlank cell.char with
  | cons cell rest => rfl
  | nil =>
      have hblank := List.dropWhile_eq_nil_iff.mp hline cell hmem
      rw [Bool.and_eq_true, Bool.not_eq_true'] at hblank
      rcases hcell with htaken | hvisible
      · rw [hblank.1] at htaken
        cases htaken
      · rw [hblank.2] at hvisible
        cases hvisible

/-- Of a part of a line all is kept but the blanks at its end, and they are left out just if a token
is the next thing after it. -/
theorem exists_kept_append (line : Line) :
    ∃ front blanks, (∀ c ∈ blanks, isBlank c = true) ∧
      ∀ after, kept (line ++ after) =
        front ++ ((if cutsNext after then [] else blanks) ++ after.kept) := by
  -- What is said besides is needed where the line begins with a blank that nothing else comes
  -- after.
  suffices h : ∃ front blanks, (∀ c ∈ blanks, isBlank c = true) ∧
      ((∀ cell ∈ line, cell.taken = false ∧ isBlank cell.char = true) → front = []) ∧
      ∀ after, kept (line ++ after) =
        front ++ ((if cutsNext after then [] else blanks) ++ after.kept) by
    obtain ⟨front, blanks, hblanks, -, hkept⟩ := h
    exact ⟨front, blanks, hblanks, hkept⟩
  induction line with
  | nil =>
      refine ⟨[], [], nofun, fun _ => rfl, fun after => ?_⟩
      rw [ite_self]
      rfl
  | cons cell line ih =>
      obtain ⟨front, blanks, hblanks, hempty, hkept⟩ := ih
      by_cases hall : ∀ cell' ∈ cell :: line, cell'.taken = false ∧ isBlank cell'.char = true
      · obtain ⟨⟨huntaken, hblank⟩, hline⟩ := List.forall_mem_cons.mp hall
        obtain rfl := hempty hline
        refine ⟨[], cell.char :: blanks, List.forall_mem_cons.mpr ⟨hblank, hblanks⟩, fun _ => rfl,
          fun after => ?_⟩
        have hnext : cutsNext (line ++ after) = cutsNext after := by
          rw [cutsNext, List.dropWhile_append_of_pos, ← cutsNext]
          intro cell' hmem
          rw [(hline cell' hmem).1, (hline cell' hmem).2]
          rfl
        rw [List.cons_append, kept, hnext, huntaken, hblank, hkept, Bool.true_and, Bool.false_or]
        split <;> rfl
      · obtain ⟨stop, hmem, hstop⟩ : ∃ cell' ∈ cell :: line,
            cell'.taken = true ∨ isBlank cell'.char = false := by
          simp only [not_forall, not_and_or, Bool.not_eq_false, Bool.not_eq_true] at hall
          obtain ⟨cell', hmem, hcell⟩ := hall
          exact ⟨cell', hmem, hcell⟩
        have hout (after : Line) : (cell.taken || (isBlank cell.char && cutsNext (line ++ after))) =
            (cell.taken || (isBlank cell.char && cutsNext line)) := by
          rcases List.mem_cons.mp hmem with rfl | hmem
          · rcases hstop with htaken | hvisible
            · rw [htaken, Bool.true_or, Bool.true_or]
            · rw [hvisible, Bool.false_and, Bool.false_and]
          · rw [cutsNext_append_of_stop ⟨stop, hmem, hstop⟩]
        by_cases hleft : (cell.taken || (isBlank cell.char && cutsNext line)) = true
        · refine ⟨front, blanks, hblanks, fun h => absurd h hall, fun after => ?_⟩
          rw [List.cons_append, kept, hout, if_pos hleft, hkept]
        · refine ⟨cell.char :: front, blanks, hblanks, fun h => absurd h hall, fun after => ?_⟩
          rw [List.cons_append, kept, hout, if_neg hleft, hkept, List.cons_append]

/-- Where nothing is to be seen in front of a line or behind it, the line is read as it is. -/
theorem trim_masked_of_unseen {front back : Line} (hfront : ∀ cell ∈ front, cell.Unseen)
    (hback : ∀ cell ∈ back, cell.Unseen) (line : Line) :
    trim (masked (front ++ (line ++ back))) = trim line.masked := by
  rw [← List.append_assoc, trim_masked_append hback, masked_append,
    trim_append_left (blank_of_mem_masked hfront)]

theorem stripped_of_unseen {front back : Line} (hfront : ∀ cell ∈ front, cell.Unseen)
    (hback : ∀ cell ∈ back, cell.Unseen) (line : Line) :
    stripped (front ++ (line ++ back)) = line.stripped := by
  obtain ⟨blanks, hblanks, hkept⟩ := exists_kept_append_of_unseen hfront line
  rw [← List.append_assoc, stripped_append hback, stripped, hkept, trim_append_left hblanks,
    stripped]

end Line

/-! ### Lines that are not trimmed -/

/-- A text and the blanks that are trimmed from it. -/
theorem exists_scanned_trim (cs : List Char) :
    ∃ lead trail : Line, scanned false cs = lead ++ (scanned false (trim cs) ++ trail) ∧
      (∀ cell ∈ lead, cell.Unseen) ∧ ∀ cell ∈ trail, cell.Unseen := by
  obtain ⟨front, back, hcs, hfront, hback⟩ := exists_blanks_trim cs
  obtain ⟨trail, hcover, htrail⟩ := (Row.nil hback).cover_append (trim cs)
  refine ⟨scanned false front, trail, ?_, (Row.nil hfront).unseen, htrail⟩
  conv_lhs => rw [hcs, (Row.nil hfront).scanned_append (.inl rfl)]
  exact congrArg _ hcover

/-- What a line says does not depend on the blanks around it. -/
theorem gives_trim : Gives kind (trim cs) found ↔ Gives kind cs found := by
  obtain ⟨front, back, hcs, hfront, hback⟩ := exists_blanks_trim cs
  refine gives_congr (List.Perm.of_eq ?_)
  have hnone : tokens kind back = [] := (Row.nil hback).tokens_eq
  conv_rhs => rw [hcs, tokens, occurrencesFrom_of_blank hfront, List.map_map]
  have happend : tokens kind (trim cs ++ back) = tokens kind (trim cs) ++ tokens kind back :=
    tokens_append (Row.nil hback).quote_not_mem (Row.nil hback).leaves
  rw [hnone, List.append_nil] at happend
  exact happend.symm

/-! ### A token between two blanks -/

namespace Line

theorem masked_taken (cs : List Char) :
    masked (cs.map ({ char := ·, taken := true })) = List.replicate (byteLength cs) ' ' := by
  induction cs with
  | nil => rfl
  | cons c cs ih =>
      rw [List.map_cons, masked_cons, ih, if_pos rfl, byteLength_cons,
        List.replicate_append_replicate]

theorem eq_taken (h : ∀ cell ∈ line, cell.taken = true) :
    line = line.text.map ({ char := ·, taken := true }) := by
  rw [text, List.map_map]
  refine (List.map_id' line).symm.trans (List.map_congr_left fun cell hmem => ?_)
  obtain ⟨c, taken⟩ := cell
  exact congrArg (Cell.mk c) (h _ hmem)

theorem kept_taken_append (cs : List Char) (after : Line) :
    kept (cs.map ({ char := ·, taken := true }) ++ after) = after.kept := by
  induction cs with
  | nil => rfl
  | cons c cs ih => exact ih

theorem kept_space_cons (after : Line) :
    kept ({ char := ' ' } :: after) = (if cutsNext after then [] else [' ']) ++ after.kept := by
  have hblank : isBlank ' ' = true := by decide
  rw [kept]
  simp only [hblank, Bool.true_and, Bool.false_or]
  split <;> rfl

/-- A token between two blanks takes the place of blanks only, and is taken with none of them left
over, if there were none before. -/
theorem exists_stripped_insert (front back : Line) {text : List Char} (htext : text ≠ []) :
    ∃ before gap gap' after, (∀ c ∈ gap, isBlank c = true) ∧ (∀ c ∈ gap', isBlank c = true) ∧
      (gap = [] ↔ gap' = []) ∧ visible before = front.seen ∧ visible after = back.seen ∧
      stripped (front ++ { char := ' ' } :: back) = trim (before ++ (gap ++ after)) ∧
      stripped (front ++ { char := ' ' } ::
        (text.map ({ char := ·, taken := true }) ++ { char := ' ' } :: back)) =
          trim (before ++ (gap' ++ after)) := by
  obtain ⟨before, blanks, hblanks, hkept⟩ := exists_kept_append front
  have hseen : visible before = front.seen := by
    have hall := hkept []
    rw [List.append_nil] at hall
    have hnil : visible (if cutsNext [] then [] else blanks) = [] := by
      split
      · rfl
      · exact visible_of_blank hblanks
    rw [← visible_kept, hall, visible_append, visible_append, hnil]
    exact (List.append_nil _).symm
  have hspace (after : Line) : cutsNext ({ char := ' ' } :: after) = cutsNext after := by
    rw [cutsNext, List.dropWhile_cons_of_pos (by decide), ← cutsNext]
  have htoken (after : Line) :
      cutsNext (text.map ({ char := ·, taken := true }) ++ after) = true := by
    obtain ⟨c, text, rfl⟩ := List.exists_cons_of_ne_nil htext
    rfl
  have hsplit : kept (front ++ { char := ' ' } :: back) =
      before ++ (((if cutsNext back then [] else blanks) ++ if cutsNext back then [] else [' ']) ++
        back.kept) := by
    rw [hkept, hspace, kept_space_cons, List.append_assoc]
  have hsplit' : kept (front ++ { char := ' ' } ::
      (text.map ({ char := ·, taken := true }) ++ { char := ' ' } :: back)) =
        before ++ ((if cutsNext back then [] else [' ']) ++ back.kept) := by
    rw [hkept, hspace, htoken, kept_space_cons, htoken, kept_taken_append, kept_space_cons]
    rfl
  refine ⟨before, _, _, back.kept, ?_, ?_, ?_, hseen, visible_kept back,
    congrArg trim hsplit, congrArg trim hsplit'⟩
  · cases cutsNext back with
    | true => exact List.forall_mem_nil _
    | false => exact List.forall_mem_append.mpr ⟨hblanks, by simp [isBlank]⟩
  · cases cutsNext back with
    | true => exact List.forall_mem_nil _
    | false => simp [isBlank]
  · cases cutsNext back with
    | true => exact Iff.rfl
    | false => simp

end Line

/-- A token with blanks around it is all that is new in the line. -/
theorem Spells.exists_scanned (h : Spells kind text token)
    (hquotes : quotesOpen false head = false ∨ quote ∉ tail) :
    ∃ front back : Line, front.text = head ∧ back.text = tail ∧
      scanned false (head ++ ' ' :: tail) = front ++ { char := ' ' } :: back ∧
      scanned false (head ++ ' ' :: (text ++ ' ' :: tail)) = front ++ { char := ' ' } ::
        (text.map ({ char := ·, taken := true }) ++ { char := ' ' } :: back) := by
  have hleaves : Leaves isTokenPart (' ' :: tail) := by
    rintro c ⟨⟩
    decide
  have hquotes' : quotesOpen false head = false ∨ quote ∉ ' ' :: tail :=
    hquotes.imp_right fun hnot => List.not_mem_cons_of_ne_of_not_mem (by decide) hnot
  have hspace : Row [] [' '] := .nil (by simp [isBlank])
  have hblank : scanned false [' '] = [{ char := ' ' }] := by rfl
  have htail : scanned (quotesOpen false head) (' ' :: tail) =
      { char := ' ' } :: scanned (quotesOpen false head) tail := by
    have happend := hspace.scanned_append hquotes
    rwa [hblank] at happend
  have htoken : scanned false (' ' :: text) =
      { char := ' ' } :: text.map ({ char := ·, taken := true }) := by
    have hrow : Row [text] ([] ++ (text ++ [])) :=
      .cons (List.forall_mem_nil _) ⟨kind, token, h⟩ (.nil (List.forall_mem_nil _))
    rw [List.nil_append, List.append_nil] at hrow
    have hall : ∀ cell ∈ scanned false text, cell.taken = true := by
      intro cell hmem
      refine (hrow.unseen cell hmem).resolve_right fun hblank => ?_
      have hchar : cell.char ∈ text := text_scanned false text ▸ List.mem_map_of_mem hmem
      rw [h.visible _ hchar] at hblank
      cases hblank
    have htaken := Line.eq_taken hall
    rw [text_scanned] at htaken
    rw [← htaken]
    have happend : scanned false ([' '] ++ text) = scanned false [' '] ++ scanned false text :=
      hspace.scanned_append (.inl rfl)
    rwa [hblank] at happend
  obtain ⟨front, hfront, hscan, hscan'⟩ := h.row_blank.exists_scanned (.inr hleaves) hquotes'
  rw [htail] at hscan hscan'
  rw [htoken] at hscan'
  exact ⟨front, _, hfront, text_scanned .., hscan, hscan'⟩

end Modifier

end CraftLang
