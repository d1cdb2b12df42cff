import CraftLang.Proofs.Source.Reading
import CraftLang.Proofs.Source.Syntax

/-!
The places of faults. Whatever is wrong with a line is wrong at the start of one of its characters
or at its end, also where characters of several bytes were taken from it as part of a modifier. So
the place is a column, and what is blank at the end of a line does not move it.
-/

namespace CraftLang

open Text

/-- The offset is where a character of the text starts, or where the text ends. -/
def IsBoundary (cs : List Char) (offset : Nat) : Prop :=
  ∃ front back, cs = front ++ back ∧ offset = byteLength front

theorem isBoundary_zero (cs : List Char) : IsBoundary cs 0 :=
  ⟨[], cs, rfl, rfl⟩

theorem isBoundary_byteLength (cs : List Char) : IsBoundary cs (byteLength cs) :=
  ⟨cs, [], (List.append_nil cs).symm, rfl⟩

namespace Modifier

/-! ### Masked lines -/

namespace Line

variable {line : Line}

/-- The part of a masked line that one cell accounts for. -/
theorem masked_cons (cell : Cell) (line : Line) :
    masked (cell :: line) =
      (if cell.taken then List.replicate cell.char.utf8Size ' ' else [cell.char]) ++ line.masked :=
  List.flatMap_cons

theorem text_cons (cell : Cell) (line : Line) : text (cell :: line) = cell.char :: line.text := rfl

theorem byteLength_replicate_space (n : Nat) : byteLength (List.replicate n ' ') = n := by
  induction n with
  | zero => rfl
  | succ n ih =>
      rw [List.replicate_succ, byteLength_cons, ih]
      exact Nat.add_comm 1 n

/-- Masking keeps the length in bytes. -/
theorem byteLength_masked (line : Line) : byteLength line.masked = byteLength line.text := by
  induction line with
  | nil => rfl
  | cons cell line ih =>
      rw [masked_cons, byteLength_append, ih, text_cons, byteLength_cons]
      split
      · rw [byteLength_replicate_space]
      · rfl

/-- A character that is seen in a masked line was not taken, and is at the same place in the
line. -/
theorem text_of_masked {front back : List Char} {c : Char} (h : line.masked = front ++ c :: back)
    (hc : c ≠ ' ') :
    ∃ front' back', line.text = front' ++ c :: back' ∧ byteLength front' = byteLength front := by
  induction line generalizing front with
  | nil => exact absurd h (by simp [masked])
  | cons cell line ih =>
      rw [masked_cons] at h
      by_cases htaken : cell.taken = true
      · rw [if_pos htaken] at h
        -- The character is none of the spaces, so it comes after all of them.
        obtain ⟨later, rfl, hlater⟩ : ∃ later,
            front = List.replicate cell.char.utf8Size ' ' ++ later ∧
              masked line = later ++ c :: back := by
          rcases List.append_eq_append_iff.mp h with ⟨later, hfront, hrest⟩
            | ⟨spaces, hspaces, hrest⟩
          · exact ⟨later, hfront, hrest⟩
          · cases spaces with
            | nil => exact ⟨[], by simpa using hspaces.symm, by simpa using hrest.symm⟩
            | cons d spaces =>
                have hmem : d ∈ List.replicate cell.char.utf8Size ' ' := by simp [hspaces]
                have hd : c = d := (List.cons.inj hrest).1
                exact absurd (hd.trans (List.eq_of_mem_replicate hmem)) hc
        obtain ⟨front', back', htext, hlength⟩ := ih hlater
        refine ⟨cell.char :: front', back', ?_, ?_⟩
        · rw [text_cons, htext, List.cons_append]
        · rw [byteLength_cons, byteLength_append, byteLength_replicate_space, hlength]
      · rw [if_neg htaken, List.singleton_append] at h
        cases front with
        | nil =>
            obtain ⟨rfl, -⟩ := List.cons.inj h
            exact ⟨[], text line, rfl, rfl⟩
        | cons d front =>
            obtain ⟨rfl, hrest⟩ := List.cons.inj h
            obtain ⟨front', back', htext, hlength⟩ := ih hrest
            refine ⟨cell.char :: front', back', ?_, ?_⟩
            · rw [text_cons, htext, List.cons_append]
            · rw [byteLength_cons, hlength, byteLength_cons]

theorem text_mark (line : Line) (position length : Nat) :
    (line.mark position length).text = line.text := by
  have hsplit : line = line.take position ++
      ((line.drop position).take length ++ line.drop (position + length)) := by
    rw [← List.drop_drop, List.take_append_drop, List.take_append_drop]
  have hmark : ((line.drop position).take length).map ((·.char) ∘ ({ · with taken := true })) =
      ((line.drop position).take length).map (·.char) := rfl
  conv_rhs => rw [hsplit]
  simp only [mark, text, List.map_append, List.map_map, hmark, List.append_assoc]

end Line

/-! ### Faults of modifiers -/

theorem takeKind_ok {state next : Modifiers × Line} {kind : Kind}
    (h : takeKind state kind = .ok next) : next.2.text = state.2.text := by
  obtain ⟨modifiers, line⟩ := state
  unfold takeKind at h
  simp only at h
  split at h
  · cases h
    rfl
  · split at h
    · cases h
      exact Line.text_mark ..
    · cases h
  · cases h

theorem takeKind_error {state : Modifiers × Line} {kind : Kind} {e : Error}
    (h : takeKind state kind = .error e) : IsBoundary state.2.text e.offset := by
  obtain ⟨modifiers, line⟩ := state
  have hplace (position : Nat) : IsBoundary line.text (byteLength (line.text.take position)) :=
    ⟨_, _, (List.take_append_drop position line.text).symm, rfl⟩
  unfold takeKind at h
  simp only at h
  split at h
  · cases h
  · split at h <;> cases h
    exact hplace _
  · cases h
    exact hplace _

theorem foldlM_takeKind_text (kinds : List Kind) (state : Modifiers × Line) :
    (∀ {next}, kinds.foldlM takeKind state = .ok next → next.2.text = state.2.text) ∧
      ∀ {e}, kinds.foldlM takeKind state = .error e → IsBoundary state.2.text e.offset := by
  induction kinds generalizing state with
  | nil =>
      refine ⟨fun h => ?_, nofun⟩
      cases h
      rfl
  | cons kind kinds ih =>
      rw [List.foldlM_cons]
      cases hkind : takeKind state kind with
      | error e =>
          refine ⟨nofun, fun h => ?_⟩
          cases h
          exact takeKind_error hkind
      | ok next =>
          have hrest := ih next
          rw [takeKind_ok hkind] at hrest
          exact hrest

/-- Taking the modifiers from a line leaves its text as it is. -/
theorem text_of_extract {cs : List Char} {modifiers : Modifiers} {line : Line}
    (h : extract cs = .ok (modifiers, line)) : line.text = cs := by
  have htext := (foldlM_takeKind_text Kind.all ({}, Line.ofText cs)).1 h
  rwa [Line.text_ofText] at htext

theorem extract_error {cs : List Char} {e : Error} (h : extract cs = .error e) :
    IsBoundary cs e.offset := by
  have hplace := (foldlM_takeKind_text Kind.all ({}, Line.ofText cs)).2 h
  rwa [Line.text_ofText] at hplace

end Modifier

/-! ### Faults of statements -/

/-- A statement is wrong at a character of its line, or at the end of it, and not before a gap. -/
theorem Statement.read_error {line : List Char} {e : Statement.Error}
    (h : Statement.read line = .error e) :
    ∃ front back, line = front ++ back ∧ e.offset = byteLength front ∧
      (front = [] ∨ Grammar.Leaves Grammar.isSpace back) := by
  by_cases hslash : line.head? = some '/'
  · obtain ⟨cs, rfl⟩ : ∃ cs, line = '/' :: cs := by
      cases line with
      | nil => cases hslash
      | cons c cs => exact ⟨cs, by rw [Option.some.inj hslash]⟩
    obtain ⟨name, args, rfl, hname, hargs⟩ := exists_verb cs
    obtain ⟨taken, rest, rfl, hstop, hoffset⟩ := read_append_error hname hargs h
    exact ⟨'/' :: (name ++ taken), rest, by simp, hoffset, .inr hstop⟩
  · rw [read_of_head?_ne hslash] at h
    cases h
    exact ⟨[], line, rfl, rfl, .inl rfl⟩

namespace Source

open Modifier Grammar

theorem exists_trim (cs : List Char) :
    ∃ lead trail, cs = lead ++ (trim cs ++ trail) ∧ trimStart cs = trim cs ++ trail ∧
      (∀ c ∈ (trim cs).head?, isBlank c = false) ∧
      ∀ c ∈ (trim cs).getLast?, isBlank c = false := by
  obtain ⟨trail, htrail⟩ := trimEnd_isPrefix (trimStart cs)
  refine ⟨cs.takeWhile isBlank, trail, ?_, htrail.symm, ?_, ?_⟩
  · rw [trim, htrail]
    exact (List.takeWhile_append_dropWhile ..).symm
  · intro c hc
    cases hstart : trimStart cs with
    | nil =>
        rw [trim, hstart] at hc
        cases hc
    | cons d ds =>
        have hd := isBlank_of_trimStart_cons hstart
        rw [trim, hstart, trimEnd_cons_of_not_blank hd] at hc
        cases hc
        exact hd
  · intro c hc
    obtain ⟨front, hfront⟩ := List.getLast?_eq_some_iff.mp hc
    have htwice := trimEnd_trimEnd (trimStart cs)
    by_contra hblank
    rw [← trim, hfront, trimEnd_append_of_blank front (by simpa using hblank)] at htwice
    have hlength := congrArg List.length htwice
    have hprefix := (trimEnd_isPrefix front).length_le
    rw [List.length_append, List.length_singleton] at hlength
    omega

/-- A place in the visible part of a masked line, if no space stands there, is a place in the
line. -/
theorem isBoundary_of_masked {line : Line} {lead front back trail : List Char}
    (hmasked : line.masked = lead ++ (front ++ back ++ trail))
    (hback : ∀ c ∈ back.head?, c ≠ ' ') (hend : ∀ c ∈ (front ++ back).getLast?, c ≠ ' ')
    (hblank : front ++ back = [] → trail = []) :
    IsBoundary line.text (byteLength (lead ++ front)) := by
  cases back with
  | cons c back =>
      have hsplit : line.masked = (lead ++ front) ++ c :: (back ++ trail) := by
        rw [hmasked]
        simp
      obtain ⟨front', back', htext, hlength⟩ := Line.text_of_masked hsplit (hback c rfl)
      exact ⟨front', c :: back', htext, hlength.symm⟩
  | nil =>
      rw [List.append_nil] at hmasked hend hblank
      rcases List.eq_nil_or_concat' front with rfl | ⟨front, c, rfl⟩
      · rw [hblank rfl] at hmasked
        have hlength : byteLength (lead ++ []) = byteLength line.text := by
          rw [← Line.byteLength_masked, hmasked]
          rfl
        rw [hlength]
        exact isBoundary_byteLength _
      · have hsplit : line.masked = (lead ++ front) ++ c :: trail := by
          rw [hmasked]
          simp
        obtain ⟨front', back', htext, hlength⟩ :=
          Line.text_of_masked hsplit (hend c (by simp))
        refine ⟨front' ++ [c], back', by rw [htext]; simp, ?_⟩
        simp only [byteLength_append, byteLength_cons, byteLength_nil] at hlength ⊢
        omega

/-- Whatever is wrong with a line is wrong at one of its characters, or at its end. -/
theorem readCommand_error {cs : List Char} {misfit : Misfit} (h : readCommand cs = .error misfit) :
    IsBoundary cs misfit.offset := by
  have hspace {c : Char} (hc : isBlank c = false) : c ≠ ' ' := by
    rintro rfl
    exact absurd hc (by decide)
  unfold readCommand at h
  split at h
  · next e hextract =>
      cases h
      exact extract_error hextract
  · next modifiers line hextract =>
      simp only at h
      split at h
      · next e hread =>
          cases h
          obtain ⟨front, back, hbody, hoffset, hplace⟩ := Statement.read_error hread
          obtain ⟨lead, trail, hmasked, hstart, hfirst, hlast⟩ := exists_trim line.masked
          rw [trim, hbody] at hmasked hstart hfirst hlast
          have hback : ∀ c ∈ back.head?, c ≠ ' ' := by
            intro c hc
            rcases hplace with rfl | hleaves
            · exact hspace (hfirst c hc)
            · rintro rfl
              exact absurd (hleaves ' ' hc) (by decide)
          have hblank : front ++ back = [] → trail = [] := by
            intro hnil
            rw [hnil, List.nil_append] at hstart
            cases trail with
            | nil => rfl
            | cons c trail =>
                have hc := isBlank_of_trimStart_cons hstart
                rw [hstart, trimEnd_cons_of_not_blank hc, hnil] at hbody
                cases hbody
          have hbound := isBoundary_of_masked hmasked hback (fun c hc => hspace (hlast c hc)) hblank
          rw [text_of_extract hextract] at hbound
          have hplaced : byteLength line.masked - byteLength (trimStart line.masked) + e.offset =
              byteLength (lead ++ front) := by
            rw [hstart, hoffset, hmasked]
            simp only [byteLength_append]
            omega
          rw [hplaced]
          exact hbound
      · split at h
        · cases h
        · cases h
          exact isBoundary_zero cs

/-! ### Columns -/

theorem byteLength_leading (raw : List Char) :
    byteLength raw - byteLength (trimStart raw) = byteLength (raw.takeWhile isBlank) := by
  have hraw := congrArg byteLength (List.takeWhile_append_dropWhile (p := isBlank) (l := raw))
  rw [byteLength_append, ← trimStart] at hraw
  omega

/-- A place in the visible part of a line, as a place in the line. -/
theorem eq_append_of_trim {raw front back : List Char} (h : trim raw = front ++ back) :
    ∃ trail, raw = (raw.takeWhile isBlank ++ front) ++ (back ++ trail) := by
  obtain ⟨trail, htrail⟩ := trimEnd_isPrefix (trimStart raw)
  refine ⟨trail, ?_⟩
  rw [← trim, h] at htrail
  rw [List.append_assoc, ← List.append_assoc front, htrail]
  exact (List.takeWhile_append_dropWhile ..).symm

theorem columnAt?_leading {raw front back : List Char} (h : trim raw = front ++ back) :
    columnAt? raw (byteLength raw - byteLength (trimStart raw) + byteLength front) =
      some (raw.takeWhile isBlank ++ front).length := by
  obtain ⟨trail, hraw⟩ := eq_append_of_trim h
  rw [byteLength_leading, ← byteLength_append]
  conv_lhs => rw [hraw]
  rw [← columnAt?_byteLength (raw.takeWhile isBlank ++ front) (back ++ trail), ← hraw]

/-- What is blank at the end of a line makes no difference, not even to the place of an error. -/
theorem readLine_append_of_blank (raw : List Char) {blanks : List Char}
    (h : ∀ c ∈ blanks, isBlank c = true) (number : Nat) :
    readLine (raw ++ blanks) number = readLine raw number := by
  unfold readLine
  simp only [trim_append_of_blank raw h]
  split
  · rfl
  · next hvisible =>
      cases hread : readCommand (trim raw) with
      | ok command => rfl
      | error misfit =>
          obtain ⟨front, back, hsplit, hoffset⟩ := readCommand_error hread
          have hlead : (raw ++ blanks).takeWhile isBlank = raw.takeWhile isBlank := by
            rw [List.takeWhile_append, if_neg]
            intro hlength
            have hall := (List.takeWhile_prefix isBlank).eq_of_length hlength
            rw [← hall, trim, trimStart_of_blank fun c => Grammar.of_mem_takeWhile] at hvisible
            exact hvisible rfl
          have hcolumn := columnAt?_leading hsplit
          have hcolumn' := columnAt?_leading ((trim_append_of_blank raw h).trans hsplit)
          rw [hlead] at hcolumn'
          simp only [hoffset, hcolumn, hcolumn', Option.getD_some]

/-- A fault is on the line that is read. -/
theorem line_of_readLine {raw : List Char} {number : Nat} {e : SyntaxError}
    (h : readLine raw number = .error e) : e.line = number := by
  unfold readLine at h
  simp only at h
  split at h
  · cases h
  · split at h <;> cases h
    rfl

theorem readLine_dropCarriageReturn (raw : List Char) (number : Nat) :
    readLine (dropCarriageReturn raw) number = readLine raw number := by
  rcases dropCarriageReturn_cases raw with hsame | hdropped
  · rw [hsame]
  · conv_rhs => rw [hdropped]
    exact (readLine_append_of_blank _ (by simp [isBlank]) number).symm

theorem readLines_congr {f : List Char → List Char}
    (h : ∀ raw number, readLine (f raw) number = readLine raw number) (number : Nat)
    (raws : List (List Char)) : readLines number (raws.map f) = readLines number raws := by
  induction raws generalizing number with
  | nil => rfl
  | cons raw rest ih => rw [List.map_cons, readLines, readLines, h, ih]

end Source

/-- The lines of a source that is put together from lines are read as they are. -/
theorem readSource_joinLines {lines : List String} (h : ∀ line ∈ lines, '\n' ∉ line.toList) :
    readSource (joinLines lines) = Source.readLines 0 (lines.map String.toList) := by
  cases lines with
  | nil => rfl
  | cons line lines =>
      have hpieces : ∀ piece ∈ (line :: lines).map String.toList, '\n' ∉ piece := by
        intro piece hpiece
        obtain ⟨line, hline, rfl⟩ := List.mem_map.mp hpiece
        exact h line hline
      rw [readSource, joinLines, String.toList_ofList, Source.lines,
        splitOn_joinWith_of_not_mem (by simp) hpieces]
      exact Source.readLines_congr Source.readLine_dropCarriageReturn 0 _

end CraftLang
