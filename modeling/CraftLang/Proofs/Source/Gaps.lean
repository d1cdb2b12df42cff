import CraftLang.Proofs.Modifier.Masking
import CraftLang.Proofs.Source.Syntax

/-!
Wider gaps in a statement. Where a space stands outside quotation marks, more spaces can stand: the
line is still the same statement. Only a name that is written without marks has the spaces in it.
-/

namespace CraftLang

open Text

namespace Text

variable {front back : List Char}

/-- A text that begins and ends with something visible is not trimmed in between. -/
theorem trim_append (hfront : ∃ c ∈ front, isBlank c = false)
    (hback : ∃ c ∈ back, isBlank c = false) (mid : List Char) :
    trim (front ++ (mid ++ back)) = trimStart front ++ (mid ++ trimEnd back) := by
  obtain ⟨c, hc, hvisible⟩ := hfront
  obtain ⟨d, hd, hvisible'⟩ := hback
  obtain ⟨before, inner, rfl⟩ := List.append_of_mem hc
  obtain ⟨inner', after, rfl⟩ := List.append_of_mem hd
  have hsplit : before ++ c :: inner ++ (mid ++ (inner' ++ d :: after)) =
      before ++ c :: (inner ++ mid ++ inner' ++ d :: after) := by simp
  rw [hsplit, trim_append_cons before hvisible, trimEnd_append_cons _ hvisible',
    trimStart_append_cons before hvisible, trimEnd_append_cons _ hvisible']
  simp only [List.append_assoc, List.cons_append]

theorem trimEnd_append (hback : ∃ c ∈ back, isBlank c = false) (front : List Char) :
    trimEnd (front ++ back) = front ++ trimEnd back := by
  obtain ⟨d, hd, hvisible⟩ := hback
  obtain ⟨inner, after, rfl⟩ := List.append_of_mem hd
  rw [← List.append_assoc, trimEnd_append_cons _ hvisible, trimEnd_append_cons _ hvisible,
    List.append_assoc]

end Text

namespace Grammar

section Gaps

variable {α β : Type} {P : List Char → α → Prop} {value : α} {front back gap : List Char}

/-! ### Where a text is parted -/

theorem IsGap.append (h : IsGap front) (h' : IsGap back) : IsGap (front ++ back) :=
  List.forall_mem_append.mpr ⟨h, h'⟩

theorem isGap_append_cons : IsGap (front ++ ' ' :: back) ↔ IsGap front ∧ IsGap back := by
  have hspace : isSpace ' ' = true := by decide
  simp only [IsGap, List.forall_mem_append, List.forall_mem_cons, hspace, true_and]

/-- A space in a text of two parts is in the one or in the other. -/
theorem cases_space {first second : List Char} (h : front ++ ' ' :: back = first ++ second) :
    (∃ z, first = front ++ ' ' :: z ∧ back = z ++ second) ∨
      ∃ z, front = first ++ z ∧ second = z ++ ' ' :: back := by
  rcases List.append_eq_append_iff.mp h with ⟨more, rfl, hmore⟩ | ⟨more, rfl, hmore⟩
  · cases more with
    | nil => exact .inr ⟨[], by simp, hmore.symm⟩
    | cons c more =>
        obtain ⟨rfl, hback⟩ := List.cons.inj hmore
        exact .inl ⟨more, rfl, hback⟩
  · exact .inr ⟨more, rfl, hmore⟩

/-- A space in a text that fits is in the blanks at its end, or in the text itself. -/
theorem Fits.cases_space (hgap : IsGap gap) (h : Fits P (front ++ ' ' :: back) value) :
    Fits P (front ++ ' ' :: (gap ++ back)) value ∨
      ∃ z tail, back = z ++ tail ∧ IsGap tail ∧ P (front ++ ' ' :: z) value := by
  obtain ⟨text, tail, heq, htail, htext⟩ := h
  rcases Grammar.cases_space heq with ⟨z, rfl, rfl⟩ | ⟨z, rfl, rfl⟩
  · exact .inr ⟨z, tail, rfl, htail, htext⟩
  · obtain ⟨hz, hback⟩ := isGap_append_cons.mp htail
    exact .inl ⟨text, z ++ ' ' :: (gap ++ back), by rw [List.append_assoc],
      isGap_append_cons.mpr ⟨hz, hgap.append hback⟩, htext⟩

/-- A space in a text with a gap at its start is in the gap, or in what comes after it. -/
theorem Spaced.cases_space (hgap : IsGap gap) (h : Spaced P (front ++ ' ' :: back) value) :
    Spaced P (front ++ ' ' :: (gap ++ back)) value ∨
      ∃ lead z, front = lead ++ z ∧ lead ≠ [] ∧ IsGap lead ∧ z ≠ [] ∧ Leaves isSpace z ∧
        P (z ++ ' ' :: back) value := by
  generalize hcs : front ++ ' ' :: back = cs at h
  cases h with
  | @after lead text _ hne hlead hstart htext =>
      rcases Grammar.cases_space hcs with ⟨z, rfl, rfl⟩ | ⟨z, rfl, rfl⟩
      · obtain ⟨hfront, hz⟩ := isGap_append_cons.mp hlead
        have hsplit : front ++ ' ' :: (gap ++ (z ++ text)) =
            (front ++ ' ' :: (gap ++ z)) ++ text := by simp
        rw [hsplit]
        exact .inl (.after (by simp) (isGap_append_cons.mpr ⟨hfront, hgap.append hz⟩) hstart htext)
      · cases z with
        | nil => exact absurd (hstart ' ' rfl) (by decide)
        | cons c z => exact .inr ⟨lead, c :: z, rfl, hne, hlead, List.cons_ne_nil c z, hstart,
          htext⟩

/-! ### Texts without spaces -/

/-- The texts of a kind have no space in them, but for one between quotation marks. -/
def Solid (P : List Char → α → Prop) : Prop :=
  ∀ {front back value}, P (front ++ ' ' :: back) value → front.count quote % 2 = 1 ∧ quote ∈ back

theorem IsDigits.space_not_mem (h : IsDigits front) : ' ' ∉ front :=
  fun hmem => absurd (h.2 ' ' hmem) (by decide)

theorem IsCount.space_not_mem {count : Nat} (h : IsCount front count) : ' ' ∉ front := by
  cases h with
  | digits h => exact h.space_not_mem

theorem IsDecimal.space_not_mem {number : Binary64} (h : IsDecimal front number) : ' ' ∉ front := by
  cases h with
  | whole h => exact h.space_not_mem
  | point h h' => simp [h.space_not_mem, h'.space_not_mem]

theorem IsRange.space_not_mem {range : Binary64 × Option Binary64} (h : IsRange front range) :
    ' ' ∉ front := by
  cases h with
  | single h => exact h.space_not_mem
  | pair h h' => simp [h.space_not_mem, h'.space_not_mem]

theorem solid_range : Solid IsRange :=
  fun htext => absurd (List.mem_append_right _ List.mem_cons_self) htext.space_not_mem

/-- A space in a quoted text stands after the first mark, and before the last. -/
theorem quotes_around_space {text : List Char} (hquote : quote ∉ text)
    (h : quote :: (text ++ [quote]) = front ++ ' ' :: back) :
    front.count quote % 2 = 1 ∧ quote ∈ back := by
  cases front with
  | nil => exact absurd (List.cons.inj h).1 (by decide)
  | cons c front =>
      obtain ⟨rfl, htext⟩ := List.cons.inj h
      rcases cases_space htext.symm with ⟨z, rfl, rfl⟩ | ⟨z, rfl, hmark⟩
      · rw [List.mem_append, not_or] at hquote
        rw [List.count_cons_self, List.count_eq_zero.mpr hquote.1]
        exact ⟨rfl, by simp⟩
      · have hmem : ' ' ∈ [quote] := hmark ▸ List.mem_append_right _ List.mem_cons_self
        exact absurd hmem (by decide)

theorem solid_argument : Solid IsArgument := by
  intro front back value h
  generalize hcs : front ++ ' ' :: back = cs at h
  cases h with
  | quoted h => exact quotes_around_space h hcs.symm
  | bare hne h =>
      have hspace := h ' ' (hcs ▸ List.mem_append_right _ List.mem_cons_self)
      exact absurd hspace (by decide)

/-! ### Wider gaps -/

theorem Spaced.spread (h : Spaced P (front ++ ' ' :: back) value)
    (hsolid : ∀ lead z, front = lead ++ z → IsGap lead → ¬ P (z ++ ' ' :: back) value)
    (hgap : IsGap gap) : Spaced P (front ++ ' ' :: (gap ++ back)) value := by
  refine (h.cases_space hgap).resolve_right ?_
  rintro ⟨lead, z, hfront, -, hlead, -, -, htext⟩
  exact hsolid lead z hfront hlead htext

theorem IsGap.count_quote (h : IsGap front) : front.count quote = 0 :=
  List.count_eq_zero.mpr fun hmem => absurd (h _ hmem) (by decide)

theorem Spaced.spread_solid (hsolid : Solid P) (hquotes : front.count quote % 2 = 0 ∨ quote ∉ back)
    (hgap : IsGap gap) (h : Spaced P (front ++ ' ' :: back) value) :
    Spaced P (front ++ ' ' :: (gap ++ back)) value := by
  refine h.spread (fun lead z hfront hlead htext => ?_) hgap
  obtain ⟨hodd, hmem⟩ := hsolid htext
  rw [hfront, List.count_append, hlead.count_quote, Nat.zero_add, hodd] at hquotes
  exact hquotes.elim Nat.one_ne_zero fun hnot => hnot hmem

theorem Spaced.spread_count {count : Nat} (hgap : IsGap gap)
    (h : Spaced IsCount (front ++ ' ' :: back) count) :
    Spaced IsCount (front ++ ' ' :: (gap ++ back)) count :=
  h.spread (fun _ _ _ _ htext => htext.space_not_mem (by simp)) hgap

theorem Fits.spread (h : Fits P (front ++ ' ' :: back) value)
    (hspread : ∀ z, z <+: back → P (front ++ ' ' :: z) value → P (front ++ ' ' :: (gap ++ z)) value)
    (hgap : IsGap gap) : Fits P (front ++ ' ' :: (gap ++ back)) value := by
  rcases h.cases_space hgap with hsame | ⟨z, tail, rfl, htail, htext⟩
  · exact hsame
  · exact ⟨front ++ ' ' :: (gap ++ z), tail, by simp, htail,
      hspread z (List.prefix_append ..) htext⟩

theorem fits_given {f : α → β} {result : β} :
    Fits (Given P f) front result ↔ ∃ value, result = f value ∧ Fits P front value := by
  constructor
  · rintro ⟨text, tail, rfl, htail, ⟨htext⟩⟩
    exact ⟨_, rfl, text, tail, rfl, htail, htext⟩
  · rintro ⟨value, rfl, text, tail, rfl, htail, htext⟩
    exact ⟨text, tail, rfl, htail, ⟨htext⟩⟩

/-- A name, and the name with more spaces at one place between the two parts of a line. -/
inductive Spread (front gap back : List Char) : String → String → Prop
  | same {name : String} : Spread front gap back name name
  | parted {lead first last trail : List Char} (hfront : front = lead ++ first)
      (hback : back = last ++ trail) :
      Spread front gap back (String.ofList (first ++ ' ' :: last))
        (String.ofList (first ++ ' ' :: (gap ++ last)))

theorem Spread.append {name name' : String} (h : Spread front gap back name name')
    (lead trail : List Char) : Spread (lead ++ front) gap (back ++ trail) name name' := by
  cases h with
  | same => exact .same
  | @parted before first last after hfront hback =>
      exact .parted (by rw [hfront, List.append_assoc]) (by rw [hback, List.append_assoc])

theorem isName_spread (hquotes : front.count quote % 2 = 0 ∨ quote ∉ back) (hgap : IsGap gap)
    {name : String} (h : IsName (front ++ ' ' :: back) name) :
    ∃ name', Spread front gap back name name' ∧ IsName (front ++ ' ' :: (gap ++ back)) name' := by
  generalize hcs : front ++ ' ' :: back = cs at h
  cases h with
  | quoted h =>
      obtain ⟨hodd, hmem⟩ := quotes_around_space h hcs.symm
      rw [hodd] at hquotes
      exact (hquotes.elim Nat.one_ne_zero fun hnot => hnot hmem).elim
  | bare hquote hvisible =>
      subst hcs
      have hblank : ∀ c ∈ gap, isBlank c = true := fun c hc => isBlank_of_isSpace (hgap c hc)
      have hquote' : quote ∉ front ++ ' ' :: (gap ++ back) := by
        have hnone : quote ∉ gap := not_mem_of_blank hblank (by decide)
        simpa [hnone] using hquote
      have hvisible' : ∃ c ∈ front ++ ' ' :: (gap ++ back), isBlank c = false := by
        obtain ⟨c, hc, hvisible⟩ := hvisible
        refine ⟨c, ?_, hvisible⟩
        simp only [List.mem_append, List.mem_cons] at hc ⊢
        exact hc.imp_right fun hc => hc.imp_right .inr
      refine ⟨_, ?_, .bare hquote' hvisible'⟩
      by_cases hback : ∃ c ∈ back, isBlank c = false
      · have htrim (mid : List Char) :
            trimEnd (front ++ ' ' :: (mid ++ back)) = front ++ ' ' :: (mid ++ trimEnd back) := by
          have happend := trimEnd_append hback (front ++ ' ' :: mid)
          simpa only [List.append_assoc, List.cons_append] using happend
        obtain ⟨trail, htrail, -⟩ := exists_trimEnd_append back
        rw [htrim gap, show front ++ ' ' :: back = front ++ ' ' :: ([] ++ back) from rfl, htrim []]
        exact .parted (List.nil_append front).symm htrail.symm
      · have hback' : ∀ c ∈ back, isBlank c = true := by simpa using hback
        rw [trimEnd_append_of_blank front (List.forall_mem_cons.mpr ⟨by decide, hback'⟩),
          trimEnd_append_of_blank front
            (List.forall_mem_cons.mpr ⟨by decide, List.forall_mem_append.mpr ⟨hblank, hback'⟩⟩)]
        exact .same

/-- A name in a line has the spaces that are put between the two parts of the line, if it is written
without marks and stands on both sides. -/
theorem fits_name_spread (hquotes : front.count quote % 2 = 0 ∨ quote ∉ back) (hgap : IsGap gap)
    {name : String} (h : Fits (Spaced IsName) (front ++ ' ' :: back) name) :
    ∃ name', Spread front gap back name name' ∧
      Fits (Spaced IsName) (front ++ ' ' :: (gap ++ back)) name' := by
  rcases h.cases_space hgap with hsame | ⟨z, tail, rfl, htail, htext⟩
  · exact ⟨name, .same, hsame⟩
  · have hend : front ++ ' ' :: (gap ++ (z ++ tail)) =
        (front ++ ' ' :: (gap ++ z)) ++ tail := by simp
    rw [hend]
    rcases htext.cases_space hgap with hsame | ⟨lead, first, rfl, hne, hlead, hfirst, hstart, hname⟩
    · exact ⟨name, .same, _, tail, rfl, htail, hsame⟩
    · rw [List.count_append, hlead.count_quote, Nat.zero_add, List.mem_append, not_or] at hquotes
      obtain ⟨name', hspread, hname'⟩ := isName_spread (hquotes.imp_right And.left) hgap hname
      refine ⟨name', hspread.append lead tail, _, tail, rfl, htail, ?_⟩
      rw [List.append_assoc]
      exact .after hne hlead (hstart.append hfirst) hname'

end Gaps

end Grammar

namespace Statement

open Grammar

variable {front back gap : List Char} {s : Statement}

def named : List (String → Statement) :=
  [.action, .waitAddon, .require, .target, .runMacro, .item, .recipe]

/-- A statement, and the statement with more spaces in its name. -/
inductive Spread (front gap back : List Char) : Statement → Statement → Prop
  | same {s : Statement} : Spread front gap back s s
  | name {f : String → Statement} (hf : f ∈ named) {name name' : String}
      (h : Grammar.Spread front gap back name name') : Spread front gap back (f name) (f name')

theorem Spread.append {s' : Statement} (h : Spread front gap back s s') (lead trail : List Char) :
    Spread (lead ++ front) gap (back ++ trail) s s' := by
  cases h with
  | same => exact .same
  | name hf h => exact .name hf (h.append lead trail)

theorem isStats_spread (hgap : IsGap gap) (h : IsStats (front ++ ' ' :: back) s) :
    IsStats (front ++ ' ' :: (gap ++ back)) s := by
  generalize hcs : front ++ ' ' :: back = cs at h
  cases h with
  | @counts first second third craftsmanship control cp h h' h'' =>
      rcases cases_space hcs with ⟨z, rfl, rfl⟩ | ⟨z, rfl, hrest⟩
      · have hspread := IsStats.counts (h.spread_count hgap) h' h''
        simpa only [List.append_assoc, List.cons_append] using hspread
      · rw [List.append_assoc]
        rcases cases_space hrest.symm with ⟨more, rfl, rfl⟩ | ⟨more, rfl, rfl⟩
        · have hspread := IsStats.counts h (h'.spread_count hgap) h''
          simpa only [List.append_assoc, List.cons_append] using hspread
        · rw [List.append_assoc]
          exact .counts h h' (h''.spread_count hgap)

/-- The arguments of a verb fit as well with more spaces where they have one. -/
theorem fits_spread {verb : Verb} (hquotes : front.count quote % 2 = 0 ∨ quote ∉ back)
    (hgap : IsGap gap) (h : Fits verb.Spells (front ++ ' ' :: back) s) :
    ∃ s', Spread front gap back s s' ∧ Fits verb.Spells (front ++ ' ' :: (gap ++ back)) s' := by
  have hsolid {α : Type} {P : List Char → α → Prop} {f : α → Statement} (hP : Solid P)
      (h : Fits (Given (Spaced P) f) (front ++ ' ' :: back) s) :
      ∃ s', Spread front gap back s s' ∧
        Fits (Given (Spaced P) f) (front ++ ' ' :: (gap ++ back)) s' := by
    obtain ⟨value, rfl, hfits⟩ := fits_given.mp h
    refine ⟨_, .same, fits_given.mpr ⟨value, rfl, hfits.spread (fun z hz htext => ?_) hgap⟩⟩
    exact htext.spread_solid hP (hquotes.imp_right fun hnot hmem => hnot (hz.subset hmem)) hgap
  have hname {f : String → Statement} (hf : f ∈ named)
      (h : Fits (Given (Spaced IsName) f) (front ++ ' ' :: back) s) :
      ∃ s', Spread front gap back s s' ∧
        Fits (Given (Spaced IsName) f) (front ++ ' ' :: (gap ++ back)) s' := by
    obtain ⟨name, rfl, hfits⟩ := fits_given.mp h
    obtain ⟨name', hspread, hfits'⟩ := fits_name_spread hquotes hgap hfits
    exact ⟨f name', .name hf hspread, fits_given.mpr ⟨name', rfl, hfits'⟩⟩
  cases verb with
  | action | waitAddon | require | target | runMacro | item | recipe =>
      refine hname ?_ h
      simp [named]
  | click | send => exact hsolid solid_argument h
  | wait => exact hsolid solid_range h
  | requireQuality | gate =>
      obtain ⟨count, rfl, hfits⟩ := fits_given.mp h
      exact ⟨_, .same, fits_given.mpr
        ⟨count, rfl, hfits.spread (fun _ _ => .spread_count hgap) hgap⟩⟩
  | requireStats => exact ⟨s, .same, h.spread (fun _ _ => isStats_spread hgap) hgap⟩
  | requireRepair | requireSpiritbond =>
      refine ⟨s, .same, h.spread ?_ hgap⟩
      rintro z - ⟨hnil, -⟩
      exact absurd hnil (List.append_ne_nil_of_right_ne_nil _ (List.cons_ne_nil _ _))
  | loop =>
      obtain ⟨count, rfl, hfits⟩ := fits_given.mp h
      refine ⟨_, .same, fits_given.mpr ⟨count, rfl, hfits.spread (fun z _ htext => ?_) hgap⟩⟩
      generalize hcs : front ++ ' ' :: z = cs at htext
      cases htext with
      | absent => simp at hcs
      | present htext =>
          subst hcs
          exact .present (htext.spread_count hgap)

/-- All spellings are made of small letters. -/
theorem isLower_of_spelling {name : List Char} {verb : Verb}
    (h : (String.ofList (asciiLower name), verb) ∈ Verb.spellings) {c : Char} (hc : c ∈ name) :
    c.toLower.isLower = true := by
  have hall : (Verb.spellings.all fun entry => entry.1.toList.all Char.isLower) = true := by decide
  have hspelling := List.all_eq_true.mp hall _ h
  rw [String.toList_ofList, List.all_eq_true] at hspelling
  exact hspelling _ (List.mem_map_of_mem hc)

theorem not_mem_of_spelling {name : List Char} {verb : Verb}
    (h : (String.ofList (asciiLower name), verb) ∈ Verb.spellings) {c : Char}
    (hc : c.toLower.isLower = false) : c ∉ name := by
  intro hmem
  rw [isLower_of_spelling h hmem] at hc
  cases hc

/-- A line that is a statement is one as well with more spaces where it has one. -/
theorem read_spread (hquotes : front.count quote % 2 = 0 ∨ quote ∉ back) (hgap : IsGap gap)
    (h : read ('/' :: (front ++ ' ' :: back)) = .ok s) :
    ∃ s', Spread front gap back s s' ∧ read ('/' :: (front ++ ' ' :: (gap ++ back))) = .ok s' := by
  obtain ⟨name, args, rfl, hname, hargs⟩ := exists_verb front
  have hargs' (back : List Char) : ∀ c ∈ (args ++ ' ' :: back).head?, isBlank c = true := by
    cases args with
    | nil =>
        rintro c ⟨⟩
        decide
    | cons c args => exact hargs
  rw [List.append_assoc] at h ⊢
  by_cases hnative : name = [] ∨ ∀ verb, (String.ofList (asciiLower name), verb) ∉ Verb.spellings
  · rw [(read_eq_native_iff hname (hargs' back)).mpr hnative] at h
    cases h
    exact ⟨.native, .same, (read_eq_native_iff hname (hargs' _)).mpr hnative⟩
  · rw [not_or, not_forall] at hnative
    obtain ⟨-, verb, hmem⟩ := hnative
    rw [not_not] at hmem
    rw [List.count_append, List.count_eq_zero.mpr (not_mem_of_spelling hmem (by decide)),
      Nat.zero_add] at hquotes
    obtain ⟨s', hspread, hfits⟩ :=
      fits_spread hquotes hgap ((read_eq_ok_iff hname (hargs' back) hmem).mp h)
    refine ⟨s', ?_, (read_eq_ok_iff hname (hargs' _) hmem).mpr hfits⟩
    have happend := hspread.append name []
    rwa [List.append_nil] at happend

/-- The same for a line with blanks around it. -/
theorem read_trim_spread (hquotes : front.count quote % 2 = 0 ∨ quote ∉ back) (hgap : IsGap gap)
    (h : read (trim (front ++ ' ' :: back)) = .ok s) :
    ∃ s', Spread front gap back s s' ∧ read (trim (front ++ ' ' :: (gap ++ back))) = .ok s' := by
  have hblank : ∀ c ∈ ' ' :: gap, isBlank c = true :=
    List.forall_mem_cons.mpr ⟨by decide, fun c hc => isBlank_of_isSpace (hgap c hc)⟩
  have hspace : ∀ c ∈ [' '], isBlank c = true := by simp [isBlank]
  have hsplit (gap : List Char) :
      front ++ ' ' :: (gap ++ back) = front ++ (' ' :: gap ++ back) := rfl
  rw [← List.nil_append back, hsplit] at h
  rw [hsplit]
  by_cases hfront : ∃ c ∈ front, isBlank c = false
  · by_cases hback : ∃ c ∈ back, isBlank c = false
    · rw [trim_append hfront hback] at h ⊢
      have hhead : (trimStart front ++ (' ' :: [] ++ trimEnd back)).head? = some '/' := by
        by_contra hne
        rw [read_of_head?_ne hne] at h
        cases h
      cases hstart : trimStart front with
      | nil =>
          rw [hstart] at hhead
          exact absurd (Option.some.inj hhead) (by decide)
      | cons c rest =>
          rw [hstart] at h hhead
          obtain rfl : c = '/' := Option.some.inj hhead
          obtain ⟨trail, htrail, -⟩ := exists_trimEnd_append back
          have hsame : rest.count quote = front.count quote := by
            have hcount := count_trimStart (c := quote) (by decide) front
            rw [hstart, List.count_cons] at hcount
            exact hcount
          have hquotes' : rest.count quote % 2 = 0 ∨ quote ∉ trimEnd back := by
            rw [hsame]
            exact hquotes.imp_right fun hnot hmem => hnot ((trimEnd_isPrefix back).subset hmem)
          obtain ⟨s', hspread, hread⟩ := read_spread hquotes' hgap h
          refine ⟨s', ?_, hread⟩
          have hlead : front = (front.takeWhile isBlank ++ ['/']) ++ rest := by
            rw [List.append_assoc, List.singleton_append, ← hstart]
            exact (List.takeWhile_append_dropWhile ..).symm
          have happend := hspread.append (front.takeWhile isBlank ++ ['/']) trail
          rwa [← hlead, htrail] at happend
    · have hback' : ∀ c ∈ back, isBlank c = true := by simpa using hback
      rw [trim_append_of_blank front (List.forall_mem_append.mpr ⟨hblank, hback'⟩)]
      rw [trim_append_of_blank front (List.forall_mem_append.mpr ⟨hspace, hback'⟩)] at h
      exact ⟨s, .same, h⟩
  · have hfront' : ∀ c ∈ front, isBlank c = true := by simpa using hfront
    rw [← List.append_assoc, trim_append_left (List.forall_mem_append.mpr ⟨hfront', hblank⟩)]
    rw [← List.append_assoc, trim_append_left (List.forall_mem_append.mpr ⟨hfront', hspace⟩)] at h
    exact ⟨s, .same, h⟩

end Statement

end CraftLang
