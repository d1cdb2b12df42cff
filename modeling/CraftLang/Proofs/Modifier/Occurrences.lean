import CraftLang.Proofs.Modifier.Spelling
import CraftLang.Proofs.Modifier.Tokens

/-!
Where tokens stand in a line. The tokens that a scan for one kind finds are those that stand outside
closed quoted arguments, each once and from left to right. What is taken of a line is blank to a
later scan, and hides no token but the one that is taken; so the scans for different kinds have
nothing to do with each other.
-/

namespace CraftLang.Modifier

open Text Grammar

variable {kind other : Kind} {cs front rest text : List Char} {token : Token} {odd : Bool}
  {o o' : Occurrence}

/-! ### Texts of tokens -/

theorem Spells.quote_not_mem (h : Spells kind text token) : quote ∉ text := by
  obtain ⟨inner, rfl, hinner⟩ := spells_iff.mp h
  intro hmem
  simp only [List.mem_cons, List.mem_append, List.not_mem_nil, or_false] at hmem
  rcases hmem with hopen | hmem | hclose
  · exact absurd hopen (by decide)
  · exact (hinner.chars _ hmem).ne_quote rfl
  · exact absurd hclose (by decide)

/-- There is nothing blank in a token. -/
theorem Spells.visible (h : Spells kind text token) : ∀ c ∈ text, isBlank c = false := by
  obtain ⟨inner, rfl, hinner⟩ := spells_iff.mp h
  intro c hmem
  simp only [List.mem_cons, List.mem_append, List.not_mem_nil, or_false] at hmem
  rcases hmem with rfl | hmem | rfl
  · decide
  · exact (hinner.chars _ hmem).visible
  · decide

theorem Spells.eq_cons (h : Spells kind text token) : ∃ inner, text = '<' :: inner ∧
    '<' ∉ inner := by
  obtain ⟨inner, rfl, hinner⟩ := spells_iff.mp h
  refine ⟨inner ++ ['>'], rfl, fun hmem => ?_⟩
  rcases List.mem_append.mp hmem with hmem | hmem
  · exact (hinner.chars _ hmem).ne_open rfl
  · exact absurd (List.mem_singleton.mp hmem) (by decide)

/-! ### What a scan finds -/

/-- A token of a kind stands in a text, outside its closed quoted arguments. `odd` says whether an
odd number of quotation marks stands before the text. -/
def Stands (kind : Kind) (odd : Bool) (cs : List Char) (o : Occurrence) : Prop :=
  ∃ front text rest, cs = front ++ (text ++ rest) ∧ Spells kind text o.token ∧
    o.position = front.length ∧ o.length = text.length ∧
      (quotesOpen odd front = false ∨ quote ∉ rest)

theorem not_stands_nil : ¬ Stands kind odd [] o := by
  rintro ⟨front, text, rest, hcs, htext, -⟩
  obtain ⟨inner, rfl, -⟩ := htext.eq_cons
  simp at hcs

/-- A token stands at the start of a text, or further on. -/
theorem stands_cons {c : Char} :
    Stands kind odd (c :: cs) o ↔
      (∃ text rest, c :: cs = text ++ rest ∧ Spells kind text o.token ∧ o.position = 0 ∧
        o.length = text.length ∧ (odd = false ∨ quote ∉ rest)) ∨
      ∃ later, Stands kind (odd != (c == quote)) cs later ∧ later.shift = o := by
  constructor
  · rintro ⟨front, text, rest, hcs, htext, hposition, hlength, houtside⟩
    cases front with
    | nil => exact .inl ⟨text, rest, hcs, htext, hposition, hlength, houtside⟩
    | cons d front =>
        obtain ⟨rfl, rfl⟩ := List.cons.inj hcs
        obtain ⟨position, length, token⟩ := o
        exact .inr ⟨⟨front.length, length, token⟩,
          ⟨front, text, rest, rfl, htext, rfl, hlength, houtside⟩,
          by rw [Occurrence.shift, show position = front.length + 1 from hposition]⟩
  · rintro (⟨text, rest, hcs, htext, hposition, hlength, houtside⟩ |
      ⟨later, ⟨front, text, rest, rfl, htext, hposition, hlength, houtside⟩, rfl⟩)
    · exact ⟨[], text, rest, hcs, htext, hposition, hlength, houtside⟩
    · exact ⟨c :: front, text, rest, rfl, htext, congrArg (· + 1) hposition, hlength, houtside⟩

theorem mem_occurrencesFrom : o ∈ occurrencesFrom kind odd cs ↔ Stands kind odd cs o := by
  induction cs generalizing odd o with
  | nil => exact ⟨nofun, fun h => absurd h not_stands_nil⟩
  | cons c cs ih =>
      have hlater : o ∈ (occurrencesFrom kind (odd != (c == quote)) cs).map (·.shift) ↔
          ∃ later, Stands kind (odd != (c == quote)) cs later ∧ later.shift = o := by
        simp only [List.mem_map, ih]
      rw [stands_cons, occurrencesFrom]
      split
      · next hquoted =>
          rw [hlater]
          refine ⟨.inr, fun h => h.resolve_left ?_⟩
          -- A token at the start would have the mark that closes the argument after it.
          rintro ⟨text, rest, hcs, htext, -, -, houtside⟩
          obtain ⟨hodd, hclosed⟩ : odd = true ∧ quote ∈ cs := by simpa using hquoted
          have hmem : quote ∈ text ++ rest := hcs ▸ List.mem_cons_of_mem c hclosed
          rcases houtside with hnot | hnot
          · rw [hodd] at hnot
            cases hnot
          · exact hnot ((List.mem_append.mp hmem).resolve_left htext.quote_not_mem)
      · next hopen =>
          have houtside {text rest : List Char} {token : Token} (htext : Spells kind text token)
              (hcs : c :: cs = text ++ rest) : odd = false ∨ quote ∉ rest := by
            obtain ⟨inner, rfl, -⟩ := htext.eq_cons
            obtain ⟨-, rfl⟩ := List.cons.inj hcs
            by_contra hnot
            simp only [not_or, Bool.not_eq_false, not_not] at hnot
            simp [hnot.1, hnot.2] at hopen
          split
          · next token rest htoken =>
              obtain ⟨text, hcs, htext⟩ := token?_eq_some_iff.mp htoken
              have hlength : (c :: cs).length - rest.length = text.length := by
                rw [hcs, List.length_append, Nat.add_sub_cancel]
              rw [List.mem_cons, hlater, hlength]
              refine or_congr_left ⟨?_, ?_⟩
              · rintro rfl
                exact ⟨text, rest, hcs, htext, rfl, rfl, houtside htext hcs⟩
              · rintro ⟨text', rest', hcs', htext', hposition, hlength', -⟩
                obtain ⟨rfl, -, htoken⟩ := htext.unique htext' (hcs.symm.trans hcs')
                obtain ⟨position, length, token'⟩ := o
                simp only at hposition hlength' htoken
                rw [hposition, hlength', htoken]
          · next hnone =>
              rw [hlater]
              refine ⟨.inr, fun h => h.resolve_left ?_⟩
              rintro ⟨text, rest, hcs, htext, -⟩
              rw [token?_eq_some_iff.mpr ⟨text, hcs, htext⟩] at hnone
              cases hnone

theorem pairwise_occurrencesFrom (kind : Kind) (odd : Bool) (cs : List Char) :
    (occurrencesFrom kind odd cs).Pairwise (·.position < ·.position) := by
  induction cs generalizing odd with
  | nil => exact .nil
  | cons c cs ih =>
      have hlater : ((occurrencesFrom kind (odd != (c == quote)) cs).map (·.shift)).Pairwise
          (·.position < ·.position) :=
        List.pairwise_map.mpr ((ih _).imp Nat.succ_lt_succ)
      rw [occurrencesFrom]
      split
      · exact hlater
      · split
        · refine List.pairwise_cons.mpr ⟨fun later hmem => ?_, hlater⟩
          obtain ⟨before, -, rfl⟩ := List.mem_map.mp hmem
          exact Nat.succ_pos before.position
        · exact hlater

/-- Two scans that find the same tokens find them in the same order. -/
theorem occurrencesFrom_congr {kind' : Kind} {odd' : Bool} {cs' : List Char}
    (h : ∀ o, Stands kind' odd' cs' o ↔ Stands kind odd cs o) :
    occurrencesFrom kind' odd' cs' = occurrencesFrom kind odd cs := by
  have hnodup (kind : Kind) (odd : Bool) (cs : List Char) :
    (occurrencesFrom kind odd cs).Nodup := by
    refine (pairwise_occurrencesFrom kind odd cs).imp fun {before after} hlt heq => ?_
    rw [heq] at hlt
    exact Nat.lt_irrefl _ hlt
  have hperm := (List.perm_ext_iff_of_nodup (hnodup kind' odd' cs') (hnodup kind odd cs)).mpr
    fun o => by rw [mem_occurrencesFrom, mem_occurrencesFrom, h]
  exact hperm.eq_of_pairwise (fun _ _ _ _ hlt hlt' => absurd hlt' (Nat.lt_asymm hlt))
    (pairwise_occurrencesFrom ..) (pairwise_occurrencesFrom ..)

end CraftLang.Modifier
