import CraftLang.Proofs.Json.RoundTrip
import CraftLang.Store.MacroSettings

/-!
Settings of a macro as they are stored: reading them gives them back.
-/

namespace CraftLang

open Text

namespace Decimal

theorem natOf?_ofNat (n : Nat) : natOf? (ofNat n) = some n := by
  have hdigits : (ofNat n).all Char.isDigit = true :=
    List.all_eq_true.mpr fun _ hc => isDigit_of_mem_ofNat hc
  simp [natOf?, ofNat_ne_nil, hdigits, natOfDigits_ofNat]

theorem intOf?_ofInt (n : Int) : intOf? (ofInt n) = some n := by
  cases n with
  | negSucc n =>
      rw [ofInt, intOf?, natOf?_ofNat]
      rfl
  | ofNat n =>
      obtain ⟨d, digits, heq⟩ := List.exists_cons_of_ne_nil (ofNat_ne_nil n)
      have hdigit : d.isDigit = true := isDigit_of_mem_ofNat (n := n) (by simp [heq])
      have hread := natOf?_ofNat n
      rw [ofInt, heq]
      rw [heq] at hread
      unfold intOf?
      split
      · next h =>
          cases h
          exact absurd hdigit (by decide)
      · next h =>
          cases h
          exact absurd hdigit (by decide)
      · rw [hread]
        rfl

theorem intText_ne_minusZero (n : Int) : (intText n == "-0") = false := by
  refine beq_eq_false_iff_ne.mpr fun h => ?_
  have hzero : intOf? (ofInt n) = some 0 := by
    rw [← String.toList_ofList (l := ofInt n), ← intText, h]
    decide
  rw [intOf?_ofInt] at hzero
  cases hzero
  exact absurd h (by decide)

end Decimal

namespace Json

def Is32Bit (n : Int) : Prop := -2147483648 ≤ n ∧ n < 2147483648

instance (n : Int) : Decidable (Is32Bit n) :=
  inferInstanceAs (Decidable (_ ∧ _))

theorem intOfBits?_int {n : Int} (h : Is32Bit n) : intOfBits? 32 (int n) = some n := by
  have hrange : -2147483648 ≤ n ∧ n < 2147483648 := h
  rw [int, intOfBits?, Decimal.intText, String.toList_ofList, ← Decimal.intText]
  simp [Decimal.intOf?_ofInt, Decimal.intText_ne_minusZero, hrange]

end Json

namespace MacroSettings

theorem printable_toJson (settings : MacroSettings) : Json.Printable settings.toJson := by
  refine .object fun member hmem => ?_
  simp only [List.mem_cons, List.not_mem_nil, or_false] at hmem
  rcases hmem with rfl | rfl | rfl | rfl
  · cases settings.name with
    | none => exact .null
    | some name => exact .text name
  · exact .text _
  · exact .bool _
  · exact .int _

theorem ofJson?_toJson {settings : MacroSettings} (h : Json.Is32Bit settings.craftCount) :
    ofJson? settings.toJson = some settings := by
  obtain ⟨name, language, craftLoop, craftCount⟩ := settings
  have hcount : Json.intOfBits? 32 (.int craftCount) = some craftCount := Json.intOfBits?_int h
  have hfields : (toJson ⟨name, language, craftLoop, craftCount⟩).fields?
      ["name", "language", "craft_loop", "craft_count"] 0 =
      some [some (.optional .text name), some (.text language.word), some (.bool craftLoop),
        some (.int craftCount)] := rfl
  have hname : Json.maybe Json.text? (some (.optional .text name)) = some name := by
    cases name <;> rfl
  have hlanguage : MacroLanguage.ofJson? (.text language.word) = some language := by
    cases language <;> rfl
  simp only [ofJson?, hfields, hname, hlanguage, hcount, Json.withDefault, Json.bool?,
    Option.bind_eq_bind, Option.bind_some, Option.pure_def]

/-- Settings are read from the file that they were written to. -/
theorem read_pretty {settings : MacroSettings} (h : Json.Is32Bit settings.craftCount) :
    (Json.read? (utf8Bytes settings.toJson.pretty) >>= ofJson?) = some settings := by
  rw [Json.read?_pretty settings.printable_toJson]
  exact ofJson?_toJson h

end MacroSettings

end CraftLang
