import CraftLang.Json.Decode
import CraftLang.Json.Printer

/-!
Reading undoes printing. Each part of a printed value is read to its last byte, whatever follows it,
and so the parts can be put together as the printer puts them.
-/

namespace CraftLang.Json

open Text

/-! ### Bytes of text -/

def encoded (cs : List Char) : List UInt8 := cs.flatMap String.utf8EncodeChar

@[simp] theorem encoded_nil : encoded [] = [] := rfl

@[simp] theorem encoded_cons (c : Char) (cs : List Char) :
    encoded (c :: cs) = String.utf8EncodeChar c ++ encoded cs := List.flatMap_cons

@[simp] theorem encoded_append (cs ds : List Char) :
    encoded (cs ++ ds) = encoded cs ++ encoded ds :=
  List.flatMap_append

theorem utf8Bytes_ofList (cs : List Char) : utf8Bytes (String.ofList cs) = encoded cs := by
  simp [utf8Bytes, encoded, List.utf8Encode, List.data_toByteArray]

theorem encodeChar_of_ascii {c : Char} (h : c.toNat ≤ 127) :
    String.utf8EncodeChar c = [byteOf c] := by
  have hval : c.val.toNat ≤ 127 := h
  rw [String.utf8EncodeChar, if_pos hval]
  rfl

/-- The bytes of a character beyond ASCII are beyond ASCII. -/
theorem le_of_mem_encodeChar {c : Char} (h : 127 < c.toNat) {b : UInt8}
    (hb : b ∈ String.utf8EncodeChar c) : 128 ≤ b.toNat := by
  have hval : ¬ c.val.toNat ≤ 127 := Nat.not_le.mpr h
  simp only [String.utf8EncodeChar, if_neg hval] at hb
  have hlead (n k : Nat) (hk : 128 ≤ k) (hn : n + k < 256) : 128 ≤ (UInt8.ofNat (n + k)).toNat := by
    rw [UInt8.toNat_ofNat_of_lt' hn]
    omega
  split at hb
  · simp only [List.mem_cons, List.not_mem_nil, or_false] at hb
    rcases hb with rfl | rfl
    all_goals exact hlead _ _ (by decide) (by omega)
  · split at hb
    all_goals simp only [List.mem_cons, List.not_mem_nil, or_false] at hb
    · rcases hb with rfl | rfl | rfl
      all_goals exact hlead _ _ (by decide) (by omega)
    · rcases hb with rfl | rfl | rfl | rfl
      all_goals exact hlead _ _ (by decide) (by omega)

/-! ### Strings -/

/-- With so much fuel or more the rest of a string is read from these bytes. -/
def ReadsString (fuel : Nat) (bytes content rest : List UInt8) : Prop :=
  ∀ more, fuel ≤ more → stringBytes? more bytes = some (some content, rest)

theorem readsString_end (rest : List UInt8) : ReadsString 1 (byteOf '\x22' :: rest) [] rest := by
  intro more hmore
  obtain ⟨fuel, rfl⟩ := Nat.exists_eq_add_of_le' hmore
  rfl

namespace ReadsString

variable {fuel : Nat} {bytes content rest : List UInt8}

/-- A byte that stands for itself. -/
theorem plain {b : UInt8} (h : ReadsString fuel bytes content rest) (hmark : b ≠ byteOf '\x22')
    (hescape : b ≠ byteOf '\\') (hcontrol : ¬ b < 0x20) :
    ReadsString (fuel + 1) (b :: bytes) (b :: content) rest := by
  intro more hmore
  obtain ⟨k, rfl⟩ := Nat.exists_eq_add_of_le' hmore
  have hrest := h (k + fuel) (Nat.le_add_left _ _)
  simp [stringBytes?, hmark, hescape, hcontrol, hrest]

/-- An escape of one letter. -/
theorem letter {e b : UInt8} (h : ReadsString fuel bytes content rest)
    (hescape : escape? e = some b) (hunit : e ≠ byteOf 'u') :
    ReadsString (fuel + 1) (byteOf '\\' :: e :: bytes) (b :: content) rest := by
  intro more hmore
  obtain ⟨k, rfl⟩ := Nat.exists_eq_add_of_le' hmore
  have hrest := h (k + fuel) (Nat.le_add_left _ _)
  have hmark : byteOf '\\' ≠ byteOf '\x22' := by decide
  have hcontrol : ¬ byteOf '\\' < 0x20 := by decide
  simp [stringBytes?, hmark, hcontrol, hunit, hescape, hrest]

/-- An escape of four digits. -/
theorem units {digits : List UInt8} {b : UInt8} (h : ReadsString fuel bytes content rest)
    (hunits : ∀ bytes, escapedUnits? (digits ++ bytes) = some (some [b], bytes)) :
    ReadsString (fuel + 1) (byteOf '\\' :: byteOf 'u' :: digits ++ bytes) (b :: content) rest := by
  intro more hmore
  obtain ⟨k, rfl⟩ := Nat.exists_eq_add_of_le' hmore
  have hrest := h (k + fuel) (Nat.le_add_left _ _)
  have hmark : byteOf '\\' ≠ byteOf '\x22' := by decide
  have hcontrol : ¬ byteOf '\\' < 0x20 := by decide
  simp [stringBytes?, ← Nat.add_assoc, hmark, hcontrol, hunits, hrest]

theorem mono {fuel' : Nat} (h : ReadsString fuel bytes content rest) (hle : fuel ≤ fuel') :
    ReadsString fuel' bytes content rest :=
  fun more hmore => h more (Nat.le_trans hle hmore)

/-- The bytes of a character beyond ASCII. -/
theorem plains {beyond : List UInt8} (h : ReadsString fuel bytes content rest)
    (hbeyond : ∀ b ∈ beyond, 128 ≤ b.toNat) :
    ReadsString (fuel + beyond.length) (beyond ++ bytes) (beyond ++ content) rest := by
  induction beyond with
  | nil => exact h
  | cons b beyond ih =>
      obtain ⟨hb, hothers⟩ := List.forall_mem_cons.mp hbeyond
      have hne {c : UInt8} (hc : c.toNat < 128) : b ≠ c := fun hbc => by
        rw [hbc] at hb
        omega
      have hcontrol : ¬ b < 0x20 := fun hlt => by
        have hlt : b.toNat < 32 := hlt
        omega
      exact (ih hothers).plain (hne (by decide)) (hne (by decide)) hcontrol

end ReadsString

theorem hexValue?_digitChar {n : Nat} (h : n < 16) :
    hexValue? (byteOf (Nat.digitChar n)) = some n := by
  have hall : ∀ n < 16, hexValue? (byteOf (Nat.digitChar n)) = some n := by decide
  exact hall n h

theorem digitChar_le {n : Nat} (h : n < 16) : (Nat.digitChar n).toNat ≤ 127 := by
  have hall : ∀ n < 16, (Nat.digitChar n).toNat ≤ 127 := by decide
  exact hall n h

theorem hexPair_of_lt {n : Nat} (h : n < 256) :
    hexPair n = [Nat.digitChar (n / 16), Nat.digitChar (n % 16)] := by
  rw [hexPair, Nat.toDigits_of_lt_base (by omega), Nat.toDigits_of_lt_base (by omega)]
  rfl

/-- A code unit that is no surrogate stands for itself, whatever comes after it. -/
theorem escapedUnits?_of_codeUnit? {bytes rest : List UInt8} {n : Nat}
    (h : codeUnit? bytes = some (n, rest)) (hn : n < 0xD800) :
    escapedUnits? bytes = some (encodeCodePoint? n, rest) := by
  have hhigh : ¬ 0xD800 ≤ n := by omega
  rcases rest with _ | ⟨b, _ | ⟨u, more⟩⟩ <;> simp [escapedUnits?, h, hhigh]

theorem toNat_byteOf {c : Char} (h : c.toNat ≤ 127) : (byteOf c).toNat = c.toNat :=
  UInt8.toNat_ofNat_of_lt' (by show c.toNat < 256; omega)

theorem byteOf_injective {c d : Char} (hc : c.toNat ≤ 127) (hd : d.toNat ≤ 127)
    (h : byteOf c = byteOf d) : c = d := by
  have hnat := congrArg UInt8.toNat h
  rw [toNat_byteOf hc, toNat_byteOf hd] at hnat
  exact Char.toNat_inj.mp hnat

theorem encodeCodePoint?_toNat (c : Char) :
    encodeCodePoint? c.toNat = some (String.utf8EncodeChar c) := by
  have hvalid : c.toNat.isValidChar := c.valid
  rw [encodeCodePoint?, if_pos hvalid, Char.ofNat_toNat, utf8Bytes_ofList]
  simp

/-- A control character, by the two digits of its code point. -/
theorem escapedUnits?_control {c : Char} (h : c.toNat < 0x20) (rest : List UInt8) :
    escapedUnits? (encoded ('0' :: '0' :: hexPair c.toNat) ++ rest) =
      some (some [byteOf c], rest) := by
  have hhigh : c.toNat / 16 < 16 := by omega
  have hlow : c.toNat % 16 < 16 := by omega
  have hpair : encoded (hexPair c.toNat) =
      [byteOf (Nat.digitChar (c.toNat / 16)), byteOf (Nat.digitChar (c.toNat % 16))] := by
    simp [hexPair_of_lt (n := c.toNat) (by omega), encodeChar_of_ascii, digitChar_le, hhigh, hlow]
  have hunit : codeUnit? (encoded ('0' :: '0' :: hexPair c.toNat) ++ rest) =
      some (c.toNat, rest) := by
    have hzero : hexValue? (byteOf '0') = some 0 := by decide
    have hsum : c.toNat / 16 * 16 + c.toNat % 16 = c.toNat := Nat.div_add_mod' _ _
    simp [hpair, encodeChar_of_ascii, codeUnit?, hzero, hexValue?_digitChar, hhigh, hlow, hsum]
  rw [escapedUnits?_of_codeUnit? hunit (by omega), encodeCodePoint?_toNat,
    encodeChar_of_ascii (by omega)]

/-- A character is escaped by a letter or by its code point, or stands for itself. -/
theorem escapedChar_cases (c : Char) :
    (∃ e, escapedChar c = ['\\', e] ∧ c.toNat ≤ 127 ∧ e.toNat ≤ 127 ∧
      escape? (byteOf e) = some (byteOf c) ∧ byteOf e ≠ byteOf 'u') ∨
    (c.toNat < 0x20 ∧ escapedChar c = '\\' :: 'u' :: '0' :: '0' :: hexPair c.toNat) ∨
    (escapedChar c = [c] ∧ c ≠ '\x22' ∧ c ≠ '\\' ∧ 0x20 ≤ c.toNat) := by
  unfold escapedChar
  iterate 7
    split
    · next hc => exact .inl ⟨_, rfl, by rw [hc]; decide, by decide, by rw [hc]; decide, by decide⟩
  split
  · next hcontrol => exact .inr (.inl ⟨hcontrol, rfl⟩)
  · next hmark hescape _ _ _ _ _ hcontrol =>
      exact .inr (.inr ⟨rfl, hmark, hescape, Nat.le_of_not_lt hcontrol⟩)

/-- A character as the printer writes it. -/
theorem ReadsString.escaped {fuel : Nat} {bytes content rest : List UInt8}
    (h : ReadsString fuel bytes content rest) (c : Char) :
    ReadsString (fuel + (encoded (escapedChar c)).length) (encoded (escapedChar c) ++ bytes)
      (String.utf8EncodeChar c ++ content) rest := by
  have hbar : ('\\' : Char).toNat ≤ 127 := by decide
  rcases escapedChar_cases c with ⟨e, heq, hc, he, hescape, hunit⟩ | ⟨hcontrol, heq⟩ |
    ⟨heq, hmark, hescape, hcontrol⟩
  · simpa [heq, encodeChar_of_ascii, hc, he, hbar] using
      (h.letter hescape hunit).mono (Nat.le_succ _)
  · have hu : ('u' : Char).toNat ≤ 127 := by decide
    have hc : c.toNat ≤ 127 := by omega
    rw [heq, encoded_cons, encoded_cons, encodeChar_of_ascii hbar, encodeChar_of_ascii hu,
      encodeChar_of_ascii hc]
    exact (h.units (escapedUnits?_control hcontrol)).mono (by simp)
  · rw [heq, encoded_cons, encoded_nil, List.append_nil]
    by_cases hc : c.toNat ≤ 127
    · have hne {d : Char} (hd : d.toNat ≤ 127) (hcd : c ≠ d) : byteOf c ≠ byteOf d :=
        fun h => hcd (byteOf_injective hc hd h)
      have hlow : ¬ byteOf c < 0x20 := fun hlt => by
        have hlt : (byteOf c).toNat < 32 := hlt
        rw [toNat_byteOf hc] at hlt
        omega
      rw [encodeChar_of_ascii hc]
      exact h.plain (hne (by decide) hmark) (hne (by decide) hescape) hlow
    · exact h.plains fun b hb => le_of_mem_encodeChar (by omega) hb

/-- A whole string as the printer writes it, after its opening mark. -/
theorem readsString_chars (cs : List Char) (rest : List UInt8) :
    ReadsString ((encoded (cs.flatMap escapedChar)).length + 1)
      (encoded (cs.flatMap escapedChar) ++ byteOf '\x22' :: rest) (encoded cs) rest := by
  induction cs with
  | nil => exact readsString_end rest
  | cons c cs ih =>
      rw [List.flatMap_cons, encoded_append, encoded_cons, List.append_assoc, List.length_append]
      exact (ih.escaped c).mono (by omega)

theorem encoded_quotedText (s : String) : encoded (quotedText s) =
    byteOf '\x22' :: (encoded (s.toList.flatMap escapedChar) ++ [byteOf '\x22']) := by
  have hmark : ('\x22' : Char).toNat ≤ 127 := by decide
  simp [quotedText, encodeChar_of_ascii hmark]

theorem stringText?_quoted (s : String) (fuel : Nat) (rest : List UInt8)
    (hfuel : (encoded (quotedText s)).length ≤ fuel) :
    stringText? fuel (encoded (s.toList.flatMap escapedChar) ++ byteOf '\x22' :: rest) =
      some (some s, rest) := by
  rw [encoded_quotedText, List.length_cons, List.length_append] at hfuel
  have hcontent : encoded s.toList = utf8Bytes s := by
    rw [← utf8Bytes_ofList, String.ofList_toList]
  rw [stringText?, readsString_chars s.toList rest fuel (by omega), hcontent]
  simp

/-! ### Integers -/

def endsNumber (b : UInt8) : Bool :=
  !(isDigit b || b == byteOf '.' || b == byteOf 'e' || b == byteOf 'E')

/-- What comes after a value: nothing, or a byte with which no number goes on. -/
def Delimited (rest : List UInt8) : Prop := ∀ b ∈ rest.head?, endsNumber b = true

theorem isDigit_byteOf {c : Char} (h : c.isDigit = true) :
    isDigit (byteOf c) = true ∧ c.toNat ≤ 127 := by
  simp only [Char.isDigit, ge_iff_le, Bool.and_eq_true, decide_eq_true_eq] at h
  have hlow : 48 ≤ c.toNat := h.1
  have hhigh : c.toNat ≤ 57 := h.2
  have hle : c.toNat ≤ 127 := by omega
  have hb := toNat_byteOf hle
  simp only [isDigit, Bool.and_eq_true, decide_eq_true_eq, UInt8.le_iff_toNat_le, hb]
  exact ⟨⟨hlow, hhigh⟩, hle⟩

theorem encoded_of_ascii {cs : List Char} (h : ∀ c ∈ cs, c.toNat ≤ 127) :
    encoded cs = cs.map byteOf := by
  induction cs with
  | nil => rfl
  | cons c cs ih =>
      obtain ⟨hc, hcs⟩ := List.forall_mem_cons.mp h
      rw [encoded_cons, encodeChar_of_ascii hc, ih hcs]
      rfl

/-- No number but zero begins with a zero. -/
theorem ofNat_eq_cons {n : Nat} (h : n ≠ 0) :
    ∃ d digits, Decimal.ofNat n = d :: digits ∧ d ≠ '0' := by
  induction n using Nat.strongRecOn with
  | ind n ih =>
      rcases Nat.lt_or_ge n 10 with hlt | hge
      · have hall : ∀ n < 10, n ≠ 0 → Nat.digitChar n ≠ '0' := by decide
        exact ⟨Nat.digitChar n, [], Nat.toDigits_of_lt_base hlt, hall n hlt h⟩
      · obtain ⟨d, digits, heq, hd⟩ := ih (n / 10) (by omega) (by omega)
        refine ⟨d, digits ++ [Nat.digitChar (n % 10)], ?_, hd⟩
        rw [Decimal.ofNat, Nat.toDigits_of_base_le (by decide) hge]
        exact congrArg (· ++ _) heq

theorem Delimited.not_isDigit {rest : List UInt8} (h : Delimited rest) :
    rest.takeWhile isDigit = [] ∧ rest.dropWhile isDigit = rest := by
  cases rest with
  | nil => exact ⟨rfl, rfl⟩
  | cons b rest =>
      have hb := h b rfl
      simp only [endsNumber, Bool.not_eq_true', Bool.or_eq_false_iff] at hb
      simp [hb.1.1.1]

theorem digits?_append {digits rest : List UInt8} (hdigits : ∀ b ∈ digits, isDigit b = true)
    (hne : digits ≠ []) (hrest : Delimited rest) :
    digits? (digits ++ rest) = some (digits, rest) := by
  obtain ⟨htake, hdrop⟩ := hrest.not_isDigit
  rw [digits?, List.takeWhile_append_of_pos hdigits, List.dropWhile_append_of_pos hdigits, htake,
    hdrop, List.append_nil, if_neg (by simpa using hne)]

theorem ascii_of_mem_ofNat {n : Nat} : ∀ c ∈ Decimal.ofNat n, c.toNat ≤ 127 :=
  fun _ hc => (isDigit_byteOf (Decimal.isDigit_of_mem_ofNat hc)).2

theorem wholeDigits?_ofNat (n : Nat) {rest : List UInt8} (hrest : Delimited rest) :
    wholeDigits? (encoded (Decimal.ofNat n) ++ rest) = some (encoded (Decimal.ofNat n), rest) := by
  rw [encoded_of_ascii ascii_of_mem_ofNat]
  by_cases hn : n = 0
  · subst hn
    rfl
  · obtain ⟨d, digits, heq, hd⟩ := ofNat_eq_cons hn
    have hdigits : ∀ b ∈ (Decimal.ofNat n).map byteOf, isDigit b = true := by
      intro b hb
      obtain ⟨c, hc, rfl⟩ := List.mem_map.mp hb
      exact (isDigit_byteOf (Decimal.isDigit_of_mem_ofNat hc)).1
    have hread := digits?_append hdigits (by simp [heq]) hrest
    have hd' : d.toNat ≤ 127 := ascii_of_mem_ofNat (n := n) d (by simp [heq])
    have hzero : byteOf d ≠ 0x30 := fun h => hd (byteOf_injective hd' (by decide) h)
    rw [heq, List.map_cons, List.cons_append] at hread ⊢
    rwa [wholeDigits?, if_neg (by simpa using hzero)]

theorem fractionDigits?_of_delimited {rest : List UInt8} (h : Delimited rest) :
    fractionDigits? rest = some ([], rest) := by
  cases rest with
  | nil => rfl
  | cons b rest =>
      have hb := h b rfl
      simp only [endsNumber, Bool.not_eq_true', Bool.or_eq_false_iff] at hb
      simp [fractionDigits?, hb.1.1.2]

theorem exponentDigits?_of_delimited {rest : List UInt8} (h : Delimited rest) :
    exponentDigits? rest = some ([], rest) := by
  cases rest with
  | nil => rfl
  | cons b rest =>
      have hb := h b rfl
      simp only [endsNumber, Bool.not_eq_true', Bool.or_eq_false_iff] at hb
      simp [exponentDigits?, hb.1.2, hb.2]

theorem ascii_of_mem_ofInt {n : Int} : ∀ c ∈ Decimal.ofInt n, c.toNat ≤ 127 := by
  cases n with
  | ofNat n => exact ascii_of_mem_ofNat
  | negSucc n => exact List.forall_mem_cons.mpr ⟨by decide, ascii_of_mem_ofNat⟩

/-- An integer is read as it was written. -/
theorem number?_ofInt (n : Int) {rest : List UInt8} (hrest : Delimited rest) :
    number? (encoded (Decimal.ofInt n) ++ rest) = some (Decimal.intText n, rest) := by
  have hback (cs : List Char) (hcs : ∀ c ∈ cs, c.toNat ≤ 127) :
      (encoded cs).map (fun b => Char.ofNat b.toNat) = cs := by
    rw [encoded_of_ascii hcs, List.map_map]
    refine (List.map_congr_left fun c hc => ?_).trans (List.map_id cs)
    rw [Function.comp_apply, toNat_byteOf (hcs c hc), Char.ofNat_toNat, id]
  have hminus : ('-' : Char).toNat ≤ 127 := by decide
  have htext := hback (Decimal.ofInt n) ascii_of_mem_ofInt
  cases n with
  | ofNat n =>
      obtain ⟨d, digits, heq⟩ := List.exists_cons_of_ne_nil (Decimal.ofNat_ne_nil n)
      have hd : d.toNat ≤ 127 := ascii_of_mem_ofNat (n := n) d (by simp [heq])
      have hdigit : d.isDigit = true := Decimal.isDigit_of_mem_ofNat (n := n) (by simp [heq])
      have hne : (byteOf d == byteOf '-') = false := beq_eq_false_iff_ne.mpr fun h => by
        rw [byteOf_injective hd hminus h] at hdigit
        exact absurd hdigit (by decide)
      have hread := wholeDigits?_ofNat n hrest
      have hint : Decimal.ofInt (.ofNat n) = Decimal.ofNat n := rfl
      rw [hint] at htext ⊢
      rw [heq, encoded_cons, encodeChar_of_ascii hd, List.singleton_append] at hread htext ⊢
      simp only [number?, List.cons_append, hne, if_false, Bool.false_eq_true, List.nil_append,
        List.cons_append ▸ hread, fractionDigits?_of_delimited hrest,
        exponentDigits?_of_delimited hrest, List.append_nil, Option.bind_eq_bind, Option.bind_some,
        Option.pure_def, htext]
      rw [Decimal.intText, hint, heq]
  | negSucc n =>
      have hsign : encoded (Decimal.ofInt (.negSucc n)) =
          byteOf '-' :: encoded (Decimal.ofNat (n + 1)) := by
        rw [Decimal.ofInt, encoded_cons, encodeChar_of_ascii hminus]
        rfl
      rw [hsign] at htext ⊢
      simp only [number?, List.cons_append, beq_self_eq_true, if_true, List.nil_append,
        wholeDigits?_ofNat (n + 1) hrest, fractionDigits?_of_delimited hrest,
        exponentDigits?_of_delimited hrest, List.append_nil, Option.bind_eq_bind, Option.bind_some,
        Option.pure_def, htext]
      rfl

/-! ### Values -/

theorem skipGap_append {gap : List UInt8} (h : ∀ b ∈ gap, isGap b = true) (bytes : List UInt8) :
    skipGap (gap ++ bytes) = skipGap bytes :=
  List.dropWhile_append_of_pos h

theorem skipGap_cons {b : UInt8} (h : isGap b = false) (bytes : List UInt8) :
    skipGap (b :: bytes) = b :: bytes :=
  List.dropWhile_cons_of_neg (by simp [h])

theorem endsNumber_of_isGap {b : UInt8} (h : isGap b = true) : endsNumber b = true := by
  simp only [isGap, Bool.or_eq_true, beq_iff_eq] at h
  rcases h with ((rfl | rfl) | rfl) | rfl <;> decide

theorem delimited_cons {b : UInt8} (h : endsNumber b = true) (rest : List UInt8) :
    Delimited (b :: rest) := by
  rintro c ⟨⟩
  exact h

theorem delimited_append {gap bytes : List UInt8} (h : ∀ b ∈ gap, isGap b = true)
    (hbytes : Delimited bytes) : Delimited (gap ++ bytes) := by
  cases gap with
  | nil => exact hbytes
  | cons b gap => exact delimited_cons (endsNumber_of_isGap (h b List.mem_cons_self)) _

theorem value?_append {gap : List UInt8} (h : ∀ b ∈ gap, isGap b = true) (fuel : Nat)
    (bytes : List UInt8) : value? fuel (gap ++ bytes) = value? fuel bytes := by
  cases fuel with
  | zero => simp only [value?]
  | succ fuel => simp only [value?, skipGap_append h]

theorem value?_number {b : UInt8} (hb : (isDigit b || b == byteOf '-') = true) (fuel : Nat)
    (rest : List UInt8) : value? (fuel + 1) (b :: rest) =
      (number? (b :: rest)).map fun (written, rest) => (.number written, rest) := by
  have hne {c : UInt8} (hc : (isDigit c || c == byteOf '-') = false) : (b == c) = false :=
    beq_eq_false_iff_ne.mpr fun h => by simp [h, hc] at hb
  have hgap : isGap b = false := by
    simp only [isGap, hne (c := 0x20) (by decide), hne (c := 0x0A) (by decide),
      hne (c := 0x0D) (by decide), hne (c := 0x09) (by decide), Bool.or_self]
  simp only [value?, skipGap_cons hgap, hne (c := byteOf '\x22') (by decide),
    hne (c := byteOf '[') (by decide), hne (c := byteOf '\x7b') (by decide),
    hne (c := byteOf 'n') (by decide), hne (c := byteOf 't') (by decide),
    hne (c := byteOf 'f') (by decide), if_false, Bool.false_eq_true]

structure Layout.IsBlank (layout : Layout) : Prop where
  gap : ∀ depth, ∀ b ∈ encoded (layout.gap depth), isGap b = true
  colon : ∃ space, layout.colon = ':' :: space ∧ ∀ b ∈ encoded space, isGap b = true

/-- A value that the printer writes as JSON: its numbers are integers, and its strings and names are
text. -/
inductive Printable : Json → Prop
  | null : Printable .null
  | bool (value : Bool) : Printable (.bool value)
  | int (n : Int) : Printable (.int n)
  | text (s : String) : Printable (.text s)
  | array {items : List Json} (hitems : ∀ item ∈ items, Printable item) : Printable (.array items)
  | object {members : List (String × Json)} (hvalues : ∀ member ∈ members, Printable member.2) :
      Printable (.record members)

def bytesAt (layout : Layout) (depth : Nat) (json : Json) : List UInt8 :=
  encoded (print layout depth json)

/-- A value is read from what is printed of it, whatever comes after. -/
def Reads (layout : Layout) (json : Json) : Prop :=
  ∀ (depth fuel : Nat) (rest : List UInt8), Delimited rest →
    2 * (bytesAt layout depth json).length ≤ fuel →
      value? fuel (bytesAt layout depth json ++ rest) = some (json, rest)

variable {layout : Layout}

theorem reads_null : Reads layout .null := by
  intro depth fuel rest _ hfuel
  have hbytes : bytesAt layout depth .null = [110, 117, 108, 108] := by
    rw [bytesAt, print]
    decide
  rw [hbytes] at hfuel ⊢
  obtain ⟨k, rfl⟩ := Nat.exists_eq_add_of_le' hfuel
  rfl

theorem reads_bool (value : Bool) : Reads layout (.bool value) := by
  intro depth fuel rest _ hfuel
  cases value with
  | true =>
      have hbytes : bytesAt layout depth (.bool true) = [116, 114, 117, 101] := by
        rw [bytesAt, print]
        decide
      rw [hbytes] at hfuel ⊢
      obtain ⟨k, rfl⟩ := Nat.exists_eq_add_of_le' hfuel
      rfl
  | false =>
      have hbytes : bytesAt layout depth (.bool false) = [102, 97, 108, 115, 101] := by
        rw [bytesAt, print]
        decide
      rw [hbytes] at hfuel ⊢
      obtain ⟨k, rfl⟩ := Nat.exists_eq_add_of_le' hfuel
      rfl

theorem print_int (depth : Nat) (n : Int) : print layout depth (.int n) = Decimal.ofInt n := by
  rw [int, print, Decimal.intText, String.toList_ofList]

theorem print_text (depth : Nat) (s : String) :
    print layout depth (.text s) = quotedText s := by
  rw [text, print, Option.getD_some]

theorem ofInt_eq_cons (n : Int) :
    ∃ c digits, Decimal.ofInt n = c :: digits ∧ (c = '-' ∨ c.isDigit = true) := by
  cases n with
  | ofNat n =>
      obtain ⟨d, digits, heq⟩ := List.exists_cons_of_ne_nil (Decimal.ofNat_ne_nil n)
      exact ⟨d, digits, heq, .inr (Decimal.isDigit_of_mem_ofNat (n := n) (by simp [heq]))⟩
  | negSucc n => exact ⟨'-', _, rfl, .inl rfl⟩

theorem reads_int (n : Int) : Reads layout (.int n) := by
  intro depth fuel rest hrest hfuel
  have hread := number?_ofInt n hrest
  obtain ⟨c, digits, heq, hc⟩ := ofInt_eq_cons n
  have hascii : c.toNat ≤ 127 := ascii_of_mem_ofInt (n := n) c (by simp [heq])
  have hb : (isDigit (byteOf c) || byteOf c == byteOf '-') = true := by
    rcases hc with rfl | hdigit
    · decide
    · rw [(isDigit_byteOf hdigit).1, Bool.true_or]
  rw [bytesAt, print_int] at hfuel ⊢
  rw [heq, encoded_cons, encodeChar_of_ascii hascii, List.singleton_append] at hread hfuel ⊢
  rw [List.cons_append] at hread ⊢
  obtain ⟨k, rfl⟩ := Nat.exists_eq_add_of_le' (show 1 ≤ fuel by simp at hfuel; omega)
  rw [value?_number hb, hread]
  rfl

theorem reads_text (s : String) : Reads layout (.text s) := by
  intro depth fuel rest _ hfuel
  rw [bytesAt, print_text] at hfuel ⊢
  have hlength : (encoded (quotedText s)).length ≠ 0 := by simp [encoded_quotedText]
  obtain ⟨k, rfl⟩ := Nat.exists_eq_add_of_le' (show 1 ≤ fuel by omega)
  have hread := stringText?_quoted s k rest (by omega)
  have hgap : isGap (byteOf '\x22') = false := by decide
  rw [encoded_quotedText, List.cons_append, List.append_assoc, List.singleton_append]
  simp only [value?, skipGap_cons hgap, beq_self_eq_true, if_true, hread]
  rfl

def opensValue (c : Char) : Bool :=
  c.isDigit || ['-', '\x22', '[', '\x7b', 'n', 't', 'f'].contains c

theorem ascii_of_opensValue {c : Char} (h : opensValue c = true) :
    c.toNat ≤ 127 ∧ isGap (byteOf c) = false ∧ byteOf c ≠ byteOf ']' := by
  rcases Bool.or_eq_true_iff.mp h with hdigit | hmem
  · obtain ⟨hb, hle⟩ := isDigit_byteOf hdigit
    have hne {d : UInt8} (hd : isDigit d = false) : byteOf c ≠ d := fun heq => by
      rw [heq, hd] at hb
      contradiction
    refine ⟨hle, ?_, hne (by decide)⟩
    simp [isGap, hne (d := 0x20) (by decide), hne (d := 0x0A) (by decide),
      hne (d := 0x0D) (by decide), hne (d := 0x09) (by decide)]
  · have hletter : c = '-' ∨ c = '\x22' ∨ c = '[' ∨ c = '\x7b' ∨ c = 'n' ∨ c = 't' ∨ c = 'f' := by
      simpa using hmem
    rcases hletter with rfl | rfl | rfl | rfl | rfl | rfl | rfl <;>
      exact ⟨by decide, by decide, by decide⟩

theorem Printable.print_eq_cons {json : Json} (h : Printable json) (layout : Layout) (depth : Nat) :
    ∃ c cs, print layout depth json = c :: cs ∧ opensValue c = true := by
  cases h with
  | null => exact ⟨'n', _, by rw [print], by decide⟩
  | bool value =>
      cases value with
      | true => exact ⟨'t', _, by rw [print], by decide⟩
      | false => exact ⟨'f', _, by rw [print], by decide⟩
  | text s => exact ⟨'\x22', _, print_text depth s, by decide⟩
  | int n =>
      obtain ⟨c, digits, heq, hc⟩ := ofInt_eq_cons n
      refine ⟨c, digits, (print_int depth n).trans heq, ?_⟩
      rcases hc with rfl | hdigit
      · decide
      · rw [opensValue, hdigit, Bool.true_or]
  | @array items _ =>
      cases items with
      | nil => exact ⟨'[', _, by rw [print], by decide⟩
      | cons item items => exact ⟨'[', _, by rw [print, List.cons_append]; rfl, by decide⟩
  | @object members _ =>
      cases members with
      | nil => exact ⟨'\x7b', _, by rw [record, List.map_nil, print], by decide⟩
      | cons member members =>
          exact ⟨'\x7b', _, by rw [record, List.map_cons, print, List.cons_append]; rfl, by decide⟩

/-- What is printed of a value begins neither with white space nor with the end of an array. -/
theorem Printable.begins {json : Json} (h : Printable json) (layout : Layout) (depth : Nat) :
    ∃ b bytes, bytesAt layout depth json = b :: bytes ∧ isGap b = false ∧ b ≠ byteOf ']' := by
  obtain ⟨c, cs, heq, hc⟩ := h.print_eq_cons layout depth
  obtain ⟨hascii, hgap, hend⟩ := ascii_of_opensValue hc
  refine ⟨byteOf c, encoded cs, ?_, hgap, hend⟩
  rw [bytesAt, heq, encoded_cons, encodeChar_of_ascii hascii]
  rfl

def itemsBytesAt (layout : Layout) (depth : Nat) (items : List Json) : List UInt8 :=
  encoded (printItems layout depth items)

theorem itemsBytesAt_cons (depth : Nat) (item : Json) (items : List Json) :
    itemsBytesAt layout depth (item :: items) =
      byteOf ',' :: (encoded (layout.gap depth) ++ (bytesAt layout depth item ++
        itemsBytesAt layout depth items)) := by
  have hcomma : (',' : Char).toNat ≤ 127 := by decide
  simp only [itemsBytesAt, bytesAt, printItems, List.cons_append, encoded_cons, encoded_append,
    encodeChar_of_ascii hcomma, List.append_assoc, List.nil_append]

theorem bytesAt_array_cons (depth : Nat) (item : Json) (items : List Json) :
    bytesAt layout depth (.array (item :: items)) =
      byteOf '[' :: (encoded (layout.gap (depth + 1)) ++ (bytesAt layout (depth + 1) item ++
        (itemsBytesAt layout (depth + 1) items ++ (encoded (layout.gap depth) ++
          [byteOf ']'])))) := by
  have hopen : ('[' : Char).toNat ≤ 127 := by decide
  have hclose : (']' : Char).toNat ≤ 127 := by decide
  simp only [itemsBytesAt, bytesAt, print, List.cons_append, encoded_cons, encoded_append,
    encoded_nil, encodeChar_of_ascii hopen, encodeChar_of_ascii hclose, List.append_assoc,
    List.nil_append]

/-- The items of an array, from the first one to the end. -/
theorem items?_printed (hlayout : layout.IsBlank) {item : Json} {items : List Json}
    (hreads : ∀ found ∈ item :: items, Reads layout found) (depth fuel : Nat)
    {before after : List UInt8} (hbefore : ∀ b ∈ before, isGap b = true)
    (hafter : ∀ b ∈ after, isGap b = true) (rest : List UInt8)
    (hfuel : 2 * ((bytesAt layout depth item).length +
      (itemsBytesAt layout depth items).length) < fuel) :
    items? fuel (before ++ (bytesAt layout depth item ++ (itemsBytesAt layout depth items ++
      (after ++ byteOf ']' :: rest)))) = some (item :: items, rest) := by
  induction items generalizing item before fuel with
  | nil =>
      have hread := hreads item List.mem_cons_self
      have hclose : isGap (byteOf ']') = false := by decide
      obtain ⟨k, rfl⟩ := Nat.exists_eq_add_of_le' (show 1 ≤ fuel by omega)
      have hdelimited : Delimited (after ++ byteOf ']' :: rest) :=
        delimited_append hafter (delimited_cons (by decide) rest)
      have hvalue := hread depth k _ hdelimited (by omega)
      have hnil : itemsBytesAt layout depth [] = [] := by rw [itemsBytesAt, printItems]; rfl
      simp only [items?, value?_append hbefore, hnil, List.nil_append, hvalue,
        skipGap_append hafter, skipGap_cons hclose, beq_self_eq_true, if_true,
        Option.bind_eq_bind, Option.bind_some, Option.pure_def]
  | cons next items ih =>
      obtain ⟨hread, hothers⟩ := List.forall_mem_cons.mp hreads
      have hcomma : isGap (byteOf ',') = false := by decide
      have hne : (byteOf ',' == byteOf ']') = false := by decide
      obtain ⟨k, rfl⟩ := Nat.exists_eq_add_of_le' (show 1 ≤ fuel by omega)
      rw [itemsBytesAt_cons, List.length_cons, List.length_append, List.length_append] at hfuel
      have hvalue := hread depth k (byteOf ',' :: (encoded (layout.gap depth) ++
        (bytesAt layout depth next ++ (itemsBytesAt layout depth items ++
          (after ++ byteOf ']' :: rest))))) (delimited_cons (by decide) _) (by omega)
      have hitems := ih hothers k (hlayout.gap depth) (by omega)
      simp only [items?, value?_append hbefore, itemsBytesAt_cons, List.cons_append,
        List.append_assoc, hvalue, skipGap_cons hcomma, hne, beq_self_eq_true, if_true,
        if_false, Bool.false_eq_true, hitems, Option.bind_eq_bind, Option.bind_some,
        Option.pure_def]

theorem reads_array (hlayout : layout.IsBlank) {items : List Json}
    (hprints : ∀ item ∈ items, Printable item) (hreads : ∀ item ∈ items, Reads layout item) :
    Reads layout (.array items) := by
  intro depth fuel rest _ hfuel
  have hopen : isGap (byteOf '[') = false := by decide
  have hne : (byteOf '[' == byteOf '\x22') = false := by decide
  cases items with
  | nil =>
      have hbytes : bytesAt layout depth (.array []) = [byteOf '[', byteOf ']'] := by
        rw [bytesAt, print]
        decide
      rw [hbytes] at hfuel ⊢
      obtain ⟨k, rfl⟩ := Nat.exists_eq_add_of_le' hfuel
      rfl
  | cons item items =>
      rw [bytesAt_array_cons] at hfuel ⊢
      simp only [List.length_cons, List.length_append] at hfuel
      obtain ⟨k, rfl⟩ := Nat.exists_eq_add_of_le' (show 1 ≤ fuel by omega)
      have hitems := items?_printed hlayout hreads (depth + 1) k (hlayout.gap (depth + 1))
        (hlayout.gap depth) rest (by omega)
      obtain ⟨b, bytes, hbytes, hgap, hend⟩ :=
        (hprints item List.mem_cons_self).begins layout (depth + 1)
      have hfirst : skipGap (encoded (layout.gap (depth + 1)) ++ (bytesAt layout (depth + 1) item ++
          (itemsBytesAt layout (depth + 1) items ++ (encoded (layout.gap depth) ++
            byteOf ']' :: rest)))) =
          b :: (bytes ++ (itemsBytesAt layout (depth + 1) items ++ (encoded (layout.gap depth) ++
            byteOf ']' :: rest))) := by
        rw [skipGap_append (hlayout.gap _), hbytes, List.cons_append, skipGap_cons hgap]
      simp only [value?, List.cons_append, List.append_assoc, List.nil_append, skipGap_cons hopen,
        hne, beq_self_eq_true, if_true, if_false, Bool.false_eq_true, hfirst, beq_iff_eq, hend,
        hitems]
      rfl

theorem bytesAt_object_nil (depth : Nat) :
    bytesAt layout depth (.record []) = [byteOf '\x7b', byteOf '\x7d'] := by
  rw [bytesAt, record, List.map_nil, print]
  decide

def membersBytesAt (layout : Layout) (depth : Nat) (members : List (String × Json)) : List UInt8 :=
  encoded (printMembers layout depth (members.map fun (name, value) => (some name, value)))

def memberBytesAt (layout : Layout) (depth : Nat) (member : String × Json) : List UInt8 :=
  encoded (quotedText member.1) ++ (encoded layout.colon ++ bytesAt layout depth member.2)

theorem membersBytesAt_cons (depth : Nat) (member : String × Json)
    (members : List (String × Json)) :
    membersBytesAt layout depth (member :: members) =
      byteOf ',' :: (encoded (layout.gap depth) ++ (memberBytesAt layout depth member ++
        membersBytesAt layout depth members)) := by
  have hcomma : (',' : Char).toNat ≤ 127 := by decide
  simp only [membersBytesAt, memberBytesAt, bytesAt, List.map_cons, printMembers, List.cons_append,
    encoded_cons, encoded_append, encodeChar_of_ascii hcomma, List.append_assoc, List.nil_append,
    Option.getD_some]

theorem bytesAt_object_cons (depth : Nat) (member : String × Json)
    (members : List (String × Json)) :
    bytesAt layout depth (.record (member :: members)) =
      byteOf '\x7b' :: (encoded (layout.gap (depth + 1)) ++
        (memberBytesAt layout (depth + 1) member ++ (membersBytesAt layout (depth + 1) members ++
          (encoded (layout.gap depth) ++ [byteOf '\x7d'])))) := by
  have hopen : ('\x7b' : Char).toNat ≤ 127 := by decide
  have hclose : ('\x7d' : Char).toNat ≤ 127 := by decide
  simp only [membersBytesAt, memberBytesAt, bytesAt, record, List.map_cons, print, List.cons_append,
    encoded_cons, encoded_append, encoded_nil, encodeChar_of_ascii hopen, Option.getD_some,
    encodeChar_of_ascii hclose, List.append_assoc, List.nil_append]

def membersAfter? (fuel : Nat) (member : Option String × Json) (rest : List UInt8) :
    Option (List (Option String × Json) × List UInt8) :=
  match skipGap rest with
  | [] => none
  | d :: rest =>
    if d == byteOf '\x7d' then some ([member], rest)
    else if d == byteOf ',' then do
      let (members, rest) ← members? fuel rest
      pure (member :: members, rest)
    else none

/-- A member is read up to its end, and then it depends on what comes next. -/
theorem members?_member (hlayout : layout.IsBlank) (name : String) {value : Json}
    (hread : Reads layout value) (depth fuel : Nat) {before : List UInt8}
    (hbefore : ∀ b ∈ before, isGap b = true) {rest : List UInt8} (hrest : Delimited rest)
    (hfuel : 2 * (memberBytesAt layout depth (name, value)).length ≤ fuel) :
    members? (fuel + 1) (before ++ (memberBytesAt layout depth (name, value) ++ rest)) =
      membersAfter? fuel (some name, value) rest := by
  obtain ⟨space, hcolon, hspace⟩ := hlayout.colon
  have hcolon' : encoded layout.colon = byteOf ':' :: encoded space := by
    rw [hcolon, encoded_cons, encodeChar_of_ascii (by decide)]
    rfl
  have hmark : isGap (byteOf '\x22') = false := by decide
  have hpoints : isGap (byteOf ':') = false := by decide
  simp only [memberBytesAt, List.length_append] at hfuel
  have hname := stringText?_quoted name fuel
    (byteOf ':' :: (encoded space ++ (bytesAt layout depth value ++ rest))) (by omega)
  have hvalue := hread depth fuel rest hrest (by omega)
  simp only [members?, skipGap_append hbefore, memberBytesAt, encoded_quotedText, hcolon',
    List.cons_append, List.append_assoc, List.nil_append, skipGap_cons hmark, skipGap_cons hpoints,
    beq_self_eq_true, if_true, hname, value?_append hspace, hvalue, Option.bind_eq_bind,
    Option.bind_some, Option.pure_def]
  rfl

/-- The members of an object, from the first one to the end. -/
theorem members?_printed (hlayout : layout.IsBlank) {member : String × Json}
    {members : List (String × Json)} (hreads : ∀ found ∈ member :: members, Reads layout found.2)
    (depth fuel : Nat) {before after : List UInt8} (hbefore : ∀ b ∈ before, isGap b = true)
    (hafter : ∀ b ∈ after, isGap b = true) (rest : List UInt8)
    (hfuel : 2 * ((memberBytesAt layout depth member).length +
      (membersBytesAt layout depth members).length) < fuel) :
    members? fuel (before ++ (memberBytesAt layout depth member ++
      (membersBytesAt layout depth members ++ (after ++ byteOf '\x7d' :: rest)))) =
      some ((member :: members).map fun (name, value) => (some name, value), rest) := by
  obtain ⟨fuel, rfl⟩ := Nat.exists_eq_add_of_le' (show 1 ≤ fuel by omega)
  induction members generalizing member before fuel with
  | nil =>
      obtain ⟨name, value⟩ := member
      have hread : Reads layout value := hreads (name, value) List.mem_cons_self
      have hclose : isGap (byteOf '\x7d') = false := by decide
      have hdelimited : Delimited (after ++ byteOf '\x7d' :: rest) :=
        delimited_append hafter (delimited_cons (by decide) rest)
      have hnil : membersBytesAt layout depth [] = [] := rfl
      rw [hnil, List.nil_append,
        members?_member hlayout name hread depth fuel hbefore hdelimited (by omega),
        membersAfter?, skipGap_append hafter, skipGap_cons hclose]
      rfl
  | cons next members ih =>
      obtain ⟨name, value⟩ := member
      have hread : Reads layout value := hreads (name, value) List.mem_cons_self
      have hothers := (List.forall_mem_cons.mp hreads).2
      have hcomma : isGap (byteOf ',') = false := by decide
      have hne : (byteOf ',' == byteOf '\x7d') = false := by decide
      rw [membersBytesAt_cons, List.length_cons, List.length_append, List.length_append] at hfuel
      obtain ⟨k, rfl⟩ := Nat.exists_eq_add_of_le' (show 1 ≤ fuel by omega)
      have hmembers := ih hothers (hlayout.gap depth) k (by omega)
      rw [membersBytesAt_cons, List.cons_append,
        members?_member hlayout name hread depth (k + 1) hbefore
          (delimited_cons (by decide) _) (by omega), membersAfter?, skipGap_cons hcomma]
      simp only [hne, beq_self_eq_true, if_true, if_false, Bool.false_eq_true, List.append_assoc,
        hmembers]
      rfl

theorem reads_object (hlayout : layout.IsBlank) {members : List (String × Json)}
    (hreads : ∀ member ∈ members, Reads layout member.2) : Reads layout (.record members) := by
  intro depth fuel rest _ hfuel
  cases members with
  | nil =>
      rw [bytesAt_object_nil] at hfuel ⊢
      obtain ⟨k, rfl⟩ := Nat.exists_eq_add_of_le' hfuel
      rfl
  | cons member members =>
      have hopen : isGap (byteOf '\x7b') = false := by decide
      have hmark : isGap (byteOf '\x22') = false := by decide
      have hne : (byteOf '\x7b' == byteOf '\x22') = false := by decide
      have hne' : (byteOf '\x7b' == byteOf '[') = false := by decide
      have hclose : (byteOf '\x22' == byteOf '\x7d') = false := by decide
      rw [bytesAt_object_cons] at hfuel ⊢
      simp only [List.length_cons, List.length_append] at hfuel
      obtain ⟨k, rfl⟩ := Nat.exists_eq_add_of_le' (show 1 ≤ fuel by omega)
      have hmembers := members?_printed hlayout hreads (depth + 1) k (hlayout.gap (depth + 1))
        (hlayout.gap depth) rest (by omega)
      obtain ⟨bytes, hbytes⟩ : ∃ bytes,
          memberBytesAt layout (depth + 1) member = byteOf '\x22' :: bytes :=
        ⟨_, by rw [memberBytesAt, encoded_quotedText, List.cons_append]⟩
      have hfirst (more : List UInt8) : skipGap (encoded (layout.gap (depth + 1)) ++
          (memberBytesAt layout (depth + 1) member ++ more)) =
          byteOf '\x22' :: (bytes ++ more) := by
        rw [skipGap_append (hlayout.gap _), hbytes, List.cons_append, skipGap_cons hmark]
      simp only [value?, List.cons_append, List.append_assoc, List.nil_append, skipGap_cons hopen,
        hne, hne', beq_self_eq_true, if_true, if_false, Bool.false_eq_true, hfirst, hclose,
        hmembers]
      rfl

/-- Everything that is printed is read as it was. -/
theorem Printable.reads (hlayout : layout.IsBlank) {json : Json} (h : Printable json) :
    Reads layout json := by
  induction h with
  | null => exact reads_null
  | bool value => exact reads_bool value
  | int n => exact reads_int n
  | text s => exact reads_text s
  | array hitems ih => exact reads_array hlayout hitems ih
  | object hvalues ih => exact reads_object hlayout ih

theorem isBlank_pretty : Layout.pretty.IsBlank where
  gap depth := by
    have hgap : ∀ c ∈ lineBreak depth, c.toNat ≤ 127 ∧ isGap (byteOf c) = true := by
      intro c hc
      rcases List.mem_cons.mp hc with rfl | hspace
      · decide
      · rw [List.eq_of_mem_replicate hspace]
        decide
    intro b hb
    rw [Layout.pretty, encoded_of_ascii fun c hc => (hgap c hc).1] at hb
    obtain ⟨c, hc, rfl⟩ := List.mem_map.mp hb
    exact (hgap c hc).2
  colon := ⟨[' '], rfl, by decide +kernel⟩

/-- A value with white space around it is read from what is printed of it. -/
theorem read?_pretty {json : Json} (h : Printable json) :
    read? (utf8Bytes json.pretty) = some json := by
  have hread := h.reads isBlank_pretty 0 (2 * (bytesAt .pretty 0 json).length + 2) []
    nofun (by omega)
  rw [List.append_nil, bytesAt] at hread
  rw [read?, pretty, utf8Bytes_ofList, hread]
  rfl

end CraftLang.Json
