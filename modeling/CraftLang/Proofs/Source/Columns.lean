import CraftLang.Proofs.Modifier.Scans

/-!
Columns of faults. The place at which a line is wrong counts the characters of the line before it,
whatever those characters are; where a modifier is wrong it is the place of the bracket that opens
it.
-/

namespace CraftLang.Source

open Text Modifier

/-- Two beginnings of a text that have the same number of bytes are the same. -/
theorem eq_of_byteLength_eq {front back front' back' : List Char}
    (h : front ++ back = front' ++ back') (hlength : byteLength front = byteLength front') :
    front = front' := by
  have hcolumn := columnAt?_byteLength front back
  rw [h, hlength, columnAt?_byteLength] at hcolumn
  exact (List.append_inj h (Option.some.inj hcolumn).symm).1

theorem command_ne_modifier {text : String} {modifiers : Modifiers} {line : Line}
    {statement : Statement} {fault : Fault} :
    command text modifiers line statement ≠ .error (.modifier fault) := by
  intro h
  cases statement with
  | wait seconds limit =>
      rw [command] at h
      split at h
      · cases h
      · split at h <;> cases h
  | _ => cases h

/-- A fault of a modifier is found before the rest of the line is looked at. -/
theorem extract_of_readCommand {cs : List Char} {fault : Fault} {misfit : Misfit}
    (h : readCommand cs = .error misfit) (hfault : misfit.fault = .modifier fault) :
    extract cs = .error ⟨fault, misfit.offset⟩ := by
  obtain ⟨found, offset⟩ := misfit
  obtain rfl : found = .modifier fault := hfault
  unfold readCommand at h
  split at h
  · next e hextract =>
      cases h
      exact hextract
  · simp only at h
    split at h
    · cases h
    · split at h
      · cases h
      · next hcommand =>
          cases h
          exact absurd hcommand command_ne_modifier

/-- Where a modifier is wrong, the token that cannot be had stands there. -/
theorem exists_refuses {cs front back : List Char} {fault : Fault} {misfit : Misfit}
    (h : readCommand cs = .error misfit) (hfault : misfit.fault = .modifier fault)
    (hcs : cs = front ++ back) (hoffset : misfit.offset = byteLength front) :
    ∃ kind o, Refuses kind cs o fault ∧ front = cs.take o.position ∧ back.head? = some '<' := by
  obtain ⟨kind, -, o, hrefuses, hplace⟩ :=
    extractKinds_eq_error nodup_all (extract_of_readCommand h hfault)
  have hfront : front = cs.take o.position := by
    have hsplit : front ++ back = cs.take o.position ++ cs.drop o.position := by
      rw [List.take_append_drop, hcs]
    exact eq_of_byteLength_eq hsplit (hoffset.symm.trans hplace)
  obtain ⟨before, text, rest, hsplit, htext, hposition, -⟩ := hrefuses.stands
  obtain ⟨inner, rfl, -⟩ := htext.eq_cons
  refine ⟨kind, o, hrefuses, hfront, ?_⟩
  have hback : back = '<' :: inner ++ rest := by
    rw [hsplit, hposition, List.take_left] at hfront
    rw [hfront, hsplit] at hcs
    exact (List.append_cancel_left hcs).symm
  rw [hback]
  rfl

/-- The fault of a line is placed at one of its characters or at its end, and the column is the
number of characters before that place. A fault of a modifier is placed at the bracket that opens
it. -/
theorem column_of_readLine {raw : List Char} {number : Nat} {e : SyntaxError}
    (h : readLine raw number = .error e) :
    ∃ misfit front back, readCommand (trim raw) = .error misfit ∧ raw = front ++ back ∧
      byteLength raw - byteLength (trimStart raw) + misfit.offset = byteLength front ∧
      columnAt? raw (byteLength raw - byteLength (trimStart raw) + misfit.offset) =
        some front.length ∧
      e = ⟨misfit.fault, number, front.length⟩ ∧ front.length ≤ raw.length ∧
      ∀ fault, misfit.fault = .modifier fault → ∃ kind o, Refuses kind (trim raw) o fault ∧
        front = raw.takeWhile isBlank ++ (trim raw).take o.position ∧ back.head? = some '<' := by
  unfold readLine at h
  simp only at h
  split at h
  · cases h
  · cases hread : readCommand (trim raw) with
    | ok command =>
        rw [hread] at h
        cases h
    | error misfit =>
        obtain ⟨front, back, hsplit, hoffset⟩ := readCommand_error hread
        obtain ⟨trail, hraw⟩ := eq_append_of_trim hsplit
        have hcolumn := columnAt?_leading hsplit
        rw [← hoffset] at hcolumn
        rw [hread] at h
        simp only [hcolumn, Option.getD_some] at h
        refine ⟨misfit, raw.takeWhile isBlank ++ front, back ++ trail, rfl, hraw, ?_, hcolumn,
          (Except.error.inj h).symm, ?_, ?_⟩
        · rw [byteLength_leading, hoffset, byteLength_append]
        · conv_rhs => rw [hraw, List.length_append]
          exact Nat.le_add_right ..
        · intro fault hfault
          obtain ⟨kind, o, hrefuses, rfl, hback⟩ := exists_refuses hread hfault hsplit hoffset
          refine ⟨kind, o, hrefuses, rfl, ?_⟩
          rw [List.head?_append, hback]
          rfl

theorem column_of_readLine_longS :
    readLine "\u3000/ac é <unsafe> <unſafe>".toList 3 =
        .error ⟨.modifier (.duplicate .unconfirmed), 3, 16⟩ ∧
      ∃ misfit front back,
        readCommand (trim "\u3000/ac é <unsafe> <unſafe>".toList) = .error misfit ∧
        "\u3000/ac é <unsafe> <unſafe>".toList = front ++ back ∧ front.length = 16 ∧
          byteLength front = 19 ∧ back.head? = some '<' := by
  have hread : readLine "\u3000/ac é <unsafe> <unſafe>".toList 3 =
      .error ⟨.modifier (.duplicate .unconfirmed), 3, 16⟩ := by rfl
  obtain ⟨misfit, front, back, hmisfit, hraw, -, -, he, -, hmodifier⟩ := column_of_readLine hread
  have hfault : misfit.fault = .modifier (.duplicate .unconfirmed) :=
    (congrArg SyntaxError.fault he).symm
  have hlength : front.length = 16 := (congrArg SyntaxError.column he).symm
  obtain ⟨kind, o, -, -, hback⟩ := hmodifier _ hfault
  have hfront : front = "\u3000/ac é <unsafe> ".toList :=
    (List.append_inj (hraw.symm.trans
      (show _ = "\u3000/ac é <unsafe> ".toList ++ "<unſafe>".toList by rfl))
      (by rw [hlength]; rfl)).1
  exact ⟨hread, misfit, front, back, hmisfit, hraw, hlength, by rw [hfront]; rfl, hback⟩

end CraftLang.Source
