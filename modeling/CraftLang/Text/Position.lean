/-!
Positions in a text. Inside a line a position is an offset in bytes of UTF-8; for people it is a
column, the number of characters before it. The two agree only on character boundaries, so the
conversion is partial.
-/

namespace CraftLang.Text

/-- The number of bytes of the text in UTF-8. -/
def byteLength : List Char → Nat
  | [] => 0
  | c :: cs => c.utf8Size + byteLength cs

/-- The number of characters before the byte offset, if the offset is a character boundary. -/
def columnAt? : List Char → Nat → Option Nat
  | _, 0 => some 0
  | [], _ + 1 => none
  | c :: cs, offset =>
    if c.utf8Size ≤ offset then (columnAt? cs (offset - c.utf8Size)).map (· + 1) else none

@[simp] theorem byteLength_nil : byteLength [] = 0 := rfl

@[simp] theorem byteLength_cons (c : Char) (cs : List Char) :
    byteLength (c :: cs) = c.utf8Size + byteLength cs := rfl

@[simp] theorem byteLength_append (as bs : List Char) :
    byteLength (as ++ bs) = byteLength as + byteLength bs := by
  induction as with
  | nil => simp
  | cons c cs ih => rw [List.cons_append, byteLength_cons, ih, byteLength_cons, Nat.add_assoc]

/-- A boundary between two parts of the text is at the column that counts the first part. -/
theorem columnAt?_byteLength (as bs : List Char) :
    columnAt? (as ++ bs) (byteLength as) = some as.length := by
  induction as with
  | nil => simp [columnAt?]
  | cons c cs ih =>
    have hpos : 0 < c.utf8Size := Char.utf8Size_pos c
    obtain ⟨n, hn⟩ : ∃ n, c.utf8Size + byteLength cs = n + 1 :=
      ⟨c.utf8Size + byteLength cs - 1, by omega⟩
    have hsub : n + 1 - c.utf8Size = byteLength cs := by omega
    rw [List.cons_append, byteLength_cons, hn, columnAt?, if_pos (by omega), hsub, ih]
    · rfl
    · simp

end CraftLang.Text
