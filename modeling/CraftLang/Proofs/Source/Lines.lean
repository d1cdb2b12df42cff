import CraftLang.Proofs.Modifier.Tokens
import CraftLang.Proofs.Source.Readers
import CraftLang.Proofs.Source.Reading

/-!
Lines that are one statement, alone or with one modifier after it, and the counts that statements
end with. Each of them is read as one command.
-/

namespace CraftLang

open Text Modifier

namespace Source

/-! ### A statement with a modifier -/

/-- Text of a statement alone, after which a modifier may stand. -/
structure Bare (cs : List Char) : Prop where
  first : ∃ c rest, cs = '/' :: c :: rest ∧ c ≠ '/'
  last : ∃ front c, cs = front ++ [c] ∧ isBlank c = false
  unmarked : '<' ∉ cs
  single : '\n' ∉ cs
  closed : quotesOpen false cs = false

theorem trim_of_slash {rest front : List Char} {c : Char} (h : '/' :: rest = front ++ [c])
    (hlast : isBlank c = false) : trim ('/' :: rest) = '/' :: rest :=
  trim_of_not_blank h (by decide) hlast

theorem commandsOn?_of_readCommand {cs rest : List Char} {c : Char} {command : Command}
    (hcs : cs = '/' :: c :: rest) (hslash : c ≠ '/') (htrim : trim cs = cs)
    (h : readCommand cs = .ok command) : commandsOn? cs = some [command] := by
  have hcomment : isComment cs = false := by
    have hne : ('/' == c) = false := beq_eq_false_iff_ne.mpr (Ne.symm hslash)
    subst hcs
    show (('#' == '/' && true) || ('/' == '/' && ('/' == c && true))) = false
    simp [hne]
  have hempty : cs.isEmpty = false := by rw [hcs]; rfl
  simp only [commandsOn?, readLine, htrim, hempty, hcomment, h]
  rfl

theorem readCommand_of_extract {cs : List Char} {modifiers : Modifiers} {line : Line}
    {statement : Statement} {result : Command} (hextract : extract cs = .ok (modifiers, line))
    (hread : Statement.read (trim line.masked) = .ok statement)
    (hcommand : command (String.ofList cs) modifiers line statement = .ok result) :
    readCommand cs = .ok result := by
  rw [trim] at hread
  simp only [readCommand, hextract, hread, hcommand]

namespace Bare

variable {cs : List Char} {statement : Statement} {result : Command}

theorem trim_eq (h : Bare cs) : trim cs = cs := by
  obtain ⟨c, rest, rfl, -⟩ := h.first
  obtain ⟨front, d, hlast, hblank⟩ := h.last
  exact trim_of_slash hlast hblank

theorem commandsOf? (h : Bare cs) (hread : Statement.read cs = .ok statement)
    (hcommand : command (String.ofList cs) {} (Line.ofText cs) statement = .ok result) :
    commandsOf? cs = some [result] := by
  obtain ⟨c, rest, hcs, hslash⟩ := h.first
  rw [commandsOf?_of_line h.single]
  refine commandsOn?_of_readCommand hcs hslash h.trim_eq ?_
  refine readCommand_of_extract (extract_of_not_mem h.unmarked) ?_ hcommand
  rwa [Line.masked_ofText, h.trim_eq]

/-- A statement with one modifier gives the command of the statement under that modifier. -/
theorem commandsOf?_append {token : List Char} {kind : Kind} {found : Token}
    {modifiers : Modifiers} (h : Bare cs) (hread : Statement.read cs = .ok statement)
    (hplain : '<' ∉ token ++ ['>']) (hsingle : '\n' ∉ token ++ ['>'])
    (htoken : token? kind ('<' :: (token ++ ['>'])) = some (found, []))
    (hother : ∀ other, other ≠ kind → token? other ('<' :: (token ++ ['>'])) = none)
    (happly : apply {} found = .ok modifiers)
    (hcommand : ∀ line,
      command (String.ofList (cs ++ ' ' :: '<' :: (token ++ ['>']))) modifiers line statement =
        .ok result) :
    Source.commandsOf? (cs ++ ' ' :: '<' :: (token ++ ['>'])) = some [result] := by
  have hline : '\n' ∉ cs ++ ' ' :: '<' :: (token ++ ['>']) := by simp_all [h.single]
  have hsplit : cs ++ ' ' :: '<' :: (token ++ ['>']) =
      (cs ++ [' ']) ++ '<' :: (token ++ ['>']) := by simp
  have htrim : trim (cs ++ ' ' :: '<' :: (token ++ ['>'])) =
      cs ++ ' ' :: '<' :: (token ++ ['>']) := by
    obtain ⟨c, rest, rfl, -⟩ := h.first
    have hlast : '/' :: (c :: rest ++ ' ' :: '<' :: (token ++ ['>'])) =
        ('/' :: c :: rest ++ ' ' :: '<' :: token) ++ ['>'] := by simp
    exact trim_of_slash hlast (by decide)
  have hextract : extract ((cs ++ [' ']) ++ '<' :: (token ++ ['>'])) =
      .ok (modifiers, Line.cut (cs ++ [' ']) ('<' :: (token ++ ['>']))) := by
    refine extract_of_token (by simp [h.unmarked]) ?_ hplain htoken hother happly
    rw [quotesOpen_append, h.closed]
    rfl
  obtain ⟨blanks, hmasked, hblanks⟩ := Line.masked_cut (cs ++ [' ']) ('<' :: (token ++ ['>']))
  have hstatement : trim (Line.cut (cs ++ [' ']) ('<' :: (token ++ ['>']))).masked = cs := by
    have hblank : ∀ c ∈ ' ' :: blanks, isBlank c = true := by
      intro c hc
      rcases List.mem_cons.mp hc with rfl | hc
      · decide
      · rw [hblanks c hc]
        decide
    rw [hmasked, List.append_assoc, List.singleton_append, trim_append_of_blank cs hblank,
      h.trim_eq]
  obtain ⟨c, rest, hcs, hslash⟩ := h.first
  have hstart : cs ++ ' ' :: '<' :: (token ++ ['>']) =
      '/' :: c :: (rest ++ ' ' :: '<' :: (token ++ ['>'])) := by simp [hcs]
  rw [commandsOf?_of_line hline]
  refine commandsOn?_of_readCommand hstart hslash htrim ?_
  rw [← hsplit] at hextract
  exact readCommand_of_extract hextract (by rwa [hstatement]) (hcommand _)

end Bare

/-! ### Counts -/

section Digits

variable {digits : List Char}

/-- A count after a blank. -/
theorem required_uint (hne : digits ≠ []) (hdigits : ∀ c ∈ digits, c.isDigit = true)
    (hsmall : Decimal.natOfDigits digits < Grammar.countLimit) :
    Grammar.required Grammar.uint (' ' :: digits) = .ok (Decimal.natOfDigits digits, []) := by
  have hgap : Grammar.IsGap [' '] := Grammar.isGap_space
  have hstart : Grammar.Leaves Grammar.isSpace digits := by
    intro c hc
    have hvisible := Grammar.isBlank_of_isDigit (hdigits c (List.mem_of_mem_head? hc))
    exact Bool.eq_false_iff.mpr fun hspace =>
      absurd (hvisible.symm.trans (Grammar.isBlank_of_isSpace hspace)) Bool.false_ne_true
  have hend : Grammar.Leaves Char.isDigit [] := by simp [Grammar.Leaves]
  have hread := Grammar.uint_append ⟨hne, hdigits⟩ hsmall hend
  rw [List.append_nil] at hread
  rw [← List.singleton_append, Grammar.required_append (List.cons_ne_nil _ _) hgap hstart, hread]

/-- A count at the end of a statement. -/
theorem Bare.of_digits {front : List Char} (hfirst : ∃ c rest, front = '/' :: c :: rest ∧ c ≠ '/')
    (hunmarked : '<' ∉ front) (hsingle : '\n' ∉ front) (hclosed : quotesOpen false front = false)
    (hne : digits ≠ []) (hdigits : ∀ c ∈ digits, c.isDigit = true) : Bare (front ++ digits) := by
  have hforeign (c : Char) (hc : c.isDigit = false) : c ∉ digits := by
    intro hmem
    rw [hdigits c hmem] at hc
    exact Bool.noConfusion hc
  refine ⟨?_, ?_, ?_, ?_, ?_⟩
  · obtain ⟨c, rest, rfl, hslash⟩ := hfirst
    exact ⟨c, rest ++ digits, rfl, hslash⟩
  · refine ⟨front ++ digits.dropLast, digits.getLast hne, ?_,
      Grammar.isBlank_of_isDigit (hdigits _ (List.getLast_mem hne))⟩
    rw [List.append_assoc, List.dropLast_concat_getLast]
  · rw [List.mem_append, not_or]
    exact ⟨hunmarked, hforeign '<' (by decide)⟩
  · rw [List.mem_append, not_or]
    exact ⟨hsingle, hforeign '\n' (by decide)⟩
  · rw [quotesOpen_append, hclosed]
    exact quotesOpen_of_not_mem (hforeign Grammar.quote (by decide)) false

end Digits

variable {count : Nat}

/-- The digits of a number below the bound on counts are read as that number. -/
theorem required_uint_ofNat (h : count < Grammar.countLimit) :
    Grammar.required Grammar.uint (' ' :: Decimal.ofNat count) = .ok (count, []) := by
  have hread := required_uint (Decimal.ofNat_ne_nil count)
    (fun _ hc => Decimal.isDigit_of_mem_ofNat hc) (by rwa [Decimal.natOfDigits_ofNat])
  rwa [Decimal.natOfDigits_ofNat] at hread

theorem read_gate (h : count < Grammar.countLimit) :
    Statement.read ("/craft ".toList ++ Decimal.ofNat count) = .ok (.gate count) := by
  have hverb : Grammar.verb ('/' :: ("craft ".toList ++ Decimal.ofNat count)) =
      .ok ("craft".toList, ' ' :: Decimal.ofNat count) := by rfl
  have hname : Verb.ofName? "craft".toList = some .gate := by rfl
  have hcomplete : Grammar.complete (Statement.arguments .gate) (' ' :: Decimal.ofNat count) =
      .ok (.gate count) := by
    simp only [Grammar.complete, Statement.arguments, Grammar.mapped, required_uint_ofNat h]
    rfl
  show Statement.read ('/' :: ("craft ".toList ++ Decimal.ofNat count)) = _
  simp only [Statement.read, hverb, hname, hcomplete]

theorem read_loop (h : count < Grammar.countLimit) :
    Statement.read ("/loop ".toList ++ Decimal.ofNat count) = .ok (.loop (some count)) := by
  have hverb : Grammar.verb ('/' :: ("loop ".toList ++ Decimal.ofNat count)) =
      .ok ("loop".toList, ' ' :: Decimal.ofNat count) := by rfl
  have hname : Verb.ofName? "loop".toList = some .loop := by rfl
  have hcomplete : Grammar.complete (Statement.arguments .loop) (' ' :: Decimal.ofNat count) =
      .ok (.loop (some count)) := by
    simp only [Grammar.complete, Statement.arguments, Grammar.mapped, Grammar.optional,
      required_uint_ofNat h]
    rfl
  show Statement.read ('/' :: ("loop ".toList ++ Decimal.ofNat count)) = _
  simp only [Statement.read, hverb, hname, hcomplete]

theorem bare_gate (count : Nat) : Bare ("/craft ".toList ++ Decimal.ofNat count) :=
  .of_digits ⟨'c', _, rfl, by decide⟩ (by decide) (by decide) (by decide)
    (Decimal.ofNat_ne_nil count) fun _ hc => Decimal.isDigit_of_mem_ofNat hc

theorem bare_boundedLoop (count : Nat) : Bare ("/loop ".toList ++ Decimal.ofNat count) :=
  .of_digits ⟨'l', _, rfl, by decide⟩ (by decide) (by decide) (by decide)
    (Decimal.ofNat_ne_nil count) fun _ hc => Decimal.isDigit_of_mem_ofNat hc

end Source

end CraftLang
