import CraftLang.Proofs.Modifier.Insertion
import CraftLang.Proofs.Source.Gaps
import CraftLang.Proofs.Source.Orthogonality

/-!
A modifier in the middle of a line. Wherever a space stands outside closed quotation marks, a token
of a kind that the line has not yet can be written there: the line is still a command of the same
kind, with what the token asks for besides. The arguments are the same but for a name that is
written without marks around the place, which has the blanks in it that the token leaves.
-/

namespace CraftLang

open Text Modifier Grammar

variable {front back : Line} {width : Nat}

def CommandKind.named : List (String → CommandKind) :=
  [.action, .waitAddon, .require, .target, .runMacro, .item, .recipe]

/-- What a command does, and what it does with `width` more spaces in the place of a token between
the parts `front` and `back` of its line. -/
inductive CommandKind.Spread (front : Line) (width : Nat) (back : Line) :
    CommandKind → CommandKind → Prop
  | same {kind : CommandKind} : Spread front width back kind kind
  | name {f : String → CommandKind} (hf : f ∈ named) {name name' : String}
      (h : Grammar.Spread front.masked (List.replicate width ' ') back.masked name name') :
      Spread front width back (f name) (f name')
  /-- What is forwarded differs in the blanks between the two parts, and there are some in both
  lines or in neither. -/
  | native {before gap gap' after : List Char} (hgap : ∀ c ∈ gap, isBlank c = true)
      (hgap' : ∀ c ∈ gap', isBlank c = true) (hiff : gap = [] ↔ gap' = [])
      (hbefore : visible before = front.seen) (hafter : visible after = back.seen) :
      Spread front width back (.native (String.ofList (trim (before ++ (gap ++ after)))))
        (.native (String.ofList (trim (before ++ (gap' ++ after)))))

namespace Source

variable {cs raw head tail text : List Char} {m found : Modifiers} {line line' : Line}
  {command : Command} {statement statement' : Statement} {number : Nat} {kind : Kind}
  {token : Token}

/-! ### Reading a line that is not trimmed -/

theorem command_congr (h : line'.stripped = line.stripped) (text : String) (m : Modifiers)
    (statement : Statement) :
    Source.command text m line' statement = Source.command text m line statement := by
  cases statement with
  | native => rw [Source.command, Source.command, h]
  | _ => rfl

theorem readCommand_eq_ok_iff :
    readCommand cs = .ok command ↔ ∃ m line statement, extract cs = .ok (m, line) ∧
      Statement.read (trim line.masked) = .ok statement ∧
      Source.command (String.ofList cs) m line statement = .ok command := by
  constructor
  · intro h
    unfold readCommand at h
    split at h
    · cases h
    · next m line hextract =>
        simp only at h
        split at h
        · cases h
        · next statement hread =>
            split at h
            · next found hfound =>
                cases h
                exact ⟨m, line, statement, hextract, hread, hfound⟩
            · cases h
  · rintro ⟨m, line, statement, hextract, hread, hcommand⟩
    have htrim : trimEnd (trimStart line.masked) = trim line.masked := rfl
    simp only [readCommand, hextract, htrim, hread, hcommand]

/-- The command on a line, from the line as it is written: the blanks around it are in the way of
nothing. -/
theorem readLine_eq_some_iff :
    readLine raw number = .ok (some command) ↔ trim raw ≠ [] ∧ isComment (trim raw) = false ∧
      ∃ m statement, (∀ kind, Gives kind raw (m.only kind)) ∧
        Statement.read (trim (scanned false raw).masked) = .ok statement ∧
        Source.command (String.ofList (trim raw)) m (scanned false raw) statement =
          .ok command := by
  have hcommand : readCommand (trim raw) = .ok command ↔
      ∃ m statement, (∀ kind, Gives kind raw (m.only kind)) ∧
        Statement.read (trim (scanned false raw).masked) = .ok statement ∧
        Source.command (String.ofList (trim raw)) m (scanned false raw) statement =
          .ok command := by
    obtain ⟨lead, trail, hscan, hlead, htrail⟩ := exists_scanned_trim raw
    have hmasked := Line.trim_masked_of_unseen hlead htrail (scanned false (trim raw))
    have hstripped := Line.stripped_of_unseen hlead htrail (scanned false (trim raw))
    rw [← hscan] at hmasked hstripped
    rw [readCommand_eq_ok_iff]
    refine exists_congr fun m => ?_
    simp only [extract_eq_ok_iff, gives_trim, hmasked, command_congr hstripped]
    constructor
    · rintro ⟨line, statement, ⟨hgives, rfl⟩, hread⟩
      exact ⟨statement, hgives, hread⟩
    · rintro ⟨statement, hgives, hread⟩
      exact ⟨_, statement, ⟨hgives, rfl⟩, hread⟩
  rw [← hcommand]
  unfold readLine
  simp only
  by_cases hnone : (trim raw).isEmpty || isComment (trim raw)
  · rw [if_pos hnone]
    refine iff_of_false nofun ?_
    rintro ⟨hne, hcomment, -⟩
    simp [hcomment, hne] at hnone
  · rw [if_neg hnone]
    rw [Bool.or_eq_true, not_or, List.isEmpty_iff, Bool.not_eq_true] at hnone
    rw [← and_assoc, and_iff_right hnone]
    cases readCommand (trim raw) with
    | ok found => simp
    | error misfit => exact iff_of_false nofun nofun

theorem isComment_trim (cs : List Char) : isComment (trim cs) = isComment (trimStart cs) := by
  obtain ⟨trail, hcs, htrail⟩ := exists_trimEnd_append (trimStart cs)
  have hleaves : Leaves isTokenPart trail := (Row.nil htrail).leaves
  conv_rhs => rw [← hcs]
  exact (isComment_append hleaves _).symm

/-- A line is no comment with a token in it, if it is none without. -/
theorem isComment_insert (htext : Spells kind text token)
    (h : isComment (trim (head ++ ' ' :: tail)) = false) :
    isComment (trim (head ++ ' ' :: (text ++ ' ' :: tail))) = false := by
  have hleaves (rest : List Char) : Leaves isTokenPart (' ' :: rest) := by
    rintro c ⟨⟩
    decide
  rw [isComment_trim] at h ⊢
  by_cases hhead : (trimStart head).isEmpty
  · have hblank : ∀ c ∈ head ++ [' '], isBlank c = true :=
      List.forall_mem_append.mpr ⟨List.dropWhile_eq_nil_iff.mp (List.isEmpty_iff.mp hhead),
        by simp [isBlank]⟩
    obtain ⟨inner, rfl, -⟩ := htext.eq_cons
    have hsplit : head ++ ' ' :: ('<' :: inner ++ ' ' :: tail) =
        (head ++ [' ']) ++ '<' :: (inner ++ ' ' :: tail) := by simp
    rw [hsplit, trimStart, List.dropWhile_append_of_pos hblank]
    rfl
  · have hstart (rest : List Char) : trimStart (head ++ rest) = trimStart head ++ rest := by
      rw [trimStart, trimStart, List.dropWhile_append]
      exact if_neg hhead
    rw [hstart, isComment_append (hleaves _)] at h ⊢
    exact h

theorem trim_insert_ne_nil (htext : Spells kind text token) (head tail : List Char) :
    trim (head ++ ' ' :: (text ++ ' ' :: tail)) ≠ [] := by
  obtain ⟨inner, rfl, -⟩ := htext.eq_cons
  have hsplit : head ++ ' ' :: ('<' :: inner ++ ' ' :: tail) =
      (head ++ [' ']) ++ '<' :: (inner ++ ' ' :: tail) := by simp
  rw [hsplit, trim_append_cons _ (by decide)]
  exact List.append_ne_nil_of_right_ne_nil _ (List.cons_ne_nil _ _)

/-! ### What a command is with one more token -/

/-- The commands that a statement gives without a token and with it. -/
theorem command_insert {text text' : String}
    (hcommand : Source.command text m line statement = .ok command)
    (hspread : Statement.Spread front.masked (List.replicate width ' ') back.masked statement
      statement')
    (hnative : CommandKind.Spread front width back (.native (String.ofList line.stripped))
      (.native (String.ofList line'.stripped)))
    (hwait : kind = .wait → command.kind ≠ .wait) (found : Modifiers) :
    ∃ command', Source.command text' (m.set kind found) line' statement' = .ok command' ∧
      command'.text = text' ∧ command'.modifiers = command.modifiers.set kind found ∧
      CommandKind.Spread front width back command.kind command'.kind := by
  cases hspread with
  | same =>
      cases statement with
      | native =>
          cases hcommand
          exact ⟨_, rfl, rfl, rfl, hnative⟩
      | wait seconds limit =>
          rw [Source.command] at hcommand ⊢
          split at hcommand
          · cases hcommand
          · next hnone =>
              split at hcommand
              · next wait hwaits =>
                  cases hcommand
                  have hkind : kind ≠ .wait := fun heq => hwait heq rfl
                  have hnone' : ¬ (m.set kind found).hasWait = true := by
                    cases kind <;> first | exact hnone | exact absurd rfl hkind
                  have hset : { m.set kind found with wait } = { m with wait }.set kind found := by
                    cases kind <;> first | rfl | exact absurd rfl hkind
                  rw [if_neg hnone']
                  exact ⟨_, rfl, rfl, hset, .same⟩
              · cases hcommand
      | _ =>
          cases hcommand
          exact ⟨_, rfl, rfl, rfl, .same⟩
  | name hf h =>
      simp only [Statement.named, List.mem_cons, List.not_mem_nil, or_false] at hf
      rcases hf with rfl | rfl | rfl | rfl | rfl | rfl | rfl
      all_goals
        cases hcommand
        refine ⟨_, rfl, rfl, rfl, .name ?_ h⟩
        simp [CommandKind.named]

/-! ### Insertion -/

/-- A token can be written wherever a space stands in a line with a command, outside the closed
quotation marks: if it is of a kind that the line does not have, and is no delay for a waiting
command, there is a command on the line still, which differs from the one before in what the token
asks for and, where its name or its text is parted by the token, in the blanks there. -/
theorem readLine_insert (hread : readLine (head ++ ' ' :: tail) number = .ok (some command))
    (hquotes : head.count quote % 2 = 0 ∨ quote ∉ tail) (htext : Spells kind text token)
    (happly : apply {} token = .ok found)
    (hfree : ∀ o, ¬ Stands kind false (head ++ ' ' :: tail) o)
    (hwait : kind = .wait → command.kind ≠ .wait) :
    ∃ (front back : Line) (command' : Command),
      scanned false (head ++ ' ' :: tail) = front ++ { char := ' ' } :: back ∧
      front.text = head ∧ back.text = tail ∧
      readLine (head ++ ' ' :: (text ++ ' ' :: tail)) number = .ok (some command') ∧
      command'.text = String.ofList (trim (head ++ ' ' :: (text ++ ' ' :: tail))) ∧
      command'.modifiers = command.modifiers.set kind found ∧
      CommandKind.Spread front (byteLength text + 1) back command.kind command'.kind := by
  obtain ⟨-, hcomment, m, statement, hgives, hstatement, hcommand⟩ := readLine_eq_some_iff.mp hread
  have hopen : quotesOpen false head = false ∨ quote ∉ tail := by
    refine hquotes.imp_left fun heven => ?_
    rw [quotesOpen_eq, heven]
    rfl
  obtain ⟨front, back, hfront, hback, hscan, hscan'⟩ := htext.exists_scanned hopen
  have hkeeps : (front ++ { char := ' ' } :: back).KeepsQuotes := by
    rw [← hscan]
    exact Line.keepsQuotes_cover fun span hmem => (mem_spansOf.mp hmem).imp fun _ => And.right
  obtain ⟨hkeepsFront, hkeepsBack⟩ := List.forall_mem_append.mp hkeeps
  have hquotesMasked : front.masked.count quote % 2 = 0 ∨ quote ∉ back.masked := by
    rw [Line.count_masked hkeepsFront, hfront, ← List.count_eq_zero,
      Line.count_masked (List.forall_mem_cons.mp hkeepsBack).2, hback, List.count_eq_zero]
    exact hquotes
  have hgap : IsGap (List.replicate (byteLength text + 1) ' ') := by
    intro c hc
    rw [List.eq_of_mem_replicate hc]
    decide
  have hmasked : (scanned false (head ++ ' ' :: tail)).masked =
      front.masked ++ ' ' :: back.masked := by
    rw [hscan, Line.masked_append]
    rfl
  have hmasked' : (scanned false (head ++ ' ' :: (text ++ ' ' :: tail))).masked =
      front.masked ++ ' ' :: (List.replicate (byteLength text + 1) ' ' ++ back.masked) := by
    rw [hscan', Line.masked_append, Line.masked_cons, Line.masked_append, Line.masked_taken,
      Line.masked_cons, List.replicate_succ']
    simp
  rw [hmasked] at hstatement
  obtain ⟨statement', hspread, hstatement'⟩ :=
    Statement.read_trim_spread hquotesMasked hgap hstatement
  have hnative : CommandKind.Spread front (byteLength text + 1) back
      (.native (String.ofList (scanned false (head ++ ' ' :: tail)).stripped)) (.native
        (String.ofList (scanned false (head ++ ' ' :: (text ++ ' ' :: tail))).stripped)) := by
    have hne : text ≠ [] := by
      obtain ⟨inner, rfl, -⟩ := htext.eq_cons
      exact List.cons_ne_nil _ _
    obtain ⟨before, gap, gap', after, hblank, hblank', hiff, hbefore, hafter, hline, hline'⟩ :=
      Line.exists_stripped_insert front back hne
    rw [hscan, hscan', hline, hline']
    exact .native hblank hblank' hiff hbefore hafter
  obtain ⟨command', hcommand', htext', hmodifiers, hkind⟩ :=
    command_insert hcommand hspread hnative hwait found
  refine ⟨front, back, command', hscan, hfront, hback, ?_, htext', hmodifiers, hkind⟩
  rw [← hmasked'] at hstatement'
  exact readLine_eq_some_iff.mpr ⟨trim_insert_ne_nil htext head tail,
    isComment_insert htext hcomment, _, statement',
    htext.gives_insert happly hopen hfree hgives, hstatement', hcommand'⟩

theorem readLine_insert_basicTouch :
    ∃ (front back : Line) (command' : Command),
      scanned false "/ac Basic Touch <wait.1>".toList = front ++ { char := ' ' } :: back ∧
      front.text = "/ac Basic".toList ∧
      readLine "/ac Basic <echo> Touch <wait.1>".toList 0 = .ok (some command') ∧
      command'.modifiers = { wait := ⟨1000, 0⟩, hasWait := true, echo := true } ∧
      CommandKind.Spread front 7 back (.action "Basic Touch") command'.kind := by
  have hread : readLine ("/ac Basic".toList ++ ' ' :: "Touch <wait.1>".toList) 0 =
      .ok (some ⟨"/ac Basic Touch <wait.1>", { wait := ⟨1000, 0⟩, hasWait := true },
        .action "Basic Touch"⟩) := by rfl
  have htext : Spells .echo "<echo>".toList .echo := by rfl
  have hfree : ∀ o, ¬ Stands .echo false ("/ac Basic".toList ++ ' ' :: "Touch <wait.1>".toList) o :=
    stands_of_occurrencesFrom_nil (by rfl)
  obtain ⟨front, back, command', hscan, hfront, -, hread', -, hmodifiers, hkind⟩ :=
    readLine_insert hread (.inl (by decide)) htext rfl hfree nofun
  exact ⟨front, back, command', hscan, hfront, hread', hmodifiers, hkind⟩

/-- A name that is parted by a token has the blanks in it. -/
theorem readLine_insert_widens_name :
    readLine "/ac Basic Touch".toList 0 =
        .ok (some ⟨"/ac Basic Touch", {}, .action "Basic Touch"⟩) ∧
      readLine "/ac Basic <echo> Touch".toList 0 =
        .ok (some ⟨"/ac Basic <echo> Touch", { echo := true }, .action "Basic        Touch"⟩) := by
  constructor
  · rfl
  · rfl

end Source

end CraftLang
