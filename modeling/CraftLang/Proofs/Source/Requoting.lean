import CraftLang.Command.Execute
import CraftLang.Proofs.Source.Delays
import CraftLang.Proofs.Source.Lines
import CraftLang.Proofs.Text.Case

/-!
Names in commands, and the lines that quote them. No reader lets a quotation mark into a name, and
no line has a line feed, so that a name can be written between quotation marks after any spelling of
its verb. Nothing in the marks is taken for a modifier, and the line is a command with that name.
-/

namespace CraftLang

open Text Modifier Grammar

def CommandKind.naming? : CommandKind → Option (Verb × String)
  | .action name => some (.action, name)
  | .click name => some (.click, name)
  | .waitAddon name => some (.waitAddon, name)
  | .require name => some (.require, name)
  | .target name => some (.target, name)
  | .send name => some (.send, name)
  | .runMacro name => some (.runMacro, name)
  | .item name => some (.item, name)
  | .recipe name => some (.recipe, name)
  | _ => none

def Source.nameLine (spelling : List Char) (name : String) : String :=
  "/" ++ String.ofList spelling ++ " \x22" ++ name ++ "\x22"

/-! ### Names that are read -/

namespace Grammar

/-- The name is made of characters of the text, and has no quotation mark. -/
def IsCutFrom (text : List Char) (name : String) : Prop :=
  quote ∉ name.toList ∧ name.toList ⊆ text

variable {text : List Char} {name : String}

theorem isCutFrom_ofList {inner : List Char} (h : quote ∉ inner) (hsub : inner ⊆ text) :
    IsCutFrom text (String.ofList inner) := by
  rw [IsCutFrom, String.toList_ofList]
  exact ⟨h, hsub⟩

theorem isCutFrom_quoted {inner : List Char} (h : quote ∉ inner) :
    IsCutFrom (quote :: (inner ++ [quote])) (String.ofList inner) :=
  isCutFrom_ofList h fun _ hc => List.mem_cons_of_mem _ (List.mem_append_left _ hc)

theorem IsName.isCutFrom (h : IsName text name) : IsCutFrom text name := by
  cases h with
  | quoted h => exact isCutFrom_quoted h
  | bare hquote hvisible =>
      have hsub := (trimEnd_isPrefix text).subset
      exact isCutFrom_ofList (fun hmem => hquote (hsub hmem)) hsub

theorem IsArgument.isCutFrom (h : IsArgument text name) : IsCutFrom text name := by
  cases h with
  | quoted h => exact isCutFrom_quoted h
  | bare hne h =>
      exact isCutFrom_ofList (fun hmem => ne_quote_of_isBare (h _ hmem) rfl) (List.Subset.refl _)

theorem Spaced.isCutFrom {P : List Char → String → Prop} (h : Spaced P text name)
    (hP : ∀ {text name}, P text name → IsCutFrom text name) : IsCutFrom text name := by
  cases h with
  | after _ _ _ h => exact (hP h).imp_right fun hsub _ hc => List.mem_append_right _ (hsub hc)

/-- A name after a gap, in quotation marks. -/
theorem spaced_quoted {P : List Char → String → Prop}
    (h : P (quote :: (name.toList ++ [quote])) name) :
    Spaced P (' ' :: quote :: (name.toList ++ [quote])) name :=
  .after (List.cons_ne_nil ' ' []) isGap_space (leaves_quote _) h

end Grammar

namespace Statement

variable {cs : List Char} {statement : Statement}

/-- What is read is a line for the game, or the arguments of a verb in the line. -/
theorem exists_spells_of_read (h : read cs = .ok statement) :
    statement = .native ∨ ∃ verb text, Verb.Spells verb text statement ∧ text ⊆ cs := by
  have hslash : cs.head? = some '/' := by
    by_contra hne
    rw [read_of_head?_ne hne] at h
    cases h
  obtain ⟨rest, rfl⟩ := List.head?_eq_some_iff.mp hslash
  obtain ⟨name, args, rfl, hname, hargs⟩ := exists_verb rest
  by_cases hnative : name = [] ∨ ∀ verb, (String.ofList (asciiLower name), verb) ∉ Verb.spellings
  · rw [(read_eq_native_iff hname hargs).mpr hnative] at h
    cases h
    exact .inl rfl
  · rw [not_or, not_forall] at hnative
    obtain ⟨-, verb, hmem⟩ := hnative
    rw [not_not] at hmem
    obtain ⟨text, tail, rfl, -, htext⟩ := (read_eq_ok_iff hname hargs hmem).mp h
    exact .inr ⟨verb, text, htext, fun _ hc => List.mem_cons_of_mem _
      (List.mem_append_right _ (List.mem_append_left _ hc))⟩

end Statement

namespace Source

variable {raw cs : List Char} {number : Nat} {command : Command} {kind : CommandKind}
  {statement : Statement} {verb : Verb} {name : String} {m : Modifiers} {line : Line}

theorem isCutFrom_of_spells {verb' : Verb} (h : Verb.Spells verb' cs statement) {text : String}
    (hcommand : Source.command text m line statement = .ok command)
    (hnaming : command.kind.naming? = some (verb, name)) : IsCutFrom cs name := by
  cases verb' with
  | action | waitAddon | require | target | runMacro | item | recipe =>
      cases h with
      | value h =>
          cases hcommand
          cases hnaming
          exact h.isCutFrom IsName.isCutFrom
  | click | send =>
      cases h with
      | value h =>
          cases hcommand
          cases hnaming
          exact h.isCutFrom IsArgument.isCutFrom
  | wait =>
      cases h with
      | value h =>
          rw [Source.command] at hcommand
          split at hcommand
          · cases hcommand
          · split at hcommand
            · cases hcommand
              cases hnaming
            · cases hcommand
  | requireQuality | loop | gate =>
      cases h with
      | value h =>
          cases hcommand
          cases hnaming
  | requireStats =>
      cases h
      cases hcommand
      cases hnaming
  | requireRepair | requireSpiritbond =>
      obtain ⟨-, rfl⟩ := h
      cases hcommand
      cases hnaming

/-- A name has only characters of its line, and spaces for those of modifiers. -/
theorem name_of_readLine (hread : readLine raw number = .ok (some command))
    (hnaming : command.kind.naming? = some (verb, name)) :
    quote ∉ name.toList ∧ ∀ c ∈ name.toList, c ≠ ' ' → c ∈ raw := by
  obtain ⟨-, -, m, statement, -, hstatement, hcommand⟩ := readLine_eq_some_iff.mp hread
  rcases Statement.exists_spells_of_read hstatement with rfl | ⟨verb', text, htext, hsub⟩
  · cases hcommand
    cases hnaming
  · obtain ⟨hquote, hchars⟩ := isCutFrom_of_spells htext hcommand hnaming
    refine ⟨hquote, fun c hc hvisible => ?_⟩
    have hmasked := (mem_masked_iff hvisible).mp (mem_of_mem_trim (hsub (hchars hc)))
    obtain ⟨cell, hcell, hchar⟩ := List.mem_map.mp hmasked
    split at hchar
    · exact absurd hchar.symm hvisible
    · rw [← text_scanned false raw, ← hchar]
      exact List.mem_map_of_mem hcell

/-! ### Lines with a name in quotation marks -/

/-- The statement of a name after a gap, in quotation marks, and the command that it is. -/
theorem exists_spells_quoted (hnaming : kind.naming? = some (verb, name))
    (hquote : quote ∉ name.toList) :
    ∃ statement, verb.Spells (' ' :: quote :: (name.toList ++ [quote])) statement ∧
      ∀ text m line, Source.command text m line statement = .ok ⟨text, m, kind⟩ := by
  cases kind with
  | action | waitAddon | require | target | runMacro | item | recipe =>
      cases hnaming
      exact ⟨_, .value (spaced_quoted (isName_quoted hquote)), fun _ _ _ => rfl⟩
  | click | send =>
      cases hnaming
      exact ⟨_, .value (spaced_quoted (isArgument_quoted hquote)), fun _ _ _ => rfl⟩
  | native | wait | requireQuality | requireStats | requireRepair | requireSpiritbond | loop
  | gate => cases hnaming

section Spelling

variable {spelling : List Char} (h : (String.ofList (asciiLower spelling), verb) ∈ Verb.spellings)

include h in
theorem isBlank_of_spelling : ∀ c ∈ spelling, isBlank c = false := by
  intro c hc
  rw [← isBlank_toLower, isBlank_of_isLower (Statement.isLower_of_spelling h hc)]

theorem toList_nameLine (spelling : List Char) (name : String) :
    (nameLine spelling name).toList =
      '/' :: (spelling ++ ' ' :: quote :: (name.toList ++ [quote])) := by
  simp [nameLine, quote]

theorem trim_nameLine (spelling : List Char) (name : String) :
    trim (nameLine spelling name).toList = (nameLine spelling name).toList := by
  have hlast : '/' :: (spelling ++ ' ' :: quote :: (name.toList ++ [quote])) =
      ('/' :: (spelling ++ ' ' :: quote :: name.toList)) ++ [quote] := by simp
  rw [toList_nameLine]
  exact trim_of_slash hlast (by decide)

include h in
theorem extract_nameLine (hquote : quote ∉ name.toList) :
    extract (nameLine spelling name).toList =
      .ok ({}, Line.ofText (nameLine spelling name).toList) := by
  have hfront {c : Char} (hc : c.toLower.isLower = false) (hslash : c ≠ '/') (hspace : c ≠ ' ') :
      c ∉ '/' :: (spelling ++ [' ']) := by
    simp [hslash, hspace, Statement.not_mem_of_spelling h hc]
  have hquotes : Quotes (nameLine spelling name).toList ('/' :: (spelling ++ [' ']))
      name.toList [] := by
    refine ⟨by simp [toList_nameLine], ?_, hquote⟩
    rw [List.count_eq_zero.mpr (hfront (by decide) (by decide) (by decide))]
  exact extract_of_quotes hquotes (hfront (by decide) (by decide) (by decide)) List.not_mem_nil

include h in
/-- A verb with a name in quotation marks is a command, whose modifiers are neutral. -/
theorem commandsOn?_nameLine (hnaming : kind.naming? = some (verb, name))
    (hquote : quote ∉ name.toList) :
    commandsOn? (nameLine spelling name).toList = some [⟨nameLine spelling name, {}, kind⟩] := by
  obtain ⟨statement, hspells, hcommand⟩ := exists_spells_quoted hnaming hquote
  have hread : Statement.read (nameLine spelling name).toList = .ok statement := by
    rw [toList_nameLine]
    refine (Statement.read_eq_ok_iff (isBlank_of_spelling h) ?_ h).mpr
      ⟨_, [], (List.append_nil _).symm, nofun, hspells⟩
    rintro c ⟨⟩
    decide
  have hline : readCommand (nameLine spelling name).toList =
      .ok ⟨String.ofList (nameLine spelling name).toList, {}, kind⟩ := by
    refine readCommand_of_extract (extract_nameLine h hquote) ?_ (hcommand _ _ _)
    rw [Line.masked_ofText, trim_nameLine, hread]
  rw [String.ofList_toList] at hline
  obtain ⟨c, rest, hcons⟩ := List.exists_cons_of_ne_nil (Statement.ne_nil_of_mem_spellings h)
  have hstart : (nameLine spelling name).toList =
      '/' :: c :: (rest ++ ' ' :: quote :: (name.toList ++ [quote])) := by
    rw [toList_nameLine, hcons, List.cons_append]
  have hslash : c ≠ '/' := by
    rintro rfl
    exact Statement.not_mem_of_spelling h (by decide) (hcons ▸ List.mem_cons_self)
  exact commandsOn?_of_readCommand hstart hslash (trim_nameLine _ _) hline

end Spelling

theorem readSource_nameLine (hnaming : kind.naming? = some (verb, name))
    (hquote : quote ∉ name.toList) (hline : '\n' ∉ name.toList) {spelling : List Char}
    (hspelling : Verb.ofName? spelling = some verb) :
    readSource (nameLine spelling name) = .ok [⟨nameLine spelling name, {}, kind⟩] := by
  have hmem := Verb.ofName?_eq_some_iff.mp hspelling
  have hsingle : '\n' ∉ (nameLine spelling name).toList := by
    simp [toList_nameLine, Statement.not_mem_of_spelling hmem, hline, quote]
  rw [readSource_eq_ok_iff, commandsOf?_of_line hsingle, commandsOn?_nameLine hmem hnaming hquote]

theorem newline_not_mem_of_lines (h : raw ∈ lines cs) : '\n' ∉ raw := by
  obtain ⟨piece, hpiece, rfl⟩ := List.mem_map.mp h
  have hnone := not_mem_of_mem_splitOn hpiece
  rcases dropCarriageReturn_cases piece with hsame | hdropped
  · rwa [hsame]
  · rw [hdropped] at hnone
    exact fun hmem => hnone (List.mem_append_left _ hmem)

/-- Names survive quoting. The name of a command has no quotation mark and no line feed. After any
spelling of its verb, in quotation marks, it makes a source of one command without modifiers, which
does the same under the same name; and so does the line that carries out an action. -/
theorem names_survive_quoting {source : String} {commands : List Command}
    (h : readSource source = .ok commands) (hmem : command ∈ commands)
    (hnaming : command.kind.naming? = some (verb, name)) :
    (quote ∉ name.toList ∧ '\n' ∉ name.toList) ∧
    (∀ spelling, Verb.ofName? spelling = some verb →
      readSource (nameLine spelling name) = .ok [⟨nameLine spelling name, {}, command.kind⟩]) ∧
    (command.kind = .action name → readSource (Execute.actionLine name) =
      .ok [⟨Execute.actionLine name, {}, command.kind⟩]) := by
  obtain ⟨raw, hraw, number, hread⟩ := exists_line_of_mem h hmem
  obtain ⟨hquote, hchars⟩ := name_of_readLine hread hnaming
  have hline : '\n' ∉ name.toList := fun hnewline =>
    newline_not_mem_of_lines hraw (hchars _ hnewline (by decide))
  refine ⟨⟨hquote, hline⟩, fun spelling hspelling =>
    readSource_nameLine hnaming hquote hline hspelling, fun hkind => ?_⟩
  have hcarried : Execute.actionLine name = nameLine ['a', 'c'] name := by
    rw [Execute.actionLine, nameLine]
    rfl
  have haction : (CommandKind.action name).naming? = some (.action, name) := rfl
  rw [hcarried, hkind]
  exact readSource_nameLine haction hquote hline (by decide)

/-- A name with the text of a modifier in it, on a line that has another such modifier. -/
theorem names_survive_quoting_fooWait :
    readSource "/ac \x22Foo <wait.1>\x22 <wait.2>" = .ok [⟨"/ac \x22Foo <wait.1>\x22 <wait.2>",
        { wait := ⟨2000, 0⟩, hasWait := true }, .action "Foo <wait.1>"⟩] ∧
      Verb.ofName? "Action".toList = some .action ∧
      readSource (nameLine "Action".toList "Foo <wait.1>") =
        .ok [⟨nameLine "Action".toList "Foo <wait.1>", {}, .action "Foo <wait.1>"⟩] ∧
      readSource (Execute.actionLine "Foo <wait.1>") =
        .ok [⟨Execute.actionLine "Foo <wait.1>", {}, .action "Foo <wait.1>"⟩] := by
  have hread : readSource "/ac \x22Foo <wait.1>\x22 <wait.2>" =
      .ok [⟨"/ac \x22Foo <wait.1>\x22 <wait.2>", { wait := ⟨2000, 0⟩, hasWait := true },
        .action "Foo <wait.1>"⟩] := by rfl
  have hspelling : Verb.ofName? "Action".toList = some .action := by decide
  obtain ⟨-, hquoted, hcarried⟩ := names_survive_quoting hread List.mem_cons_self rfl
  exact ⟨hread, hspelling, hquoted _ hspelling, hcarried rfl⟩

end Source

end CraftLang
