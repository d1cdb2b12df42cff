import CraftLang.Source.Basic

/-!
Reading source line by line. A line is read on its own: neither its place nor the blanks around it
matter to the command that it gives, and the commands of a text are those of its lines. So the texts
of the commands of a source are a source of the same commands.
-/

namespace CraftLang

open Text

/-- The results of `f` on a list, one after the other, unless one of them is missing. -/
def collect? {α β : Type} (f : α → Option (List β)) : List α → Option (List β)
  | [] => some []
  | a :: as => (f a).bind fun first => (collect? f as).map (first ++ ·)

section

variable {α β γ : Type} {f : α → Option (List β)}

@[simp] theorem collect?_nil : collect? f [] = some [] := rfl

theorem collect?_cons (f : α → Option (List β)) (a : α) (as : List α) :
    collect? f (a :: as) = (f a).bind fun first => (collect? f as).map (first ++ ·) := rfl

theorem collect?_append (f : α → Option (List β)) (as bs : List α) :
    collect? f (as ++ bs) =
      (collect? f as).bind fun first => (collect? f bs).map (first ++ ·) := by
  induction as with
  | nil => simp
  | cons a as ih =>
      rw [List.cons_append, collect?_cons, collect?_cons, ih]
      cases f a with
      | none => rfl
      | some first =>
          cases collect? f as with
          | none => rfl
          | some second => simp [Function.comp_def]

theorem collect?_singleton (f : α → Option (List β)) (a : α) : collect? f [a] = f a := by
  cases ha : f a <;> simp [collect?_cons, ha]

theorem collect?_flatMap (f : α → Option (List β)) (g : γ → List α) (cs : List γ) :
    collect? f (cs.flatMap g) = collect? (fun c => collect? f (g c)) cs := by
  induction cs with
  | nil => rfl
  | cons c cs ih => rw [List.flatMap_cons, collect?_append, collect?_cons, ih]

theorem collect?_map (f : α → Option (List β)) (g : γ → α) (cs : List γ) :
    collect? f (cs.map g) = collect? (fun c => f (g c)) cs := by
  induction cs with
  | nil => rfl
  | cons c cs ih => rw [List.map_cons, collect?_cons, collect?_cons, ih]

theorem collect?_congr {g : α → Option (List β)} {as : List α} (h : ∀ a ∈ as, f a = g a) :
    collect? f as = collect? g as := by
  induction as with
  | nil => rfl
  | cons a as ih =>
      rw [collect?_cons, collect?_cons, h a List.mem_cons_self,
        ih fun b hb => h b (List.mem_cons_of_mem _ hb)]

theorem collect?_eq_none {as : List α} {a : α} (hmem : a ∈ as) (h : f a = none) :
    collect? f as = none := by
  induction as with
  | nil => cases hmem
  | cons b as ih =>
      rw [collect?_cons]
      rcases List.mem_cons.mp hmem with rfl | hmem
      · rw [h]
        rfl
      · rw [ih hmem]
        cases f b <;> rfl

theorem collect?_some (g : α → List β) (as : List α) :
    collect? (fun a => some (g a)) as = some (as.flatMap g) := by
  induction as with
  | nil => rfl
  | cons a as ih => rw [collect?_cons, ih, List.flatMap_cons]; rfl

end

namespace Source

/-- The commands on a line, none or one, unless the line has a fault. -/
def commandsOn? (raw : List Char) : Option (List Command) :=
  (readLine raw 0).toOption.map Option.toList

def commandsOf? (text : List Char) : Option (List Command) :=
  collect? commandsOn? (splitOn '\n' text)

/-! ### One line -/

/-- Where a line stands, and the blanks around it, matter to the place of its fault only. -/
theorem readLine_congr {raw raw' : List Char} (h : trim raw = trim raw') (number number' : Nat) :
    (readLine raw number).toOption = (readLine raw' number').toOption := by
  unfold readLine
  simp only [h]
  split
  · rfl
  · split <;> rfl

theorem commandsOn?_congr {raw raw' : List Char} (h : trim raw = trim raw') :
    commandsOn? raw = commandsOn? raw' := by
  rw [commandsOn?, commandsOn?, readLine_congr h 0 0]

/-- A carriage return at the end of a line is blank. -/
theorem trim_dropCarriageReturn (raw : List Char) : trim (dropCarriageReturn raw) = trim raw := by
  rcases dropCarriageReturn_cases raw with hsame | hdropped
  · rw [hsame]
  · have hblank : ∀ c ∈ ['\r'], isBlank c = true := by simp [isBlank]
    conv => rhs; rw [hdropped, trim_append_of_blank _ hblank]

/-- The text of a command is what it was read from. -/
theorem text_of_readCommand {cs : List Char} {command : Command}
    (h : readCommand cs = .ok command) : command.text = String.ofList cs := by
  unfold readCommand at h
  split at h
  · cases h
  · simp only at h
    split at h
    · cases h
    · next statement _ =>
        split at h
        · next found hfound =>
            cases h
            cases statement with
            | wait seconds limit =>
                simp only [Source.command] at hfound
                split at hfound
                · cases hfound
                · split at hfound <;> cases hfound
                  rfl
            | _ =>
                cases hfound
                rfl
        · cases h

/-- A line with a command on it gives that command alone, whose text is the line without outer
blanks. -/
theorem eq_singleton_of_mem {raw : List Char} {commands : List Command} {command : Command}
    (h : commandsOn? raw = some commands) (hmem : command ∈ commands) :
    commands = [command] ∧ command.text.toList = trim raw := by
  obtain ⟨found, hfound, rfl⟩ := Option.map_eq_some_iff.mp h
  cases found with
  | none => cases hmem
  | some first =>
      obtain rfl : command = first := by simpa using hmem
      refine ⟨rfl, ?_⟩
      simp only [readLine] at hfound
      split at hfound
      · cases hfound
      · split at hfound
        · next hread =>
            cases hfound
            rw [text_of_readCommand hread, String.toList_ofList]
        · cases hfound

/-! ### Many lines -/

theorem readLines_toOption (number : Nat) (lines : List (List Char)) :
    (readLines number lines).toOption = collect? commandsOn? lines := by
  induction lines generalizing number with
  | nil => rfl
  | cons raw rest ih =>
      rw [collect?_cons, commandsOn?, readLine_congr rfl 0 number, ← ih (number + 1), readLines]
      cases readLine raw number with
      | error e => rfl
      | ok command =>
          cases readLines (number + 1) rest with
          | error e => rfl
          | ok commands => rfl

/-- A text made of other ones with line breaks between them gives the commands of each. -/
theorem commandsOf?_joinWith {texts : List (List Char)} (h : texts ≠ []) :
    commandsOf? (joinWith ['\n'] texts) = collect? commandsOf? texts := by
  rw [commandsOf?, splitOn_joinWith _ h, collect?_flatMap]
  rfl

theorem commandsOf?_append_cons (xs ys : List Char) :
    commandsOf? (xs ++ '\n' :: ys) =
      (commandsOf? xs).bind fun first => (commandsOf? ys).map (first ++ ·) := by
  rw [commandsOf?, splitOn_append_cons, collect?_append]
  rfl

theorem commandsOf?_of_line {raw : List Char} (h : '\n' ∉ raw) :
    commandsOf? raw = commandsOn? raw := by
  rw [commandsOf?, splitOn_of_not_mem h, collect?_singleton]

/-- A blank at the end of a text, of whatever kind, is the end of its last line or an empty line. -/
theorem commandsOf?_concat_of_blank (cs : List Char) {c : Char} (h : isBlank c = true) :
    commandsOf? (cs ++ [c]) = commandsOf? cs := by
  by_cases hc : c = '\n'
  · subst hc
    rw [commandsOf?_append_cons]
    cases commandsOf? cs with
    | none => rfl
    | some commands => exact congrArg some (List.append_nil commands)
  -- The last line is what comes after the last line break.
  · induction hlength : cs.length using Nat.strongRecOn generalizing cs with
    | ind length ih =>
        by_cases hline : '\n' ∈ cs
        · obtain ⟨xs, ys, rfl⟩ := List.append_of_mem hline
          have hshorter : ys.length < length := by
            simp only [List.length_append, List.length_cons] at hlength
            omega
          rw [List.append_assoc, List.cons_append, commandsOf?_append_cons, commandsOf?_append_cons,
            ih ys.length hshorter ys rfl]
        · have hlonger : '\n' ∉ cs ++ [c] := by simp [hline, Ne.symm hc]
          rw [commandsOf?_of_line hline, commandsOf?_of_line hlonger]
          exact commandsOn?_congr (trim_append_of_blank cs (by simpa using h))

theorem commandsOf?_append_of_blank (cs : List Char) {blanks : List Char}
    (h : ∀ c ∈ blanks, isBlank c = true) : commandsOf? (cs ++ blanks) = commandsOf? cs := by
  induction blanks generalizing cs with
  | nil => rw [List.append_nil]
  | cons c blanks ih =>
      rw [List.append_cons, ih _ fun d hd => h d (List.mem_cons_of_mem _ hd),
        commandsOf?_concat_of_blank cs (h c List.mem_cons_self)]

end Source

/-- Source is read line by line. -/
theorem readSource_eq_ok_iff {source : String} {commands : List Command} :
    readSource source = .ok commands ↔ Source.commandsOf? source.toList = some commands := by
  have hlines : collect? Source.commandsOn? (Source.lines source.toList) =
      Source.commandsOf? source.toList := by
    rw [Source.lines, collect?_map, Source.commandsOf?]
    exact collect?_congr fun raw _ =>
      Source.commandsOn?_congr (Source.trim_dropCarriageReturn raw)
  rw [← hlines, ← Source.readLines_toOption 0, readSource]
  cases Source.readLines 0 (Source.lines source.toList) with
  | error e => exact ⟨nofun, nofun⟩
  | ok found => simp [Except.toOption]

/-! ### Reading the texts of commands -/

namespace Source

/-- A line with a command on it, and the text of that command, give the same command. -/
theorem commandsOn?_text {raw : List Char} {commands : List Command} {command : Command}
    (h : commandsOn? raw = some commands) (hmem : command ∈ commands) :
    commandsOn? command.text.toList = some [command] := by
  obtain ⟨rfl, htext⟩ := eq_singleton_of_mem h hmem
  rw [htext, commandsOn?_congr (trim_trim raw), h]

theorem collect?_texts {lines : List (List Char)} {commands : List Command}
    (h : collect? commandsOn? lines = some commands) :
    collect? commandsOn? (commands.map (·.text.toList)) = some commands := by
  induction lines generalizing commands with
  | nil =>
      cases h
      rfl
  | cons raw rest ih =>
      rw [collect?_cons, Option.bind_eq_some_iff] at h
      obtain ⟨first, hfirst, hrest⟩ := h
      obtain ⟨later, hlater, rfl⟩ := Option.map_eq_some_iff.mp hrest
      have hsame : collect? commandsOn? (first.map (·.text.toList)) = some first := by
        cases first with
        | nil => rfl
        | cons command more =>
            obtain ⟨hsingle, -⟩ := eq_singleton_of_mem hfirst List.mem_cons_self
            rw [hsingle, List.map_singleton, collect?_singleton]
            exact commandsOn?_text hfirst List.mem_cons_self
      rw [List.map_append, collect?_append, hsame, ih hlater]
      rfl

/-- The text of a command has no line break, since its line has none. -/
theorem newline_not_mem_text {lines : List (List Char)} {commands : List Command}
    (h : collect? commandsOn? lines = some commands) (hlines : ∀ raw ∈ lines, '\n' ∉ raw) :
    ∀ command ∈ commands, '\n' ∉ command.text.toList := by
  induction lines generalizing commands with
  | nil =>
      cases h
      intro command hmem
      cases hmem
  | cons raw rest ih =>
      rw [collect?_cons, Option.bind_eq_some_iff] at h
      obtain ⟨first, hfirst, hrest⟩ := h
      obtain ⟨later, hlater, rfl⟩ := Option.map_eq_some_iff.mp hrest
      intro command hmem
      rcases List.mem_append.mp hmem with hmem | hmem
      · obtain ⟨-, htext⟩ := eq_singleton_of_mem hfirst hmem
        rw [htext]
        exact fun hnewline => hlines raw List.mem_cons_self (mem_of_mem_trim hnewline)
      · exact ih hlater (fun raw hraw => hlines raw (List.mem_cons_of_mem _ hraw)) command hmem

end Source

/-- The texts of the commands of a source, one to a line, are a source of the same commands. -/
theorem readSource_joinLines_text {source : String} {commands : List Command}
    (h : readSource source = .ok commands) :
    readSource (joinLines (commands.map Command.text)) = .ok commands := by
  rw [readSource_eq_ok_iff] at h ⊢
  have hlines : ∀ raw ∈ splitOn '\n' source.toList, '\n' ∉ raw :=
    fun _ hraw => not_mem_of_mem_splitOn hraw
  have htexts : ∀ text ∈ commands.map (·.text.toList), '\n' ∉ text := by
    intro text htext
    obtain ⟨command, hmem, rfl⟩ := List.mem_map.mp htext
    exact Source.newline_not_mem_text h hlines command hmem
  rw [joinLines, String.toList_ofList, List.map_map, Source.commandsOf?]
  by_cases hempty : commands = []
  · subst hempty
    rfl
  · have hnonempty : commands.map (·.text.toList) ≠ [] := by simpa using hempty
    exact (splitOn_joinWith_of_not_mem hnonempty htexts).symm ▸ Source.collect?_texts h

/-- Blanks of several kinds, stray carriage returns, a comment, tokens inside and outside of quotes,
an open quote, and a line for the game. -/
def untidySource : String :=
  "\u3000/ac \x22A <echo> B\x22  <wait.1-2.5>\x0d\n # note\n\n/loop 3 <ECHO>\x0d\x0d\n" ++
    "\t/say \x22hi <se.1> <unsafe>"

theorem readSource_joinLines_text_untidy :
    ∃ commands, readSource untidySource = .ok commands ∧
      commands.map Command.text =
        ["/ac \x22A <echo> B\x22  <wait.1-2.5>", "/loop 3 <ECHO>", "/say \x22hi <se.1> <unsafe>"] ∧
      readSource (joinLines (commands.map Command.text)) = .ok commands := by
  obtain ⟨commands, hread, htexts⟩ : ∃ commands, readSource untidySource = .ok commands ∧
      commands.map Command.text =
        ["/ac \x22A <echo> B\x22  <wait.1-2.5>", "/loop 3 <ECHO>",
          "/say \x22hi <se.1> <unsafe>"] :=
    ⟨_, by rfl, by rfl⟩
  exact ⟨commands, hread, htexts, readSource_joinLines_text hread⟩

end CraftLang
