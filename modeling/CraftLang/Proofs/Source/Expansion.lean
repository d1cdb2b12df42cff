import CraftLang.Proofs.Source.Scaffold
import CraftLang.Proofs.Text.Replace

/-!
Craft loops, read back. The text that a body is set into and the text of the body are read
independently of one another: the expansion is source if the body is, and its commands are those of
the scaffold or the template around those of the body.
-/

namespace CraftLang

open Text

namespace CraftLoop

open Source

/-! ### Line breaks at the end of a body -/

theorem dropLineBreaks_append (body : List Char) :
    ∃ breaks, body = dropLineBreaks body ++ breaks ∧ ∀ c ∈ breaks, isBlank c = true := by
  induction body with
  | nil => exact ⟨[], rfl, nofun⟩
  | cons c cs ih =>
      obtain ⟨breaks, hcs, hbreaks⟩ := ih
      rw [dropLineBreaks]
      split
      · next hnil =>
          rw [hnil, List.nil_append] at hcs
          split
          · next hc =>
              refine ⟨c :: cs, rfl, fun d hd => ?_⟩
              rcases List.mem_cons.mp hd with rfl | hd
              · simp only [Bool.or_eq_true, decide_eq_true_eq] at hc
                rcases hc with rfl | rfl <;> decide
              · exact hbreaks d (hcs ▸ hd)
          · exact ⟨cs, rfl, fun d hd => hbreaks d (hcs ▸ hd)⟩
      · next d ds hcons =>
          refine ⟨breaks, ?_, hbreaks⟩
          rw [← hcons, List.cons_append, ← hcs]

theorem commandsOf?_dropLineBreaks (body : List Char) :
    commandsOf? (dropLineBreaks body) = commandsOf? body := by
  obtain ⟨breaks, hbody, hbreaks⟩ := dropLineBreaks_append body
  conv => rhs; rw [hbody, commandsOf?_append_of_blank _ hbreaks]

/-! ### Templates -/

def Repeat.templateCount : Repeat → Nat
  | .times n => n - 1
  | _ => unboundedCount

def fillCount (count : Nat) (line : List Char) : List Char :=
  replaceAll countPlaceholder (Decimal.ofNat count) line

/-- A template of lines that are either the place of the body or source without such a place. -/
structure IsTemplate (template : List Char) (count : Nat) : Prop where
  place : bodyPlaceholder ∈ Source.lines template
  fixed : ∀ line ∈ Source.lines template, line ≠ bodyPlaceholder →
    occursIn bodyPlaceholder line = false ∧
      ∃ commands, readSource (String.ofList (fillCount count line)) = .ok commands

def fillLine (count : Nat) (body raw : List Char) : List Char :=
  if dropCarriageReturn raw = bodyPlaceholder then body ++ raw.drop bodyPlaceholder.length
  else fillCount count raw

def lineCommands (count : Nat) (body : List Command) (line : List Char) : List Command :=
  if line = bodyPlaceholder then body
  else (readSource (String.ofList (fillCount count line))).toOption.getD []

def templateCommands (template : List Char) (count : Nat) (body : List Command) : List Command :=
  (Source.lines template).flatMap (lineCommands count body)

theorem countPlaceholder_ne_nil : countPlaceholder ≠ [] := by decide

theorem bodyPlaceholder_ne_nil : bodyPlaceholder ≠ [] := by decide

/-- Either the line is followed by nothing or by a carriage return. -/
theorem eq_append_of_line (raw : List Char) :
    ∃ tail, raw = dropCarriageReturn raw ++ tail ∧ (tail = [] ∨ tail = ['\r']) := by
  rcases dropCarriageReturn_cases raw with hsame | hdropped
  · exact ⟨[], by rw [hsame, List.append_nil], .inl rfl⟩
  · exact ⟨['\r'], hdropped, .inr rfl⟩

theorem fillCount_append {tail : List Char} (htail : tail = [] ∨ tail = ['\r']) (count : Nat)
    (line : List Char) : fillCount count (line ++ tail) = fillCount count line ++ tail := by
  rcases htail with rfl | rfl
  · rw [List.append_nil, List.append_nil]
  · exact replaceAll_append_cons countPlaceholder_ne_nil (by decide) _ line []

/-- Filling in the count makes no new place for the body, since a placeholder has no digits. -/
theorem occursIn_fillCount (count : Nat) {line : List Char}
    (h : occursIn bodyPlaceholder line = false) :
    occursIn bodyPlaceholder (fillCount count line) = false := by
  refine occursIn_replaceAll bodyPlaceholder_ne_nil (Decimal.ofNat_ne_nil count) ?_ h
  intro c hc
  have hdigit := Decimal.isDigit_of_mem_ofNat hc
  intro hmem
  have hforeign : bodyPlaceholder.all (!·.isDigit) = true := by rfl
  simpa [hdigit] using List.all_eq_true.mp hforeign c hmem

/-- The body is put in as it is, whatever it looks like. -/
theorem replaceAll_fillCount {count : Nat} (body : List Char) {raw : List Char}
    (h : dropCarriageReturn raw ≠ bodyPlaceholder →
      occursIn bodyPlaceholder (dropCarriageReturn raw) = false) :
    replaceAll bodyPlaceholder body (fillCount count raw) = fillLine count body raw := by
  obtain ⟨tail, hraw, htail⟩ := eq_append_of_line raw
  have hcut (line : List Char) : replaceAll bodyPlaceholder body (line ++ tail) =
      replaceAll bodyPlaceholder body line ++ tail := by
    rcases htail with rfl | rfl
    · rw [List.append_nil, List.append_nil]
    · exact replaceAll_append_cons bodyPlaceholder_ne_nil (by decide) body line []
  have hcount : fillCount count raw = fillCount count (dropCarriageReturn raw) ++ tail := by
    rw [← fillCount_append htail, ← hraw]
  rw [hcount, hcut, fillLine]
  split
  · next hplace =>
      have hkept : fillCount count bodyPlaceholder = bodyPlaceholder :=
        replaceAll_of_not_occursIn _ (by decide)
      have hdrop : raw.drop bodyPlaceholder.length = tail := by
        rw [hraw, hplace, List.drop_left]
      rw [hplace, hkept, replaceAll_self bodyPlaceholder_ne_nil, hdrop]
  · next hplace =>
      rw [replaceAll_of_not_occursIn _ (occursIn_fillCount count (h hplace)), hcount]

namespace IsTemplate

variable {template : List Char} {times : Repeat}

theorem not_occursIn (h : IsTemplate template times.templateCount) {raw : List Char}
    (hraw : raw ∈ splitOn '\n' template) (hplace : dropCarriageReturn raw ≠ bodyPlaceholder) :
    occursIn bodyPlaceholder (dropCarriageReturn raw) = false :=
  (h.fixed _ (List.mem_map_of_mem hraw) hplace).1

theorem fillTemplate_eq (h : IsTemplate template times.templateCount) (body : List Char) :
    fillTemplate template body times =
      .ok (joinWith ['\n'] ((splitOn '\n' template).map (fillLine times.templateCount body))) := by
  have hoccurs : occursIn bodyPlaceholder template = true := by
    obtain ⟨raw, hraw, hplace⟩ := List.mem_map.mp h.place
    rw [← joinWith_splitOn '\n' template]
    refine occursIn_joinWith bodyPlaceholder_ne_nil (by decide) hraw ?_
    obtain ⟨tail, htail, -⟩ := eq_append_of_line raw
    rw [occursIn_iff, htail, hplace]
    exact (List.prefix_append _ _).isInfix
  have hfilled : replaceAll bodyPlaceholder body
      (replaceAll countPlaceholder (Decimal.ofNat times.templateCount) template) =
        joinWith ['\n'] ((splitOn '\n' template).map (fillLine times.templateCount body)) := by
    conv => lhs; rw [← joinWith_splitOn '\n' template]
    rw [replaceAll_joinWith countPlaceholder_ne_nil (by decide),
      replaceAll_joinWith bodyPlaceholder_ne_nil (by decide), List.map_map]
    refine congrArg _ (List.map_congr_left fun raw hraw => ?_)
    exact replaceAll_fillCount body (h.not_occursIn hraw)
  rw [← hfilled]
  cases times <;> exact if_pos hoccurs

theorem commandsOf?_fillLine (h : IsTemplate template times.templateCount) (body : List Char)
    {raw : List Char} (hraw : raw ∈ splitOn '\n' template) :
    commandsOf? (fillLine times.templateCount body raw) =
      if dropCarriageReturn raw = bodyPlaceholder then commandsOf? body
      else some (lineCommands times.templateCount [] (dropCarriageReturn raw)) := by
  obtain ⟨tail, htext, htail⟩ := eq_append_of_line raw
  have hblank : ∀ c ∈ tail, isBlank c = true := by
    rcases htail with rfl | rfl
    · exact List.forall_mem_nil _
    · exact List.forall_mem_singleton.mpr (by decide)
  rw [fillLine]
  split
  · next hplace =>
      have hdrop : raw.drop bodyPlaceholder.length = tail := by
        rw [htext, hplace, List.drop_left]
      rw [hdrop, commandsOf?_append_of_blank body hblank]
  · next hplace =>
      obtain ⟨-, commands, hread⟩ := h.fixed _ (List.mem_map_of_mem hraw) hplace
      have hline := readSource_eq_ok_iff.mp hread
      rw [String.toList_ofList] at hline
      have hcount : fillCount times.templateCount raw =
          fillCount times.templateCount (dropCarriageReturn raw) ++ tail := by
        rw [← fillCount_append htail, ← htext]
      rw [hcount, commandsOf?_append_of_blank _ hblank, hline, lineCommands, if_neg hplace, hread]
      rfl

/-- A filled template is source if the body is. -/
theorem commandsOf?_joinWith (h : IsTemplate template times.templateCount) (body : List Char) :
    commandsOf? (joinWith ['\n'] ((splitOn '\n' template).map
        (fillLine times.templateCount body))) =
      (commandsOf? body).map (templateCommands template times.templateCount) := by
  have hne : (splitOn '\n' template).map (fillLine times.templateCount body) ≠ [] := by
    simpa using splitOn_ne_nil '\n' template
  rw [Source.commandsOf?_joinWith hne, collect?_map, collect?_congr fun raw hraw =>
    h.commandsOf?_fillLine body hraw]
  cases hbody : commandsOf? body with
  | none =>
      obtain ⟨raw, hraw, hplace⟩ := List.mem_map.mp h.place
      exact collect?_eq_none hraw (if_pos hplace)
  | some commands =>
      have hsome : ∀ raw ∈ splitOn '\n' template,
          (if dropCarriageReturn raw = bodyPlaceholder then some commands
            else some (lineCommands times.templateCount [] (dropCarriageReturn raw))) =
            some (lineCommands times.templateCount commands (dropCarriageReturn raw)) := by
        intro raw _
        unfold lineCommands
        split <;> rfl
      rw [collect?_congr hsome, collect?_some, Option.map_some, templateCommands, Source.lines,
        List.flatMap_map]

end IsTemplate

/-! ### The default template -/

/-- A line of a template that is one command when the count is filled in. -/
structure Fills (count : Nat) (line : List Char) (command : Command) : Prop where
  fixed : line ≠ bodyPlaceholder
  free : occursIn bodyPlaceholder line = false
  filled : commandsOf? (fillCount count line) = some [command]

namespace Fills

variable {count : Nat} {line : List Char} {command : Command}

theorem read (h : Fills count line command) :
    readSource (String.ofList (fillCount count line)) = .ok [command] := by
  rw [readSource_eq_ok_iff, String.toList_ofList]
  exact h.filled

theorem lineCommands_eq (h : Fills count line command) (body : List Command) :
    lineCommands count body line = [command] := by
  rw [lineCommands, if_neg h.fixed, h.read]
  rfl

theorem flatMap_lineCommands {lines : List (List Char × Command)}
    (h : ∀ line ∈ lines, Fills count line.1 line.2) (body : List Command) :
    (lines.map Prod.fst).flatMap (lineCommands count body) = lines.map Prod.snd := by
  induction lines with
  | nil => rfl
  | cons line lines ih =>
      rw [List.map_cons, List.flatMap_cons, (h line List.mem_cons_self).lineCommands_eq,
        ih fun line hmem => h line (List.mem_cons_of_mem _ hmem)]
      rfl

end Fills

/-- A template with one place for the body among lines that are commands. -/
theorem isTemplate_of_lines {template : List Char} {count : Nat}
    {front back : List (List Char × Command)}
    (hlines : Source.lines template =
      front.map Prod.fst ++ bodyPlaceholder :: back.map Prod.fst)
    (hfront : ∀ line ∈ front, Fills count line.1 line.2)
    (hback : ∀ line ∈ back, Fills count line.1 line.2) :
    IsTemplate template count ∧ ∀ body,
      templateCommands template count body = front.map Prod.snd ++ body ++ back.map Prod.snd := by
  refine ⟨⟨by simp [hlines], fun line hline hplace => ?_⟩, fun body => ?_⟩
  · have hfills : ∃ command, Fills count line command := by
      rw [hlines, List.mem_append, List.mem_cons, List.mem_map, List.mem_map] at hline
      rcases hline with ⟨found, hmem, rfl⟩ | rfl | ⟨found, hmem, rfl⟩
      · exact ⟨_, hfront found hmem⟩
      · exact absurd rfl hplace
      · exact ⟨_, hback found hmem⟩
    obtain ⟨command, hfills⟩ := hfills
    exact ⟨hfills.free, _, hfills.read⟩
  · have hbody : lineCommands count body bodyPlaceholder = body := if_pos rfl
    rw [templateCommands, hlines, List.flatMap_append, List.flatMap_cons, hbody,
      Fills.flatMap_lineCommands hfront, Fills.flatMap_lineCommands hback, List.append_assoc]

theorem fillCount_gate (count : Nat) :
    fillCount count "/craft \x7b\x7bcount\x7d\x7d".toList = gateLine count false := by
  have hline : "/craft \x7b\x7bcount\x7d\x7d".toList =
      "/craft".toList ++ ' ' :: countPlaceholder := by
    rfl
  have hgate : gateLine count false = "/craft".toList ++ ' ' :: (Decimal.ofNat count ++ []) :=
    by rfl
  rw [fillCount, hline, replaceAll_append_cons countPlaceholder_ne_nil (by decide),
    replaceAll_self countPlaceholder_ne_nil, replaceAll_of_not_occursIn _ (by decide), hgate,
    List.append_nil]

theorem fills_gate {count : Nat} (h : count < Grammar.countLimit) :
    Fills count "/craft \x7b\x7bcount\x7d\x7d".toList (gateCommand count false) := by
  refine ⟨by decide, by decide, ?_⟩
  rw [fillCount_gate]
  exact commandsOf?_gateLine h false

def defaultOpening (count : Nat) : List (List Char × Command) :=
  [("/craft \x7b\x7bcount\x7d\x7d".toList, gateCommand count false),
    ("/waitaddon \"RecipeNote\" <maxwait.5>".toList, windowCommand (some 5) "RecipeNote"),
    ("/click \"synthesize\"".toList, clickCommand),
    ("/waitaddon \"Synthesis\" <maxwait.5>".toList, windowCommand (some 5) "Synthesis")]

theorem fills_defaultOpening {count : Nat} (h : count < Grammar.countLimit) :
    ∀ line ∈ defaultOpening count, Fills count line.1 line.2 := by
  intro line hline
  simp only [defaultOpening, List.mem_cons, List.not_mem_nil, or_false] at hline
  rcases hline with rfl | rfl | rfl | rfl
  · exact fills_gate h
  · exact ⟨by decide, by decide, commandsOf?_waitModifier (some 5) bare_recipeNote (by rfl)⟩
  · exact ⟨by decide, by decide, by rfl⟩
  · exact ⟨by decide, by decide, commandsOf?_waitModifier (some 5) bare_synthesis (by rfl)⟩

set_option maxRecDepth 4000 in
/-- The default template is the built-in scaffold with a limit of five seconds. -/
theorem isTemplate_default {count : Nat} (h : count < Grammar.countLimit) :
    IsTemplate ({} : CraftLoopConfig).template.toList count ∧ ∀ body,
      templateCommands ({} : CraftLoopConfig).template.toList count body =
        gateCommand count false :: openCommands (some 5) ++ body ++ [loopCommand false] := by
  have hlines : Source.lines ({} : CraftLoopConfig).template.toList =
      (defaultOpening count).map Prod.fst ++
        bodyPlaceholder :: [("/loop".toList, loopCommand false)].map Prod.fst := by rfl
  refine isTemplate_of_lines hlines (fills_defaultOpening h) fun line hline => ?_
  rw [List.mem_singleton.mp hline]
  exact ⟨by decide, by decide, commandsOf?_loopLine false⟩

/-! ### The expansion of a body -/

/-- The meaning of a count other than zero. -/
def repeats (count : Int) : Repeat :=
  if count = -1 then .forever else .times count.toNat

def expandCommands (config : CraftLoopConfig) (times : Repeat) (body : List Command) :
    List Command :=
  if config.useTemplate then templateCommands config.template.toList times.templateCount body
  else surround config body times

theorem ofCount_eq {count : Int} (h : count = -1 ∨ 1 ≤ count) :
    Repeat.ofCount count = .ok (repeats count) := by
  unfold Repeat.ofCount repeats
  split
  · rfl
  · have hpos : 0 < count := by omega
    rw [if_neg (by omega), if_pos hpos]

theorem expand_eq (config : CraftLoopConfig) (body : String) {count : Int}
    (h : count = -1 ∨ 1 ≤ count) :
    expand config body count =
      if config.useTemplate then
        (fillTemplate config.template.toList body.toList (repeats count)).map String.ofList
      else .ok (String.ofList
        (joinWith ['\n'] (scaffold config (dropLineBreaks body.toList) (repeats count)))) := by
  have hactive : repeats count ≠ .skip := by
    unfold repeats
    split <;> exact nofun
  rw [expand, ofCount_eq h]
  cases hrepeats : repeats count with
  | skip => exact absurd hrepeats hactive
  | times | forever => rfl

/-- The commands of an expansion, if its body is source. -/
theorem commandsOf?_expand {config : CraftLoopConfig} {count : Int}
    (hcount : count = -1 ∨ 1 ≤ count) (hsize : count ≤ 2147483647)
    (htemplate : config.useTemplate = true →
      IsTemplate config.template.toList (repeats count).templateCount) (body : String) :
    ∃ text, expand config body count = .ok (String.ofList text) ∧
      (config.useTemplate = true →
        text = joinWith ['\n'] ((splitOn '\n' config.template.toList).map
          (fillLine (repeats count).templateCount body.toList))) ∧
      commandsOf? text =
        (commandsOf? body.toList).map (expandCommands config (repeats count)) := by
  rw [expand_eq config body hcount]
  split
  · next huse =>
      have hfilled := htemplate huse
      refine ⟨_, by rw [hfilled.fillTemplate_eq]; rfl, fun _ => rfl, ?_⟩
      rw [hfilled.commandsOf?_joinWith]
      exact congrArg (Option.map · _) (funext fun _ => (if_pos huse).symm)
  · next huse =>
      refine ⟨_, rfl, fun htrue => absurd htrue huse, ?_⟩
      have hbound : ∀ n, repeats count = .times n → n ≤ Grammar.countLimit := by
        intro n hn
        unfold repeats at hn
        split at hn
        · cases hn
        · cases hn
          have hlimit : Grammar.countLimit = 4294967296 := rfl
          omega
      rw [commandsOf?_scaffold config _ hbound, commandsOf?_dropLineBreaks]
      exact congrArg (Option.map · _) (funext fun _ => (if_neg huse).symm)

/-- A body that is set into the built-in scaffold, or into a template, is source there if it is
source on its own, and the commands of the expansion are those of the scaffold or the template
around its own. A template takes the text of the body as it is. -/
theorem readSource_expand {config : CraftLoopConfig} {count : Int}
    (hcount : count = -1 ∨ 1 ≤ count) (hsize : count ≤ 2147483647)
    (htemplate : config.useTemplate = true →
      IsTemplate config.template.toList (repeats count).templateCount) (body : String) :
    ∃ text, expand config body count = .ok text ∧
      (config.useTemplate = true →
        text = String.ofList (joinWith ['\n'] ((splitOn '\n' config.template.toList).map
          (fillLine (repeats count).templateCount body.toList)))) ∧
      ∀ result, readSource text = .ok result ↔
        ∃ commands, readSource body = .ok commands ∧
          result = expandCommands config (repeats count) commands := by
  obtain ⟨text, hexpand, hfilled, hcommands⟩ := commandsOf?_expand hcount hsize htemplate body
  refine ⟨String.ofList text, hexpand, fun huse => by rw [hfilled huse], fun result => ?_⟩
  rw [readSource_eq_ok_iff, String.toList_ofList, hcommands, Option.map_eq_some_iff]
  simp only [readSource_eq_ok_iff, eq_comm]

def threeLineTemplate : CraftLoopConfig :=
  { useTemplate := true
    template := "/craft \x7b\x7bcount\x7d\x7d\n\x7b\x7bmacro\x7d\x7d\x0d\n/loop <echo>" }

/-- A body with placeholders in it, an open quote, and line breaks at its end. -/
def placeholderBody : String :=
  "/ac \x7b\x7bcount\x7d\x7d\n# \x7b\x7bmacro\x7d\x7d\n/say \x22hi\x0d\n\n\x0d"

theorem isTemplate_threeLine :
    IsTemplate threeLineTemplate.template.toList (repeats 3).templateCount := by
  have hlines : Source.lines threeLineTemplate.template.toList =
      ["/craft \x7b\x7bcount\x7d\x7d".toList, bodyPlaceholder, "/loop <echo>".toList] := by rfl
  refine ⟨by rw [hlines]; decide, fun line hline hplace => ?_⟩
  rw [hlines] at hline
  simp only [List.mem_cons, List.not_mem_nil, or_false] at hline
  rcases hline with rfl | rfl | rfl
  · exact ⟨by decide, _, by rfl⟩
  · exact absurd rfl hplace
  · exact ⟨by decide, _, by rfl⟩

theorem readSource_expand_threeLine :
    ∃ text commands, expand threeLineTemplate placeholderBody 3 = .ok text ∧
      readSource text = .ok commands ∧
      commands.map (·.text) =
        ["/craft 2", "/ac \x7b\x7bcount\x7d\x7d", "/say \x22hi", "/loop <echo>"] := by
  have hcount : (3 : Int) = -1 ∨ (1 : Int) ≤ 3 := .inr (by decide)
  have hsize : (3 : Int) ≤ 2147483647 := by decide
  obtain ⟨text, hexpand, -, hreads⟩ :=
    readSource_expand hcount hsize (fun _ => isTemplate_threeLine) placeholderBody
  obtain ⟨commands, hread, htexts⟩ : ∃ commands, readSource placeholderBody = .ok commands ∧
      (expandCommands threeLineTemplate (repeats 3) commands).map (·.text) =
        ["/craft 2", "/ac \x7b\x7bcount\x7d\x7d", "/say \x22hi", "/loop <echo>"] :=
    ⟨_, by rfl, by rfl⟩
  exact ⟨text, _, hexpand, (hreads _).mpr ⟨commands, hread, rfl⟩, htexts⟩

end CraftLoop

end CraftLang
