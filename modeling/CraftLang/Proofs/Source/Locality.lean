import CraftLang.Proofs.Source.Reading
import CraftLang.Proofs.Text.Replace

/-!
Lines stand alone. What a line gives depends on nothing that comes before or after it, so a text of
two parts gives what the parts give, up to the numbers of the lines in the second one. Lines
without a command, and carriage returns at the ends of lines, make no difference to the commands.
-/

namespace CraftLang

open Text

def SyntaxError.below (lines : Nat) (e : SyntaxError) : SyntaxError :=
  { e with line := lines + e.line }

/-- `Inserted p as bs` says that `bs` has the members of `as` in their order, and any number of
others between them, in front and behind, each of which satisfies `p`. -/
inductive Inserted {α : Type} (p : α → Prop) : List α → List α → Prop
  | nil : Inserted p [] []
  | kept (a : α) {as bs : List α} (h : Inserted p as bs) : Inserted p (a :: as) (a :: bs)
  | added {a : α} (ha : p a) {as bs : List α} (h : Inserted p as bs) : Inserted p as (a :: bs)

namespace Source

def IsSilent (raw : List Char) : Prop :=
  (∀ c ∈ raw, isBlank c = true) ∨
    ∃ rest, trimStart raw = '#' :: rest ∨ trimStart raw = '/' :: '/' :: rest

/-! ### Line numbers -/

theorem readLine_add (raw : List Char) (lines number : Nat) :
    readLine raw (lines + number) = (readLine raw number).mapError (.below lines) := by
  unfold readLine
  simp only
  split
  · rfl
  · split <;> rfl

theorem readLines_add (lines number : Nat) (raws : List (List Char)) :
    readLines (lines + number) raws = (readLines number raws).mapError (.below lines) := by
  induction raws generalizing number with
  | nil => rfl
  | cons raw rest ih =>
      rw [readLines, readLines, readLine_add, Nat.add_assoc, ih]
      cases readLine raw number with
      | error e => rfl
      | ok command =>
          cases readLines (number + 1) rest with
          | error e => rfl
          | ok commands => rfl

/-! ### One part after the other -/

/-- What two parts of a text give, if the second one starts so many lines below the first. The
first error counts. -/
def joined (lines : Nat) :
    Except SyntaxError (List Command) → Except SyntaxError (List Command) →
      Except SyntaxError (List Command)
  | .ok first, .ok second => .ok (first ++ second)
  | .error e, _ => .error e
  | .ok _, .error e => .error (e.below lines)

theorem readLines_append (number : Nat) (raws raws' : List (List Char)) :
    readLines number (raws ++ raws') =
      joined 0 (readLines number raws) (readLines (raws.length + number) raws') := by
  induction raws generalizing number with
  | nil =>
      rw [List.nil_append, List.length_nil, Nat.zero_add]
      cases readLines number raws' with
      | error e => exact congrArg Except.error (by rw [SyntaxError.below, Nat.zero_add])
      | ok commands => rfl
  | cons raw rest ih =>
      have hlength : (raw :: rest).length + number = rest.length + (number + 1) := by
        rw [List.length_cons]
        omega
      rw [List.cons_append, readLines, readLines, ih, hlength]
      cases readLine raw number with
      | error e => rfl
      | ok command =>
          cases readLines (number + 1) rest with
          | error e => rfl
          | ok commands =>
              cases readLines (rest.length + (number + 1)) raws' with
              | error e => rfl
              | ok commands' => exact congrArg Except.ok (List.append_assoc _ _ _).symm

theorem joined_mapError (lines : Nat) (first second : Except SyntaxError (List Command)) :
    joined 0 first (second.mapError (.below lines)) = joined lines first second := by
  cases first with
  | error e => rfl
  | ok commands =>
      cases second with
      | error e =>
          exact congrArg Except.error (by simp only [SyntaxError.below, Nat.zero_add])
      | ok commands' => rfl

theorem lines_append_cons (xs ys : List Char) :
    lines (xs ++ '\n' :: ys) = lines xs ++ lines ys := by
  rw [lines, splitOn_append_cons, List.map_append]
  rfl

/-- A text has one line more than it has line breaks. -/
theorem length_lines (cs : List Char) : (lines cs).length = cs.count '\n' + 1 := by
  rw [lines, List.length_map]
  induction cs with
  | nil => rfl
  | cons c cs ih =>
      rw [splitOn]
      by_cases hc : c = '\n'
      · rw [if_pos hc, List.length_cons, ih, hc, List.count_cons_self]
      · have hcount : (c :: cs).count '\n' = cs.count '\n' := List.count_cons_of_ne hc
        rw [if_neg hc, hcount, ← ih]
        cases hs : splitOn '\n' cs with
        | nil => exact absurd hs (splitOn_ne_nil '\n' cs)
        | cons piece pieces => rfl

theorem readLines_lines_append (xs ys : List Char) :
    readLines 0 (lines (xs ++ '\n' :: ys)) =
      joined (xs.count '\n' + 1) (readLines 0 (lines xs)) (readLines 0 (lines ys)) := by
  rw [lines_append_cons, readLines_append, readLines_add, joined_mapError, length_lines]

/-! ### Lines that do not matter -/

theorem IsSilent.readLine {raw : List Char} (h : IsSilent raw) (number : Nat) :
    readLine raw number = .ok none := by
  have hskipped : ((trim raw).isEmpty || isComment (trim raw)) = true := by
    rcases h with hblank | ⟨rest, hhash | hslashes⟩
    · rw [trim, trimStart_of_blank hblank]
      rfl
    · rw [trim, hhash, trimEnd_cons_of_not_blank (by decide)]
      rfl
    · rw [trim, hslashes, trimEnd_cons_of_not_blank (by decide),
        trimEnd_cons_of_not_blank (by decide)]
      rfl
  exact if_pos hskipped

theorem IsSilent.commandsOn? {raw : List Char} (h : IsSilent raw) : commandsOn? raw = some [] := by
  rw [Source.commandsOn?, h.readLine]
  rfl

theorem collect?_inserted {raws raws' : List (List Char)} (h : Inserted IsSilent raws raws') :
    collect? commandsOn? raws' = collect? commandsOn? raws := by
  induction h with
  | nil => rfl
  | kept raw h ih => rw [collect?_cons, collect?_cons, ih]
  | added hsilent h ih =>
      rw [collect?_cons, hsilent.commandsOn?, ih]
      simp

/-! ### Carriage returns -/

def withCarriageReturns (cs : List Char) : List Char :=
  replaceAll ['\n'] ['\r', '\n'] cs

theorem withCarriageReturns_of_line {raw : List Char} (h : '\n' ∉ raw) :
    withCarriageReturns raw = raw := by
  refine replaceAll_of_not_occursIn _ ?_
  rw [Bool.eq_false_iff, Ne, occursIn_iff]
  exact fun hwithin => h (hwithin.subset List.mem_cons_self)

theorem withCarriageReturns_append_cons {raw : List Char} (h : '\n' ∉ raw) (cs : List Char) :
    withCarriageReturns (raw ++ '\n' :: cs) = raw ++ ['\r'] ++ '\n' :: withCarriageReturns cs := by
  induction raw with
  | nil => rfl
  | cons c raw ih =>
      rw [List.mem_cons, not_or] at h
      have hstarts : ['\n'].isPrefixOf (c :: (raw ++ '\n' :: cs)) = false := by
        have hc : ('\n' == c) = false := beq_eq_false_iff_ne.mpr h.1
        show ('\n' == c && true) = false
        rw [hc, Bool.false_and]
      rw [List.cons_append, withCarriageReturns, replaceAll, replaceFrom, hstarts,
        if_neg Bool.false_ne_true]
      exact congrArg (c :: ·) (ih h.2)

/-- A line break may have a carriage return in front of it, since that is blank. -/
theorem commandsOf?_withCarriageReturns (cs : List Char) :
    commandsOf? (withCarriageReturns cs) = commandsOf? cs := by
  have hpieces : ∀ pieces : List (List Char), (∀ piece ∈ pieces, '\n' ∉ piece) →
      commandsOf? (withCarriageReturns (joinWith ['\n'] pieces)) =
        commandsOf? (joinWith ['\n'] pieces) := by
    intro pieces hfree
    induction pieces with
    | nil => rfl
    | cons piece pieces ih =>
        have hpiece : '\n' ∉ piece := hfree piece List.mem_cons_self
        cases pieces with
        | nil =>
            show commandsOf? (withCarriageReturns piece) = commandsOf? piece
            rw [withCarriageReturns_of_line hpiece]
        | cons next pieces =>
            have hrest := ih fun piece hmem => hfree piece (List.mem_cons_of_mem _ hmem)
            show commandsOf? (withCarriageReturns
              (piece ++ ['\n'] ++ joinWith ['\n'] (next :: pieces))) =
                commandsOf? (piece ++ ['\n'] ++ joinWith ['\n'] (next :: pieces))
            rw [List.append_assoc, List.singleton_append, withCarriageReturns_append_cons hpiece,
              commandsOf?_append_cons, commandsOf?_append_cons, hrest,
              commandsOf?_concat_of_blank piece (by decide)]
  have hjoin := hpieces (splitOn '\n' cs) fun _ hmem => not_mem_of_mem_splitOn hmem
  rwa [joinWith_splitOn] at hjoin

end Source

theorem toOption_readSource (source : String) :
    (readSource source).toOption = Source.commandsOf? source.toList := by
  cases hread : Source.commandsOf? source.toList with
  | some commands => rw [readSource_eq_ok_iff.mpr hread, Except.toOption]
  | none =>
      cases hsource : readSource source with
      | error e => rfl
      | ok commands =>
          rw [readSource_eq_ok_iff.mp hsource] at hread
          cases hread

/-- Lines stand alone. Two texts, one below the other, give the commands of both; the first error
counts, in the second text with the lines of the first one before it. With a carriage return before
each line break, or with more blank lines and comments anywhere, the commands are the same. -/
theorem lines_stand_alone (a b : String) :
    (readSource (a ++ "\n" ++ b) =
      match readSource a, readSource b with
      | .ok first, .ok second => .ok (first ++ second)
      | .error e, _ => .error e
      | .ok _, .error e => .error { e with line := a.toList.count '\n' + 1 + e.line }) ∧
    (readSource (String.ofList (Source.withCarriageReturns a.toList))).toOption =
      (readSource a).toOption ∧
    ∀ longer : String,
      Inserted Source.IsSilent (Source.lines a.toList) (Source.lines longer.toList) →
        (readSource longer).toOption = (readSource a).toOption := by
  refine ⟨?_, ?_, fun longer hlonger => ?_⟩
  · have hbreak : "\n".toList = ['\n'] := rfl
    rw [readSource, String.toList_append, String.toList_append, hbreak, List.append_assoc,
      List.singleton_append, Source.readLines_lines_append]
    unfold readSource Source.joined
    rfl
  · rw [toOption_readSource, toOption_readSource, String.toList_ofList,
      Source.commandsOf?_withCarriageReturns]
  · rw [readSource, Source.readLines_toOption, Source.collect?_inserted hlonger,
      ← Source.readLines_toOption 0, readSource]

def shortSource : String := "/ac Observe\r\n/loop 3 <echo>"

def commentedSource : String :=
  "\u3000\n/ac Observe\r\n  // again\n\t\r\n/loop 3 <echo>\n#/loop"

theorem lines_stand_alone_commentedSource :
    Inserted Source.IsSilent (Source.lines shortSource.toList)
      (Source.lines commentedSource.toList) ∧
    ∃ commands, commands.map Command.text = ["/ac Observe", "/loop 3 <echo>"] ∧
      readSource commentedSource = .ok commands ∧
      readSource (shortSource ++ "\n" ++ "\n /wait soon") =
        .error ⟨.statement (.invalidArguments "wait" .number), 3, 7⟩ := by
  have hblank (raw : List Char) (h : raw.all isBlank = true) : Source.IsSilent raw :=
    .inl (List.all_eq_true.mp h)
  have hshort : Source.lines shortSource.toList =
      ["/ac Observe".toList, "/loop 3 <echo>".toList] := by rfl
  have hlong : Source.lines commentedSource.toList =
      [['\u3000'], "/ac Observe".toList, "  // again".toList, ['\t'], "/loop 3 <echo>".toList,
        "#/loop".toList] := by rfl
  have hinserted : Inserted Source.IsSilent (Source.lines shortSource.toList)
      (Source.lines commentedSource.toList) := by
    rw [hshort, hlong]
    exact .added (hblank _ (by decide)) (.kept _ (.added (.inr ⟨" again".toList, .inr (by rfl)⟩)
      (.added (hblank _ (by decide))
        (.kept _ (.added (.inr ⟨"/loop".toList, .inl (by rfl)⟩) .nil)))))
  obtain ⟨commands, hread, htexts⟩ : ∃ commands, readSource shortSource = .ok commands ∧
      commands.map Command.text = ["/ac Observe", "/loop 3 <echo>"] :=
    ⟨_, by rfl, by rfl⟩
  have hbad : readSource "\n /wait soon" =
      .error ⟨.statement (.invalidArguments "wait" .number), 1, 7⟩ := by rfl
  obtain ⟨happend, -, hlonger⟩ := lines_stand_alone shortSource "\n /wait soon"
  refine ⟨hinserted, commands, htexts, ?_, ?_⟩
  · have hsame := hlonger commentedSource hinserted
    rw [hread] at hsame
    cases hlong : readSource commentedSource with
    | error e =>
        rw [hlong] at hsame
        cases hsame
    | ok found =>
        rw [hlong] at hsame
        rw [Option.some.inj hsame]
  · rw [happend, hread, hbad]
    rfl

end CraftLang
