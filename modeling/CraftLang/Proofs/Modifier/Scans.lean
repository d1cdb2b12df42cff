import CraftLang.Proofs.Modifier.Covering

/-!
What each kind of token says. Every kind has its own part of the modifiers, and a scan for one kind
finds the same tokens whichever other tokens were taken from the line before. So what a line says
can be told from one scan of the whole text for each kind, and the order of the scans makes no
difference.
-/

namespace CraftLang

open Modifier

/-! ### The parts of the modifiers -/

namespace Modifiers

variable {m found : Modifiers} {kind other : Kind}

def set (m : Modifiers) (kind : Kind) (found : Modifiers) : Modifiers :=
  match kind with
  | .wait => { m with wait := found.wait, hasWait := found.hasWait }
  | .maxWait => { m with maxWaitMs := found.maxWaitMs }
  | .unconfirmed => { m with unconfirmed := found.unconfirmed }
  | .echo => { m with echo := found.echo }
  | .index => { m with index := found.index }
  | .quality => { m with quality := found.quality }
  | .condition => { m with condition := found.condition }

def only (m : Modifiers) (kind : Kind) : Modifiers :=
  ({} : Modifiers).set kind m

theorem only_neutral (kind : Kind) : ({} : Modifiers).only kind = {} := by
  cases kind <;> rfl

theorem only_set (m found : Modifiers) (kind : Kind) :
    (m.set kind found).only kind = found.only kind := by
  cases kind <;> rfl

theorem only_set_of_ne (m found : Modifiers) (h : other ≠ kind) :
    (m.set kind found).only other = m.only other := by
  cases kind <;> cases other <;> first | rfl | exact absurd rfl h

theorem set_only (m found : Modifiers) (kind : Kind) :
    m.set kind (found.only kind) = m.set kind found := by
  cases kind <;> rfl

theorem foldl_set (m : Modifiers) :
    Kind.all.foldl (fun parts kind => parts.set kind m) {} = m := by
  cases m
  rfl

/-- Modifiers are made up of the parts of all kinds. -/
theorem ext_only {m m' : Modifiers} (h : ∀ kind, m.only kind = m'.only kind) : m = m' := by
  have hset : (fun parts kind => set parts kind m) = fun parts kind => set parts kind m' :=
    funext₂ fun parts kind => by rw [← set_only, h, set_only]
  rw [← foldl_set m, hset, foldl_set]

theorem set_neutral (h : m.only kind = {}) : m.set kind {} = m := by
  refine ext_only fun other => ?_
  by_cases hother : other = kind
  · rw [hother, only_set, only_neutral, h]
  · exact only_set_of_ne m {} hother

end Modifiers

namespace Modifier

open Text Grammar

variable {kind other : Kind} {kinds : List Kind} {cs : List Char} {o : Occurrence}
  {spans : List Occurrence} {m m' found : Modifiers} {line : Line}

/-! ### Single tokens -/

theorem Stands.kind_token {odd : Bool} (h : Stands kind odd cs o) : o.token.kind = kind := by
  obtain ⟨_, text, _, -, htext, -⟩ := h
  exact htext.kind_token

/-- A token asks for nothing but the part of its own kind, whatever was asked for before. -/
theorem apply_eq (m : Modifiers) (token : Token) :
    apply m token = (apply {} token).map (m.set token.kind) := by
  cases token with
  | wait seconds limit =>
      cases hseconds : millisOf seconds with
      | error fault => simp only [apply, hseconds]; rfl
      | ok waitMs =>
          cases limit with
          | none =>
              simp only [apply, hseconds, bind, Except.bind, pure, Except.pure]
              cases WaitPolicy.ofMillis waitMs 0 <;> rfl
          | some limit =>
              cases hlimit : millisOf limit with
              | error fault => simp only [apply, hseconds, bind, Except.bind, hlimit]; rfl
              | ok untilMs =>
                  simp only [apply, hseconds, bind, Except.bind, hlimit]
                  cases WaitPolicy.ofMillis waitMs untilMs <;> rfl
  | maxWait seconds =>
      cases hseconds : millisOf seconds with
      | error fault => simp only [apply, hseconds]; rfl
      | ok ms => simp only [apply, hseconds]; rfl
  | unconfirmed => rfl
  | echo => rfl
  | index digits =>
      simp only [apply]
      split
      · split <;> rfl
      · rfl
  | quality quality => rfl
  | condition gate => rfl

theorem only_of_apply {token : Token} (h : apply {} token = .ok found) :
    found.only token.kind = found := by
  have hset := apply_eq {} token
  rw [h] at hset
  exact (Except.ok.inj hset).symm

/-! ### Scans -/

/-- What the tokens of one kind in a text ask for: at most one of them stands there, and makes
sense. -/
inductive Gives (kind : Kind) (cs : List Char) : Modifiers → Prop where
  | none (h : ∀ o, ¬ Stands kind false cs o) : Gives kind cs {}
  | one {o : Occurrence} {found : Modifiers} (h : Stands kind false cs o)
      (honly : ∀ o', Stands kind false cs o' → o' = o) (happly : apply {} o.token = .ok found) :
      Gives kind cs found

/-- A token of one kind that a text cannot have, and what is wrong with it: it is the second one, or
it is the only one and makes no sense. -/
inductive Refuses (kind : Kind) (cs : List Char) : Occurrence → Fault → Prop where
  | second {first second : Occurrence} (h : Stands kind false cs first)
      (h' : Stands kind false cs second) (hlt : first.position < second.position)
      (hnone : ∀ o, Stands kind false cs o → o = first ∨ second.position ≤ o.position) :
      Refuses kind cs second (.duplicate kind)
  | value {o : Occurrence} {fault : Fault} (h : Stands kind false cs o)
      (honly : ∀ o', Stands kind false cs o' → o' = o) (happly : apply {} o.token = .error fault) :
      Refuses kind cs o fault

theorem Refuses.stands {fault : Fault} (h : Refuses kind cs o fault) : Stands kind false cs o := by
  cases h with
  | second _ h' => exact h'
  | value h => exact h

theorem Gives.only_eq (h : Gives kind cs found) : found.only kind = found := by
  cases h with
  | none => exact Modifiers.only_neutral kind
  | one h _ happly => exact h.kind_token ▸ only_of_apply happly

/-- A text gives just one thing for a kind, if anything. -/
theorem Gives.unique {found' : Modifiers} (h : Gives kind cs found) (h' : Gives kind cs found') :
    found = found' := by
  cases h with
  | none hnone =>
      cases h' with
      | none => rfl
      | one h' => exact absurd h' (hnone _)
  | one h honly happly =>
      cases h' with
      | none hnone => exact absurd h (hnone _)
      | one h' _ happly' =>
          rw [honly _ h', happly] at happly'
          exact Except.ok.inj happly'

/-- A text does not give anything for a kind that it cannot have. -/
theorem Gives.not_refuses {fault : Fault} (h : Gives kind cs found) :
    ¬ Refuses kind cs o fault := by
  intro h'
  cases h with
  | none hnone => exact hnone o h'.stands
  | one _ honly happly =>
      cases h' with
      | second h h' hlt =>
          rw [honly _ h, honly _ h'] at hlt
          exact Nat.lt_irrefl _ hlt
      | value h _ hrefused =>
          rw [honly _ h, happly] at hrefused
          cases hrefused

theorem stands_of_occurrencesFrom_nil (h : occurrencesFrom kind false cs = []) :
    ∀ o, ¬ Stands kind false cs o := by
  intro o ho
  have hmem := mem_occurrencesFrom.mpr ho
  rw [h] at hmem
  cases hmem

theorem stands_of_occurrencesFrom_singleton (h : occurrencesFrom kind false cs = [o]) :
    Stands kind false cs o ∧ ∀ o', Stands kind false cs o' → o' = o := by
  have hmem (o' : Occurrence) : Stands kind false cs o' ↔ o' = o := by
    rw [← mem_occurrencesFrom, h, List.mem_singleton]
  exact ⟨(hmem o).mpr rfl, fun o' => (hmem o').mp⟩

theorem refuses_of_occurrencesFrom {first second : Occurrence} {others : List Occurrence}
    (h : occurrencesFrom kind false cs = first :: second :: others) :
    Refuses kind cs second (.duplicate kind) := by
  have hmem (o : Occurrence) : Stands kind false cs o ↔ o ∈ first :: second :: others := by
    rw [← mem_occurrencesFrom, h]
  have hpairwise := pairwise_occurrencesFrom kind false cs
  rw [h] at hpairwise
  obtain ⟨hfirst, hothers⟩ := List.pairwise_cons.mp hpairwise
  refine .second ((hmem first).mpr (by simp)) ((hmem second).mpr (by simp))
    (hfirst second (by simp)) fun o ho => ?_
  rcases List.mem_cons.mp ((hmem o).mp ho) with rfl | hlater
  · exact .inl rfl
  · rcases List.mem_cons.mp hlater with rfl | hlater
    · exact .inr (Nat.le_refl _)
    · exact .inr (Nat.le_of_lt ((List.pairwise_cons.mp hothers).1 o hlater))

section Step

variable (hspans : ∀ span ∈ spans, ∃ other, other ≠ kind ∧ Stands other false cs span)
include hspans

/-- What is taken of other kinds makes no difference to a scan. -/
theorem occurrences_cover :
    occurrences kind ((Line.ofText cs).cover spans) = occurrencesFrom kind false cs := by
  refine occurrencesFrom_congr fun o => ?_
  rw [stands_shown_cover fun span hmem => (hspans span hmem).imp fun _ => And.right]
  refine and_iff_left_of_imp fun h hmem => ?_
  obtain ⟨other, hne, hstands⟩ := hspans o hmem
  exact hne (hstands.kind_eq h)

/-- A kind is taken from a line as a scan of the whole text says, whatever was taken before. -/
theorem takeKind_cover (hneutral : m.only kind = {}) :
    (∃ found, Gives kind cs found ∧ takeKind (m, (Line.ofText cs).cover spans) kind =
      .ok (m.set kind found, (Line.ofText cs).cover (spans ++ occurrencesFrom kind false cs))) ∨
    ∃ o fault, Refuses kind cs o fault ∧ takeKind (m, (Line.ofText cs).cover spans) kind =
      .error ⟨fault, byteLength (cs.take o.position)⟩ := by
  simp only [takeKind, occurrences_cover hspans, Line.text_cover, Line.text_ofText]
  cases hscan : occurrencesFrom kind false cs with
  | nil =>
      refine .inl ⟨{}, .none (stands_of_occurrencesFrom_nil hscan), ?_⟩
      rw [List.append_nil, Modifiers.set_neutral hneutral]
  | cons first others =>
      cases others with
      | nil =>
          obtain ⟨hstands, honly⟩ := stands_of_occurrencesFrom_singleton hscan
          have happly := apply_eq m first.token
          rw [hstands.kind_token] at happly
          cases hfirst : apply {} first.token with
          | error fault =>
              rw [hfirst] at happly
              exact .inr ⟨first, fault, .value hstands honly hfirst, by simp only [happly]; rfl⟩
          | ok found =>
              rw [hfirst] at happly
              refine .inl ⟨found, .one hstands honly hfirst, ?_⟩
              simp only [happly]
              rw [Line.cover_append, ← Line.mark_eq_cover]
              rfl
      | cons second others =>
          exact .inr ⟨second, .duplicate kind, refuses_of_occurrencesFrom hscan, rfl⟩

end Step

/-! ### Taking several kinds -/

def spansOf (kinds : List Kind) (cs : List Char) : List Occurrence :=
  kinds.flatMap (occurrencesFrom · false cs)

theorem mem_spansOf : o ∈ spansOf kinds cs ↔ ∃ kind ∈ kinds, Stands kind false cs o := by
  simp only [spansOf, List.mem_flatMap, mem_occurrencesFrom]

/-- The kinds that are taken from a line one after the other each give what a scan of the whole text
for them gives; the first that cannot be had ends the taking. -/
theorem foldlM_takeKind_cover (hnodup : kinds.Nodup) (hneutral : ∀ kind ∈ kinds, m.only kind = {})
    (hspans : ∀ span ∈ spans, ∃ other, other ∉ kinds ∧ Stands other false cs span) :
    (∃ m', (∀ kind ∈ kinds, Gives kind cs (m'.only kind)) ∧
      (∀ kind ∉ kinds, m'.only kind = m.only kind) ∧
        kinds.foldlM takeKind (m, (Line.ofText cs).cover spans) =
          .ok (m', (Line.ofText cs).cover (spans ++ spansOf kinds cs))) ∨
    ∃ kind ∈ kinds, ∃ o fault, Refuses kind cs o fault ∧
      kinds.foldlM takeKind (m, (Line.ofText cs).cover spans) =
        .error ⟨fault, byteLength (cs.take o.position)⟩ := by
  induction kinds generalizing m spans with
  | nil =>
      refine .inl ⟨m, nofun, fun _ _ => rfl, ?_⟩
      rw [spansOf, List.flatMap_nil, List.append_nil]
      rfl
  | cons kind kinds ih =>
      obtain ⟨hkind, hnodup⟩ := List.nodup_cons.mp hnodup
      obtain ⟨hfirst, hothers⟩ := List.forall_mem_cons.mp hneutral
      have hspansKind : ∀ span ∈ spans, ∃ other, other ≠ kind ∧ Stands other false cs span := by
        intro span hmem
        obtain ⟨other, hother, hstands⟩ := hspans span hmem
        exact ⟨other, List.ne_of_not_mem_cons hother, hstands⟩
      rw [List.foldlM_cons]
      rcases takeKind_cover hspansKind hfirst with ⟨found, hgives, htake⟩
        | ⟨o, fault, hrefuses, htake⟩
      · rw [htake]
        have hneutral' : ∀ other ∈ kinds, (m.set kind found).only other = {} := by
          intro other hmem
          have hne : other ≠ kind := fun heq => hkind (heq ▸ hmem)
          rw [Modifiers.only_set_of_ne m found hne, hothers other hmem]
        -- What has been taken by now is of kinds that do not come again.
        have hspans' : ∀ span ∈ spans ++ occurrencesFrom kind false cs,
            ∃ other, other ∉ kinds ∧ Stands other false cs span := by
          intro span hmem
          rcases List.mem_append.mp hmem with hmem | hmem
          · obtain ⟨other, hother, hstands⟩ := hspans span hmem
            exact ⟨other, List.not_mem_of_not_mem_cons hother, hstands⟩
          · exact ⟨kind, hkind, mem_occurrencesFrom.mp hmem⟩
        rcases ih hnodup hneutral' hspans' with ⟨m', hgive, hsame, hfold⟩ | ⟨other, hmem, hother⟩
        · refine .inl ⟨m', List.forall_mem_cons.mpr ⟨?_, hgive⟩, fun other hother => ?_, ?_⟩
          · rw [hsame kind hkind, Modifiers.only_set, hgives.only_eq]
            exact hgives
          · rw [List.mem_cons, not_or] at hother
            rw [hsame other hother.2, Modifiers.only_set_of_ne m found hother.1]
          · rw [List.append_assoc] at hfold
            exact hfold
        · exact .inr ⟨other, List.mem_cons_of_mem _ hmem, hother⟩
      · rw [htake]
        exact .inr ⟨kind, List.mem_cons_self, o, fault, hrefuses, rfl⟩

theorem extractKinds_cases (hnodup : kinds.Nodup) (cs : List Char) :
    (∃ m, (∀ kind ∈ kinds, Gives kind cs (m.only kind)) ∧ (∀ kind ∉ kinds, m.only kind = {}) ∧
      extractKinds kinds (Line.ofText cs) =
        .ok (m, (Line.ofText cs).cover (spansOf kinds cs))) ∨
    ∃ kind ∈ kinds, ∃ o fault, Refuses kind cs o fault ∧
      extractKinds kinds (Line.ofText cs) = .error ⟨fault, byteLength (cs.take o.position)⟩ := by
  have hspans : ∀ span ∈ ([] : List Occurrence), ∃ other, other ∉ kinds ∧
      Stands other false cs span := nofun
  have hfold := foldlM_takeKind_cover hnodup (fun kind _ => Modifiers.only_neutral kind) hspans
  rw [Line.cover_nil, List.nil_append] at hfold
  refine hfold.imp_left ?_
  rintro ⟨m, hgive, hsame, hfold⟩
  exact ⟨m, hgive, fun kind hkind => (hsame kind hkind).trans (Modifiers.only_neutral kind), hfold⟩

/-- What is taken from a text is what a scan for each of the kinds gives. -/
theorem extractKinds_eq_ok_iff (hnodup : kinds.Nodup) :
    extractKinds kinds (Line.ofText cs) = .ok (m, line) ↔
      (∀ kind ∈ kinds, Gives kind cs (m.only kind)) ∧ (∀ kind ∉ kinds, m.only kind = {}) ∧
        line = (Line.ofText cs).cover (spansOf kinds cs) := by
  rcases extractKinds_cases hnodup cs with
    ⟨m', hgive, hnot, hok⟩ | ⟨kind, hmem, o, fault, hrefuses, herror⟩
  · rw [hok, Except.ok.injEq, Prod.mk.injEq, eq_comm (b := line)]
    constructor
    · rintro ⟨rfl, hline⟩
      exact ⟨hgive, hnot, hline⟩
    · rintro ⟨hgive', hnot', hline⟩
      refine ⟨Modifiers.ext_only fun kind => ?_, hline⟩
      by_cases hkind : kind ∈ kinds
      · exact (hgive kind hkind).unique (hgive' kind hkind)
      · rw [hnot kind hkind, hnot' kind hkind]
  · rw [herror]
    refine iff_of_false nofun ?_
    rintro ⟨hgive, -⟩
    exact (hgive kind hmem).not_refuses hrefuses

theorem extractKinds_eq_error {e : Error} (hnodup : kinds.Nodup)
    (h : extractKinds kinds (Line.ofText cs) = .error e) :
    ∃ kind ∈ kinds, ∃ o, Refuses kind cs o e.fault ∧ e.offset =
      byteLength (cs.take o.position) := by
  rcases extractKinds_cases hnodup cs with
    ⟨m', -, -, hok⟩ | ⟨kind, hmem, o, fault, hrefuses, herror⟩
  · rw [hok] at h
    cases h
  · rw [herror] at h
    cases h
    exact ⟨kind, hmem, o, hrefuses, rfl⟩

theorem mem_all (kind : Kind) : kind ∈ Kind.all := by
  cases kind <;> decide

theorem nodup_all : Kind.all.Nodup := by
  decide

theorem extract_eq_ok_iff :
    extract cs = .ok (m, line) ↔
      (∀ kind, Gives kind cs (m.only kind)) ∧
        line = (Line.ofText cs).cover (spansOf Kind.all cs) := by
  rw [extract, extractKinds_eq_ok_iff nodup_all]
  simp only [mem_all, not_true_eq_false, true_implies, false_implies, implies_true, true_and]

end Modifier

end CraftLang
