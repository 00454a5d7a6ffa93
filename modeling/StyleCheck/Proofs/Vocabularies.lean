import Mathlib.Data.List.Pairwise
import StyleCheck.Keyword.Vocabulary
import StyleCheck.Proofs.LetterCase

/-!
# Vocabularies as maps

A vocabulary is refused exactly if two of its entries are spelled the same without regard to case, and the first entry that is
spelled the same as a later one is named. In a vocabulary that is not refused a keyword has the meaning of the one entry it spells,
so that the order of the entries matters to no meaning, and a meaning that has a spelling is that of its spelling in any case.
Main statement: `ofEntries_unordered_map`.
-/

namespace StyleCheck

variable {α : Type}

/-- The entries at two places are spelled the same without regard to case. -/
def SameSpelling (entries : List (String × α)) (i j : Nat) : Prop :=
  ∃ a b, entries[i]? = some a ∧ entries[j]? = some b ∧ eqIgnoringCase a.1 b.1 = true

/-- The entry at this place is spelled the same as a later one. -/
def SpelledAgain (entries : List (String × α)) (i : Nat) : Prop := ∃ j, i < j ∧ SameSpelling entries i j

/-- The text spells an entry with this meaning, without regard to case. -/
def Vocabulary.Means (t : Vocabulary α) (text : String) (a : α) : Prop :=
  ∃ spelling, (spelling, a) ∈ t.entries ∧ eqIgnoringCase spelling text = true

/-! ## Refused entries -/

theorem SameSpelling.symm {entries : List (String × α)} {i j : Nat} (h : SameSpelling entries i j) : SameSpelling entries j i := by
  obtain ⟨a, b, ha, hb, hab⟩ := h
  exact ⟨b, a, hb, ha, by rwa [eqIgnoringCase_comm]⟩

/-- The first entry is spelled again exactly if a later one is spelled alike. -/
theorem spelledAgain_cons_zero {e : String × α} {rest : List (String × α)} :
    SpelledAgain (e :: rest) 0 ↔ rest.any (fun x => eqIgnoringCase e.1 x.1) = true := by
  rw [List.any_eq_true]
  constructor
  · rintro ⟨j, hj, a, b, ha, hb, hab⟩
    obtain ⟨j, rfl⟩ := Nat.exists_eq_succ_of_ne_zero (Nat.ne_of_gt hj)
    obtain rfl := Option.some.inj ha
    exact ⟨b, List.mem_of_getElem? hb, hab⟩
  · rintro ⟨x, hx, hex⟩
    obtain ⟨j, hj⟩ := List.mem_iff_getElem?.1 hx
    exact ⟨j + 1, Nat.succ_pos j, e, x, rfl, hj, hex⟩

/-- Every other entry is spelled again exactly if it is so in the rest. -/
theorem spelledAgain_cons_succ {e : String × α} {rest : List (String × α)} {i : Nat} :
    SpelledAgain (e :: rest) (i + 1) ↔ SpelledAgain rest i := by
  constructor
  · rintro ⟨j, hj, hsame⟩
    obtain ⟨j, rfl⟩ := Nat.exists_eq_succ_of_ne_zero (Nat.ne_of_gt (Nat.zero_lt_of_lt hj))
    exact ⟨j, Nat.lt_of_succ_lt_succ hj, hsame⟩
  · rintro ⟨j, hj, hsame⟩
    exact ⟨j + 1, Nat.succ_lt_succ hj, hsame⟩

/-- The spelling that stands again is that of the first entry which is spelled the same as a later one. -/
theorem exists_of_firstDuplicate?_eq_some {entries : List (String × α)} {spelling : String}
    (h : firstDuplicate? entries = some spelling) :
    ∃ i a, entries[i]? = some (spelling, a) ∧ SpelledAgain entries i ∧ ∀ k < i, ¬SpelledAgain entries k := by
  induction entries with
  | nil => cases h
  | cons e rest ih =>
    rw [firstDuplicate?] at h
    split at h
    · next hany =>
      obtain rfl := Option.some.inj h
      exact ⟨0, e.2, rfl, spelledAgain_cons_zero.2 hany, fun k hk => absurd hk (Nat.not_lt_zero k)⟩
    · next hany =>
      obtain ⟨i, a, hi, hagain, hfirst⟩ := ih h
      refine ⟨i + 1, a, hi, spelledAgain_cons_succ.2 hagain, fun k hk => ?_⟩
      cases k with
      | zero => rwa [spelledAgain_cons_zero]
      | succ k =>
        rw [spelledAgain_cons_succ]
        exact hfirst k (Nat.lt_of_succ_lt_succ hk)

/-- There is no duplicate exactly if all spellings differ. -/
theorem firstDuplicate?_eq_none_iff {entries : List (String × α)} :
    firstDuplicate? entries = none ↔ entries.Pairwise (fun a b => eqIgnoringCase a.1 b.1 = false) := by
  refine ⟨pairwise_of_firstDuplicate?, fun h => ?_⟩
  induction h with
  | nil => rfl
  | @cons e rest hrest _ ih =>
    rw [firstDuplicate?, if_neg, ih]
    rw [List.any_eq_true]
    rintro ⟨x, hx, hex⟩
    rw [hrest x hx] at hex
    cases hex

namespace Vocabulary

/-- A table is refused exactly with its first duplicate. -/
theorem ofEntries_eq_error_iff {entries : List (String × α)} {d : DuplicateKeyword} :
    ofEntries entries = .error d ↔ firstDuplicate? entries = some d.spelling := by
  unfold ofEntries
  split
  · next spelling h =>
    rw [h, Option.some.injEq, Except.error.injEq]
    exact ⟨fun hd => hd ▸ rfl, fun hd => hd ▸ rfl⟩
  · next h => simp [h]

/-- Entries that are not refused are the entries of the vocabulary. -/
theorem ofEntries_eq_ok_iff {entries : List (String × α)} {t : Vocabulary α} : ofEntries entries = .ok t ↔ t.entries = entries := by
  unfold ofEntries
  split
  · next spelling h =>
    refine ⟨fun ht => (by cases ht), fun ht => ?_⟩
    rw [← ht, firstDuplicate?_eq_none_iff.2 t.distinct] at h
    cases h
  · next h =>
    rw [Except.ok.injEq]
    exact ⟨fun ht => ht ▸ rfl, fun ht => by cases t; cases ht; rfl⟩

/-- Entries are refused exactly if two of them are spelled the same. -/
theorem exists_ofEntries_eq_error_iff {entries : List (String × α)} :
    (∃ d, ofEntries entries = .error d) ↔ ∃ i j, i ≠ j ∧ SameSpelling entries i j := by
  constructor
  · rintro ⟨d, hd⟩
    obtain ⟨i, -, -, ⟨j, hij, hsame⟩, -⟩ := exists_of_firstDuplicate?_eq_some (ofEntries_eq_error_iff.1 hd)
    exact ⟨i, j, Nat.ne_of_lt hij, hsame⟩
  · rintro ⟨i, j, hij, hsame⟩
    cases hd : firstDuplicate? entries with
    | some spelling => exact ⟨⟨spelling⟩, ofEntries_eq_error_iff.2 hd⟩
    | none =>
      have hpairwise := List.pairwise_iff_getElem.1 (firstDuplicate?_eq_none_iff.1 hd)
      have hdiffer : ∀ i j, i < j → ¬SameSpelling entries i j := by
        rintro i j hlt ⟨a, b, ha, hb, hab⟩
        obtain ⟨hi, rfl⟩ := List.getElem?_eq_some_iff.1 ha
        obtain ⟨hj, rfl⟩ := List.getElem?_eq_some_iff.1 hb
        rw [hpairwise i j hi hj hlt] at hab
        cases hab
      rcases Nat.lt_or_gt_of_ne hij with hlt | hlt
      · exact absurd hsame (hdiffer i j hlt)
      · exact absurd hsame.symm (hdiffer j i hlt)

/-! ## Meanings -/

theorem eqIgnoringCase_eq_false_symm {a b : String} (h : eqIgnoringCase a b = false) : eqIgnoringCase b a = false := by
  rwa [eqIgnoringCase_comm]

/-- No two entries are spelled the same. -/
theorem eq_of_mem_entries {t : Vocabulary α} {a b : String × α} (ha : a ∈ t.entries) (hb : b ∈ t.entries)
    (h : eqIgnoringCase a.1 b.1 = true) : a = b := by
  have hsymm : Std.Symm fun a b : String × α => eqIgnoringCase a.1 b.1 = false := ⟨fun _ _ => eqIgnoringCase_eq_false_symm⟩
  refine Classical.byContradiction fun hne => ?_
  rw [t.distinct.forall ha hb hne] at h
  cases h

/-- A keyword has the meaning of the entry that it spells. -/
theorem lookup_eq_some_iff {t : Vocabulary α} {text : String} {a : α} :
    t.lookup text = some a ↔ t.Means text a := by
  constructor
  · intro h
    obtain ⟨e, he, rfl⟩ := Option.map_eq_some_iff.1 h
    exact ⟨e.1, List.mem_of_find?_eq_some he, by simpa using List.find?_some he⟩
  · rintro ⟨spelling, hmem, hs⟩
    have hfound : (t.entries.find? fun e => eqIgnoringCase e.1 text).isSome = true := List.find?_isSome.2 ⟨_, hmem, hs⟩
    obtain ⟨e, he⟩ := Option.isSome_iff_exists.1 hfound
    -- what is found first is the entry itself, since both are spelled like the keyword
    have hspelled : eqIgnoringCase e.1 text = true := by simpa using List.find?_some he
    have hsame : eqIgnoringCase e.1 spelling = true := eqIgnoringCase_trans hspelled (by rwa [eqIgnoringCase_comm])
    obtain rfl := eq_of_mem_entries (List.mem_of_find?_eq_some he) hmem hsame
    rw [lookup, he]
    rfl

/-- The order of the entries decides no meaning. -/
theorem lookup_eq_of_perm {t u : Vocabulary α} (h : u.entries.Perm t.entries) (text : String) : u.lookup text = t.lookup text := by
  refine Option.ext fun a => ?_
  rw [lookup_eq_some_iff, lookup_eq_some_iff]
  exact exists_congr fun _ => and_congr_left fun _ => h.mem_iff

/-- The order of the entries does not change what a value means. -/
theorem project_eq_of_perm {t u : Vocabulary α} (h : u.entries.Perm t.entries) (v : Value) : u.project v = t.project v :=
  congrArg v.keyword?.bind (funext (lookup_eq_of_perm h))

/-- Entries in another order are refused only if they are refused in this one. -/
theorem exists_ofEntries_of_perm {entries : List (String × α)} {t : Vocabulary α} (h : entries.Perm t.entries) :
    ∃ u, ofEntries entries = .ok u ∧ u.entries.Perm t.entries := by
  exact ⟨⟨entries, (h.pairwise_iff eqIgnoringCase_eq_false_symm).2 t.distinct⟩, ofEntries_eq_ok_iff.2 rfl, h⟩

/-- The spelling of a meaning has a meaning that is equal to it, in any case. -/
theorem exists_lookup_of_spelling? [BEq α] {t : Vocabulary α} {a : α} {s text : String} (h : t.spelling? a = some s)
    (htext : eqIgnoringCase text s = true) : ∃ b, t.lookup text = some b ∧ (b == a) = true := by
  obtain ⟨e, he, rfl⟩ := Option.map_eq_some_iff.1 h
  have hequal : (e.2 == a) = true := by simpa using List.find?_some he
  refine ⟨e.2, lookup_eq_some_iff.2 ⟨e.1, List.mem_of_find?_eq_some he, ?_⟩, hequal⟩
  rwa [eqIgnoringCase_comm]

/-- Entries are refused exactly if two of them, at different places, are spelled the same without regard to case; the first that is
spelled the same as a later one is then named. Otherwise a keyword has a meaning exactly if an entry with that meaning spells it,
the same entries in any order are a vocabulary with the same meanings, and the spelling of a meaning has an equal meaning in any
case: the same one, if only the same are equal. -/
theorem ofEntries_unordered_map (entries : List (String × α)) :
    ((∃ d, ofEntries entries = .error d) ↔ ∃ i j, i ≠ j ∧ SameSpelling entries i j) ∧
      (∀ d, ofEntries entries = .error d →
        ∃ i a, entries[i]? = some (d.spelling, a) ∧ SpelledAgain entries i ∧ ∀ k < i, ¬SpelledAgain entries k) ∧
      ∀ t, ofEntries entries = .ok t →
        (∀ text a, t.lookup text = some a ↔ ∃ spelling, (spelling, a) ∈ entries ∧ eqIgnoringCase spelling text = true) ∧
        (∀ entries', entries'.Perm entries → ∃ u, ofEntries entries' = .ok u ∧
          (∀ text, u.lookup text = t.lookup text) ∧ ∀ v, u.project v = t.project v) ∧
        ∀ [BEq α] (a : α) (s text : String), t.spelling? a = some s → eqIgnoringCase text s = true →
          (∃ b, t.lookup text = some b ∧ (b == a) = true) ∧ (LawfulBEq α → t.lookup text = some a) := by
  refine ⟨exists_ofEntries_eq_error_iff, fun d hd => exists_of_firstDuplicate?_eq_some (ofEntries_eq_error_iff.1 hd), ?_⟩
  intro t ht
  obtain rfl := ofEntries_eq_ok_iff.1 ht
  refine ⟨fun text a => lookup_eq_some_iff, fun entries' hperm => ?_, fun a s text hs htext => ?_⟩
  · obtain ⟨u, hu, hperm⟩ := exists_ofEntries_of_perm hperm
    exact ⟨u, hu, lookup_eq_of_perm hperm, project_eq_of_perm hperm⟩
  · obtain ⟨b, hb, hequal⟩ := exists_lookup_of_spelling? hs htext
    refine ⟨⟨b, hb, hequal⟩, fun hlawful => ?_⟩
    rw [hb, eq_of_beq hequal]

/-- Two spellings share a meaning, one is empty, and a Kelvin sign is no `k`; where two spellings stand twice, the one that stands
first is named, although the other is the first to stand again. With an equality that forgets the sign, the spelling of a meaning
is that of an equal one. -/
theorem ofEntries_unordered_map_shared :
    let entries : List (String × Int) := [("Auto", 1), ("k", 2), ("AUTO-x", 1), ("", 3), ("\u212a", 4)]
    let unsigned (a b : Int) : Bool := a.natAbs == b.natAbs
    (∃ t, ofEntries entries = .ok t ∧ t.spelling? 1 = some "Auto" ∧ t.lookup "aUTO" = some 1 ∧ t.lookup "\u212a" = some 4 ∧
      (@spelling? Int ⟨unsigned⟩ t (-2) = some "k" ∧ ∃ b, t.lookup "K" = some b ∧ unsigned b (-2) = true) ∧
      ∃ u, ofEntries entries.reverse = .ok u ∧ u.lookup "K" = some 2) ∧
      ∃ d, ofEntries [("b", 0), ("a", 1), ("A", 2), ("B", 3)] = .error d ∧ d.spelling = "b" := by
  intro entries unsigned
  have ht : ofEntries entries = .ok ⟨entries, by decide⟩ := ofEntries_eq_ok_iff.2 rfl
  obtain ⟨hlookup, hperm, hspelling⟩ := (ofEntries_unordered_map entries).2.2 _ ht
  obtain ⟨u, hu, hsame, -⟩ := hperm entries.reverse (List.reverse_perm entries)
  refine ⟨⟨_, ht, by decide, (hspelling 1 "Auto" "aUTO" (by decide) (by decide)).2 inferInstance, ?_, ?_, u, hu, ?_⟩, ?_⟩
  · exact (hlookup _ _).2 ⟨"\u212a", by decide, by decide⟩
  · exact ⟨by decide, (@hspelling ⟨unsigned⟩ (-2) "k" "K" (by decide) (by decide)).1⟩
  · rw [hsame]
    exact (hlookup _ _).2 ⟨"k", by decide, by decide⟩
  · obtain ⟨d, hd⟩ := (ofEntries_unordered_map [("b", 0), ("a", 1), ("A", 2), ("B", 3)]).1.2
      ⟨1, 2, by decide, ("a", 1), ("A", 2), rfl, rfl, by decide⟩
    have hb : firstDuplicate? [("b", 0), ("a", 1), ("A", 2), ("B", 3)] = some "b" := by decide
    exact ⟨d, hd, Option.some.inj ((ofEntries_eq_error_iff.1 hd).symm.trans hb)⟩

end Vocabulary

end StyleCheck
