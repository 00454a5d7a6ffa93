import StyleCheck.Text.Ascii

/-!
# Letter case

Making letters small twice is the same as doing it once, so a text and its small form are equal without regard to case. What
does not tell the letters `A` to `Z` from their small forms tells no character from its small form (`apply_toLower`).
-/

namespace StyleCheck

/-- The letters that have a small form are those between the numbers of `A` and `Z`. -/
theorem isUpper_iff (c : Char) : c.isUpper = true ↔ 65 ≤ c.toNat ∧ c.toNat ≤ 90 := decide_eq_true_iff

/-- The letters `A` to `Z` move up by the distance between the two cases, and every other character stays. -/
theorem toNat_toLower (c : Char) :
    c.toLower.toNat = if 65 ≤ c.toNat ∧ c.toNat ≤ 90 then c.toNat + 32 else c.toNat := by
  have h (d : Char) : d.toNat = d.val.toNat := rfl
  have hA : 'A'.val.toNat = 65 := rfl
  have hZ : 'Z'.val.toNat = 90 := rfl
  have hd : ('a'.val - 'A'.val).toNat = 32 := rfl
  unfold Char.toLower
  simp only [ge_iff_le, UInt32.le_iff_toNat_le, hA, hZ, h]
  split
  · rw [UInt32.toNat_add, hd]
    omega
  · rfl

/-- The small form of a character has no other. -/
theorem toLower_toLower (c : Char) : c.toLower.toLower = c.toLower := by
  refine Char.toNat_inj.1 ?_
  rw [toNat_toLower c.toLower, if_neg]
  have hc := toNat_toLower c
  split at hc <;> omega

/-- A text in small letters stays as it is. -/
@[simp]
theorem lower_lower (s : String) : lower (lower s) = lower s := by
  unfold lower
  rw [String.toList_ofList, List.map_map]
  refine congrArg String.ofList (List.map_congr_left fun c _ => ?_)
  exact toLower_toLower c

/-- Whether the text has none of the letters `A` to `Z`. -/
def isSmall (s : String) : Bool := s.toList.all (!·.isUpper)

/-- A small form is none of the letters `A` to `Z`. -/
theorem isUpper_toLower (c : Char) : c.toLower.isUpper = false := by
  rw [← Bool.not_eq_true, isUpper_iff]
  have hc := toNat_toLower c
  split at hc <;> omega

/-- Making a text small leaves none of the letters `A` to `Z` in it. -/
@[simp]
theorem isSmall_lower (s : String) : isSmall (lower s) = true := by
  rw [isSmall, toList_lower, List.all_map, List.all_eq_true]
  intro c _
  exact congrArg not (isUpper_toLower c)

/-- The letters that have a small form. -/
def capitals : List Char := (List.range 26).map fun n => Char.ofNat (65 + n)

/-- A character that has another small form is one of 26. -/
theorem toLower_eq_self_or_mem_capitals (c : Char) : c.toLower = c ∨ c ∈ capitals := by
  by_cases hc : 65 ≤ c.toNat ∧ c.toNat ≤ 90
  · refine .inr (List.mem_map.2 ⟨c.toNat - 65, List.mem_range.2 (by omega), ?_⟩)
    rw [Nat.add_sub_cancel' hc.1, Char.ofNat_toNat]
  · refine .inl (Char.toNat_inj.1 ?_)
    rw [toNat_toLower, if_neg hc]

/-- What can be checked of the letters `A` to `Z` holds of every character: `p` has nothing to do with case. -/
theorem apply_toLower {α : Type} [DecidableEq α] (p : Char → α)
    (h : capitals.all (fun c => decide (p c.toLower = p c)) = true) (c : Char) : p c.toLower = p c := by
  rcases toLower_eq_self_or_mem_capitals c with hc | hc
  · rw [hc]
  · exact of_decide_eq_true (List.all_eq_true.1 h c hc)

/-- A character that is no letter is not the small form of another one. -/
theorem toLower_eq_iff {k : Char} (hk : k.isAlpha = false) (c : Char) : c.toLower = k ↔ c = k := by
  have halpha : c.toLower.isAlpha = c.isAlpha := apply_toLower Char.isAlpha (by decide) c
  rcases toLower_eq_self_or_mem_capitals c with hc | hc
  · rw [hc]
  · have hletter : c.isAlpha = true := List.all_eq_true.1 (by decide : capitals.all Char.isAlpha = true) c hc
    constructor
    · rintro rfl
      rw [halpha, hletter] at hk
      cases hk
    · rintro rfl
      rw [hletter] at hk
      cases hk

/-- A text is equal to its small form without regard to case. -/
theorem eqIgnoringCase_lower (s : String) : eqIgnoringCase (lower s) s = true := by
  rw [eqIgnoringCase_iff, lower_lower]

/-- Equality without regard to case goes from text to text. -/
theorem eqIgnoringCase_trans {a b c : String} (h : eqIgnoringCase a b = true) (h' : eqIgnoringCase b c = true) :
    eqIgnoringCase a c = true :=
  eqIgnoringCase_iff.2 ((eqIgnoringCase_iff.1 h).trans (eqIgnoringCase_iff.1 h'))

end StyleCheck
