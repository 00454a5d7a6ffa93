/-!
# Letter case and hexadecimal digits

Names, units and keywords are compared without regard to the case of the letters `A` to `Z`. No other letter has a case
here: the Kelvin sign is not a `k`, and a dotted capital `İ` has no small form.
-/

namespace StyleCheck

/-- The text with each of the letters `A` to `Z` made small. -/
def lower (s : String) : String := String.ofList (s.toList.map Char.toLower)

/-- Equality of texts without regard to the case of the letters `A` to `Z`. -/
def eqIgnoringCase (a b : String) : Bool := lower a == lower b

/-- The value of a hexadecimal digit, in either case. -/
def hexDigit? (c : Char) : Option Nat :=
  if '0' ≤ c ∧ c ≤ '9' then some (c.toNat - '0'.toNat)
  else if 'a' ≤ c ∧ c ≤ 'f' then some (c.toNat - 'a'.toNat + 10)
  else if 'A' ≤ c ∧ c ≤ 'F' then some (c.toNat - 'A'.toNat + 10)
  else none

/-- The two small hexadecimal digits of a byte. -/
def hexByte (b : UInt8) : List Char :=
  [Nat.digitChar (b.toNat / 16), Nat.digitChar (b.toNat % 16)]

theorem toList_lower (s : String) : (lower s).toList = s.toList.map Char.toLower := by
  simp [lower]

/-- Texts equal up to case are those with one lower case form. -/
theorem eqIgnoringCase_iff {a b : String} : eqIgnoringCase a b = true ↔ lower a = lower b := by
  simp [eqIgnoringCase]

theorem eqIgnoringCase_refl (a : String) : eqIgnoringCase a a = true := by
  simp [eqIgnoringCase]

theorem eqIgnoringCase_comm (a b : String) : eqIgnoringCase a b = eqIgnoringCase b a := by
  rw [Bool.eq_iff_iff, eqIgnoringCase_iff, eqIgnoringCase_iff, eq_comm]

end StyleCheck
