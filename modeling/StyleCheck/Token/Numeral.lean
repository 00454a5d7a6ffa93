/-!
# Numerals

A numeral is a sign, digits, a fraction and an exponent, of which the digits before the point or those after it may be
missing. A point without digits after it, or an `e` without an exponent, is not part of the numeral. Its value is summed up
digit by digit in double precision, in this order: the digits before the point, then those after it, each weighed by a power of
a tenth, then the sign, then the exponent. A whole numeral also has an exact value.
-/

namespace StyleCheck

/-- A numeral as it is written. -/
structure Numeral where
  negative : Bool
  /-- The digits before the point. -/
  whole : List Nat
  /-- The digits after the point; there is a point only if there are such. -/
  fraction : List Nat
  /-- The sign and digits of the exponent; there is an exponent only if it has digits. -/
  exponent : Option (Bool × List Nat)
  deriving DecidableEq, Repr

/-- The value of a decimal digit. -/
def digitOf (c : Char) : Nat := c.toNat - '0'.toNat

/-- The digits at the start. -/
def readDigits (cs : List Char) : List Nat × List Char :=
  ((cs.takeWhile Char.isDigit).map digitOf, cs.dropWhile Char.isDigit)

/-- A sign, if there is one: whether it is a minus. -/
def readSign : List Char → Bool × List Char
  | '-' :: rest => (true, rest)
  | '+' :: rest => (false, rest)
  | cs => (false, cs)

/-- Whether a digit stands here. -/
def startsDigit : List Char → Bool
  | c :: _ => c.isDigit
  | [] => false

/-- Whether a numeral starts here: a digit, or a point and a digit, after an optional sign. -/
def startsNumeral (cs : List Char) : Bool :=
  match (readSign cs).2 with
  | '.' :: rest => startsDigit rest
  | rest => startsDigit rest

/-- The digits after a point, if a point with digits stands here. -/
def readFraction : List Char → List Nat × List Char
  | '.' :: rest => if startsDigit rest then readDigits rest else ([], '.' :: rest)
  | cs => ([], cs)

/-- The exponent, if an `e` with an exponent after it stands here. -/
def readExponent : List Char → Option (Bool × List Nat) × List Char
  | [] => (none, [])
  | c :: rest =>
    let sign := readSign rest
    if (c = 'e' ∨ c = 'E') ∧ startsDigit sign.2 then
      let digits := readDigits sign.2
      (some (sign.1, digits.1), digits.2)
    else (none, c :: rest)

/-- The numeral that starts here, and what is left. -/
def readNumeral (cs : List Char) : Numeral × List Char :=
  let sign := readSign cs
  let whole := readDigits sign.2
  let fraction := readFraction whole.2
  let exponent := readExponent fraction.2
  (⟨sign.1, whole.1, fraction.1, exponent.1⟩, exponent.2)

/-- The digits as a whole number, in double precision. -/
def sumDigits (digits : List Nat) : Float :=
  digits.foldl (fun sum d => sum * 10 + Float.ofNat d) 0

/-- The digits as a fraction, in double precision: the weight of each is a tenth of the one before. -/
def sumFraction (digits : List Nat) : Float :=
  (digits.foldl (fun (sum, weight) d => (sum + Float.ofNat d * weight, weight * 0.1)) ((0, 0.1) : Float × Float)).1

/-- The value of a numeral in double precision. -/
def Numeral.value (n : Numeral) : Float :=
  let magnitude := sumDigits n.whole + sumFraction n.fraction
  let signed := (if n.negative then -1 else 1) * magnitude
  match n.exponent with
  | none => signed
  | some (negative, digits) => signed * Float.pow 10 ((if negative then -1 else 1) * sumDigits digits)

/-- The least and the greatest whole number of 32 bits. -/
def intBounds : Int × Int := (-2147483648, 2147483647)

/-- The exact value of a whole numeral, kept between the bounds of 32 bits. -/
def Numeral.int? (n : Numeral) : Option Int :=
  if n.fraction.isEmpty && n.exponent.isNone then
    let magnitude : Nat := n.whole.foldl (fun sum d => sum * 10 + d) 0
    let signed : Int := if n.negative then -magnitude else magnitude
    some (max intBounds.1 (min intBounds.2 signed))
  else none

theorem readSign_suffix (cs : List Char) : (readSign cs).2 <:+ cs := by
  unfold readSign
  split
  · exact List.suffix_cons _ _
  · exact List.suffix_cons _ _
  · exact List.suffix_refl _

theorem readDigits_suffix (cs : List Char) : (readDigits cs).2 <:+ cs :=
  List.dropWhile_suffix _

theorem readFraction_suffix (cs : List Char) : (readFraction cs).2 <:+ cs := by
  unfold readFraction
  split
  · split
    · exact (readDigits_suffix _).trans (List.suffix_cons _ _)
    · exact List.suffix_refl _
  · exact List.suffix_refl _

theorem readExponent_suffix (cs : List Char) : (readExponent cs).2 <:+ cs := by
  unfold readExponent
  split
  · exact List.suffix_refl _
  · simp only
    split
    · exact ((readDigits_suffix _).trans (readSign_suffix _)).trans (List.suffix_cons _ _)
    · exact List.suffix_refl _

/-- Where digits stand, the reader takes at least one of them. -/
theorem readDigits_suffix_tail {c : Char} {rest : List Char} (h : c.isDigit = true) :
    (readDigits (c :: rest)).2 <:+ rest := by
  simpa [readDigits, h] using List.dropWhile_suffix (l := rest) Char.isDigit

/-- What is left after the sign, the digits and the fraction of a numeral is less than all. -/
theorem readFraction_suffix_tail {c : Char} {rest : List Char} (h : startsNumeral (c :: rest) = true) :
    (readFraction (readDigits (readSign (c :: rest)).2).2).2 <:+ rest := by
  -- either a sign is taken, or the digits or the fraction take a character
  by_cases hs : (readSign (c :: rest)).2 <:+ rest
  · exact ((readFraction_suffix _).trans (readDigits_suffix _)).trans hs
  · have hr : (readSign (c :: rest)).2 = c :: rest :=
      (List.suffix_cons_iff.1 (readSign_suffix (c :: rest))).resolve_right hs
    rw [startsNumeral, hr] at h
    rw [hr]
    split at h
    · next rest' he =>
      obtain ⟨rfl, rfl⟩ := List.cons.inj he
      have hd : (readDigits ('.' :: rest)).2 = '.' :: rest := by simp [readDigits, Char.isDigit]
      rw [hd, readFraction, if_pos h]
      exact readDigits_suffix _
    · exact (readFraction_suffix _).trans (readDigits_suffix_tail h)

theorem readNumeral_suffix_tail {c : Char} {rest : List Char} (h : startsNumeral (c :: rest) = true) :
    (readNumeral (c :: rest)).2 <:+ rest :=
  (readExponent_suffix _).trans (readFraction_suffix_tail h)

end StyleCheck
