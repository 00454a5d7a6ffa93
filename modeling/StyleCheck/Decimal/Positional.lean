import StyleCheck.Decimal.Shortest

/-!
# Decimals written out

A number is written with the digits of its shortest decimal, each at its place: never with an exponent, with as many zeros
as that takes, and with a point only if a fraction follows.
-/

namespace StyleCheck

/-- The decimal written out, without exponent and without a fraction of zeros. -/
def Decimal.positional (d : Decimal) : List Char :=
  let digits := Nat.toDigits 10 d.digits
  let places := (-d.exponent).toNat
  if places = 0 then digits ++ List.replicate d.exponent.toNat '0'
  else if places < digits.length then
    digits.take (digits.length - places) ++ '.' :: digits.drop (digits.length - places)
  else '0' :: '.' :: List.replicate (places - digits.length) '0' ++ digits

/-- The text of a number. A zero keeps its sign; what is no number has the texts `inf` and `NaN`. -/
def numberText (x : Float32) : String :=
  let signed (negative : Bool) (text : List Char) : String :=
    String.ofList (if negative then '-' :: text else text)
  match Binary.ofFloat x with
  | .nan => "NaN"
  | .infinite negative => signed negative ['i', 'n', 'f']
  | .finite negative 0 _ _ => signed negative ['0']
  | .finite negative significand exponent belowHalved =>
    signed negative (Decimal.shortest significand exponent belowHalved).positional

end StyleCheck
