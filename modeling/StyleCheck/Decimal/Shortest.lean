/-!
# The shortest decimal of a binary number

A single-precision number is `significand · 2 ^ exponent`, and every real number nearer to it than to its neighbours reads
back as it. The shortest decimal is the one with the fewest digits among those reals; of several with that many digits the
nearest is taken, and of two equally near the greater. All comparisons are made exactly, in natural numbers.
-/

namespace StyleCheck

/-- What a single-precision number is: its sign apart, a number `significand · 2 ^ exponent`, infinite, or no number.
`belowHalved` tells that the gap to the next smaller magnitude is half of the gap to the next greater. -/
inductive Binary where
  | nan
  | infinite (negative : Bool)
  | finite (negative : Bool) (significand : Nat) (exponent : Int) (belowHalved : Bool)
  deriving DecidableEq, Repr

/-- The parts of a single-precision number: one bit of sign, eight of exponent, twenty-three of fraction. The exponent zero
stands for numbers without the leading one. -/
def Binary.ofFloat (x : Float32) : Binary :=
  let bits : Nat := x.toBits.toNat
  let negative := bits / Nat.pow 2 31 == 1
  let biased : Nat := bits / Nat.pow 2 23 % 256
  let fraction := bits % Nat.pow 2 23
  if biased = 255 then
    if fraction = 0 then .infinite negative else .nan
  else if biased = 0 then .finite negative fraction (-149) false
  else .finite negative (Nat.pow 2 23 + fraction) ((biased : Int) - 150) (fraction == 0 && biased > 1)

/-- The decimal `digits · 10 ^ exponent`. -/
structure Decimal where
  digits : Nat
  exponent : Int
  deriving DecidableEq, Repr

/-- The multiple of `10 ^ k` that reads back as `significand · 2 ^ exponent`, if there is one: only the two multiples next to
the number can be in its interval. Everything is counted in common units, so that `unit` is the size of `10 ^ k` and `quarter`
that of a quarter of the last binary place. The ends of the interval belong to it when the significand is even. -/
def multipleNear? (significand : Nat) (exponent : Int) (belowHalved : Bool) (k : Int) : Option Nat :=
  let unit := Nat.pow 10 k.toNat * Nat.pow 2 (2 - exponent).toNat
  let quarter := Nat.pow 2 (exponent - 2).toNat * Nat.pow 10 (-k).toNat
  let value := 4 * significand * quarter
  let low := (4 * significand - if belowHalved then 1 else 2) * quarter
  let high := (4 * significand + 2) * quarter
  let inside (n : Nat) : Bool :=
    if significand % 2 = 0 then low ≤ n * unit && n * unit ≤ high else low < n * unit && n * unit < high
  let below := value / unit
  match inside below, inside (below + 1) with
  | true, true => if 2 * value < (2 * below + 1) * unit then some below else some (below + 1)
  | true, false => some below
  | false, true => some (below + 1)
  | false, false => none

/-- The powers of ten that are tried, the greatest first: no single-precision number reaches `10 ^ 39`, and nine digits always
read back, the last of them at `10 ^ (-54)` or above. -/
def gridExponents : List Int := (List.range 100).map (fun (n : Nat) => 39 - (n : Int))

/-- The shortest decimal that reads back as the positive number `significand · 2 ^ exponent`. -/
def Decimal.shortest (significand : Nat) (exponent : Int) (belowHalved : Bool) : Decimal :=
  (gridExponents.findSome? fun k =>
    (multipleNear? significand exponent belowHalved k).map (Decimal.mk · k)).getD ⟨0, 0⟩

end StyleCheck
