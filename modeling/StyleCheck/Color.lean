import StyleCheck.Text.Ascii
import StyleCheck.Text.Blank
import StyleCheck.Decimal.Positional

/-!
# Colors

A color is written as three or six hexadecimal digits after `#`, or as `rgb` with three and `rgba` with four whole numbers.
It is printed in the first form if it is opaque and in the second, with the alpha as a fraction, if it is not.
-/

namespace StyleCheck

/-- A color with its opacity, one byte each. -/
structure Color where
  red : UInt8
  green : UInt8
  blue : UInt8
  alpha : UInt8
  deriving DecidableEq, Repr

/-- The byte of two hexadecimal digits. -/
def byteOfDigits (high low : Nat) : UInt8 := UInt8.ofNat (16 * high + low)

/-- The opaque color of three hexadecimal digits, each standing for two equal ones, or of six. Blanks around them are
allowed. -/
def Color.ofHex? (text : String) : Option Color :=
  match (trimBlank text.toList).mapM hexDigit? with
  | some [r, g, b] => some ⟨byteOfDigits r r, byteOfDigits g g, byteOfDigits b b, 255⟩
  | some [r, r', g, g', b, b'] => some ⟨byteOfDigits r r', byteOfDigits g g', byteOfDigits b b', 255⟩
  | _ => none

/-- A whole number as a byte: below zero is zero, above 255 is 255. -/
def channelOfInt (n : Int) : UInt8 := UInt8.ofNat (min 255 n.toNat)

/-- The color that a function stands for, given its name and its whole numbers: `rgb` has three of them and `rgba` four. -/
def Color.ofChannels? (name : String) (channels : List Int) : Option Color :=
  match channels.map channelOfInt with
  | [r, g, b] => if lower name = "rgb" then some ⟨r, g, b, 255⟩ else none
  | [r, g, b, a] => if lower name = "rgba" then some ⟨r, g, b, a⟩ else none
  | _ => none

/-- The color in hexadecimal if it is opaque, and else with its alpha as a fraction of 255. -/
def Color.text (c : Color) : String :=
  if c.alpha = 255 then String.ofList ('#' :: hexByte c.red ++ hexByte c.green ++ hexByte c.blue)
  else
    let alpha := numberText (Float32.ofNat c.alpha.toNat / 255)
    "rgba(" ++ c.red.toNat.repr ++ ", " ++ c.green.toNat.repr ++ ", " ++ c.blue.toNat.repr ++ ", " ++ alpha ++ ")"

end StyleCheck
