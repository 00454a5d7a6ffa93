import StyleCheck.Text.Ascii

/-!
# Lengths

A length is a number with one of ten units, which are recognized in either case of letters and printed in small ones.
-/

namespace StyleCheck

/-- The units of length. -/
inductive LengthUnit where
  | pixels | ems | rootEms | viewportWidth | viewportHeight | centimeters | millimeters | inches | points | picas
  deriving DecidableEq, Repr

/-- How a unit is written. -/
def LengthUnit.suffix : LengthUnit → String
  | .pixels => "px"
  | .ems => "em"
  | .rootEms => "rem"
  | .viewportWidth => "vw"
  | .viewportHeight => "vh"
  | .centimeters => "cm"
  | .millimeters => "mm"
  | .inches => "in"
  | .points => "pt"
  | .picas => "pc"

/-- All units. -/
def LengthUnit.all : List LengthUnit :=
  [.pixels, .ems, .rootEms, .viewportWidth, .viewportHeight, .centimeters, .millimeters, .inches, .points, .picas]

/-- The unit with the suffix, without regard to case. -/
def LengthUnit.ofSuffix? (suffix : String) : Option LengthUnit :=
  LengthUnit.all.find? (fun u => eqIgnoringCase u.suffix suffix)

/-- A number with a unit of length. -/
structure Length where
  value : Float32
  unit : LengthUnit
  deriving DecidableEq

end StyleCheck
