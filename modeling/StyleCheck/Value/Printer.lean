import StyleCheck.Value.Basic
import StyleCheck.Text.Quoted

/-!
# The text of a value

Components are separated by a space, except that a comma follows the component before it at once.
-/

namespace StyleCheck

mutual

/-- The text of a value. -/
def Value.text : Value → String
  | .keyword text => text
  | .list items => Value.textAll true items
  | .separator => ","
  | .number value => numberText value
  | .percentage fraction => numberText (fraction * 100) ++ "%"
  | .length l => numberText l.value ++ l.unit.suffix
  | .dimension value unit => numberText value ++ unit
  | .color c => c.text
  | .string text => quote text
  | .url text => "url(" ++ text ++ ")"
  | .delimiter c => String.singleton c
  | .function name arguments => name ++ "(" ++ Value.textAll true arguments ++ ")"

/-- The text of components in a row; `first` as long as nothing but commas was written. -/
def Value.textAll (first : Bool) : List Value → String
  | [] => ""
  | .separator :: rest => "," ++ Value.textAll first rest
  | v :: rest => (if first then "" else " ") ++ v.text ++ Value.textAll false rest

end

end StyleCheck
