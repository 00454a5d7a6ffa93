import StyleCheck.Color
import StyleCheck.Length

/-!
# Values

A value is what stands after the colon of a declaration: one component, or a list of them. Property grammars read both shapes
through `Value.components`. Keywords are compared without regard to case.
-/

namespace StyleCheck

/-- One component of a value, or a list of components. -/
inductive Value where
  | keyword (text : String)
  | list (items : List Value)
  /-- The comma between layers. -/
  | separator
  | number (value : Float32)
  /-- A percentage as a fraction: `50%` is a half. -/
  | percentage (fraction : Float32)
  | length (length : Length)
  /-- A number with a unit that is not one of length, such as `45deg`. -/
  | dimension (value : Float32) (unit : String)
  | color (color : Color)
  | string (text : String)
  | url (text : String)
  /-- A character such as `/` or `!` between other components. -/
  | delimiter (c : Char)
  | function (name : String) (arguments : List Value)

/-- Whether the value is a list. -/
def Value.isList : Value → Bool
  | .list _ => true
  | _ => false

/-- The elements of a list, none for a single component. -/
def Value.items? : Value → Option (List Value)
  | .list items => some items
  | _ => none

/-- The components of a value: the elements of a list, or the single component. -/
def Value.components : Value → List Value
  | .list items => items
  | v => [v]

/-- The value with the given components: one component stays alone, and any other number of them is a list. -/
def Value.ofComponents : List Value → Value
  | [v] => v
  | items => .list items

/-- The text of a keyword. -/
def Value.keyword? : Value → Option String
  | .keyword text => some text
  | _ => none

/-- Whether the value is the keyword with this spelling, without regard to case. -/
def Value.isKeyword (v : Value) (spelling : String) : Bool :=
  v.keyword?.any (eqIgnoringCase · spelling)

/-- Whether the value is a comma. -/
def Value.isSeparator : Value → Bool
  | .separator => true
  | _ => false

/-- Equality of lengths, their numbers compared as numbers. -/
def Length.same (a b : Length) : Bool := a.value == b.value && a.unit == b.unit

mutual

/-- Equality of values. Numbers are compared as numbers: the two zeros are equal, and what is no number differs from itself.
Texts are compared with regard to case. -/
def Value.same : Value → Value → Bool
  | .keyword a, .keyword b => a == b
  | .list a, .list b => Value.sameAll a b
  | .separator, .separator => true
  | .number a, .number b => a == b
  | .percentage a, .percentage b => a == b
  | .length a, .length b => a.same b
  | .dimension a u, .dimension b w => a == b && u == w
  | .color a, .color b => a == b
  | .string a, .string b => a == b
  | .url a, .url b => a == b
  | .delimiter a, .delimiter b => a == b
  | .function f a, .function g b => f == g && Value.sameAll a b
  | _, _ => false

/-- Equality of lists of values, element by element. -/
def Value.sameAll : List Value → List Value → Bool
  | [], [] => true
  | a :: as, b :: bs => Value.same a b && Value.sameAll as bs
  | _, _ => false

end

instance : BEq Value := ⟨Value.same⟩

end StyleCheck
