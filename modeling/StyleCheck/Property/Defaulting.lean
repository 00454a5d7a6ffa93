import StyleCheck.Property.Basic

/-!
# Keywords that every property takes

Besides its own values a property takes three keywords, each as the whole of a value. `initial` puts it back at its initial
value; `inherit` and `unset` leave what it holds alone, and say that this is not its value.
-/

namespace StyleCheck

/-- The keywords that every property takes. -/
inductive WideKeyword where
  | initial | inherit | unset
  deriving DecidableEq, Repr

/-- The spellings of the keywords that every property takes. -/
def WideKeyword.vocabulary : Vocabulary WideKeyword where
  entries := [("initial", .initial), ("inherit", .inherit), ("unset", .unset)]
  distinct := by decide

/-- The keyword that is the whole of a value. -/
def WideKeyword.ofValue? (v : Value) : Option WideKeyword :=
  match v.components with
  | [single] => WideKeyword.vocabulary.project single
  | _ => none

/-- How a property was given its value. -/
inductive Specified where
  /-- By a value of its own, which it holds. -/
  | value
  /-- By `initial`; it holds its initial value. -/
  | initial
  /-- By `inherit`; what it holds is not its value. -/
  | inherit
  /-- By `unset`; what it holds is not its value. -/
  | unset
  deriving DecidableEq, Repr

/-- The meaning of `unset`: the value is inherited if the property is, and else initial. -/
def Specified.resolve (s : Specified) (inherited : Bool) : Specified :=
  match s with
  | .unset => if inherited then .inherit else .initial
  | s => s

/-- Declares a value for a property: how it was given, none if it was refused, and the property then. -/
def Property.declare (p : Property) (v : Value) : Logged (Option Specified × Property) :=
  match WideKeyword.ofValue? v with
  | some .initial => pure (some .initial, p.reset)
  | some .inherit => pure (some .inherit, p)
  | some .unset => pure (some .unset, p)
  | none => do
    let (accepted, q) ← p.validate v
    return (if accepted then some .value else none, q)

end StyleCheck
