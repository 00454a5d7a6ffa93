import StyleCheck.Declaration
import StyleCheck.Keyword.Layers

/-!
# Events

What happens to declarations on the way is recorded, in order. A recorded result carries the events that led to it.
-/

namespace StyleCheck

/-- How much an event matters. -/
inductive Level where
  | trace | debug
  deriving DecidableEq, Repr

/-- The name of a level. -/
def Level.name : Level → String
  | .trace => "TRACE"
  | .debug => "DEBUG"

/-- What can happen to a declaration or to a property. -/
inductive Event where
  /-- A piece of a declaration list was skipped. -/
  | skipped (piece : Skipped)
  /-- A property accepted a value. -/
  | committed (property : String) (value : Value)
  /-- A property refused a value. -/
  | rejected (property : String) (value : Value) (reason : Mismatch)
  /-- A normal declaration met an important one of the same property. -/
  | outranked (property : String)
  /-- A declaration of a property that nobody knows. -/
  | unknownProperty (name : String)
  /-- A property was made known. -/
  | registered (name : String)

/-- How a reason to skip is worded. -/
def SkipReason.text : SkipReason → String
  | .value .unexpectedToken => "Custom(UnexpectedToken)"
  | .value .invalidColor => "Custom(InvalidColor)"
  | .value .emptyValue => "Custom(EmptyValue)"
  | .endOfInput => "Basic(EndOfInput)"
  | .unexpectedToken => "Basic(UnexpectedToken)"
  | .atRuleBody => "Basic(AtRuleBodyInvalid)"

/-- How much an event matters: what goes as wanted is traced, what is dropped is for debugging. -/
def Event.level : Event → Level
  | .committed _ _ | .registered _ => .trace
  | _ => .debug

/-- How an event is worded. -/
def Event.message : Event → String
  | .skipped piece => "css_syntax: skipping declaration `" ++ piece.source ++ "`: " ++ piece.reason.text
  | .committed property value => property ++ ": committed `" ++ value.text ++ "`"
  | .rejected property value reason =>
    property ++ ": rejected `" ++ value.text ++ "`: " ++ reason.message
  | .outranked property => property ++ ": normal declaration does not override !important"
  | .unknownProperty name => "ignoring declaration of unknown property `" ++ name ++ "`"
  | .registered name => "registered property `" ++ name ++ "`"

/-- The line that an event is recorded as. -/
def Event.line (e : Event) : String := e.level.name ++ ": " ++ e.message

/-- A result and the events that led to it, in order. -/
structure Logged (α : Type) where
  value : α
  log : List Event

instance : Monad Logged where
  pure a := ⟨a, []⟩
  bind x f := ⟨(f x.value).value, x.log ++ (f x.value).log⟩

/-- Records one event. -/
def record (e : Event) : Logged Unit := ⟨(), [e]⟩

@[simp]
theorem Logged.value_pure {α : Type} (a : α) : (pure a : Logged α).value = a := rfl

@[simp]
theorem Logged.log_pure {α : Type} (a : α) : (pure a : Logged α).log = [] := rfl

@[simp]
theorem Logged.value_bind {α β : Type} (x : Logged α) (f : α → Logged β) : (x >>= f).value = (f x.value).value := rfl

@[simp]
theorem Logged.log_bind {α β : Type} (x : Logged α) (f : α → Logged β) :
    (x >>= f).log = x.log ++ (f x.value).log := rfl

/-- The declarations among items, with the rest recorded as skipped. -/
def loggedDeclarations (items : List Item) : Logged (List Declaration) :=
  ⟨declarationsOf items, (skippedOf items).map .skipped⟩

end StyleCheck
