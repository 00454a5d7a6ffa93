import StyleCheck.Event
import StyleCheck.Property.Background
import StyleCheck.Property.Decoration

/-!
# Properties

A property is one of keywords or the one of lines. The meanings of its keywords are of a known kind, or are numbers chosen by
whoever brings a grammar of their own.
-/

namespace StyleCheck

/-- The kinds of meaning that keywords can have. -/
inductive Kind where
  | attachment | box | lineStyle
  /-- Meanings that stand for themselves. -/
  | custom
  deriving DecidableEq, Repr

/-- The meanings of a kind. -/
abbrev Kind.Meaning : Kind → Type
  | .attachment => Attachment
  | .box => BackgroundBox
  | .lineStyle => LineStyle
  | .custom => Int

instance : (k : Kind) → DecidableEq k.Meaning
  | .attachment => inferInstanceAs (DecidableEq Attachment)
  | .box => inferInstanceAs (DecidableEq BackgroundBox)
  | .lineStyle => inferInstanceAs (DecidableEq LineStyle)
  | .custom => inferInstanceAs (DecidableEq Int)

/-- The name of a meaning. -/
def Kind.nameOf : (k : Kind) → k.Meaning → String
  | .attachment, a => Attachment.name a
  | .box, a => BackgroundBox.name a
  | .lineStyle, a => LineStyle.name a
  | .custom, a => Int.repr a

/-- A property and the value it holds. -/
inductive Property where
  | keyword (kind : Kind) (property : KeywordProperty kind.Meaning)
  | lines (property : LineProperty)

namespace Property

/-- The name of the property. -/
def name : Property → String
  | .keyword _ p => p.grammar.name
  | .lines _ => LineProperty.name

/-- Whether the property is inherited by default. -/
def inherited : Property → Bool
  | .keyword _ p => p.grammar.inherited
  | .lines _ => false

/-- Where the value held comes from. -/
def status : Property → Status
  | .keyword _ p => p.status
  | .lines p => p.status

/-- The keywords of the value held. -/
def keywords : Property → List String
  | .keyword _ p => p.keywords
  | .lines p => p.keywords

/-- The names of the meanings held. -/
def meanings : Property → List String
  | .keyword kind p => p.values.map kind.nameOf
  | .lines p => p.lines.map Line.name

/-- The property back at its initial value. -/
def reset : Property → Property
  | .keyword kind p => .keyword kind p.reset
  | .lines _ => .lines .new

/-- The property with the given value, if it accepts it. -/
def commit : Property → Value → Except Mismatch Property
  | .keyword kind p, v => (p.commit v).map (.keyword kind)
  | .lines _, v => (LineProperty.commit v).map .lines

/-- Gives the property a value: whether it was accepted, and the property then. -/
def validate (p : Property) (v : Value) : Logged (Bool × Property) :=
  match p.commit v with
  | .ok q => do
    record (.committed p.name v)
    return (true, q)
  | .error reason => do
    record (.rejected p.name v reason)
    return (false, p)

/-- The property and what it holds, for display. -/
def describe (p : Property) : String :=
  let held := "[" ++ ", ".intercalate p.meanings ++ "], state: " ++ p.status.name ++ " \x7d"
  match p with
  | .keyword _ _ => "KeywordProperty \x7b name: " ++ quote p.name ++ ", values: " ++ held
  | .lines _ => "TextDecorationLineProperty \x7b lines: " ++ held

end Property

end StyleCheck
