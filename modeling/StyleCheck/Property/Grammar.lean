import StyleCheck.Keyword.Layers

/-!
# Properties of keywords

A grammar says which keywords a property takes and how often, and a property holds the value last accepted under its grammar.
A refused value leaves what is held as it was.
-/

namespace StyleCheck

/-- How often a keyword may stand in a value. -/
inductive Layering where
  /-- Exactly once. -/
  | single
  /-- Once in each layer, with commas between layers. -/
  | commaSeparated
  deriving DecidableEq, Repr

/-- Where the value that a property holds comes from. -/
inductive Status where
  /-- It is the initial value. -/
  | initial
  /-- It was accepted from a declaration. -/
  | committed
  deriving DecidableEq, Repr

/-- The name of a status. -/
def Status.name : Status → String
  | .initial => "Default"
  | .committed => "Committed"

/-- A property that takes keywords with meanings in `α`. -/
structure Grammar (α : Type) where
  name : String
  vocabulary : Vocabulary α
  layering : Layering
  /-- The meaning of the one layer of the initial value. -/
  initial : α
  inherited : Bool

/-- The meanings in a value, one for each layer. -/
def Grammar.read {α : Type} (g : Grammar α) (v : Value) : Except Mismatch (List α) :=
  match g.layering with
  | .commaSeparated => g.vocabulary.readLayers v.components
  | .single =>
    match g.vocabulary.readRun v.components with
    | .ok [a] => .ok [a]
    | .ok _ => .error .wrongKind
    | .error e => .error e

/-- A property of keywords and the value it holds. -/
structure KeywordProperty (α : Type) where
  grammar : Grammar α
  /-- The meanings held, one for each layer. -/
  values : List α
  status : Status

namespace KeywordProperty

variable {α : Type}

/-- The property with its initial value. -/
def new (g : Grammar α) : KeywordProperty α := ⟨g, [g.initial], .initial⟩

/-- The property back at its initial value. -/
def reset (p : KeywordProperty α) : KeywordProperty α := new p.grammar

/-- The property with the given value, if its grammar accepts it. -/
def commit (p : KeywordProperty α) (v : Value) : Except Mismatch (KeywordProperty α) :=
  (p.grammar.read v).map fun values => ⟨p.grammar, values, .committed⟩

/-- The meaning of the first layer. -/
def first? (p : KeywordProperty α) : Option α := p.values.head?

/-- The spellings of the meanings held; a meaning without spelling is left out. -/
def keywords [BEq α] (p : KeywordProperty α) : List String :=
  p.values.filterMap p.grammar.vocabulary.spelling?

end KeywordProperty

end StyleCheck
