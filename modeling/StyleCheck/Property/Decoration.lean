import StyleCheck.Property.Grammar

/-!
# Properties of text decoration

The lines drawn along a text are a run of keywords without commas, or `none`, which stands alone. Their style is one keyword.
-/

namespace StyleCheck

/-- The lines that can be drawn along a text. -/
inductive Line where
  | underline | overline | lineThrough | blink
  deriving DecidableEq, Repr

/-- All lines, in the order of their keywords. -/
def Line.all : List Line := [.underline, .overline, .lineThrough, .blink]

/-- The name of a line. -/
def Line.name : Line → String
  | .underline => "Underline"
  | .overline => "Overline"
  | .lineThrough => "LineThrough"
  | .blink => "Blink"

/-- The keyword for a line. -/
def Line.keyword : Line → String
  | .underline => "underline"
  | .overline => "overline"
  | .lineThrough => "line-through"
  | .blink => "blink"

/-- The keywords for lines. -/
def Line.vocabulary : Vocabulary Line where
  entries := Line.all.map (fun l => (l.keyword, l))
  distinct := by decide

/-- The lines in a value, in order and with repeats; `none` is no lines. -/
def Line.read (v : Value) : Except Mismatch (List Line) :=
  match v.components with
  | [] => .error .wrongKind
  | [c] => if c.isKeyword "none" then .ok [] else Line.vocabulary.readRun [c]
  | components =>
    if components.any (·.isKeyword "none") then .error .exclusiveKeyword else Line.vocabulary.readRun components

/-- The property of lines and the lines it holds. Initially there are none. -/
structure LineProperty where
  lines : List Line
  status : Status
  deriving DecidableEq, Repr

namespace LineProperty

/-- The name of the property. -/
def name : String := "text-decoration-line"

/-- The property with its initial value. -/
def new : LineProperty := ⟨[], .initial⟩

/-- The property with the given value, if it is one of lines. -/
def commit (v : Value) : Except Mismatch LineProperty :=
  (Line.read v).map fun lines => ⟨lines, .committed⟩

/-- Whether no line is drawn. -/
def isNone (p : LineProperty) : Bool := p.lines.isEmpty

/-- Whether the line is drawn. -/
def contains (p : LineProperty) (line : Line) : Bool := p.lines.contains line

/-- The keywords of the lines held. -/
def keywords (p : LineProperty) : List String := p.lines.map Line.keyword

end LineProperty

/-- How the lines are drawn. -/
inductive LineStyle where
  | solid | double | dotted | dashed | wavy
  deriving DecidableEq, Repr

/-- The name of a style. -/
def LineStyle.name : LineStyle → String
  | .solid => "Solid"
  | .double => "Double"
  | .dotted => "Dotted"
  | .dashed => "Dashed"
  | .wavy => "Wavy"

/-- The keywords for styles. -/
def LineStyle.vocabulary : Vocabulary LineStyle where
  entries := [("solid", .solid), ("double", .double), ("dotted", .dotted), ("dashed", .dashed), ("wavy", .wavy)]
  distinct := by decide

/-- How the lines along a text are drawn. -/
def textDecorationStyle : Grammar LineStyle where
  name := "text-decoration-style"
  vocabulary := LineStyle.vocabulary
  layering := .single
  initial := .solid
  inherited := false

end StyleCheck
