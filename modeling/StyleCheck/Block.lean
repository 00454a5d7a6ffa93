import StyleCheck.Registry

/-!
# Blocks of declarations in force

A block has an entry for each property with an accepted declaration, in the order of the first of them. A later declaration
replaces an earlier one of the same property, except that a normal one never replaces an important one. Whatever is refused
leaves the block as it was. An entry is found by the name that its property carries; a new property is created by the name
that was declared.
-/

namespace StyleCheck

/-- A property, how it was last given its value, and whether that was important. -/
structure Entry where
  property : Property
  specified : Specified
  important : Bool

/-- The entries of a block, in the order in which their properties were first declared. -/
structure Block where
  entries : List Entry

/-- Why a text could not be declared as the value of a property. -/
inductive DeclareError where
  | unknownProperty (name : String)
  /-- The text is no value. -/
  | unreadable (name : String) (cause : ValueError)
  | emptyValue (name : String)
  deriving DecidableEq, Repr

/-- The wording of a refused text, followed by that of its cause if it has one. -/
def DeclareError.messages : DeclareError → List String
  | .unknownProperty name => ["unknown property `" ++ name ++ "`"]
  | .unreadable name cause => ["tokenizing value of `" ++ name ++ "`", cause.message]
  | .emptyValue name => ["empty value for `" ++ name ++ "`"]

/-- Whether the entry is for the property with this name, without regard to case. -/
def Entry.isNamed (e : Entry) (name : String) : Bool := eqIgnoringCase e.property.name name

namespace Block

/-- The block without entries. -/
def empty : Block := ⟨[]⟩

/-- The first entry for a property. -/
def entry? (b : Block) (name : String) : Option Entry := b.entries.find? (·.isNamed name)

/-- The property with this name, if a declaration of it was accepted. -/
def property? (b : Block) (name : String) : Option Property := (b.entry? name).map Entry.property

/-- How the property with this name was last given its value. -/
def specified? (b : Block) (name : String) : Option Specified := (b.entry? name).map Entry.specified

/-- Whether the declaration in force is important. -/
def isImportant (b : Block) (name : String) : Bool := (b.entry? name).any Entry.important

/-- The names of the properties, in the order of the entries. -/
def names (b : Block) : List String := b.entries.map (·.property.name)

/-- The number of entries. -/
def size (b : Block) : Nat := b.entries.length

/-- The entries with the first one for a property replaced. -/
def replaceFirst (name : String) (new : Entry) : List Entry → List Entry
  | [] => []
  | e :: rest => if e.isNamed name then new :: rest else e :: replaceFirst name new rest

/-- Applies a declaration to an entry that is there: the entry then, none if the declaration is refused. -/
def redeclare (e : Entry) (d : Declaration) : Logged (Option Entry) :=
  if e.important && !d.important then do
    record (.outranked d.name)
    return none
  else do
    let (specified, p) ← e.property.declare d.value
    return specified.map (⟨p, ·, d.important⟩)

/-- The entry of a property's first declaration, none if the property is not known or the declaration is refused. -/
def firstDeclare (r : Registry) (d : Declaration) : Logged (Option Entry) := do
  match ← r.create d.name with
  | none =>
    record (.unknownProperty d.name)
    return none
  | some p =>
    let (specified, q) ← p.declare d.value
    return specified.map (⟨q, ·, d.important⟩)

/-- Applies a declaration: whether it is now in force, and the block then. -/
def apply (r : Registry) (b : Block) (d : Declaration) : Logged (Bool × Block) :=
  match b.entry? d.name with
  | some e => do
    match ← redeclare e d with
    | none => return (false, b)
    | some new => return (true, ⟨replaceFirst d.name new b.entries⟩)
  | none => do
    match ← firstDeclare r d with
    | none => return (false, b)
    | some new => return (true, ⟨b.entries ++ [new]⟩)

/-- Applies declarations in order: which of them came into force when they were applied, and the block then. -/
def applyAll (r : Registry) (b : Block) : List Declaration → Logged (List Bool × Block)
  | [] => return ([], b)
  | d :: rest => do
    let (inForce, b) ← b.apply r d
    let (others, b) ← b.applyAll r rest
    return (inForce :: others, b)

/-- Applies the declarations of a text. -/
def applyText (r : Registry) (b : Block) (text : String) : Logged (List Bool × Block) := do
  b.applyAll r (← loggedDeclarations (parseItems text))

/-- The block of a text, such as a style attribute. -/
def parse (r : Registry) (text : String) : Logged Block := do
  return (← empty.applyText r text).2

/-- Applies a text as a normal value of a property: whether it is now in force, or why it cannot be one, and the block then. -/
def declare (r : Registry) (b : Block) (name text : String) : Logged (Except DeclareError Bool × Block) :=
  if !r.contains name then return (.error (.unknownProperty name), b)
  else
    match Value.parse text with
    | .error cause => return (.error (.unreadable name cause), b)
    | .ok value =>
      if value.components.isEmpty then return (.error (.emptyValue name), b)
      else do
        let (inForce, b) ← b.apply r ⟨name, value, false⟩
        return (.ok inForce, b)

end Block

end StyleCheck
