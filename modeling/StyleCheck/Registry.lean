import StyleCheck.Property.Defaulting

/-!
# The register of known properties

A property is known under a name, without regard to case, and comes from a factory. The name it is known under and the name
that the property itself carries need not agree. A name is taken once: the first factory registered under it stays.
-/

namespace StyleCheck

/-- What builds a property: the same one, with the same events, every time. -/
abbrev Factory := Logged Property

/-- The factories by name, the names in small letters, in the order of their registration. -/
structure Registry where
  entries : List (String × Factory)

/-- A name that is already taken. -/
structure AlreadyRegistered where
  name : String
  deriving DecidableEq, Repr

/-- The wording of a refused registration. -/
def AlreadyRegistered.message (e : AlreadyRegistered) : String :=
  "property `" ++ e.name ++ "` is already registered"

/-- A property of keywords as its grammar gives it. -/
def Grammar.factory (kind : Kind) (g : Grammar kind.Meaning) : Factory :=
  pure (.keyword kind (.new g))

/-- The property of lines as it is initially. -/
def LineProperty.factory : Factory := pure (.lines .new)

namespace Registry

/-- The register without properties. -/
def empty : Registry := ⟨[]⟩

/-- The register of the properties that are always known. -/
def builtin : Registry :=
  ⟨[("background-attachment", backgroundAttachment.factory .attachment),
    ("background-clip", backgroundClip.factory .box),
    ("background-origin", backgroundOrigin.factory .box),
    ("text-decoration-line", LineProperty.factory),
    ("text-decoration-style", textDecorationStyle.factory .lineStyle)]⟩

/-- The factory known under a name, without regard to case. -/
def factory? (r : Registry) (name : String) : Option Factory :=
  (r.entries.find? (fun e => e.1 = lower name)).map Prod.snd

/-- Whether a name is known, without regard to case. -/
def contains (r : Registry) (name : String) : Bool := (r.factory? name).isSome

/-- Makes a factory known under a name, unless the name is taken. -/
def register (r : Registry) (name : String) (f : Factory) : Logged (Except AlreadyRegistered Registry) :=
  if r.contains name then pure (.error ⟨lower name⟩)
  else do
    record (.registered (lower name))
    return .ok ⟨r.entries ++ [(lower name, f)]⟩

/-- A new property at its initial value, whatever its factory gave it. -/
def create (r : Registry) (name : String) : Logged (Option Property) :=
  match r.factory? name with
  | none => pure none
  | some f => do
    let p ← f
    return some p.reset

/-- The names of the known properties. -/
def names (r : Registry) : List String := r.entries.map Prod.fst

/-- The number of known properties. -/
def size (r : Registry) : Nat := r.entries.length

end Registry

end StyleCheck
