import StyleCheck.Keyword.Vocabulary

/-!
# Runs and layers of keywords

A grammar of keywords asks for a run of them, or for layers: one keyword, then a comma and one keyword any number of times. A
value that does not match is refused for its first fault from the left.
-/

namespace StyleCheck

/-- Why a value was refused by a grammar. -/
inductive Mismatch where
  /-- A keyword that is not in the vocabulary. -/
  | unknownKeyword
  /-- A comma where a keyword is wanted, something else where a comma is wanted, or a comma at the end. -/
  | misplacedSeparator
  /-- A component that is no keyword, or too many or too few of them. -/
  | wrongKind
  /-- A keyword that stands alone or not at all, among others. -/
  | exclusiveKeyword
  deriving DecidableEq, Repr

/-- The wording of a refused value. -/
def Mismatch.message : Mismatch → String
  | .unknownKeyword => "unrecognized keyword"
  | .misplacedSeparator => "misplaced comma separator"
  | .wrongKind => "value type not accepted by the grammar"
  | .exclusiveKeyword => "exclusive keyword combined with other keywords"

namespace Vocabulary

variable {α : Type}

/-- The meaning of one component. -/
def readOne (t : Vocabulary α) : Value → Except Mismatch α
  | .separator => .error .misplacedSeparator
  | .keyword text => (t.lookup text).elim (.error .unknownKeyword) .ok
  | _ => .error .wrongKind

/-- The meanings of a run of components. -/
def readRun (t : Vocabulary α) (components : List Value) : Except Mismatch (List α) :=
  components.mapM t.readOne

/-- The meanings of layers. No components are no layers. -/
def readLayers (t : Vocabulary α) : List Value → Except Mismatch (List α)
  | [] => .ok []
  | [v] => (t.readOne v).map ([·])
  | v :: comma :: rest => do
    let a ← t.readOne v
    if comma.isSeparator && !rest.isEmpty then
      let layers ← t.readLayers rest
      return a :: layers
    else throw .misplacedSeparator

end Vocabulary

end StyleCheck
