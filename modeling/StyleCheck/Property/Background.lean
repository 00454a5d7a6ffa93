import StyleCheck.Property.Grammar

/-!
# Properties of backgrounds

An element has any number of background layers, and each of these properties has one keyword for each layer.
-/

namespace StyleCheck

/-- What a background layer moves with: nothing, the contents of the element, or the element. -/
inductive Attachment where
  | fixed | local | scroll
  deriving DecidableEq, Repr

/-- The name of an attachment. -/
def Attachment.name : Attachment → String
  | .fixed => "Fixed"
  | .local => "Local"
  | .scroll => "Scroll"

/-- The keywords for attachments. -/
def Attachment.vocabulary : Vocabulary Attachment where
  entries := [("fixed", .fixed), ("local", .local), ("scroll", .scroll)]
  distinct := by decide

/-- One of the boxes around the contents of an element. -/
inductive BackgroundBox where
  | border | padding | content
  deriving DecidableEq, Repr

/-- The name of a box. -/
def BackgroundBox.name : BackgroundBox → String
  | .border => "BorderBox"
  | .padding => "PaddingBox"
  | .content => "ContentBox"

/-- The keywords for boxes. -/
def BackgroundBox.vocabulary : Vocabulary BackgroundBox where
  entries := [("border-box", .border), ("padding-box", .padding), ("content-box", .content)]
  distinct := by decide

/-- What each background layer moves with. -/
def backgroundAttachment : Grammar Attachment where
  name := "background-attachment"
  vocabulary := Attachment.vocabulary
  layering := .commaSeparated
  initial := .scroll
  inherited := false

/-- The box that each background layer is painted in. -/
def backgroundClip : Grammar BackgroundBox where
  name := "background-clip"
  vocabulary := BackgroundBox.vocabulary
  layering := .commaSeparated
  initial := .border
  inherited := false

/-- The box that each background layer is placed by. -/
def backgroundOrigin : Grammar BackgroundBox where
  name := "background-origin"
  vocabulary := BackgroundBox.vocabulary
  layering := .commaSeparated
  initial := .padding
  inherited := false

end StyleCheck
