import StyleCheck.Component

/-!
# Declarations

A declaration is a name, a colon, a value and perhaps `!important`, up to a semicolon or the end of its block. A list of them
is read to its end whatever it holds: what is not a declaration is skipped, and the reader goes on after it. Nested rules and
at-rules are not declarations and are skipped too.
-/

namespace StyleCheck

/-- A property name, in small letters, with the value that was given to it. -/
structure Declaration where
  name : String
  value : Value
  important : Bool

/-- Why a piece of a declaration list was skipped. -/
inductive SkipReason where
  /-- The value cannot be read. -/
  | value (cause : ValueError)
  /-- The piece ended before the colon. -/
  | endOfInput
  | unexpectedToken
  /-- An at-rule with a block. -/
  | atRuleBody
  deriving DecidableEq, Repr

/-- A piece of a declaration list that was skipped, as it was written. -/
structure Skipped where
  source : String
  reason : SkipReason
  deriving DecidableEq

/-- What a declaration list is made of. -/
abbrev Item := Except Skipped Declaration

/-- The text that nodes were read from, without blanks around it. -/
def sourceText (nodes : List Node) : String :=
  String.ofList (trimBlank (nodes.flatMap Node.source))

/-- Whether the node is an identifier with this spelling, without regard to case. -/
def Node.isIdent (spelling : String) : Node → Bool
  | .leaf ⟨.ident name, _⟩ => eqIgnoringCase name spelling
  | _ => false

/-- What follows the value of a declaration: nothing, or `!important` with white space and comments anywhere in it. -/
def readImportance (nodes : List Node) : Except SkipReason Bool :=
  match nodes.filter (!·.isTrivia) with
  | [] => .ok false
  | [mark, word] =>
    if mark.isToken (.delim '!') && word.isIdent "important" then .ok true else .error .unexpectedToken
  | _ => .error .unexpectedToken

/-- A declaration of `name`, given what follows its colon. The value ends before the first `!`. -/
def readDeclared (name : String) (nodes : List Node) : Except SkipReason Declaration :=
  let inValue (n : Node) : Bool := !n.isToken (.delim '!')
  match readComponents (.ofNodes (nodes.takeWhile inValue)) with
  | .error e => .error (.value e)
  | .ok [] => .error (.value .emptyValue)
  | .ok components =>
    (readImportance (nodes.dropWhile inValue)).map fun important =>
      ⟨lower name, .ofComponents components, important⟩

/-- A declaration of `name`, given what follows the name. -/
def readDeclaration (name : String) (nodes : List Node) : Except SkipReason Declaration :=
  match nodes.dropWhile Node.isTrivia with
  | [] => .error .endOfInput
  | n :: rest => if n.isToken .colon then readDeclared name rest else .error .unexpectedToken

/-- A piece that starts with the node `n` and runs to the next semicolon, which belongs to it: what it is read as, and what is
left. -/
def readStatement (read : List Node → Except SkipReason Declaration) (n : Node) (rest : List Node) :
    Item × List Node :=
  let inside (n : Node) : Bool := !n.isToken .semicolon
  let body := rest.takeWhile inside
  let after := rest.dropWhile inside
  ((read body).mapError fun reason => ⟨sourceText (n :: body ++ after.take 1), reason⟩, after.drop 1)

/-- An at-rule that starts with the node `n`: it runs to a semicolon or a block, whichever comes first, and is skipped. If
something stands before them, they are not reported with it. -/
def skipAtRule (n : Node) (rest : List Node) : Skipped × List Node :=
  let inside (n : Node) : Bool := !(n.isToken .semicolon || n.isCurly)
  let before := rest.takeWhile inside
  let after := rest.dropWhile inside
  if before.all Node.isTrivia then
    let reason := if after.head?.any Node.isCurly then .atRuleBody else .unexpectedToken
    (⟨sourceText (n :: before ++ after.take 1), reason⟩, after.drop 1)
  else (⟨sourceText (n :: before), .unexpectedToken⟩, after.drop 1)

/-- The item that starts with the node `n`, and what is left after it. -/
def readItem (n : Node) (rest : List Node) : Item × List Node :=
  match n with
  | .leaf ⟨.ident name, _⟩ => readStatement (readDeclaration name) n rest
  | .leaf ⟨.atKeyword _, _⟩ =>
    let skipped := skipAtRule n rest
    (.error skipped.1, skipped.2)
  | _ => readStatement (fun _ => .error .unexpectedToken) n rest

/-- White space, comments, semicolons and stray closing curly brackets stand between items. -/
def Node.isBetweenItems (n : Node) : Bool :=
  n.isTrivia || n.isToken .semicolon || n.isToken (.closer .curly)

theorem readStatement_suffix (read : List Node → Except SkipReason Declaration) (n : Node) (rest : List Node) :
    (readStatement read n rest).2 <:+ rest :=
  (List.drop_suffix _ _).trans (List.dropWhile_suffix _)

theorem skipAtRule_suffix (n : Node) (rest : List Node) : (skipAtRule n rest).2 <:+ rest := by
  unfold skipAtRule
  simp only
  split <;> exact (List.drop_suffix _ _).trans (List.dropWhile_suffix _)

theorem readItem_suffix (n : Node) (rest : List Node) : (readItem n rest).2 <:+ rest := by
  unfold readItem
  split
  · exact readStatement_suffix _ _ _
  · exact skipAtRule_suffix _ _
  · exact readStatement_suffix _ _ _

/-- The items of a declaration list. -/
def readItems : List Node → List Item
  | [] => []
  | n :: rest =>
    if n.isBetweenItems then readItems rest
    else (readItem n rest).1 :: readItems (readItem n rest).2
termination_by nodes => nodes.length
decreasing_by
  · simp
  · have := (readItem_suffix n rest).length_le
    simp only [List.length_cons]
    omega

/-- The declarations among items. -/
def declarationsOf (items : List Item) : List Declaration := items.filterMap Except.toOption

/-- The pieces skipped among items. -/
def skippedOf (items : List Item) : List Skipped :=
  items.filterMap fun
    | .ok _ => none
    | .error s => some s

/-- The items of a text, such as the contents of a style attribute. -/
def parseItems (text : String) : List Item := readItems (nodesOf text)

/-- The declarations of a text. -/
def parseDeclarations (text : String) : List Declaration := declarationsOf (parseItems text)

end StyleCheck
