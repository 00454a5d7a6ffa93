import StyleCheck.Declaration

/-!
# Style sheets

A style sheet is a run of rules: a prelude, usually the selectors, and a block of declarations. The prelude is kept as it was
written. At-rules are skipped, and so is a rule that looks like the declaration of a custom property.
-/

namespace StyleCheck

/-- A rule: its prelude, without blanks around it, and what its block is made of. -/
structure Rule where
  prelude : String
  items : List Item

/-- The declarations of a rule. -/
def Rule.declarations (r : Rule) : List Declaration := declarationsOf r.items

/-- White space, comments and the marks of a text embedded in a document stand between rules. -/
def Node.isBetweenRules (n : Node) : Bool :=
  n.isTrivia || n.isToken .cdo || n.isToken .cdc

/-- Whether nodes start with a name that starts with two hyphens and a colon, as the declaration of a custom property does. -/
def looksDeclared : List Node → Bool
  | .leaf ⟨.ident name, _⟩ :: rest =>
    ['-', '-'].isPrefixOf name.toList && (rest.dropWhile Node.isTrivia).head?.any (Node.isToken .colon)
  | _ => false

/-- What is left after an at-rule, given what follows its name. -/
def afterAtRule (nodes : List Node) : List Node :=
  (nodes.dropWhile fun n => !(n.isToken .semicolon || n.isCurly)).drop 1

theorem afterAtRule_suffix (nodes : List Node) : afterAtRule nodes <:+ nodes :=
  (List.drop_suffix _ _).trans (List.dropWhile_suffix _)

/-- The first block between curly brackets: what stands before it, what it contains, and what follows it. -/
def splitAtCurly? (nodes : List Node) : Option (List Node × List Node × List Node) :=
  match nodes.dropWhile (!·.isCurly) with
  | .block _ contents _ :: left => some (nodes.takeWhile (!·.isCurly), contents, left)
  | _ => none

/-- Fewer nodes are left after a block in braces. -/
theorem splitAtCurly?_length {nodes before contents left : List Node}
    (h : splitAtCurly? nodes = some (before, contents, left)) : left.length < nodes.length := by
  unfold splitAtCurly? at h
  split at h
  · next opener inner closer rest he =>
    obtain ⟨-, h⟩ := Prod.mk.inj (Option.some.inj h)
    obtain ⟨-, rfl⟩ := Prod.mk.inj h
    have := (List.dropWhile_suffix (l := nodes) (!·.isCurly)).length_le
    rw [he, List.length_cons] at this
    omega
  · simp at h

/-- The rules of a style sheet. A prelude without a block after it is no rule. -/
def readRules (nodes : List Node) : List Rule :=
  match nodes with
  | [] => []
  | n :: rest =>
    if n.isBetweenRules then readRules rest
    else
      match n.head with
      | .atKeyword _ => readRules (afterAtRule rest)
      | _ =>
        match h : splitAtCurly? (n :: rest) with
        | none => []
        | some (before, contents, left) =>
          have : left.length < (n :: rest).length := splitAtCurly?_length h
          if looksDeclared (n :: rest) then readRules left
          else ⟨sourceText before, readItems contents⟩ :: readRules left
termination_by nodes.length
decreasing_by
  · simp
  · have := (afterAtRule_suffix rest).length_le
    simp only [List.length_cons]
    omega
  all_goals exact this

/-- The rules of a text. -/
def parseStylesheet (text : String) : List Rule := readRules (nodesOf text)

end StyleCheck
