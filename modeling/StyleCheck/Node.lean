import StyleCheck.Token.Scan

/-!
# Nodes: tokens grouped by their brackets

An opening token starts a block, and the first closing token of the same kind at its level ends it. A closing token of
another kind is an ordinary token wherever it stands, and a block that is never closed runs to the end of the text. So the
readers of values, declarations and rules never look for the end of a block: they are given its contents.

Main statement: the nodes hold the lexemes they were made of, in their order.
-/

namespace StyleCheck

/-- A token that opens nothing, or a block: its opening token, its contents and, unless the text ended first, its closing
token. -/
inductive Node where
  | leaf (lexeme : Lexeme)
  | block (opener : Lexeme) (contents : List Node) (closer : Option Lexeme)

mutual

/-- The lexemes of a node, in order. -/
def Node.lexemes : Node → List Lexeme
  | .leaf x => [x]
  | .block opener contents closer => opener :: Node.lexemesAll contents ++ closer.toList

/-- The lexemes of several nodes, in order. -/
def Node.lexemesAll : List Node → List Lexeme
  | [] => []
  | n :: rest => n.lexemes ++ Node.lexemesAll rest

end

/-- The lexemes of some nodes are those of each, in order. -/
theorem Node.lexemesAll_eq_flatMap (nodes : List Node) : Node.lexemesAll nodes = nodes.flatMap Node.lexemes := by
  induction nodes with
  | nil => rfl
  | cons n rest ih => rw [Node.lexemesAll, ih, List.flatMap_cons]

/-- The characters a node was read from. -/
def Node.source (n : Node) : List Char := n.lexemes.flatMap Lexeme.source

/-- The number of lexemes of a node. -/
def Node.size (n : Node) : Nat := n.lexemes.length

/-- The token a node starts with. -/
def Node.head : Node → Token
  | .leaf x => x.token
  | .block opener _ _ => opener.token

/-- Whether the node is white space or a comment. -/
def Node.isTrivia (n : Node) : Bool := n.head.isTrivia

/-- Whether the node is the single token `t`. -/
def Node.isToken (t : Token) : Node → Bool
  | .leaf x => x.token = t
  | .block _ _ _ => false

/-- Whether the node is a block between curly brackets. -/
def Node.isCurly : Node → Bool
  | .leaf _ => false
  | .block opener _ _ => opener.token = .opener .curly

/-- A block that is still open: its opening token, the bracket that it waits for, and the nodes before it at its level, the
last one first. -/
structure Frame where
  opener : Lexeme
  bracket : Bracket
  before : List Node

/-- Lexemes on their way to nodes: the open blocks, the innermost first, and the nodes at the innermost level, the last one
first. -/
structure Grouping where
  frames : List Frame
  nodes : List Node

/-- Nothing read yet. -/
def Grouping.empty : Grouping := ⟨[], []⟩

/-- The next lexeme: it opens a block, closes the innermost one, or stands for itself. -/
def Grouping.push (g : Grouping) (x : Lexeme) : Grouping :=
  match x.token.opens?, g.frames with
  | some b, frames => ⟨⟨x, b, g.nodes⟩ :: frames, []⟩
  | none, [] => ⟨[], .leaf x :: g.nodes⟩
  | none, f :: frames =>
    if x.token = .closer f.bracket then ⟨frames, .block f.opener g.nodes.reverse (some x) :: f.before⟩
    else ⟨f :: frames, .leaf x :: g.nodes⟩

/-- The end of the text ends the open blocks: the nodes of the outermost level, the last one first. -/
def Grouping.closeAll : List Frame → List Node → List Node
  | [], nodes => nodes
  | f :: frames, nodes => closeAll frames (.block f.opener nodes.reverse none :: f.before)

/-- The nodes when the text has ended. -/
def Grouping.finish (g : Grouping) : List Node := (closeAll g.frames g.nodes).reverse

/-- Lexemes grouped into nodes. -/
def group (xs : List Lexeme) : List Node := (xs.foldl Grouping.push .empty).finish

/-- The nodes of a text. -/
def nodesOf (text : String) : List Node := group (tokenize text.toList)

/-- The lexemes of open blocks and of the nodes at the innermost level, in order. -/
def Grouping.lexemesUnder : List Frame → List Node → List Lexeme
  | [], nodes => nodes.reverse.flatMap Node.lexemes
  | f :: frames, nodes => lexemesUnder frames f.before ++ f.opener :: nodes.reverse.flatMap Node.lexemes

/-- The last node of a grouping comes after everything before it. -/
theorem Grouping.lexemesUnder_cons (frames : List Frame) (n : Node) (nodes : List Node) :
    lexemesUnder frames (n :: nodes) = lexemesUnder frames nodes ++ n.lexemes := by
  cases frames <;> simp [lexemesUnder]

/-- A lexeme that is grouped is added at the end. -/
theorem Grouping.lexemesUnder_push (g : Grouping) (x : Lexeme) :
    lexemesUnder (g.push x).frames (g.push x).nodes = lexemesUnder g.frames g.nodes ++ [x] := by
  obtain ⟨frames, nodes⟩ := g
  unfold push
  split
  · simp [lexemesUnder]
  · next h => simp_all [lexemesUnder, Node.lexemes]
  · next f rest _ h =>
    simp only at h
    subst h
    split
    · simp [lexemesUnder_cons, Node.lexemes, Node.lexemesAll_eq_flatMap, lexemesUnder]
    · simp [lexemesUnder_cons, Node.lexemes]

/-- Closing the open blocks loses no lexeme. -/
theorem Grouping.flatMap_closeAll (frames : List Frame) (nodes : List Node) :
    (closeAll frames nodes).reverse.flatMap Node.lexemes = lexemesUnder frames nodes := by
  induction frames generalizing nodes with
  | nil => rfl
  | cons f rest ih => simp [closeAll, ih, lexemesUnder_cons, Node.lexemes, Node.lexemesAll_eq_flatMap, lexemesUnder]

/-- Grouping loses, adds and moves no lexeme. -/
theorem flatMap_lexemes_group (xs : List Lexeme) : (group xs).flatMap Node.lexemes = xs := by
  have h : ∀ (g : Grouping), Grouping.lexemesUnder (xs.foldl Grouping.push g).frames (xs.foldl Grouping.push g).nodes =
      Grouping.lexemesUnder g.frames g.nodes ++ xs := by
    induction xs with
    | nil => simp
    | cons x rest ih => intro g; simp [ih, Grouping.lexemesUnder_push]
  rw [group, Grouping.finish, Grouping.flatMap_closeAll, h]
  rfl

end StyleCheck
