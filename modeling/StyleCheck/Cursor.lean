import StyleCheck.Node

/-!
# Places among nodes

A reader moves a cursor along the nodes of one level. Reading the opening token of a block leaves the block open: its contents
can then be read on their own, and the next step at this level passes over whatever is left of it.
-/

namespace StyleCheck

/-- What is left to read at one level. `opened` holds what follows the opening token that was read last, if the last token
read was one: the contents of its block and the closing token. -/
structure Cursor where
  opened : Option (List Node × Option Lexeme)
  rest : List Node

/-- The place before the given nodes. -/
def Cursor.ofNodes (nodes : List Node) : Cursor := ⟨none, nodes⟩

/-- The lexemes not yet read, those of an open block included. -/
def Cursor.lexemes (c : Cursor) : List Lexeme :=
  match c.opened with
  | none => Node.lexemesAll c.rest
  | some (contents, closer) => Node.lexemesAll contents ++ closer.toList ++ Node.lexemesAll c.rest

/-- The number of lexemes not yet read. -/
def Cursor.size (c : Cursor) : Nat := c.lexemes.length

/-- The number of bytes not yet read. -/
def Cursor.bytesLeft (c : Cursor) : Nat :=
  (String.ofList (c.lexemes.flatMap Lexeme.source)).utf8ByteSize

/-- The contents of the block just opened; nothing if the last token read opened none. -/
def Cursor.contents (c : Cursor) : List Node :=
  match c.opened with
  | none => []
  | some (contents, _) => contents

/-- The place after the block just opened. -/
def Cursor.leave (c : Cursor) : Cursor := ⟨none, c.rest⟩

/-- The next token, white space and comments included, and the place after it. An open block is left first. At the end there
is no token. -/
def Cursor.next (c : Cursor) : Option Token × Cursor :=
  match c.rest with
  | [] => (none, ⟨none, []⟩)
  | .leaf x :: rest => (some x.token, ⟨none, rest⟩)
  | .block opener contents closer :: rest => (some opener.token, ⟨some (contents, closer), rest⟩)

/-- The place after any white space and comments. An open block is left first. -/
def Cursor.skipTrivia (c : Cursor) : Cursor := ⟨none, c.rest.dropWhile Node.isTrivia⟩

/-- Whether nothing but white space and comments is left. -/
def Cursor.atEnd (c : Cursor) : Bool := c.skipTrivia.rest.isEmpty

theorem Cursor.size_leave_le (c : Cursor) : c.leave.size ≤ c.size := by
  obtain ⟨opened, rest⟩ := c
  cases opened with
  | none => exact Nat.le_refl _
  | some o =>
    simp only [leave, size, lexemes, List.length_append]
    omega

/-- Dropping nodes adds no lexeme. -/
theorem Node.length_lexemesAll_dropWhile_le (p : Node → Bool) (nodes : List Node) :
    (Node.lexemesAll (nodes.dropWhile p)).length ≤ (Node.lexemesAll nodes).length := by
  induction nodes with
  | nil => simp
  | cons n rest ih =>
    rw [List.dropWhile_cons]
    split
    · simp only [Node.lexemesAll, List.length_append]
      omega
    · exact Nat.le_refl _

theorem Cursor.size_skipTrivia_le (c : Cursor) : c.skipTrivia.size ≤ c.size :=
  Nat.le_trans (Node.length_lexemesAll_dropWhile_le Node.isTrivia c.rest) (c.size_leave_le)

/-- A token read makes what is left smaller. -/
theorem Cursor.size_next_lt {c d : Cursor} {t : Token} (h : c.next = (some t, d)) : d.size < c.size := by
  refine Nat.lt_of_lt_of_le ?_ c.size_leave_le
  unfold next at h
  split at h
  · simp at h
  · next x rest he =>
    obtain ⟨-, rfl⟩ := Prod.mk.inj h
    simp [leave, he, size, lexemes, Node.lexemesAll, Node.lexemes]
  · next opener contents closer rest he =>
    obtain ⟨-, rfl⟩ := Prod.mk.inj h
    simp [leave, he, size, lexemes, Node.lexemesAll, Node.lexemes]

/-- The contents of an open block are part of what is left. -/
theorem Cursor.size_contents_le (c : Cursor) : (Cursor.ofNodes c.contents).size ≤ c.size := by
  obtain ⟨opened, rest⟩ := c
  cases opened with
  | none => simp [ofNodes, contents, size, lexemes, Node.lexemesAll]
  | some o => simp [ofNodes, contents, size, lexemes]

end StyleCheck
