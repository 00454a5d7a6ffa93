import StyleCheck.Proofs.Places

/-!
# A reader in the midst of a text

A reader is at a place of one level of the text, and does not pass the tokens it is to stop before. It moves on token by token,
leaves the block it has just opened or goes into it, and hands a part of its level over to a reader that stops earlier. `Reading`
is such a reader together with what is kept from it, so that its position in the text is known, and `Reading.Reachable` are all
that there can be while a text is read. The nodes before a reader are a view of the tokens that follow; what they mean there is
told by the tokens alone: `afterBlock` is where the block just opened ends, and `fromStop` is where the reader has to stop. Main
statements: `Reachable.sound`, `Sound.afterBlock_tokens` and `Sound.fromStop_tokens`.
-/

namespace StyleCheck

/-- A reader in the midst of a text. -/
structure Reading where
  /-- The place, with all that the reader can still come to. -/
  cursor : Cursor
  /-- The bracket that the last token read has opened, if it opened one. -/
  pending : Option Bracket
  /-- The tokens that the reader does not pass at its own level. -/
  stop : Token → Bool
  /-- What the reader cannot come to, up to the end of the text. -/
  beyond : List Lexeme

/-- The number of bytes that lexemes were read from. -/
def bytesOf (xs : List Lexeme) : Nat := (String.ofList (xs.flatMap Lexeme.source)).utf8ByteSize

/-- What a node has after its first token, if that opens a block: the contents of the block and the closing token. -/
def Node.inside? : Node → Option (List Node × Option Lexeme)
  | .leaf _ => none
  | .block _ contents closer => some (contents, closer)

/-- The lexemes of a block that was just opened, after its opening token. -/
def openLexemes : Option (List Node × Option Lexeme) → List Lexeme
  | none => []
  | some (contents, closer) => Node.lexemesAll contents ++ closer.toList

namespace Reading

/-- What is not yet read of the text. -/
def left (s : Reading) : List Lexeme := s.cursor.lexemes ++ s.beyond

/-- The tokens that are not yet read. -/
def tokens (s : Reading) : List Token := s.left.map Lexeme.token

/-- The position in the text, in bytes. -/
def position (s : Reading) (text : String) : Nat := text.utf8ByteSize - bytesOf s.left

/-- The reader at another place of its level, with no block opened. -/
def moved (s : Reading) (c : Cursor) : Reading := { s with cursor := c, pending := none }

/-- A reader of the contents of the block just opened, which stops before the closing bracket. -/
def into (s : Reading) (b : Bracket) (contents : List Node) (closer : Option Lexeme) : Reading :=
  ⟨.ofNodes contents, none, fun t => decide (t = .closer b), closer.toList ++ Node.lexemesAll s.cursor.rest ++ s.beyond⟩

/-- A reader that stops before further tokens. -/
def stopping (s : Reading) (delimiters : Token → Bool) : Reading :=
  let inside (n : Node) : Bool := !delimiters n.head
  ⟨⟨s.cursor.opened, s.cursor.rest.takeWhile inside⟩, s.pending, fun t => s.stop t || delimiters t,
    Node.lexemesAll (s.cursor.rest.dropWhile inside) ++ s.beyond⟩

/-- The readers that there can be while a text is read. -/
inductive Reachable (text : String) : Reading → Prop where
  /-- Before the whole text, with nothing to stop before. -/
  | start : Reachable text ⟨.ofNodes (nodesOf text), none, fun _ => false, []⟩
  /-- After one more token. -/
  | next {s : Reading} {t : Token} {d : Cursor} (h : Reachable text s) (read : s.cursor.next = (some t, d)) :
      Reachable text { s with cursor := d, pending := t.opens? }
  /-- After white space and comments. -/
  | skip {s : Reading} (h : Reachable text s) : Reachable text (s.moved s.cursor.skipTrivia)
  /-- After the block just opened. -/
  | leave {s : Reading} (h : Reachable text s) : Reachable text (s.moved s.cursor.leave)
  /-- Inside of the block just opened. -/
  | enter {s : Reading} {b : Bracket} {contents : List Node} {closer : Option Lexeme} (h : Reachable text s)
      (pending : s.pending = some b) (opened : s.cursor.opened = some (contents, closer)) :
      Reachable text (s.into b contents closer)
  /-- In a part of the level. -/
  | stopping {s : Reading} (h : Reachable text s) (delimiters : Token → Bool) : Reachable text (s.stopping delimiters)

end Reading

/-! ## Bytes of lexemes -/

theorem bytesOf_append (xs ys : List Lexeme) : bytesOf (xs ++ ys) = bytesOf xs + bytesOf ys := by
  simp [bytesOf]

/-- The tokens of a text have its bytes. -/
theorem bytesOf_tokenize (text : String) : bytesOf (tokenize text.toList) = text.utf8ByteSize := by
  rw [bytesOf, flatMap_source_tokenize, String.ofList_toList]

/-- Every token of a text was read from at least one character. -/
theorem source_ne_nil_of_mem_tokenize {cs : List Char} {x : Lexeme} (h : x ∈ tokenize cs) : x.source ≠ [] := by
  fun_induction tokenize cs with
  | case1 => cases h
  | case2 c rest left ih =>
    rcases List.mem_cons.1 h with rfl | h
    · have hlength : left.length ≤ rest.length := (scan_suffix c rest).length_le
      simp only [ne_eq, List.take_eq_nil_iff, reduceCtorEq, or_false]
      omega
    · exact ih h

/-- Tokens that are passed take bytes. -/
theorem bytesOf_lt_of_suffix {cs : List Char} {passed left : List Lexeme} (h : passed ++ left <:+ tokenize cs)
    (hp : passed ≠ []) : bytesOf left < bytesOf (passed ++ left) := by
  obtain ⟨x, xs, rfl⟩ := List.exists_cons_of_ne_nil hp
  have hx : x.source ≠ [] := source_ne_nil_of_mem_tokenize (h.subset List.mem_cons_self)
  obtain ⟨c, source, hsource⟩ := List.exists_cons_of_ne_nil hx
  have hbytes : 0 < bytesOf [x] := by
    have hc := c.utf8Size_pos
    simp only [bytesOf, List.flatMap_cons, List.flatMap_nil, List.append_nil, hsource, String.ofList_cons,
      String.utf8ByteSize_append, String.utf8ByteSize_singleton]
    omega
  rw [← List.singleton_append, List.append_assoc, bytesOf_append, bytesOf_append]
  omega

/-! ## The end of a block and of a level, by the tokens -/

/-- What is left after the block just opened: the tokens after the one that closes its bracket. -/
def afterBlock (pending : Option Bracket) (tokens : List Token) : List Token :=
  match pending with
  | none => tokens
  | some b => (untilClosed [b] tokens).2.tail

/-- The tokens from the first one on that is to be stopped before, outside of all blocks. The brackets are those that are open at
the first token. -/
def fromStop (stop : Token → Bool) (stack : List Bracket) : List Token → List Token
  | [] => []
  | t :: rest => if stack.isEmpty && stop t then t :: rest else fromStop stop (nest stack t) rest

/-- Nothing is stopped before until the open brackets are closed. -/
theorem fromStop_of_ne_nil (stop : Token → Bool) {stack : List Bracket} (h : stack ≠ []) (ts : List Token) :
    fromStop stop stack ts = fromStop stop [] (untilClosed stack ts).2.tail := by
  induction ts generalizing stack with
  | nil => rfl
  | cons t ts ih =>
    have hstack : stack.isEmpty = false := by simpa using h
    rw [fromStop, hstack, Bool.false_and, if_neg (by simp), untilClosed]
    split
    · next hclosed => rw [hclosed, List.tail_cons]
    · next hopen => exact ih hopen

/-- With a block pending, the search for a stop begins after the block. -/
theorem fromStop_pending (stop : Token → Bool) (pending : Option Bracket) (ts : List Token) :
    fromStop stop pending.toList ts = fromStop stop [] (afterBlock pending ts) := by
  cases pending with
  | none => rfl
  | some b => exact fromStop_of_ne_nil stop (by simp) ts

theorem nest_nil (t : Token) : nest [] t = t.opens?.toList := by
  cases t <;> rfl

/-! ## Blocks and levels before what follows them -/

/-- A block just opened, with what follows it: it is closed, or the text ends with it. -/
inductive OpenBlock : Option Bracket → Option (List Node × Option Lexeme) → List Lexeme → Prop where
  | none {after : List Lexeme} : OpenBlock none none after
  | closed {b : Bracket} {contents : List Node} {x : Lexeme} {after : List Lexeme} (body : Nested (some b) true contents)
      (closes : x.token = .closer b) : OpenBlock (some b) (some (contents, some x)) after
  | unclosed {b : Bracket} {closed : Bool} {contents : List Node} (body : Nested (some b) closed contents) :
      OpenBlock (some b) (some (contents, none)) []

/-- Nodes of one level, with what follows them: a block is left open only where the text ends. -/
def LevelBefore (nodes : List Node) (after : List Lexeme) : Prop :=
  ∃ inside closed, Nested inside closed nodes ∧ (closed = false → after = [])

/-- A node begins with its head. -/
theorem Node.exists_lexemes_eq_cons (n : Node) : ∃ x, x.token = n.head ∧ n.lexemes = x :: openLexemes n.inside? := by
  cases n with
  | leaf x => exact ⟨x, rfl, rfl⟩
  | block opener contents closer => exact ⟨opener, rfl, rfl⟩

/-- The tokens of a level start with that of its first node. -/
theorem Node.map_token_cons (n : Node) (rest : List Node) (after : List Lexeme) :
    (Node.lexemesAll (n :: rest) ++ after).map Lexeme.token =
      n.head :: (openLexemes n.inside? ++ (Node.lexemesAll rest ++ after)).map Lexeme.token := by
  obtain ⟨x, hx, hlexemes⟩ := n.exists_lexemes_eq_cons
  rw [Node.lexemesAll, hlexemes, ← hx]
  simp

/-- The block just opened is passed over. -/
theorem OpenBlock.afterBlock_eq {pending : Option Bracket} {opened : Option (List Node × Option Lexeme)} {after : List Lexeme}
    (h : OpenBlock pending opened after) :
    afterBlock pending ((openLexemes opened ++ after).map Lexeme.token) = after.map Lexeme.token := by
  cases h with
  | none => rfl
  | @closed b contents x _ body closes =>
    have hclose : nest [b] x.token = [] := nest_of_closes closes []
    have htokens : (openLexemes (some (contents, some x)) ++ after).map Lexeme.token =
        Node.tokensAll contents ++ x.token :: after.map Lexeme.token := by simp [openLexemes, Node.tokensAll]
    rw [afterBlock, htokens, body.untilClosed_append rfl (by simp), untilClosed, if_pos hclose, List.tail_cons]
  | @unclosed b _ contents body =>
    have htokens : (openLexemes (some (contents, .none)) ++ []).map Lexeme.token = Node.tokensAll contents := by
      simp [openLexemes, Node.tokensAll]
    rw [afterBlock, htokens, body.untilClosed_end rfl (by simp)]
    rfl

/-- Where no bracket was opened there is no block. -/
theorem OpenBlock.opened_eq_none {pending : Option Bracket} {opened : Option (List Node × Option Lexeme)} {after : List Lexeme}
    (h : OpenBlock pending opened after) (hp : pending = .none) : opened = .none := by
  cases h with
  | none => rfl
  | closed _ _ => cases hp
  | unclosed _ => cases hp

namespace LevelBefore

/-- A node of a level is a block exactly if its first token opens one. -/
theorem openBlock {n : Node} {rest : List Node} {after : List Lexeme} (h : LevelBefore (n :: rest) after) :
    OpenBlock n.head.opens? n.inside? (Node.lexemesAll rest ++ after) := by
  obtain ⟨inside, closed, hn, hend⟩ := h
  cases hn with
  | leaf opens _ _ =>
    rw [Node.head, opens]
    exact .none
  | block opens closes body _ =>
    rw [Node.head, opens]
    exact .closed body closes
  | unclosed opens body =>
    obtain rfl := hend rfl
    rw [Node.head, opens]
    exact .unclosed body

theorem tail {n : Node} {rest : List Node} {after : List Lexeme} (h : LevelBefore (n :: rest) after) :
    LevelBefore rest after := by
  obtain ⟨inside, closed, hn, hend⟩ := h
  cases hn with
  | leaf _ _ tail => exact ⟨inside, closed, tail, hend⟩
  | block _ _ _ tail => exact ⟨inside, closed, tail, hend⟩
  | unclosed _ _ => exact ⟨inside, true, .nil, by simp⟩

/-- What is level before a stretch is so for every last part of it. -/
theorem of_suffix {nodes part : List Node} {after : List Lexeme} (h : LevelBefore nodes after) (hp : part <:+ nodes) :
    LevelBefore part after := by
  obtain ⟨before, rfl⟩ := hp
  induction before with
  | nil => exact h
  | cons n before ih => exact ih h.tail

/-- What stands before other nodes of a level is followed by these. -/
theorem of_append {ns ms : List Node} {after : List Lexeme} (h : LevelBefore (ns ++ ms) after) :
    LevelBefore ns (Node.lexemesAll ms ++ after) := by
  obtain ⟨inside, closed, hn, hend⟩ := h
  cases ms with
  | nil => exact ⟨inside, closed, by rwa [List.append_nil] at hn, hend⟩
  | cons m ms => exact ⟨inside, true, hn.of_append_cons.1, by simp⟩

/-- A level with no token to stop before is passed over. -/
theorem fromStop_eq {nodes : List Node} {after : List Lexeme} (h : LevelBefore nodes after) {stop : Token → Bool}
    (hp : ∀ n ∈ nodes, stop n.head = false) :
    fromStop stop [] ((Node.lexemesAll nodes ++ after).map Lexeme.token) = fromStop stop [] (after.map Lexeme.token) := by
  induction nodes with
  | nil => rfl
  | cons n rest ih =>
    have hhead : stop n.head = false := hp n List.mem_cons_self
    rw [Node.map_token_cons, fromStop, hhead, Bool.and_false, if_neg (by simp), nest_nil, fromStop_pending,
      h.openBlock.afterBlock_eq]
    exact ih h.tail fun m hm => hp m (List.mem_cons_of_mem n hm)

end LevelBefore

/-! ## What holds of every reader -/

/-- No node of a block starts with the bracket that closes the block. -/
theorem Nested.head_ne_closer {b : Bracket} {closed : Bool} {nodes : List Node} (h : Nested (some b) closed nodes) {n : Node}
    (hn : n ∈ nodes) : n.head ≠ .closer b := by
  cases n with
  | leaf x =>
    obtain ⟨before, after, rfl⟩ := List.append_of_mem hn
    cases h.of_append_cons.2 with
    | leaf _ stays _ => exact stays b rfl
  | block opener contents closer =>
    obtain ⟨c, -, hopens, -⟩ := h.of_mem_block hn
    intro hcloser
    rw [Node.head] at hcloser
    rw [hcloser] at hopens
    cases hopens

/-- The lexemes ahead are those of the open block and those of the nodes after it. -/
theorem Cursor.lexemes_eq (c : Cursor) : c.lexemes = openLexemes c.opened ++ Node.lexemesAll c.rest := by
  obtain ⟨opened, rest⟩ := c
  cases opened <;> rfl

/-- The next token is the head of the first node, and its block, if it opens one, is pending. -/
theorem Cursor.next_of_rest {c : Cursor} {n : Node} {rest : List Node} (h : c.rest = n :: rest) :
    c.next = (some n.head, ⟨n.inside?, rest⟩) := by
  rw [next, h]
  cases n <;> rfl

/-- The next token is that of the next node, and opens the block that the node is. -/
theorem Cursor.exists_of_next {c d : Cursor} {t : Token} (h : c.next = (some t, d)) :
    ∃ n rest, c.rest = n :: rest ∧ t = n.head ∧ d = ⟨n.inside?, rest⟩ := by
  cases hrest : c.rest with
  | nil =>
    rw [next, hrest] at h
    cases h
  | cons n rest =>
    rw [next_of_rest hrest] at h
    obtain ⟨ht, rfl⟩ := Prod.mk.inj h
    exact ⟨n, rest, rfl, (Option.some.inj ht).symm, rfl⟩

namespace Reading

/-- What the fields of a reader have to do with each other and with the text. -/
structure Sound (text : String) (s : Reading) : Prop where
  /-- What is left is what the text ends with, from a token on. -/
  suffix : s.left <:+ tokenize text.toList
  level : LevelBefore s.cursor.rest s.beyond
  block : OpenBlock s.pending s.cursor.opened (Node.lexemesAll s.cursor.rest ++ s.beyond)
  /-- The reader is not to stop at any node of its level. -/
  passes : ∀ n ∈ s.cursor.rest, s.stop n.head = false
  /-- What it cannot come to starts with a token to stop before. -/
  stops : ∀ x ∈ s.beyond.head?, s.stop x.token = true

/-- A place further on at the same level, with no block opened. -/
theorem Sound.moved {text : String} {s : Reading} (h : s.Sound text) {rest : List Node} (hr : rest <:+ s.cursor.rest) :
    (s.moved ⟨none, rest⟩).Sound text where
  suffix := by
    obtain ⟨before, hbefore⟩ := hr
    refine List.IsSuffix.trans ⟨openLexemes s.cursor.opened ++ Node.lexemesAll before, ?_⟩ h.suffix
    rw [left, left, Reading.moved, Cursor.lexemes_eq s.cursor, ← hbefore, Node.lexemesAll_append]
    simp [Cursor.lexemes]
  level := h.level.of_suffix hr
  block := .none
  passes n hn := h.passes n (hr.subset hn)
  stops := h.stops

/-- One more token. -/
theorem Sound.next {text : String} {s : Reading} (h : s.Sound text) {t : Token} {d : Cursor}
    (hn : s.cursor.next = (some t, d)) : ({ s with cursor := d, pending := t.opens? } : Reading).Sound text := by
  obtain ⟨n, rest, hrest, rfl, rfl⟩ := Cursor.exists_of_next hn
  obtain ⟨x, -, hlexemes⟩ := n.exists_lexemes_eq_cons
  have hlevel := h.level
  rw [hrest] at hlevel
  refine ⟨?_, hlevel.tail, hlevel.openBlock, fun m hm => h.passes m (hrest ▸ List.mem_cons_of_mem _ hm), h.stops⟩
  refine List.IsSuffix.trans ⟨openLexemes s.cursor.opened ++ [x], ?_⟩ h.suffix
  rw [left, left, Cursor.lexemes_eq, Cursor.lexemes_eq s.cursor, hrest, Node.lexemesAll, hlexemes]
  simp

/-- The contents of the block just opened. -/
theorem Sound.into {text : String} {s : Reading} (h : s.Sound text) {b : Bracket} {contents : List Node}
    {closer : Option Lexeme} (hp : s.pending = some b) (ho : s.cursor.opened = some (contents, closer)) :
    (s.into b contents closer).Sound text := by
  have hblock := h.block
  have hleft : (s.into b contents closer).left = s.left := by
    rw [left, left, Cursor.lexemes_eq s.cursor, ho, openLexemes]
    simp [Reading.into, Cursor.lexemes, Cursor.ofNodes]
  have hpasses : ∀ {closed : Bool}, Nested (some b) closed contents → ∀ n ∈ contents, decide (n.head = .closer b) = false :=
    fun hnested n hn => decide_eq_false (hnested.head_ne_closer hn)
  rw [hp, ho] at hblock
  generalize hafter : Node.lexemesAll s.cursor.rest ++ s.beyond = after at hblock
  cases hblock with
  | closed body closes =>
    refine ⟨hleft ▸ h.suffix, ⟨_, _, body, by simp⟩, .none, hpasses body, ?_⟩
    rintro x hx
    obtain rfl := Option.some.inj hx
    exact decide_eq_true closes
  | unclosed body =>
    have hbeyond : (s.into b contents none).beyond = [] := hafter
    refine ⟨hleft ▸ h.suffix, ⟨_, _, body, fun _ => hbeyond⟩, .none, hpasses body, ?_⟩
    rw [hbeyond]
    rintro x ⟨⟩

/-- A part of the level, up to a token that is to be stopped before as well. -/
theorem Sound.stopping {text : String} {s : Reading} (h : s.Sound text) (delimiters : Token → Bool) :
    (s.stopping delimiters).Sound text := by
  let inside (n : Node) : Bool := !delimiters n.head
  have hsplit : s.cursor.rest.takeWhile inside ++ s.cursor.rest.dropWhile inside = s.cursor.rest :=
    List.takeWhile_append_dropWhile
  have hlexemes : Node.lexemesAll (s.cursor.rest.takeWhile inside) ++
      (Node.lexemesAll (s.cursor.rest.dropWhile inside) ++ s.beyond) = Node.lexemesAll s.cursor.rest ++ s.beyond := by
    rw [← List.append_assoc, ← Node.lexemesAll_append, hsplit]
  have hleft : (s.stopping delimiters).left = s.left := by
    rw [left, left, Cursor.lexemes_eq, Cursor.lexemes_eq s.cursor, List.append_assoc, List.append_assoc, ← hlexemes]
    rfl
  have hlevel := h.level
  rw [← hsplit] at hlevel
  refine ⟨hleft ▸ h.suffix, hlevel.of_append, ?_, ?_, ?_⟩
  · have hblock := h.block
    rw [← hlexemes] at hblock
    exact hblock
  · intro n hn
    have hstop := h.passes n ((List.takeWhile_prefix inside).subset hn)
    have hdelimiter : inside n = true := by
      have hall := List.all_takeWhile (p := inside) (l := s.cursor.rest)
      exact List.all_eq_true.1 hall n hn
    simpa [Reading.stopping, hstop, inside] using hdelimiter
  · show ∀ x ∈ (Node.lexemesAll (s.cursor.rest.dropWhile inside) ++ s.beyond).head?, (s.stop x.token || delimiters x.token) = true
    have hhead := List.head?_dropWhile_not inside s.cursor.rest
    cases hdrop : s.cursor.rest.dropWhile inside with
    | nil =>
      intro x hx
      rw [h.stops x hx, Bool.true_or]
    | cons n rest =>
      rw [hdrop] at hhead
      have hdelimiter : delimiters n.head = true := by simpa [inside] using hhead
      obtain ⟨y, hy, hlexemes⟩ := n.exists_lexemes_eq_cons
      rw [Node.lexemesAll, hlexemes]
      rintro x ⟨⟩
      rw [hy, hdelimiter, Bool.or_true]

/-- Every reader that there can be is sound. -/
theorem Reachable.sound {text : String} {s : Reading} (h : s.Reachable text) : s.Sound text := by
  induction h with
  | start =>
    obtain ⟨closed, hnested⟩ := nested_group (tokenize text.toList)
    refine ⟨?_, ⟨none, closed, hnested, fun _ => rfl⟩, .none, fun _ _ => rfl, fun x hx => nomatch hx⟩
    rw [left, Cursor.lexemes_eq, List.append_nil]
    exact (lexemesAll_group (tokenize text.toList)) ▸ List.suffix_refl _
  | next _ read ih => exact ih.next read
  | skip _ ih => exact ih.moved (List.dropWhile_suffix _)
  | leave _ ih => exact ih.moved (List.suffix_refl _)
  | enter _ pending opened ih => exact ih.into pending opened
  | stopping _ delimiters ih => exact ih.stopping delimiters

/-- The position of a reader is after the tokens that were read. -/
theorem Sound.exists_read {text : String} {s : Reading} (h : s.Sound text) :
    ∃ read, tokenize text.toList = read ++ s.left ∧ s.position text = bytesOf read := by
  obtain ⟨read, hread⟩ := h.suffix
  refine ⟨read, hread.symm, ?_⟩
  rw [position, ← bytesOf_tokenize, ← hread, bytesOf_append]
  omega

/-- The block just opened ends where the nodes of the level go on. -/
theorem Sound.afterBlock_tokens {text : String} {s : Reading} (h : s.Sound text) :
    afterBlock s.pending s.tokens = (Node.lexemesAll s.cursor.rest ++ s.beyond).map Lexeme.token := by
  rw [tokens, left, Cursor.lexemes_eq, List.append_assoc]
  exact h.block.afterBlock_eq

/-- The first token that the reader is to stop before is the first of those that it cannot come to. -/
theorem Sound.fromStop_tokens {text : String} {s : Reading} (h : s.Sound text) :
    fromStop s.stop s.pending.toList s.tokens = s.beyond.map Lexeme.token := by
  rw [fromStop_pending, h.afterBlock_tokens, h.level.fromStop_eq h.passes]
  cases hbeyond : s.beyond with
  | nil => rfl
  | cons x rest =>
    have hx : s.stop x.token = true := h.stops x (by rw [hbeyond]; rfl)
    rw [List.map_cons, fromStop, if_pos (by simp [hx])]

end Reading

end StyleCheck
