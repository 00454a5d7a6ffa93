import StyleCheck.Block
import StyleCheck.Proofs.Boundary
import StyleCheck.Proofs.Components
import StyleCheck.Proofs.LetterCase
import StyleCheck.Proofs.Nesting

/-!
# What the readers see of a text

The readers of values and declarations see the tokens of a text other than white space and comments, and of the names among
them no more than their small letters; from where in the text a token was read is told to nobody but the log. The essence of
nodes is what is left of them without the rest: white space and comments are taken out at every depth, sources are forgotten, and
a function `f` that changes at most the case of letters is applied to every text.

Main statements: `group_essence`, that the essence of the nodes of a text is what its remaining tokens are grouped into, and
`declarationsOf_essenceAll`, that the essence has the same declarations, with `f` applied to the contents of their strings and
urls. So declarations are the same wherever the remaining tokens are (`parseDeclarations_of_significant_eq`).
-/

namespace StyleCheck

/-- The text that a token carries. -/
def Token.text? : Token → Option String
  | .ident text | .atKeyword text | .hash text | .string text | .url text | .dimension _ text | .function text => some text
  | _ => none

/-- The token with `f` applied to the text it carries. -/
def Token.mapText (f : String → String) : Token → Token
  | .ident name => .ident (f name)
  | .atKeyword name => .atKeyword (f name)
  | .hash name => .hash (f name)
  | .string text => .string (f text)
  | .url text => .url (f text)
  | .dimension value unit => .dimension value (f unit)
  | .function name => .function (f name)
  | t => t

mutual

/-- The value with `f` applied to the contents of every string and url in it. -/
def Value.mapText (f : String → String) : Value → Value
  | .list items => .list (Value.mapTextAll f items)
  | .string text => .string (f text)
  | .url text => .url (f text)
  | .function name arguments => .function name (Value.mapTextAll f arguments)
  | v => v

/-- The values with `f` applied to the contents of every string and url in them. -/
def Value.mapTextAll (f : String → String) : List Value → List Value
  | [] => []
  | v :: rest => v.mapText f :: Value.mapTextAll f rest

end

/-- The declaration with `f` applied to the contents of every string and url in its value. -/
def Declaration.mapText (f : String → String) (d : Declaration) : Declaration :=
  ⟨d.name, d.value.mapText f, d.important⟩

/-- The token as a lexeme without a source. -/
def Token.bare (t : Token) : Lexeme := ⟨t, []⟩

/-- The lexeme with `f` applied to its text and its source forgotten. -/
def Lexeme.essence (f : String → String) (x : Lexeme) : Lexeme := (x.token.mapText f).bare

/-- Whether the node is white space or a comment and no block. -/
def Node.isSpacing (n : Node) : Bool := n.isToken .space || n.isToken .comment

mutual

/-- The essence of a node. -/
def Node.essence (f : String → String) : Node → Node
  | .leaf x => .leaf (x.essence f)
  | .block opener contents closer =>
    .block (opener.essence f) (Node.essenceAll f contents) (closer.map (Lexeme.essence f))

/-- The essence of several nodes, without the white space and comments among them. -/
def Node.essenceAll (f : String → String) : List Node → List Node
  | [] => []
  | n :: rest => if n.isSpacing then Node.essenceAll f rest else n.essence f :: Node.essenceAll f rest

end

/-- The lexemes other than white space and comments, each without its source. -/
def essenceOf (f : String → String) (xs : List Lexeme) : List Lexeme :=
  (xs.filter (!·.token.isTrivia)).map (Lexeme.essence f)

/-- The tokens of a text other than white space and comments. -/
def significantTokens (text : String) : List Token := (tokensOf text).filter (!·.isTrivia)

/-! ## Texts under a change of case -/

/-- Changing the texts of values is changing those of each. -/
theorem Value.mapTextAll_eq_map (f : String → String) (vs : List Value) : Value.mapTextAll f vs = vs.map (Value.mapText f) := by
  induction vs with
  | nil => rfl
  | cons v vs ih => rw [Value.mapTextAll, ih, List.map_cons]

/-- Changing the texts of components changes those of the value that they make. -/
theorem Value.ofComponents_map_mapText (f : String → String) (vs : List Value) :
    Value.ofComponents (vs.map (Value.mapText f)) = (Value.ofComponents vs).mapText f := by
  match vs with
  | [] => rfl
  | [v] => rfl
  | v :: w :: rest => simp [Value.ofComponents, Value.mapText, Value.mapTextAll_eq_map]

/-- A token stays white space, a comment or neither when its text is changed. -/
@[simp]
theorem Token.isTrivia_mapText (f : String → String) (t : Token) : (t.mapText f).isTrivia = t.isTrivia := by
  cases t <;> rfl

/-- A token opens the same bracket when its text is changed. -/
@[simp]
theorem Token.opens?_mapText (f : String → String) (t : Token) : (t.mapText f).opens? = t.opens? := by
  cases t <;> rfl

/-- A token whose text is left alone is the same. -/
theorem Token.mapText_id (t : Token) : t.mapText id = t := by
  cases t <;> rfl

/-- Tokens that are made lexemes and read off again are the same. -/
@[simp]
theorem map_token_map_bare (ts : List Token) : (ts.map Token.bare).map Lexeme.token = ts := by
  rw [List.map_map]
  exact List.map_id'' (fun _ => rfl) ts

/-- The text of a changed token is the changed text of the token. -/
theorem Token.text?_mapText (f : String → String) (t : Token) : (t.mapText f).text? = t.text?.map f := by
  cases t <;> rfl

/-- A token without a text has none to be changed. -/
theorem Token.mapText_of_text?_eq_none {t : Token} (f : String → String) (h : t.text? = none) : t.mapText f = t := by
  cases t <;> first | rfl | cases h

/-- A token without a text is told apart from all others whatever happens to their texts. -/
theorem Token.mapText_eq_iff {f : String → String} {t u : Token} (ht : t.text? = none) : u.mapText f = t ↔ u = t := by
  constructor
  · intro h
    have hu : u.text? = none := by
      have htext := Token.text?_mapText f u
      rwa [h, ht, eq_comm, Option.map_eq_none_iff] at htext
    rwa [Token.mapText_of_text?_eq_none f hu] at h
  · rintro rfl
    exact Token.mapText_of_text?_eq_none f ht

/-- Blanks are trimmed alike in small letters. -/
theorem trimBlank_map_toLower (cs : List Char) : trimBlank (cs.map Char.toLower) = (trimBlank cs).map Char.toLower := by
  have hblank : isBlank ∘ Char.toLower = isBlank := funext (apply_toLower isBlank (by decide))
  simp only [trimBlank, List.dropWhile_map, ← List.map_reverse, hblank]

/-- The digits of a color mean the same in small letters. -/
theorem Color.ofHex?_lower (text : String) : Color.ofHex? (lower text) = Color.ofHex? text := by
  have hdigit : hexDigit? ∘ Char.toLower = hexDigit? := funext (apply_toLower hexDigit? (by decide))
  rw [Color.ofHex?, Color.ofHex?, toList_lower, trimBlank_map_toLower, List.mapM_map, hdigit]

section

variable {f : String → String} (hf : ∀ s, lower (f s) = lower s)

include hf

/-- A change of case is not seen by a comparison without regard to case. -/
theorem eqIgnoringCase_mapText (a b : String) : eqIgnoringCase (f a) b = eqIgnoringCase a b := by
  rw [eqIgnoringCase, eqIgnoringCase, hf]

/-- A unit is known in either case. -/
theorem LengthUnit.ofSuffix?_mapText (suffix : String) :
    LengthUnit.ofSuffix? (f suffix) = LengthUnit.ofSuffix? suffix := by
  simp only [LengthUnit.ofSuffix?, eqIgnoringCase, hf]

/-- The digits of a color mean the same in either case. -/
theorem Color.ofHex?_mapText (text : String) : Color.ofHex? (f text) = Color.ofHex? text := by
  rw [← Color.ofHex?_lower (f text), hf, Color.ofHex?_lower]

/-- A function is a color in either case. -/
theorem Color.ofChannels?_mapText (name : String) (channels : List Int) :
    Color.ofChannels? (f name) channels = Color.ofChannels? name channels := by
  simp only [Color.ofChannels?, hf]

/-- A function with changed texts in its arguments is the changed function, also if it is a url. -/
theorem valueOfFunction_mapText (name : String) (arguments : List Value) :
    valueOfFunction (f name) (arguments.map (Value.mapText f)) = (valueOfFunction name arguments).mapText f := by
  unfold valueOfFunction
  rw [eqIgnoringCase_mapText hf, hf]
  cases eqIgnoringCase name "url" with
  | false => simp [Value.mapText, Value.mapTextAll_eq_map]
  | true =>
    match arguments with
    | [] => rfl
    | [v] => cases v <;> simp [Value.mapText, Value.mapTextAll_eq_map]
    | v :: w :: rest => simp [Value.mapText, Value.mapTextAll_eq_map]

/-- The component of a changed token is the changed component, since names are made small in components. -/
theorem Token.component_mapText (t : Token) : (t.mapText f).component = t.component.map (Value.mapText f) := by
  cases t with
  | hash name =>
    simp only [Token.mapText, Token.component, Token.literal?, valueOfToken, Color.ofHex?_mapText hf]
    cases Color.ofHex? name <;> rfl
  | dimension value unit =>
    simp only [Token.mapText, Token.component, Token.literal?, valueOfToken, LengthUnit.ofSuffix?_mapText hf, hf]
    cases LengthUnit.ofSuffix? unit <;> rfl
  | ident name =>
    simp only [Token.mapText, Token.component, Token.literal?, hf]
    rfl
  | function name => exact congrArg Except.ok (valueOfFunction_mapText hf name [])
  | _ => rfl

end

/-! ## Nodes -/

/-- A node that is white space or a comment starts with one. -/
theorem Node.isTrivia_of_isSpacing {n : Node} (h : n.isSpacing = true) : n.isTrivia = true := by
  cases n with
  | leaf x =>
    rcases Bool.or_eq_true_iff.1 h with hx | hx
    · rw [Node.isTrivia, Node.head, of_decide_eq_true hx]; rfl
    · rw [Node.isTrivia, Node.head, of_decide_eq_true hx]; rfl
  | block opener contents closer => cases h

/-- White space and comments are no other token. -/
theorem Node.isToken_eq_false_of_isSpacing {n : Node} {t : Token} (ht : t.isTrivia = false) (h : n.isSpacing = true) :
    n.isToken t = false := by
  have htrivia := Node.isTrivia_of_isSpacing h
  cases n with
  | block opener contents closer => rfl
  | leaf x =>
    refine decide_eq_false fun hx => ?_
    rw [Node.isTrivia, Node.head, hx, ht] at htrivia
    cases htrivia

/-- White space and comments are left out of the essence. -/
theorem Node.essenceAll_of_isSpacing (f : String → String) {n : Node} (h : n.isSpacing = true) (rest : List Node) :
    Node.essenceAll f (n :: rest) = Node.essenceAll f rest := by
  rw [Node.essenceAll, if_pos h]

/-- Every other node is in the essence with what is left of it. -/
theorem Node.essenceAll_of_not_isSpacing (f : String → String) {n : Node} (h : n.isSpacing = false) (rest : List Node) :
    Node.essenceAll f (n :: rest) = n.essence f :: Node.essenceAll f rest := by
  rw [Node.essenceAll, if_neg (Bool.eq_false_iff.1 h)]

/-- The essence of nodes is that of each, after white space and comments are taken out. -/
theorem Node.essenceAll_eq_map (f : String → String) (nodes : List Node) :
    Node.essenceAll f nodes = (nodes.filter (!·.isSpacing)).map (Node.essence f) := by
  induction nodes with
  | nil => rfl
  | cons n rest ih =>
    cases hn : n.isSpacing with
    | true => simp [Node.essenceAll_of_isSpacing f hn, ih, hn]
    | false => simp [Node.essenceAll_of_not_isSpacing f hn, ih, hn]

/-- A node and its essence are both white space or a comment, or neither is. -/
@[simp]
theorem Node.isTrivia_essence (f : String → String) (n : Node) : (n.essence f).isTrivia = n.isTrivia := by
  cases n <;> simp [Node.essence, Node.isTrivia, Node.head, Lexeme.essence, Token.bare]

/-- A token without a text stays the same in the essence. -/
theorem Node.isToken_essence (f : String → String) {t : Token} (ht : t.text? = none) (n : Node) :
    (n.essence f).isToken t = n.isToken t := by
  cases n with
  | leaf x => simp only [Node.essence, Node.isToken, Lexeme.essence, Token.bare, Token.mapText_eq_iff ht]
  | block opener contents closer => rfl

/-- A curly block stays one in the essence. -/
theorem Node.isCurly_essence (f : String → String) (n : Node) : (n.essence f).isCurly = n.isCurly := by
  cases n with
  | leaf x => rfl
  | block opener contents closer =>
    simp only [Node.essence, Node.isCurly, Lexeme.essence, Token.bare, Token.mapText_eq_iff (t := .opener .curly) rfl]

/-- What may stand between declarations may do so in the essence. -/
theorem Node.isBetweenItems_essence (f : String → String) (n : Node) : (n.essence f).isBetweenItems = n.isBetweenItems := by
  simp only [Node.isBetweenItems, Node.isTrivia_essence, Node.isToken_essence f (t := .semicolon) rfl,
    Node.isToken_essence f (t := .closer .curly) rfl]

/-- Where nodes are cut at the first one that fails a test, their essence is cut at the same place. -/
theorem Node.takeWhile_essenceAll (f : String → String) {p : Node → Bool} (hp : ∀ n, p (n.essence f) = p n)
    (hs : ∀ n, n.isSpacing = true → p n = true) (nodes : List Node) :
    (Node.essenceAll f nodes).takeWhile p = Node.essenceAll f (nodes.takeWhile p) := by
  induction nodes with
  | nil => rfl
  | cons n rest ih =>
    cases hn : n.isSpacing with
    | true => rw [Node.essenceAll_of_isSpacing f hn, List.takeWhile_cons_of_pos (hs n hn), Node.essenceAll_of_isSpacing f hn, ih]
    | false =>
      rw [Node.essenceAll_of_not_isSpacing f hn, List.takeWhile_cons, List.takeWhile_cons, hp, ih]
      split
      · rw [Node.essenceAll_of_not_isSpacing f hn]
      · rfl

/-- What is passed over at the start of nodes is passed over in their essence, if white space and comments are. -/
theorem Node.dropWhile_essenceAll (f : String → String) {p : Node → Bool} (hp : ∀ n, p (n.essence f) = p n)
    (hs : ∀ n, n.isSpacing = true → p n = true) (nodes : List Node) :
    (Node.essenceAll f nodes).dropWhile p = Node.essenceAll f (nodes.dropWhile p) := by
  induction nodes with
  | nil => rfl
  | cons n rest ih =>
    cases hn : n.isSpacing with
    | true => rw [Node.essenceAll_of_isSpacing f hn, List.dropWhile_cons_of_pos (hs n hn), ih]
    | false =>
      rw [Node.essenceAll_of_not_isSpacing f hn, List.dropWhile_cons, List.dropWhile_cons, hp, ih]
      split
      · rfl
      · rw [Node.essenceAll_of_not_isSpacing f hn]

/-- What follows the cut is the essence of what followed it before. -/
theorem Node.drop_one_dropWhile_essenceAll (f : String → String) {p : Node → Bool} (hp : ∀ n, p (n.essence f) = p n)
    (hs : ∀ n, n.isSpacing = true → p n = true) (nodes : List Node) :
    ((Node.essenceAll f nodes).dropWhile p).drop 1 = Node.essenceAll f ((nodes.dropWhile p).drop 1) := by
  rw [Node.dropWhile_essenceAll f hp hs]
  cases hd : nodes.dropWhile p with
  | nil => rfl
  | cons n rest =>
    have hn : p n = false := by
      have hhead := List.head?_dropWhile_not p nodes
      rwa [hd] at hhead
    have hspacing : n.isSpacing = false := by
      cases h : n.isSpacing with
      | false => rfl
      | true => rw [hs n h] at hn; cases hn
    rw [Node.essenceAll_of_not_isSpacing f hspacing]
    rfl

/-! ## Tokens and their grouping -/

/-- The essence of nested nodes is nested. -/
theorem Nested.essenceAll (f : String → String) {inside : Option Bracket} {closed : Bool} {nodes : List Node}
    (h : Nested inside closed nodes) : Nested inside closed (Node.essenceAll f nodes) := by
  induction h with
  | nil => exact nil
  | @leaf _ _ x rest opens stays _ ih =>
    cases hx : (Node.leaf x).isSpacing with
    | true => rwa [Node.essenceAll_of_isSpacing f hx]
    | false =>
      rw [Node.essenceAll_of_not_isSpacing f hx]
      refine leaf ?_ (fun b hb hc => stays b hb ?_) ih
      · rw [Lexeme.essence, Token.bare, Token.opens?_mapText, opens]
      · exact (Token.mapText_eq_iff rfl).1 hc
  | block opens closes _ _ ihBody ihTail =>
    rw [Node.essenceAll_of_not_isSpacing f rfl]
    refine block ?_ ?_ ihBody ihTail
    · rw [Lexeme.essence, Token.bare, Token.opens?_mapText, opens]
    · exact (Token.mapText_eq_iff rfl).2 closes
  | unclosed opens _ ihBody =>
    rw [Node.essenceAll_of_not_isSpacing f rfl]
    refine unclosed ?_ ihBody
    rw [Lexeme.essence, Token.bare, Token.opens?_mapText, opens]

/-- The essence of lexemes side by side is that of both. -/
theorem essenceOf_append (f : String → String) (xs ys : List Lexeme) :
    essenceOf f (xs ++ ys) = essenceOf f xs ++ essenceOf f ys := by
  simp [essenceOf]

/-- A lexeme that is no white space and no comment is in the essence. -/
theorem essenceOf_cons (f : String → String) {x : Lexeme} (h : x.token.isTrivia = false) (xs : List Lexeme) :
    essenceOf f (x :: xs) = x.essence f :: essenceOf f xs := by
  simp [essenceOf, h]

/-- A leaf is white space or a comment if its token is. -/
theorem isSpacing_leaf (x : Lexeme) : (Node.leaf x).isSpacing = x.token.isTrivia := by
  obtain ⟨token, source⟩ := x
  cases token <;> rfl

/-- The lexemes of the essence of nodes are the essence of their lexemes. -/
theorem Nested.lexemesAll_essenceAll (f : String → String) {inside : Option Bracket} {closed : Bool} {nodes : List Node}
    (h : Nested inside closed nodes) : Node.lexemesAll (Node.essenceAll f nodes) = essenceOf f (Node.lexemesAll nodes) := by
  induction h with
  | nil => rfl
  | @leaf _ _ x rest _ _ _ ih =>
    have hall : Node.lexemesAll (.leaf x :: rest) = x :: Node.lexemesAll rest := rfl
    cases hx : x.token.isTrivia with
    | true =>
      rw [Node.essenceAll_of_isSpacing f ((isSpacing_leaf x).trans hx), ih, hall]
      simp [essenceOf, hx]
    | false =>
      rw [Node.essenceAll_of_not_isSpacing f ((isSpacing_leaf x).trans hx), hall, essenceOf_cons f hx, ← ih]
      rfl
  | @block _ _ b opener closer contents rest opens closes _ _ ihBody ihTail =>
    have hcloser : closer.token.isTrivia = false := by rw [closes]; rfl
    rw [Node.essenceAll_of_not_isSpacing f rfl, Node.essence, Node.lexemesAll_block, Node.lexemesAll_block,
      essenceOf_cons f (isTrivia_of_opens opens), essenceOf_append, essenceOf_append, ihBody, ihTail]
    simp [essenceOf, hcloser]
  | @unclosed _ _ b opener contents opens _ ihBody =>
    rw [Node.essenceAll_of_not_isSpacing f rfl, Node.essence, Node.lexemesAll_block, Node.lexemesAll_block,
      essenceOf_cons f (isTrivia_of_opens opens), essenceOf_append, essenceOf_append, ihBody]
    rfl

/-- The essence of the nodes of a text is what its tokens other than white space and comments are grouped into. -/
theorem group_essence (f : String → String) (xs : List Lexeme) : group (essenceOf f xs) = Node.essenceAll f (group xs) := by
  obtain ⟨closed, hn⟩ := nested_group xs
  have hlexemes := hn.lexemesAll_essenceAll f
  rw [lexemesAll_group] at hlexemes
  rw [← hlexemes, group_lexemesAll (hn.essenceAll f)]

/-! ## Values -/

/-- Numbers and commas are all that counts for the channels of a color. -/
theorem channels?_essenceAll (f : String → String) (nodes : List Node) : channels? (Node.essenceAll f nodes) = channels? nodes := by
  induction nodes with
  | nil => rfl
  | cons n rest ih =>
    cases n with
    | block opener contents closer =>
      rw [Node.essenceAll_of_not_isSpacing f rfl]
      rfl
    | leaf x =>
      obtain ⟨token, source⟩ := x
      cases token with
      | space => exact ih
      | comment => exact ih
      | comma => exact ih
      | number value int =>
        rw [Node.essenceAll_of_not_isSpacing f rfl]
        cases int with
        | none => rfl
        | some k => exact congrArg (Option.map (k :: ·)) ih
      | _ =>
        rw [Node.essenceAll_of_not_isSpacing f rfl]
        rfl

mutual

/-- The essence of a node is the same component, with `f` applied to the contents of its strings and urls. -/
theorem Node.component_essence {f : String → String} (hf : ∀ s, lower (f s) = lower s) (n : Node) :
    (n.essence f).component = n.component.map (Value.mapText f) := by
  match n with
  | .leaf x => exact Token.component_mapText hf x.token
  | .block ⟨t, source⟩ contents closer =>
    by_cases ht : ∃ name, t = .function name
    · obtain ⟨name, rfl⟩ := ht
      simp only [Node.essence, Lexeme.essence, Token.bare, Token.mapText, Node.component, channels?_essenceAll,
        componentsOf_essenceAll hf contents]
      have hcolor : (Color.ofChannels? (f name)) = Color.ofChannels? name := funext (Color.ofChannels?_mapText hf name)
      rw [hcolor]
      cases (channels? contents).bind (Color.ofChannels? name) with
      | some color => rfl
      | none =>
        cases componentsOf contents with
        | error e => rfl
        | ok arguments => exact congrArg Except.ok (valueOfFunction_mapText hf name arguments)
    · have hne : ∀ name, t ≠ .function name := fun name h => ht ⟨name, h⟩
      have hne' : ∀ name, t.mapText f ≠ .function name := by
        intro name h
        cases t <;> first | exact hne _ rfl | cases h
      rw [Node.essence, Node.component, Node.component]
      · exact Token.component_mapText hf t
      · exact fun name _ h => hne name (Lexeme.mk.inj h).1
      · exact fun name _ h => hne' name (Lexeme.mk.inj h).1

/-- The essence of nodes has the same components, with `f` applied to the contents of their strings and urls. -/
theorem componentsOf_essenceAll {f : String → String} (hf : ∀ s, lower (f s) = lower s) (nodes : List Node) :
    componentsOf (Node.essenceAll f nodes) = (componentsOf nodes).map (List.map (Value.mapText f)) := by
  match nodes with
  | [] => rfl
  | n :: rest =>
    have ih := componentsOf_essenceAll hf rest
    cases hs : n.isSpacing with
    | true => rw [Node.essenceAll_of_isSpacing f hs, ih, componentsOf, if_pos (Node.isTrivia_of_isSpacing hs)]
    | false =>
      rw [Node.essenceAll_of_not_isSpacing f hs, componentsOf, componentsOf, Node.isTrivia_essence]
      split
      · exact ih
      · rw [Node.component_essence hf n, ih]
        cases n.component with
        | error e => rfl
        | ok v => cases componentsOf rest <;> rfl

end

/-! ## Declarations -/

section

variable {f : String → String} (hf : ∀ s, lower (f s) = lower s)

include hf

/-- A node is an identifier of a given spelling, in either case, exactly if its essence is. -/
theorem Node.isIdent_essence (spelling : String) (n : Node) : (n.essence f).isIdent spelling = n.isIdent spelling := by
  cases n with
  | block opener contents closer => rfl
  | leaf x =>
    obtain ⟨token, source⟩ := x
    cases token with
    | ident name => exact eqIgnoringCase_mapText hf name spelling
    | _ => rfl

omit hf in
/-- Taking out white space and comments from the essence of nodes is the same as taking them out before. -/
theorem Node.filter_essenceAll (nodes : List Node) :
    (Node.essenceAll f nodes).filter (!·.isTrivia) = (nodes.filter (!·.isTrivia)).map (Node.essence f) := by
  induction nodes with
  | nil => rfl
  | cons n rest ih =>
    cases hs : n.isSpacing with
    | true => simp [Node.essenceAll_of_isSpacing f hs, ih, Node.isTrivia_of_isSpacing hs]
    | false =>
      rw [Node.essenceAll_of_not_isSpacing f hs, List.filter_cons, List.filter_cons, Node.isTrivia_essence, ih]
      split <;> rfl

/-- The mark of importance is read alike from the essence. -/
theorem readImportance_essenceAll (nodes : List Node) : readImportance (Node.essenceAll f nodes) = readImportance nodes := by
  rw [readImportance, readImportance, Node.filter_essenceAll]
  generalize nodes.filter (!·.isTrivia) = left
  match left with
  | [] => rfl
  | [n] => rfl
  | [mark, word] =>
    simp only [List.map_cons, List.map_nil, Node.isIdent_essence hf, Node.isToken_essence f (t := .delim '!') rfl]
  | a :: b :: c :: rest => rfl

/-- What stands after the colon of a declaration is read alike from the essence, but for strings and urls. -/
theorem readDeclared_essenceAll (name : String) (nodes : List Node) :
    readDeclared (f name) (Node.essenceAll f nodes) = (readDeclared name nodes).map (Declaration.mapText f) := by
  have hp : ∀ n : Node, (!(n.essence f).isToken (.delim '!')) = !n.isToken (.delim '!') :=
    fun n => congrArg not (Node.isToken_essence f rfl n)
  have hs : ∀ n : Node, n.isSpacing = true → (!n.isToken (.delim '!')) = true :=
    fun n hn => congrArg not (Node.isToken_eq_false_of_isSpacing rfl hn)
  simp only [readDeclared, readComponents_eq, Cursor.ofNodes]
  rw [Node.takeWhile_essenceAll f hp hs, Node.dropWhile_essenceAll f hp hs, componentsOf_essenceAll hf,
    readImportance_essenceAll hf, hf]
  cases componentsOf (nodes.takeWhile fun n => !n.isToken (.delim '!')) with
  | error e => rfl
  | ok components =>
    cases components with
    | nil => rfl
    | cons v vs =>
      cases readImportance (nodes.dropWhile fun n => !n.isToken (.delim '!')) with
      | error e => rfl
      | ok important =>
        refine congrArg Except.ok ?_
        rw [Declaration.mapText, ← Value.ofComponents_map_mapText]

/-- A declaration is read alike from the essence, but for strings and urls. -/
theorem readDeclaration_essenceAll (name : String) (nodes : List Node) :
    readDeclaration (f name) (Node.essenceAll f nodes) = (readDeclaration name nodes).map (Declaration.mapText f) := by
  rw [readDeclaration, readDeclaration,
    Node.dropWhile_essenceAll f (Node.isTrivia_essence f) fun n hn => Node.isTrivia_of_isSpacing hn]
  cases hd : nodes.dropWhile Node.isTrivia with
  | nil => rfl
  | cons n rest =>
    have htrivia : n.isTrivia = false := by
      have hhead := List.head?_dropWhile_not Node.isTrivia nodes
      rwa [hd] at hhead
    have hspacing : n.isSpacing = false := by
      cases hn : n.isSpacing with
      | false => rfl
      | true => rw [Node.isTrivia_of_isSpacing hn] at htrivia; cases htrivia
    rw [Node.essenceAll_of_not_isSpacing f hspacing]
    simp only [Node.isToken_essence f (t := .colon) rfl]
    split
    · exact readDeclared_essenceAll hf name rest
    · rfl

end

/-- An item read from nodes, and one read from their essence: both are the same declaration, up to `f`, or both are skipped,
and what is left in the second case is the essence of what is left in the first. -/
structure SameEssence (f : String → String) (whole bare : Item × List Node) : Prop where
  declaration : bare.1.toOption = whole.1.toOption.map (Declaration.mapText f)
  left : bare.2 = Node.essenceAll f whole.2

/-- A statement ends at the same place in the essence, and is read alike. -/
theorem readStatement_sameEssence {f : String → String} {read read' : List Node → Except SkipReason Declaration}
    (h : ∀ nodes, read' (Node.essenceAll f nodes) = (read nodes).map (Declaration.mapText f)) (n m : Node) (rest : List Node) :
    SameEssence f (readStatement read n rest) (readStatement read' m (Node.essenceAll f rest)) := by
  have hp : ∀ n : Node, (!(n.essence f).isToken .semicolon) = !n.isToken .semicolon :=
    fun n => congrArg not (Node.isToken_essence f rfl n)
  have hs : ∀ n : Node, n.isSpacing = true → (!n.isToken .semicolon) = true :=
    fun n hn => congrArg not (Node.isToken_eq_false_of_isSpacing rfl hn)
  constructor
  · simp only [readStatement, Node.takeWhile_essenceAll f hp hs, h]
    cases read (rest.takeWhile fun n => !n.isToken .semicolon) <;> rfl
  · exact Node.drop_one_dropWhile_essenceAll f hp hs rest

/-- A rule after `@` ends at the same place in the essence, and is skipped for the same reason. -/
theorem skipAtRule_sameEssence (f : String → String) (n m : Node) (rest : List Node) :
    SameEssence f (.error (skipAtRule n rest).1, (skipAtRule n rest).2)
      (.error (skipAtRule m (Node.essenceAll f rest)).1, (skipAtRule m (Node.essenceAll f rest)).2) := by
  have hp : ∀ n : Node, (!((n.essence f).isToken .semicolon || (n.essence f).isCurly)) = !(n.isToken .semicolon || n.isCurly) := by
    intro n
    rw [Node.isToken_essence f rfl, Node.isCurly_essence]
  have hs : ∀ n : Node, n.isSpacing = true → (!(n.isToken .semicolon || n.isCurly)) = true := by
    intro n hn
    rw [Node.isToken_eq_false_of_isSpacing rfl hn]
    cases n with
    | leaf x => rfl
    | block opener contents closer => cases hn
  have hleft : ∀ n l, (skipAtRule n l).2 = (l.dropWhile fun n => !(n.isToken .semicolon || n.isCurly)).drop 1 := by
    intro n l
    unfold skipAtRule
    simp only
    split <;> rfl
  refine ⟨rfl, ?_⟩
  simp only [hleft]
  exact Node.drop_one_dropWhile_essenceAll f hp hs rest

section

variable {f : String → String} (hf : ∀ s, lower (f s) = lower s)

include hf

/-- One item of a list of declarations ends at the same place in the essence, and is read alike. -/
theorem readItem_sameEssence (n : Node) (rest : List Node) :
    SameEssence f (readItem n rest) (readItem (n.essence f) (Node.essenceAll f rest)) := by
  have hrefused : ∀ n m, SameEssence f (readStatement (fun _ => .error .unexpectedToken) n rest)
      (readStatement (fun _ => .error .unexpectedToken) m (Node.essenceAll f rest)) :=
    fun n m => readStatement_sameEssence (fun _ => rfl) n m rest
  cases n with
  | block opener contents closer => exact hrefused _ _
  | leaf x =>
    obtain ⟨token, source⟩ := x
    cases token with
    | ident name => exact readStatement_sameEssence (readDeclaration_essenceAll hf name) _ _ rest
    | atKeyword name => exact skipAtRule_sameEssence f _ _ rest
    | _ => exact hrefused _ _

/-- The essence of nodes has the same declarations, with `f` applied to the contents of their strings and urls. -/
theorem declarationsOf_essenceAll (nodes : List Node) :
    declarationsOf (readItems (Node.essenceAll f nodes)) =
      (declarationsOf (readItems nodes)).map (Declaration.mapText f) := by
  induction nodes using readItems.induct with
  | case1 =>
    rw [Node.essenceAll, readItems]
    rfl
  | case2 n rest hn ih =>
    rw [readItems, if_pos hn, ← ih]
    cases hs : n.isSpacing with
    | true => rw [Node.essenceAll_of_isSpacing f hs]
    | false => rw [Node.essenceAll_of_not_isSpacing f hs, readItems, Node.isBetweenItems_essence, if_pos hn]
  | case3 n rest hn ih =>
    have hspacing : n.isSpacing = false := by
      cases hs : n.isSpacing with
      | false => rfl
      | true => exact absurd (by rw [Node.isBetweenItems, Node.isTrivia_of_isSpacing hs]; rfl) hn
    obtain ⟨hdeclaration, hleft⟩ := readItem_sameEssence hf n rest
    rw [Node.essenceAll_of_not_isSpacing f hspacing, readItems, Node.isBetweenItems_essence, if_neg hn, readItems, if_neg hn,
      declarationsOf, declarationsOf, List.filterMap_cons, List.filterMap_cons, hdeclaration, hleft, ← declarationsOf,
      ← declarationsOf, ih]
    cases (readItem n rest).1.toOption <;> rfl

/-- The declarations of a text are those of its tokens other than white space and comments, up to `f`. -/
theorem declarationsOf_group_essenceOf (xs : List Lexeme) :
    declarationsOf (readItems (group (essenceOf f xs))) =
      (declarationsOf (readItems (group xs))).map (Declaration.mapText f) := by
  rw [group_essence, declarationsOf_essenceAll hf]

end

/-! ## Texts with the same tokens -/

mutual

/-- A value whose texts are left alone is the same. -/
theorem Value.mapText_id (v : Value) : v.mapText id = v := by
  match v with
  | .list items => rw [Value.mapText, Value.mapTextAll_id items]
  | .function name arguments => rw [Value.mapText, Value.mapTextAll_id arguments]
  | .string text => rfl
  | .url text => rfl
  | .keyword _ | .separator | .number _ | .percentage _ | .length _ | .dimension _ _ | .color _ | .delimiter _ => rfl

/-- Values whose texts are left alone are the same. -/
theorem Value.mapTextAll_id (vs : List Value) : Value.mapTextAll id vs = vs := by
  match vs with
  | [] => rfl
  | v :: rest => rw [Value.mapTextAll, Value.mapText_id v, Value.mapTextAll_id rest]

end

/-- The essence of lexemes depends on their tokens only. -/
theorem essenceOf_eq (f : String → String) (xs : List Lexeme) :
    essenceOf f xs = ((xs.map Lexeme.token).filter (!·.isTrivia)).map fun t => (t.mapText f).bare := by
  rw [essenceOf, List.filter_map, List.map_map]
  rfl

/-- Values depend on the tokens other than white space and comments only. -/
theorem componentsOf_congr {xs ys : List Lexeme}
    (h : (xs.map Lexeme.token).filter (!·.isTrivia) = (ys.map Lexeme.token).filter (!·.isTrivia)) :
    componentsOf (group xs) = componentsOf (group ys) := by
  have hid : ∀ r : Except ValueError (List Value), r.map (List.map (Value.mapText id)) = r := by
    intro r
    cases r with
    | error e => rfl
    | ok vs => exact congrArg Except.ok (List.map_id'' Value.mapText_id vs)
  have hessence : ∀ zs, componentsOf (group (essenceOf id zs)) = componentsOf (group zs) := by
    intro zs
    rw [group_essence, componentsOf_essenceAll (f := id) fun _ => rfl, hid]
  rw [← hessence xs, essenceOf_eq, h, ← essenceOf_eq, hessence]

/-- Declarations depend on the tokens other than white space and comments only. -/
theorem declarationsOf_congr {xs ys : List Lexeme}
    (h : (xs.map Lexeme.token).filter (!·.isTrivia) = (ys.map Lexeme.token).filter (!·.isTrivia)) :
    declarationsOf (readItems (group xs)) = declarationsOf (readItems (group ys)) := by
  have hid : ∀ ds : List Declaration, ds.map (Declaration.mapText id) = ds := by
    intro ds
    refine List.map_id'' (fun d => ?_) ds
    rw [Declaration.mapText, Value.mapText_id]
  rw [← hid (declarationsOf (readItems (group xs))), ← declarationsOf_group_essenceOf (f := id) (fun _ => rfl), essenceOf_eq, h,
    ← essenceOf_eq, declarationsOf_group_essenceOf (f := id) (fun _ => rfl), hid]

/-- White space and comments never change the meaning of declarations: two texts with the same tokens otherwise have the same
declarations, and the same block comes of them. -/
theorem parseDeclarations_of_significant_eq {a b : String} (h : significantTokens a = significantTokens b) :
    parseDeclarations a = parseDeclarations b ∧
      ∀ r : Registry, (Block.parse r a).value.entries = (Block.parse r b).value.entries := by
  have hdeclarations : parseDeclarations a = parseDeclarations b := declarationsOf_congr h
  refine ⟨hdeclarations, fun r => ?_⟩
  have hparse : ∀ text, (Block.parse r text).value = (Block.empty.applyAll r (parseDeclarations text)).value.2 := fun _ => rfl
  rw [hparse, hparse, hdeclarations]

/-- White space and comments at every place where they can stand, inside of a function, of `!important` and of a url too. -/
theorem parseDeclarations_of_significant_eq_spaced :
    let a := "A:f(b!)c!important;@m;d:url(x)"
    let b := " A/**/:\tf( b ! /*)*/ ) c ! /**/ important ;\n@m /*;*/; d : url( x )"
    significantTokens a = significantTokens b ∧
      (parseDeclarations b).map (fun d => (d.name, d.important)) = [("a", true), ("d", false)] ∧
      (Block.parse .builtin a).value.entries = (Block.parse .builtin b).value.entries := by
  intro a b
  have htokens : significantTokens a = significantTokens b := by decide +kernel
  have ha : (parseDeclarations a).map (fun d => (d.name, d.important)) = [("a", true), ("d", false)] := by decide +kernel
  obtain ⟨hdeclarations, hblock⟩ := parseDeclarations_of_significant_eq htokens
  exact ⟨htokens, hdeclarations ▸ ha, hblock .builtin⟩

end StyleCheck
