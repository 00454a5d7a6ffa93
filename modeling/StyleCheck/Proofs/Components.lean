import StyleCheck.Component

/-!
# Components of nodes

The reader of values moves a cursor and tries one kind of literal after another. Here the same is said by recursion on the
nodes: each node is a component by itself, and none depends on what stands beside it. Main statement: `readComponents_eq`.
-/

namespace StyleCheck

/-- The component of a token that is a literal. -/
def Token.literal? : Token → Option Value
  | .hash name => (Color.ofHex? name).map .color
  | .ident name => some (.keyword (lower name))
  | .number value _ => some (.number value)
  | .percentage fraction => some (.percentage fraction)
  | .dimension value unit => (LengthUnit.ofSuffix? unit).map fun u => .length ⟨value, u⟩
  | _ => none

/-- The component of a token that has no contents. -/
def Token.component (t : Token) : Except ValueError Value :=
  match t.literal? with
  | some v => .ok v
  | none =>
    match t with
    | .function name => .ok (valueOfFunction name [])
    | t => valueOfToken t

mutual

/-- The component that a node is. A function is a color if its arguments are channels of one. -/
def Node.component : Node → Except ValueError Value
  | .leaf x => x.token.component
  | .block ⟨.function name, _⟩ contents _ =>
    match (channels? contents).bind (Color.ofChannels? name) with
    | some color => .ok (.color color)
    | none => (componentsOf contents).map (valueOfFunction name)
  | .block opener _ _ => opener.token.component

/-- The components that nodes are, without white space and comments between them. -/
def componentsOf : List Node → Except ValueError (List Value)
  | [] => .ok []
  | n :: rest =>
    if n.isTrivia then componentsOf rest
    else
      match n.component with
      | .error e => .error e
      | .ok v => (componentsOf rest).map (v :: ·)

end

/-! ## One component -/

/-- A token that opens no arguments is a literal, or what is left for its kind to decide. -/
theorem Token.component_of_ne_function {t : Token} (h : ∀ name, t ≠ .function name) :
    t.component = t.literal?.elim (valueOfToken t) .ok := by
  rw [Token.component]
  · cases t.literal? <;> rfl
  · exact h

/-- The literals are tried one after the other, and the next token is of the form of one of them at most. -/
theorem readLiteral?_of_next {c d : Cursor} {t : Token} (h : c.next = (some t, d)) (hf : ∀ name, t ≠ .function name) :
    readLiteral? c = t.literal?.map (·, d) := by
  unfold readLiteral? attempt readColor readIdent readNumber readPercentage readLength readToken
  rw [h]
  cases t with
  | function name => exact absurd rfl (hf name)
  | hash name => cases hc : Color.ofHex? name <;> simp [Token.literal?, hc]
  | dimension value unit => cases hu : LengthUnit.ofSuffix? unit <;> simp [Token.literal?, hu]
  | _ => simp [Token.literal?]

/-- Before a function, only the color among the literals can be read: from its arguments, which are then passed over. -/
theorem readLiteral?_function {c d : Cursor} {name : String} (h : c.next = (some (.function name), d)) :
    readLiteral? c = ((channels? d.contents).bind (Color.ofChannels? name)).map fun color => (.color color, d.leave) := by
  unfold readLiteral? attempt readColor readIdent readNumber readPercentage readLength readToken
  rw [h]
  cases hc : (channels? d.contents).bind (Color.ofChannels? name) <;> simp [hc]

/-- A component and the place after it. -/
def readOne (c : Cursor) : Except ValueError (Value × Cursor) := (readComponent c).map fun r => (r.1, r.2.1)

/-- Before a token that opens no arguments, that token is the component. -/
theorem readOne_of_next {c d : Cursor} {t : Token} (h : c.skipTrivia.next = (some t, d)) (hf : ∀ name, t ≠ .function name) :
    readOne c = t.component.map (·, d) := by
  have hl := readLiteral?_of_next h hf
  rw [readOne, readComponent, Token.component_of_ne_function hf]
  split
  · next v e hsome =>
    rw [hl, Option.map_eq_some_iff] at hsome
    obtain ⟨w, hw, hwe⟩ := hsome
    obtain ⟨rfl, rfl⟩ := Prod.mk.inj hwe
    rw [hw]
    rfl
  · next hnone =>
    rw [hl, Option.map_eq_none_iff] at hnone
    rw [hnone]
    split
    · next hn => rw [h] at hn; cases hn
    · next name e hn =>
      rw [h] at hn
      exact absurd (Option.some.inj (Prod.mk.inj hn).1) (hf name)
    · next token e _ hn =>
      rw [h] at hn
      obtain ⟨htoken, rfl⟩ := Prod.mk.inj hn
      obtain rfl := Option.some.inj htoken
      simp only [Option.elim_none]
      cases valueOfToken t <;> rfl

/-- Before a function, the color is tried first; if it is none, the arguments are read from where the attempt began. -/
theorem readOne_function {c d : Cursor} {name : String} (h : c.skipTrivia.next = (some (.function name), d)) :
    readOne c =
      match (channels? d.contents).bind (Color.ofChannels? name) with
      | some color => .ok (.color color, d.leave)
      | none => (readComponents (.ofNodes d.contents)).map fun arguments => (valueOfFunction name arguments, d.leave) := by
  have hl := readLiteral?_function h
  rw [readOne, readComponent]
  split
  · next v e hsome =>
    rw [hl, Option.map_eq_some_iff] at hsome
    obtain ⟨color, hcolor, he⟩ := hsome
    obtain ⟨rfl, rfl⟩ := Prod.mk.inj he
    rw [hcolor]
    rfl
  · next hnone =>
    rw [hl, Option.map_eq_none_iff] at hnone
    rw [hnone]
    split
    · next hn => rw [h] at hn; cases hn
    · next name' e hn =>
      rw [h] at hn
      obtain ⟨hname, rfl⟩ := Prod.mk.inj hn
      cases hname
      cases readComponents (.ofNodes d.contents) <;> rfl
    · next token e hf hn =>
      rw [h] at hn
      exact absurd (Option.some.inj (Prod.mk.inj hn).1).symm (hf name)

/-- The two forms of a function that is no color: a `url` of one string is a url, and all else is a function under its name in small
letters. -/
theorem valueOfFunction_cases (name : String) (arguments : List Value) :
    eqIgnoringCase name "url" = true ∧ (∃ s, arguments = [.string s] ∧ valueOfFunction name arguments = .url s) ∨
      ¬(eqIgnoringCase name "url" = true ∧ ∃ s, arguments = [.string s]) ∧
        valueOfFunction name arguments = .function (lower name) arguments := by
  unfold valueOfFunction
  split
  · next text hurl => exact .inl ⟨hurl, text, rfl, rfl⟩
  · next hother =>
    refine .inr ⟨?_, rfl⟩
    rintro ⟨hurl, s, rfl⟩
    exact hother s hurl rfl

/-- Nothing has no components. -/
theorem readComponents_nil : readComponents (.ofNodes []) = .ok [] := by
  rw [readComponents]
  rfl

/-- A component is its node, if the contents of the node are read as they should be. -/
theorem readOne_eq {c : Cursor} {n : Node} {rest : List Node} (hc : c.rest.dropWhile Node.isTrivia = n :: rest)
    (hin : ∀ opener contents closer, n = .block opener contents closer →
      readComponents (.ofNodes contents) = componentsOf contents) :
    ∃ d : Cursor, d.rest = rest ∧ readOne c = n.component.map (·, d) := by
  cases n with
  | leaf x =>
    obtain ⟨t, source⟩ := x
    have hnext : c.skipTrivia.next = (some t, ⟨none, rest⟩) := by rw [Cursor.skipTrivia, hc, Cursor.next]
    refine ⟨⟨none, rest⟩, rfl, ?_⟩
    by_cases hf : ∃ name, t = .function name
    · obtain ⟨name, rfl⟩ := hf
      have hcontents : (Cursor.mk none rest).contents = [] := rfl
      rw [readOne_function hnext, hcontents, readComponents_nil]
      rfl
    · exact readOne_of_next hnext fun name hname => hf ⟨name, hname⟩
  | block opener contents closer =>
    obtain ⟨t, source⟩ := opener
    have hnext : c.skipTrivia.next = (some t, ⟨some (contents, closer), rest⟩) := by
      rw [Cursor.skipTrivia, hc, Cursor.next]
    by_cases hf : ∃ name, t = .function name
    · obtain ⟨name, rfl⟩ := hf
      have hcontents : (Cursor.mk (some (contents, closer)) rest).contents = contents := rfl
      refine ⟨⟨none, rest⟩, rfl, ?_⟩
      rw [readOne_function hnext, hcontents, hin _ contents closer rfl, Node.component]
      cases (channels? contents).bind (Color.ofChannels? name) with
      | some color => rfl
      | none => cases componentsOf contents <;> rfl
    · refine ⟨⟨some (contents, closer), rest⟩, rfl, ?_⟩
      rw [readOne_of_next hnext fun name hname => hf ⟨name, hname⟩, Node.component]
      exact fun name _ hname => hf ⟨name, (Lexeme.mk.inj hname).1⟩

/-! ## All components -/

/-- White space and comments before the first component do not matter. -/
theorem componentsOf_dropWhile (nodes : List Node) : componentsOf (nodes.dropWhile Node.isTrivia) = componentsOf nodes := by
  induction nodes with
  | nil => rfl
  | cons n rest ih =>
    rw [List.dropWhile_cons]
    split
    · next hn => rw [ih, componentsOf, if_pos hn]
    · rfl

/-- Where something is left, one component is read, and then the others from the place after it. -/
theorem readComponents_of_readOne {c : Cursor} (h : c.atEnd = false) :
    readComponents c =
      match readOne c with
      | .error e => .error e
      | .ok (v, d) => (readComponents d).map (v :: ·) := by
  rw [readComponents, if_neg (Bool.eq_false_iff.1 h), readOne]
  cases readComponent c with
  | error e => rfl
  | ok r =>
    simp only [Except.map]
    cases readComponents r.2.1 <;> rfl

/-- Less is left after a component. -/
theorem readOne_size {c d : Cursor} {v : Value} (h : readOne c = .ok (v, d)) : d.size < c.size := by
  unfold readOne at h
  cases hr : readComponent c with
  | error e => rw [hr] at h; cases h
  | ok r =>
    rw [hr] at h
    obtain ⟨-, rfl⟩ := Prod.mk.inj (Except.ok.inj h)
    exact r.2.2

/-- Less is left inside of the next block than before it. -/
theorem Cursor.size_of_dropWhile {c : Cursor} {opener : Lexeme} {contents rest : List Node} {closer : Option Lexeme}
    (h : c.rest.dropWhile Node.isTrivia = .block opener contents closer :: rest) :
    (Cursor.ofNodes contents).size < c.size := by
  have hle := c.size_skipTrivia_le
  have hlexemes : c.skipTrivia.lexemes = Node.lexemesAll (.block opener contents closer :: rest) := by
    rw [skipTrivia, lexemes, h]
  rw [size, hlexemes, Node.lexemesAll, Node.lexemes] at hle
  simp only [List.cons_append, List.length_cons, List.length_append] at hle
  have hcontents : (ofNodes contents).size = (Node.lexemesAll contents).length := rfl
  omega

/-- What is read from a place depends on the nodes of its level only, and is what they are. -/
theorem readComponents_eq (c : Cursor) : readComponents c = componentsOf c.rest := by
  -- by induction on what is left: less is left inside of a block and after a component
  induction hsize : c.size using Nat.strongRecOn generalizing c with
  | ind size ih =>
    subst hsize
    rw [← componentsOf_dropWhile]
    cases hc : c.rest.dropWhile Node.isTrivia with
    | nil =>
      have hend : c.atEnd = true := by rw [Cursor.atEnd, Cursor.skipTrivia, hc]; rfl
      rw [readComponents, if_pos hend, componentsOf]
    | cons n rest =>
      have hend : c.atEnd = false := by rw [Cursor.atEnd, Cursor.skipTrivia, hc]; rfl
      have hn : n.isTrivia = false := by
        have hhead := List.head?_dropWhile_not Node.isTrivia c.rest
        rwa [hc] at hhead
      obtain ⟨d, hd, hone⟩ := readOne_eq hc (by
        rintro opener contents closer rfl
        exact ih _ (Cursor.size_of_dropWhile hc) (.ofNodes contents) rfl)
      rw [readComponents_of_readOne hend, hone, componentsOf, if_neg (Bool.eq_false_iff.1 hn)]
      cases hv : n.component with
      | error e => rfl
      | ok v =>
        rw [hv] at hone
        have hrest := ih d.size (readOne_size hone) d rfl
        rw [hd] at hrest
        simp only [Except.map, hrest]

/-- Where nodes are components, the first of them is passed over or is the first component. -/
theorem componentsOf_cons_eq_ok {n : Node} {rest : List Node} {vs : List Value} (h : componentsOf (n :: rest) = .ok vs) :
    n.isTrivia = true ∧ componentsOf rest = .ok vs ∨
      n.isTrivia = false ∧ ∃ v ws, n.component = .ok v ∧ componentsOf rest = .ok ws ∧ vs = v :: ws := by
  rw [componentsOf] at h
  split at h
  · next ht => exact .inl ⟨ht, h⟩
  · next ht =>
    refine .inr ⟨Bool.eq_false_iff.2 ht, ?_⟩
    cases hv : n.component with
    | error e => rw [hv] at h; cases h
    | ok v =>
      cases hr : componentsOf rest with
      | error e => rw [hv, hr] at h; cases h
      | ok ws =>
        rw [hv, hr] at h
        exact ⟨v, ws, rfl, rfl, (Except.ok.inj h).symm⟩

/-- Nodes side by side have the components of both. -/
theorem componentsOf_append {ns ms : List Node} {vs ws : List Value} (hv : componentsOf ns = .ok vs)
    (hw : componentsOf ms = .ok ws) : componentsOf (ns ++ ms) = .ok (vs ++ ws) := by
  induction ns generalizing vs with
  | nil =>
    cases hv
    exact hw
  | cons n rest ih =>
    rw [List.cons_append, componentsOf]
    rcases componentsOf_cons_eq_ok hv with ⟨ht, hrest⟩ | ⟨ht, v, us, hn, hrest, rfl⟩
    · rw [if_pos ht]
      exact ih hrest
    · rw [ht, hn, ih hrest]
      rfl

end StyleCheck
