import StyleCheck.Proofs.Components

/-!
# One token decides a component

A component is tried as one kind of literal after another, each time from the same place, and only what none of them takes is
decided by its token. Here the same is done in one step: pass over white space and comments, read one token, and go by its kind
alone. Main statement: `readComponent_eq_dispatch`, that both read the same component, or refuse it for the same reason, and that
both come to the same place, from wherever they start.
-/

namespace StyleCheck

/-- The component of a token that opens no arguments, by its kind. A number is never a length, not even a zero. -/
def Token.dispatch : Token → Except ValueError Value
  | .ident name => .ok (.keyword (lower name))
  | .number value _ => .ok (.number value)
  | .percentage fraction => .ok (.percentage fraction)
  | .dimension value unit =>
    match LengthUnit.ofSuffix? unit with
    | some u => .ok (.length ⟨value, u⟩)
    | none => .ok (.dimension value (lower unit))
  | .hash name =>
    match Color.ofHex? name with
    | some color => .ok (.color color)
    | none => .error .invalidColor
  | .comma => .ok .separator
  | .string text => .ok (.string text)
  | .url text => .ok (.url text)
  | .delim c => .ok (.delimiter c)
  | _ => .error .unexpectedToken

/-- The component of a function with the given contents: a color, a url, or the function with what its contents are as
arguments. -/
def dispatchFunction (name : String) (contents : List Node) : Except ValueError Value :=
  match (channels? contents).bind (Color.ofChannels? name) with
  | some color => .ok (.color color)
  | none =>
    match componentsOf contents with
    | .error e => .error e
    | .ok [.string text] => .ok (if eqIgnoringCase name "url" then .url text else .function (lower name) [.string text])
    | .ok arguments => .ok (.function (lower name) arguments)

/-- The component that starts at a place, after any white space and comments, and the place after it, by one token. -/
def dispatch (c : Cursor) : Except ValueError (Value × Cursor) :=
  match c.skipTrivia.next with
  | (none, _) => .error .unexpectedToken
  | (some (.function name), d) => (dispatchFunction name d.contents).map (·, d.leave)
  | (some t, d) => t.dispatch.map (·, d)

/-- What is first tried as a literal and then decided by its token is decided by its kind. -/
theorem Token.component_eq_dispatch {t : Token} (h : ∀ name, t ≠ .function name) : t.component = t.dispatch := by
  rw [Token.component_of_ne_function h]
  cases t with
  | function name => exact absurd rfl (h name)
  | hash name =>
    rw [Token.literal?, Token.dispatch, valueOfToken]
    cases Color.ofHex? name <;> rfl
  | dimension value unit =>
    rw [Token.literal?, Token.dispatch, valueOfToken]
    cases LengthUnit.ofSuffix? unit <;> rfl
  | _ => rfl

/-- What a function is that is no color, is decided by its name and by what its contents are. -/
theorem dispatchFunction_eq (name : String) (contents : List Node) :
    dispatchFunction name contents =
      match (channels? contents).bind (Color.ofChannels? name) with
      | some color => .ok (.color color)
      | none => (readComponents (.ofNodes contents)).map (valueOfFunction name) := by
  rw [dispatchFunction, readComponents_eq]
  cases (channels? contents).bind (Color.ofChannels? name) with
  | some color => rfl
  | none =>
    have hcontents : (Cursor.ofNodes contents).rest = contents := rfl
    rw [hcontents]
    cases componentsOf contents with
    | error e => rfl
    | ok arguments =>
      dsimp only [Except.map]
      rcases valueOfFunction_cases name arguments with ⟨hurl, text, rfl, hv⟩ | ⟨hother, hv⟩
      · rw [hv]
        simp only [hurl, if_true]
      · rw [hv]
        split
        · next h => cases h
        · next text h =>
          obtain rfl := Except.ok.inj h
          have hurl : ¬eqIgnoringCase name "url" = true := fun hurl => hother ⟨hurl, text, rfl⟩
          rw [if_neg hurl]
        · next h =>
          obtain rfl := Except.ok.inj h
          rfl

/-- A token that is no function is dispatched by itself. -/
theorem dispatch_of_next {c d : Cursor} {t : Token} (h : c.skipTrivia.next = (some t, d)) (hf : ∀ name, t ≠ .function name) :
    dispatch c = t.dispatch.map (·, d) := by
  unfold dispatch
  rw [h]
  cases t with
  | function name => exact absurd rfl (hf name)
  | _ => rfl

/-- A function is dispatched by its name and its contents, and the place after it follows its bracket. -/
theorem dispatch_function {c d : Cursor} {name : String} (h : c.skipTrivia.next = (some (.function name), d)) :
    dispatch c = (dispatchFunction name d.contents).map (·, d.leave) := by
  unfold dispatch
  rw [h]

/-! ## Where no token is left -/

/-- No literal stands where there is nothing left. -/
theorem readLiteral?_of_end {c : Cursor} (h : c.next.1 = none) : readLiteral? c = none := by
  rcases hn : c.next with ⟨t, d⟩
  rw [hn] at h
  obtain rfl := h
  unfold readLiteral? attempt readColor readIdent readNumber readPercentage readLength readToken
  rw [hn]
  rfl

/-- Nothing is read where only blanks and comments are left. -/
theorem readOne_of_end {c : Cursor} (h : c.skipTrivia.next.1 = none) : readOne c = .error .unexpectedToken := by
  rw [readOne, readComponent]
  split
  · next hsome =>
    rw [readLiteral?_of_end h] at hsome
    cases hsome
  · split
    · rfl
    · next hn => rw [hn] at h; cases h
    · next hn => rw [hn] at h; cases h

/-! ## What is left for the token to decide -/

/-- After white space and comments comes neither. -/
theorem Cursor.isTrivia_of_next_skipTrivia {c d : Cursor} {t : Token} (h : c.skipTrivia.next = (some t, d)) :
    t.isTrivia = false := by
  have hhead := List.head?_dropWhile_not Node.isTrivia c.rest
  rw [skipTrivia] at h
  cases hc : c.rest.dropWhile Node.isTrivia with
  | nil => rw [hc, next] at h; cases h
  | cons n rest =>
    rw [hc] at hhead h
    cases n with
    | leaf x =>
      obtain ⟨ht, -⟩ := Prod.mk.inj h
      rw [← Option.some.inj ht]
      exact hhead
    | block opener contents closer =>
      obtain ⟨ht, -⟩ := Prod.mk.inj h
      rw [← Option.some.inj ht]
      exact hhead

/-- A token that no reader of literals took has no form as a literal. -/
theorem literal?_eq_none_of_readLiteral? {c d : Cursor} {t : Token} (hl : readLiteral? c = none) (h : c.next = (some t, d)) :
    t.literal? = none := by
  by_cases hf : ∃ name, t = .function name
  · obtain ⟨name, rfl⟩ := hf
    rfl
  · rw [readLiteral?_of_next h fun name hname => hf ⟨name, hname⟩] at hl
    exact Option.map_eq_none_iff.1 hl

/-- Trying the literals in turn comes to what one token decides: the same component and the same place after it, or the same
reason to refuse it, at any place and whatever stands there. What is left for the token to decide is then never white space, a
comment, an identifier, a number or a percentage. -/
theorem readComponent_eq_dispatch (c : Cursor) :
    (readComponent c).map (fun r => (r.1, r.2.1)) = dispatch c ∧
      ∀ t d, readLiteral? c.skipTrivia = none → c.skipTrivia.next = (some t, d) →
        t.isTrivia = false ∧ (∀ name, t ≠ .ident name) ∧ (∀ value int, t ≠ .number value int) ∧
          ∀ fraction, t ≠ .percentage fraction := by
  constructor
  · show readOne c = dispatch c
    rcases hn : c.skipTrivia.next with ⟨t, d⟩
    cases t with
    | none => rw [readOne_of_end (by rw [hn]), dispatch, hn]
    | some t =>
      by_cases hf : ∃ name, t = .function name
      · obtain ⟨name, rfl⟩ := hf
        rw [readOne_function hn, dispatch_function hn, dispatchFunction_eq]
        cases (channels? d.contents).bind (Color.ofChannels? name) with
        | some color => rfl
        | none => cases readComponents (.ofNodes d.contents) <;> rfl
      · have hne : ∀ name, t ≠ .function name := fun name hname => hf ⟨name, hname⟩
        rw [readOne_of_next hn hne, dispatch_of_next hn hne, Token.component_eq_dispatch hne]
  · intro t d hl hn
    have hnone := literal?_eq_none_of_readLiteral? hl hn
    refine ⟨Cursor.isTrivia_of_next_skipTrivia hn, ?_, ?_, ?_⟩
    · rintro name rfl
      cases hnone
    · rintro value int rfl
      cases hnone
    · rintro fraction rfl
      cases hnone

/-- A function that is called like a color and starts like one is no color, and has all of its arguments; a `url` of one string is
a url. -/
theorem readComponent_eq_dispatch_rewound :
    let c := Cursor.ofNodes (nodesOf "RGB( , F(B)\"s\")")
    let c' := Cursor.ofNodes (nodesOf "/**/Url( \"u\")")
    (∃ d, (readComponent c).map (fun r => (r.1, r.2.1)) =
        .ok (.function "rgb" [.separator, .function "f" [.keyword "b"], .string "s"], d)) ∧
      ∃ d, (readComponent c').map (fun r => (r.1, r.2.1)) = .ok (.url "u", d) := by
  intro c c'
  have htokens : tokenize "RGB( , F(B)\"s\")".toList = [⟨.function "RGB", ['R', 'G', 'B', '(']⟩, ⟨.space, [' ']⟩,
      ⟨.comma, [',']⟩, ⟨.space, [' ']⟩, ⟨.function "F", ['F', '(']⟩, ⟨.ident "B", ['B']⟩, ⟨.closer .round, [')']⟩,
      ⟨.string "s", ['"', 's', '"']⟩, ⟨.closer .round, [')']⟩] := by decide +kernel
  have htokens' : tokenize "/**/Url( \"u\")".toList = [⟨.comment, ['/', '*', '*', '/']⟩, ⟨.function "Url", ['U', 'r', 'l', '(']⟩,
      ⟨.space, [' ']⟩, ⟨.string "u", ['"', 'u', '"']⟩, ⟨.closer .round, [')']⟩] := by decide +kernel
  rw [(readComponent_eq_dispatch c).1, (readComponent_eq_dispatch c').1]
  simp only [c, c', nodesOf, htokens, htokens']
  exact ⟨⟨_, rfl⟩, _, rfl⟩

end StyleCheck
