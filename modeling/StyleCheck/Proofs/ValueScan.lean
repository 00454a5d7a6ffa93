import StyleCheck.Proofs.Boundary
import StyleCheck.Proofs.Components
import StyleCheck.Proofs.Nesting

/-!
# Values as a language of tokens

Which texts are values can be told from their tokens in one pass from left to right that only counts open functions. `allow` is
a step of that pass, and `allowAll` the pass. `Nested.agrees` compares it with the components of nodes, node by node; main
statement: `parse_agrees_with_scan`.
-/

namespace StyleCheck

/-- The number of open functions after a token, given the number before it, or why the token cannot stand in a value. -/
def allow (depth : Nat) : Token → Except ValueError Nat
  | .space | .comment | .ident _ | .number _ _ | .percentage _ | .dimension _ _ => .ok depth
  | .comma | .string _ | .url _ | .delim _ => .ok depth
  | .function _ => .ok (depth + 1)
  | .closer b => if b = .round ∧ depth ≠ 0 then .ok (depth - 1) else .error .unexpectedToken
  | .hash name => if (Color.ofHex? name).isSome then .ok depth else .error .invalidColor
  | _ => .error .unexpectedToken

/-- The number of open functions after tokens, or why the first of them that cannot stand there cannot. -/
def allowAll (depth : Nat) (tokens : List Token) : Except ValueError Nat := tokens.foldlM allow depth

/-- Components read or refused, and a scan of their tokens that ends or stops: both fail for the same reason or neither does,
and after closed nodes no more functions are open than before them. -/
def Agrees {α : Type} (closed : Bool) (depth : Nat) (x : Except ValueError α) (y : Except ValueError Nat) : Prop :=
  (∃ e, x = .error e ∧ y = .error e) ∨ ∃ a d, x = .ok a ∧ y = .ok d ∧ (closed = true → d = depth)

/-! ## The scan -/

theorem allowAll_cons (depth : Nat) (t : Token) (ts : List Token) :
    allowAll depth (t :: ts) = (allow depth t).bind (allowAll · ts) := by
  rw [allowAll, List.foldlM_cons]
  rfl

theorem allowAll_append (depth : Nat) (ts us : List Token) :
    allowAll depth (ts ++ us) = (allowAll depth ts).bind (allowAll · us) := by
  rw [allowAll, List.foldlM_append]
  rfl

/-- A scan fails at the first token that cannot stand where it does. -/
theorem allowAll_eq_error_iff {depth : Nat} {ts : List Token} {e : ValueError} :
    allowAll depth ts = .error e ↔
      ∃ before t after d, ts = before ++ t :: after ∧ allowAll depth before = .ok d ∧ allow d t = .error e := by
  constructor
  · intro h
    induction ts generalizing depth with
    | nil => cases h
    | cons t ts ih =>
      rw [allowAll_cons] at h
      cases ht : allow depth t with
      | error e' =>
        rw [ht] at h
        obtain rfl := Except.error.inj h
        exact ⟨[], t, ts, depth, rfl, rfl, ht⟩
      | ok d =>
        rw [ht] at h
        obtain ⟨before, u, after, d', rfl, hbefore, hu⟩ := ih h
        refine ⟨t :: before, u, after, d', rfl, ?_, hu⟩
        rw [allowAll_cons, ht]
        exact hbefore
  · rintro ⟨before, t, after, d, rfl, hbefore, ht⟩
    rw [allowAll_append, hbefore]
    show allowAll d (t :: after) = _
    rw [allowAll_cons, ht]
    rfl

/-- No token by itself makes a value empty. -/
theorem allow_ne_emptyValue (depth : Nat) (t : Token) : allow depth t ≠ .error .emptyValue := by
  cases t with
  | closer b => rw [allow]; split <;> simp
  | hash name => rw [allow]; split <;> simp
  | _ => simp [allow]

/-! ## A step of the scan -/

/-- Blanks and comments are allowed at every depth. -/
theorem allow_of_isTrivia {t : Token} (h : t.isTrivia = true) (depth : Nat) : allow depth t = .ok depth := by
  cases t with
  | space => rfl
  | comment => rfl
  | _ => cases h

/-- A token that opens nothing is a component exactly if it can stand in a value; a closing bracket cannot as long as no
function is open. -/
theorem allow_of_stays {t : Token} {depth : Nat} (h : t.opens? = none) (ht : t.isTrivia = false)
    (hs : t = .closer .round → depth = 0) : allow depth t = t.component.map fun _ => depth := by
  cases t with
  | closer b =>
    cases b with
    | round => rw [hs rfl]; rfl
    | square => rfl
    | curly => rfl
  | hash name =>
    rw [allow, Token.component_of_ne_function (t := .hash name) (by simp), Token.literal?, valueOfToken]
    cases Color.ofHex? name <;> rfl
  | dimension value unit =>
    rw [allow, Token.component_of_ne_function (t := .dimension value unit) (by simp), Token.literal?,
      valueOfToken]
    cases LengthUnit.ofSuffix? unit <;> rfl
  | space => cases ht
  | comment => cases ht
  | opener b => cases h
  | function name => cases h
  | _ => rfl

/-- Arguments that are channels of a color are components in any case: reading them as a color hides nothing. -/
theorem componentsOf_of_channels? {nodes : List Node} {channels : List Int} (h : channels? nodes = some channels) :
    ∃ components, componentsOf nodes = .ok components := by
  induction nodes generalizing channels with
  | nil => exact ⟨[], rfl⟩
  | cons n rest ih =>
    cases n with
    | block => cases h
    | leaf x =>
      obtain ⟨token, source⟩ := x
      cases token with
      | number value int =>
        cases int with
        | none => cases h
        | some k =>
          obtain ⟨others, hothers, -⟩ := Option.map_eq_some_iff.1 h
          obtain ⟨components, hrest⟩ := ih hothers
          refine ⟨.number value :: components, ?_⟩
          rw [componentsOf, hrest]
          rfl
      | comma =>
        obtain ⟨components, hrest⟩ := ih h
        refine ⟨.separator :: components, ?_⟩
        rw [componentsOf, hrest]
        rfl
      | space => exact ih h
      | comment => exact ih h
      | _ => cases h

/-! ## The whole scan -/

/-- Agreement does not depend on what the result is mapped to. -/
theorem Agrees.map {α β : Type} {closed : Bool} {depth : Nat} {x : Except ValueError α} {y : Except ValueError Nat}
    (h : Agrees closed depth x y) (f : α → β) : Agrees closed depth (x.map f) y := by
  rcases h with ⟨e, rfl, hy⟩ | ⟨a, d, rfl, hy⟩
  · exact .inl ⟨e, rfl, hy⟩
  · exact .inr ⟨f a, d, rfl, hy⟩

/-- Two that agree fail with the same errors. -/
theorem Agrees.error_iff {α : Type} {closed : Bool} {depth : Nat} {x : Except ValueError α} {y : Except ValueError Nat}
    (h : Agrees closed depth x y) (e : ValueError) : x = .error e ↔ y = .error e := by
  rcases h with ⟨e', rfl, rfl⟩ | ⟨a, d, rfl, rfl, -⟩
  · rw [Except.error.injEq, Except.error.injEq]
  · simp

/-- Two that agree succeed together. -/
theorem Agrees.ok_iff {α : Type} {closed : Bool} {depth : Nat} {x : Except ValueError α} {y : Except ValueError Nat}
    (h : Agrees closed depth x y) : (∃ a, x = .ok a) ↔ ∃ d, y = .ok d := by
  rcases h with ⟨e, rfl, rfl⟩ | ⟨a, d, rfl, rfl, -⟩
  · simp
  · exact ⟨fun _ => ⟨d, rfl⟩, fun _ => ⟨a, rfl⟩⟩

/-- The scan goes on after a node as the reader does. -/
theorem Agrees.cons {closed : Bool} {depth : Nat} {n : Node} {rest : List Node} {ts us : List Token}
    (hn : n.isTrivia = false) (h : Agrees true depth n.component (allowAll depth ts))
    (hrest : Agrees closed depth (componentsOf rest) (allowAll depth us)) :
    Agrees closed depth (componentsOf (n :: rest)) (allowAll depth (ts ++ us)) := by
  rw [componentsOf, if_neg (Bool.eq_false_iff.1 hn), allowAll_append]
  rcases h with ⟨e, hv, hd⟩ | ⟨v, d, hv, hd, hclosed⟩
  · rw [hv, hd]
    exact .inl ⟨e, rfl, rfl⟩
  · obtain rfl := hclosed rfl
    rw [hv, hd]
    exact hrest.map (v :: ·)

/-- A function opens one more level for its arguments, and is refused exactly if they are. -/
theorem Agrees.function {closed : Bool} {depth : Nat} {contents : List Node}
    (h : Agrees closed (depth + 1) (componentsOf contents) (allowAll (depth + 1) (Node.tokensAll contents))) (name : String)
    (source : List Char) (closer : Option Lexeme) :
    Agrees closed (depth + 1) (Node.component (.block ⟨.function name, source⟩ contents closer))
      (allowAll depth (.function name :: Node.tokensAll contents)) := by
  show Agrees closed (depth + 1) _ (allowAll (depth + 1) (Node.tokensAll contents))
  rw [Node.component]
  cases hc : (channels? contents).bind (Color.ofChannels? name) with
  | none => exact h.map (valueOfFunction name)
  | some color =>
    obtain ⟨channels, hchannels, -⟩ := Option.bind_eq_some_iff.1 hc
    obtain ⟨components, hcomponents⟩ := componentsOf_of_channels? hchannels
    rcases h with ⟨e, hr, hd⟩ | ⟨vs, d, hr, hd, hclosed⟩
    · rw [hcomponents] at hr
      cases hr
    · exact .inr ⟨.color color, d, rfl, hd, hclosed⟩

/-- The closing bracket of a function goes back to the level where the function stands. -/
theorem Agrees.close {α : Type} {depth : Nat} {x : Except ValueError α} {ts : List Token}
    (h : Agrees true (depth + 1) x (allowAll depth ts)) : Agrees true depth x (allowAll depth (ts ++ [.closer .round])) := by
  rw [allowAll_append]
  rcases h with ⟨e, hx, hd⟩ | ⟨a, d, hx, hd, hclosed⟩
  · exact .inl ⟨e, hx, by rw [hd]; rfl⟩
  · obtain rfl := hclosed rfl
    exact .inr ⟨a, depth, hx, by rw [hd]; rfl, fun _ => rfl⟩

/-- Any other block is refused at once. -/
theorem Agrees.of_opener {closed : Bool} {depth : Nat} {opener : Lexeme} {b : Bracket} (h : opener.token = .opener b)
    (contents : List Node) (closer : Option Lexeme) (rest : List Node) (ts : List Token) :
    Agrees closed depth (componentsOf (.block opener contents closer :: rest)) (allowAll depth (opener.token :: ts)) := by
  obtain ⟨token, source⟩ := opener
  obtain rfl := h
  exact .inl ⟨.unexpectedToken, rfl, rfl⟩

/-- Both views of nodes agree: what they are as components, and what a scan of their tokens says. -/
theorem Nested.agrees {inside : Option Bracket} {closed : Bool} {nodes : List Node} (h : Nested inside closed nodes)
    (depth : Nat) (hdepth : inside ≠ some .round → depth = 0) :
    Agrees closed depth (componentsOf nodes) (allowAll depth (Node.tokensAll nodes)) := by
  induction h generalizing depth with
  | nil => exact .inr ⟨[], depth, rfl, rfl, fun _ => rfl⟩
  | @leaf inside closed x rest opens stays _ ih =>
    by_cases ht : x.token.isTrivia = true
    · rw [Node.tokensAll_leaf, allowAll_cons, allow_of_isTrivia ht, componentsOf, Node.isTrivia, Node.head, if_pos ht]
      exact ih depth hdepth
    · have htrivia : x.token.isTrivia = false := Bool.eq_false_iff.2 ht
      have hround : x.token = .closer .round → depth = 0 := fun hx => hdepth fun hi => stays .round hi hx
      have hx : Agrees true depth (Node.component (.leaf x)) (allowAll depth [x.token]) := by
        rw [allowAll_cons, allow_of_stays opens htrivia hround, Node.component]
        cases x.token.component with
        | error e => exact .inl ⟨e, rfl, rfl⟩
        | ok v => exact .inr ⟨v, depth, rfl, rfl, fun _ => rfl⟩
      exact hx.cons (n := .leaf x) htrivia (ih depth hdepth)
  | @block inside closed b opener closer contents rest opens closes _ _ ihBody ihTail =>
    rw [Node.tokensAll_block]
    rcases eq_of_opens opens with hopener | ⟨rfl, name, hname⟩
    · exact .of_opener hopener contents _ rest _
    · have hcontents := ihBody (depth + 1) fun hi => absurd rfl hi
      obtain ⟨token, source⟩ := opener
      obtain rfl := hname
      have hblock := (hcontents.function name source (some closer)).close
      have hall := hblock.cons rfl (ihTail depth hdepth)
      rw [← closes] at hall
      exact hall
  | @unclosed inside closed b opener contents opens _ ihBody =>
    rw [Node.tokensAll_block]
    rcases eq_of_opens opens with hopener | ⟨rfl, name, hname⟩
    · exact .of_opener hopener contents none [] _
    · have hcontents := ihBody (depth + 1) fun hi => absurd rfl hi
      obtain ⟨token, source⟩ := opener
      obtain rfl := hname
      simp only [Option.toList_none, List.map_nil, List.append_nil, Node.tokensAll_nil]
      rcases hcontents.function name source none with ⟨e, hv, hd⟩ | ⟨v, d, hv, hd, -⟩
      · exact .inl ⟨e, by rw [componentsOf, hv]; rfl, hd⟩
      · exact .inr ⟨[v], d, by rw [componentsOf, hv]; rfl, hd, by simp⟩

/-- A text is parsed as the components of its nodes. -/
theorem Value.parse_eq (text : String) : Value.parse text = (componentsOf (nodesOf text)).map Value.ofComponents := by
  rw [parse, readComponents_eq]
  rfl

/-- The texts of values are those in which a scan of the tokens finds nothing wrong: a text is read exactly if the scan comes to
its end, and otherwise it is refused for the first token that cannot stand where it does. A value is never refused for being
empty. -/
theorem parse_agrees_with_scan (text : String) :
    ((∃ v, Value.parse text = .ok v) ↔ ∃ d, allowAll 0 (tokensOf text) = .ok d) ∧
      (∀ e, Value.parse text = .error e ↔
        ∃ before t after d, tokensOf text = before ++ t :: after ∧ allowAll 0 before = .ok d ∧ allow d t = .error e) ∧
      Value.parse text ≠ .error .emptyValue := by
  obtain ⟨closed, hnested⟩ := nested_group (tokenize text.toList)
  have hagrees := (hnested.agrees 0 fun _ => rfl).map Value.ofComponents
  rw [tokensAll_group, ← nodesOf, ← Value.parse_eq] at hagrees
  have herror : ∀ e, Value.parse text = .error e ↔
      ∃ before t after d, tokensOf text = before ++ t :: after ∧ allowAll 0 before = .ok d ∧ allow d t = .error e :=
    fun e => (hagrees.error_iff e).trans allowAll_eq_error_iff
  refine ⟨hagrees.ok_iff, herror, fun hempty => ?_⟩
  obtain ⟨before, t, after, d, -, -, ht⟩ := (herror .emptyValue).1 hempty
  exact allow_ne_emptyValue d t ht

end StyleCheck
