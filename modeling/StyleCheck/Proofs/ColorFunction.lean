import StyleCheck.Proofs.Essence
import StyleCheck.Proofs.Places
import StyleCheck.Proofs.ValueScan

/-!
# Functions that are colors

Main statement: `readComponent_function`, what a function is read as at any place of a text, told from the tokens up to the
bracket that closes it. It is a color exactly if it is `rgb` with three whole numbers, or `rgba` with four, and nothing else but
white space, comments and commas. Everything else is tried as a color in vain, and is then a url or a function whose arguments are
what the same tokens are by themselves (`componentsIn`).
-/

namespace StyleCheck

/-- Whether the token may stand among the arguments of a color. -/
def Token.isChannelPart : Token → Bool
  | .space | .comment | .comma => true
  | .number _ int => int.isSome
  | _ => false

/-- The whole number that a token is. -/
def Token.int? : Token → Option Int
  | .number _ int => int
  | _ => none

/-- The whole numbers among tokens, in order. -/
def intsOf (tokens : List Token) : List Int := tokens.filterMap Token.int?

/-- The functions that are colors, with the number of their channels. -/
def IsColorName (name : String) (count : Nat) : Prop :=
  eqIgnoringCase name "rgb" = true ∧ count = 3 ∨ eqIgnoringCase name "rgba" = true ∧ count = 4

/-- Whether a function of this name with these tokens as its arguments is a color. -/
def IsColorCall (name : String) (arguments : List Token) : Prop :=
  (∀ t ∈ arguments, t.isChannelPart = true) ∧ IsColorName name (intsOf arguments).length

instance (name : String) (count : Nat) : Decidable (IsColorName name count) := inferInstanceAs (Decidable (_ ∨ _))

instance (name : String) (arguments : List Token) : Decidable (IsColorCall name arguments) :=
  inferInstanceAs (Decidable (_ ∧ _))

/-- The whole number nearest to `n` that is a byte. -/
def clampedByte (n : Int) : Int := max 0 (min 255 n)

/-- The channels of a color as whole numbers, its opacity last. -/
def Color.channels (c : Color) : List Int := [c.red, c.green, c.blue, c.alpha].map fun b => b.toNat

/-- The components that tokens are by themselves, those of each node in turn. -/
def componentsIn (tokens : List Token) : Except ValueError (List Value) := componentsOf (group (tokens.map Token.bare))

/-! ## Channels -/

/-- The channels in nested nodes are the whole numbers among their tokens. -/
theorem Nested.channels?_eq {inside : Option Bracket} {closed : Bool} {nodes : List Node} (h : Nested inside closed nodes) :
    channels? nodes =
      if (Node.tokensAll nodes).all Token.isChannelPart then some (intsOf (Node.tokensAll nodes)) else none := by
  have hopener : ∀ {opener : Lexeme} {b : Bracket}, opener.token.opens? = some b → opener.token.isChannelPart = false := by
    intro opener b hb
    rcases eq_of_opens hb with ht | ⟨-, name, ht⟩ <;> rw [ht] <;> rfl
  induction h with
  | nil => rfl
  | @leaf _ _ x rest _ _ _ ih =>
    rw [Node.tokensAll_leaf, List.all_cons, intsOf, List.filterMap_cons, ← intsOf, channels?, ih]
    obtain ⟨t, source⟩ := x
    cases t with
    | number value int => cases int <;> cases (Node.tokensAll rest).all Token.isChannelPart <;> rfl
    | _ => rfl
  | block opens => rw [Node.tokensAll_block, List.all_cons, hopener opens]; rfl
  | unclosed opens => rw [Node.tokensAll_block, List.all_cons, hopener opens]; rfl

/-- A channel is its number, moved into the range of a byte. -/
theorem toNat_channelOfInt (n : Int) : ((channelOfInt n).toNat : Int) = clampedByte n := by
  rw [channelOfInt, clampedByte, UInt8.toNat_ofNat', Nat.mod_eq_of_lt (by omega)]
  omega

/-- Three or four whole numbers are a color under the right name, and any others under none. -/
theorem Color.ofChannels?_spec (name : String) (ints : List Int) :
    match Color.ofChannels? name ints with
    | some color => IsColorName name ints.length ∧ color.channels = ((ints ++ [255]).take 4).map clampedByte
    | none => ¬IsColorName name ints.length := by
  have hrgb : lower "rgb" = "rgb" := by decide
  have hrgba : lower "rgba" = "rgba" := by decide
  have hopaque : ((255 : UInt8).toNat : Int) = clampedByte 255 := by decide
  simp only [IsColorName, eqIgnoringCase_iff, hrgb, hrgba]
  rcases ints with _ | ⟨r, _ | ⟨g, _ | ⟨b, _ | ⟨a, _ | ⟨further, ints⟩⟩⟩⟩⟩
  · simp [Color.ofChannels?]
  · simp [Color.ofChannels?]
  · simp [Color.ofChannels?]
  · by_cases hname : lower name = "rgb"
    · simp [Color.ofChannels?, hname, Color.channels, toNat_channelOfInt, ← hopaque]
    · simp [Color.ofChannels?, hname]
  · by_cases hname : lower name = "rgba"
    · simp [Color.ofChannels?, hname, Color.channels, toNat_channelOfInt]
    · simp [Color.ofChannels?, hname]
  · simp [Color.ofChannels?]

/-- The contents of a function are channels of a color exactly if its tokens are those of one. -/
theorem Nested.color_spec {inside : Option Bracket} {closed : Bool} {nodes : List Node} (h : Nested inside closed nodes)
    (name : String) :
    match (channels? nodes).bind (Color.ofChannels? name) with
    | some color => IsColorCall name (Node.tokensAll nodes) ∧
        color.channels = ((intsOf (Node.tokensAll nodes) ++ [255]).take 4).map clampedByte
    | none => ¬IsColorCall name (Node.tokensAll nodes) := by
  rw [h.channels?_eq]
  by_cases hall : (Node.tokensAll nodes).all Token.isChannelPart = true
  · rw [if_pos hall, Option.bind_some]
    have hspec := Color.ofChannels?_spec name (intsOf (Node.tokensAll nodes))
    cases hcolor : Color.ofChannels? name (intsOf (Node.tokensAll nodes)) with
    | some color =>
      rw [hcolor] at hspec
      exact ⟨⟨List.all_eq_true.1 hall, hspec.1⟩, hspec.2⟩
    | none =>
      rw [hcolor] at hspec
      exact fun hcall => hspec hcall.2
  · rw [if_neg hall, Option.bind_none]
    exact fun hcall => hall (List.all_eq_true.2 hcall.1)

/-! ## The place of a function -/

/-- Nested nodes are read as their tokens are by themselves. -/
theorem Nested.componentsIn_tokensAll {inside : Option Bracket} {closed : Bool} {nodes : List Node}
    (h : Nested inside closed nodes) : componentsIn (Node.tokensAll nodes) = readComponents (.ofNodes nodes) := by
  have hcongr : componentsOf (group ((Node.tokensAll nodes).map Token.bare)) = componentsOf (group (Node.lexemesAll nodes)) :=
    componentsOf_congr (by rw [map_token_map_bare, Node.tokensAll])
  rw [group_lexemesAll h.outside] at hcongr
  rw [componentsIn, readComponents_eq]
  exact hcongr

/-- Where a function token is next, its block is: the contents are the tokens up to the bracket that closes it, and after the
block come those after the bracket. -/
theorem InText.function_block {text : String} {c : Cursor} (hc : InText text c.rest) {name : String} {after : List Token}
    (h : c.skipTrivia.tokens = .function name :: after) :
    ∃ d closed, c.skipTrivia.next = (some (.function name), d) ∧
      Nested (some .round) closed d.contents ∧ Node.tokensAll d.contents = (untilClosed [.round] after).1 ∧
      d.rest <:+ c.rest ∧ d.leave.tokens = (untilClosed [.round] after).2.tail ∧
      ((untilClosed [.round] after).2 = [] ∨ (untilClosed [.round] after).2.head? = some (.closer .round)) := by
  have hdrop : c.rest.dropWhile Node.isTrivia <:+ c.rest := List.dropWhile_suffix _
  obtain ⟨inside, closed, hnested⟩ := (hc.stretch hdrop.isInfix).nested
  have htokens : Node.tokensAll (c.rest.dropWhile Node.isTrivia) = .function name :: after := h
  rw [Cursor.skipTrivia]
  cases hnodes : c.rest.dropWhile Node.isTrivia with
  | nil => rw [hnodes] at htokens; cases htokens
  | cons n rest =>
    rw [hnodes] at hnested htokens hdrop
    cases n with
    | leaf x =>
      -- a leaf opens nothing, and a function token does
      cases hnested with
      | leaf opens _ _ =>
        rw [Node.tokensAll_leaf] at htokens
        rw [(List.cons.inj htokens).1] at opens
        cases opens
    | block opener contents closer =>
      obtain ⟨b, closed', opens, hcontents, huntil, hend⟩ := hnested.untilClosed_block
      rw [Node.tokensAll_block] at htokens
      obtain ⟨hopener, rfl⟩ := List.cons.inj htokens
      rw [hopener] at opens
      obtain rfl := Option.some.inj opens
      rw [huntil, ← hopener]
      refine ⟨⟨some (contents, closer), rest⟩, closed', rfl, hcontents, rfl, (List.suffix_cons _ _).trans hdrop, ?_⟩
      rcases hend with ⟨x, rfl, hx⟩ | ⟨rfl, rfl⟩
      · exact ⟨rfl, .inr (congrArg some hx)⟩
      · exact ⟨rfl, .inl rfl⟩

/-! ## What a function is read as -/

/-- A function that is kept with its arguments is no color. -/
theorem valueOfFunction_ne_color (name : String) (arguments : List Value) (color : Color) :
    valueOfFunction name arguments ≠ .color color := by
  rcases valueOfFunction_cases name arguments with ⟨-, s, -, hv⟩ | ⟨-, hv⟩ <;> simp [hv]

/-- There are three ways to read a function, and its tokens decide between them: a color, a function with arguments, or none
because one of the arguments is refused. -/
theorem Nested.readOne_function {inside : Option Bracket} {closed : Bool} {c d : Cursor} {name : String}
    (h : Nested inside closed d.contents) (hnext : c.skipTrivia.next = (some (.function name), d)) {inner : List Token}
    (hinner : Node.tokensAll d.contents = inner) :
    (IsColorCall name inner ∧ (∃ arguments, componentsIn inner = .ok arguments) ∧
        ∃ color, readOne c = .ok (.color color, d.leave) ∧ color.channels = ((intsOf inner ++ [255]).take 4).map clampedByte) ∨
      (¬IsColorCall name inner ∧ ∃ arguments, componentsIn inner = .ok arguments ∧
        readOne c = .ok (valueOfFunction name arguments, d.leave)) ∨
      ¬IsColorCall name inner ∧ ∃ e, componentsIn inner = .error e ∧ readOne c = .error e := by
  have hread := StyleCheck.readOne_function hnext
  have hspec := h.color_spec name
  have harguments := h.componentsIn_tokensAll
  rw [hinner] at hspec harguments
  cases hcolor : (channels? d.contents).bind (Color.ofChannels? name) with
  | some color =>
    rw [hcolor] at hspec hread
    obtain ⟨channels, hchannels, -⟩ := Option.bind_eq_some_iff.1 hcolor
    have hcomponents : ∃ arguments, componentsIn inner = .ok arguments := by
      rw [harguments, readComponents_eq]
      exact componentsOf_of_channels? hchannels
    exact .inl ⟨hspec.1, hcomponents, color, hread, hspec.2⟩
  | none =>
    rw [hcolor, ← harguments] at hread
    rw [hcolor] at hspec
    cases hcomponents : componentsIn inner with
    | ok arguments => exact .inr (.inl ⟨hspec, arguments, rfl, by rw [hread, hcomponents]; rfl⟩)
    | error e => exact .inr (.inr ⟨hspec, e, rfl, by rw [hread, hcomponents]; rfl⟩)

/-- What a function is read as, at any place of a text. With `inner` for the tokens up to the bracket that closes it or, without
one, to the end, and `left` for those from that bracket on:

* it is a color exactly if `inner` are the arguments of one, and its channels are the whole numbers among them, each brought
  between 0 and 255;
* otherwise it is refused exactly if `inner` by themselves are, and for the same reason; if it is not, its arguments are all of
  their components in order, and a `url` whose only argument is a string is that url;
* either way the reader comes to the place after the bracket, at the same level. -/
theorem readComponent_function {text : String} {c : Cursor} (hc : InText text c.rest) {name : String} {after : List Token}
    (h : c.skipTrivia.tokens = .function name :: after) :
    let inner := (untilClosed [.round] after).1
    let left := (untilClosed [.round] after).2
    ((∃ color d, readOne c = .ok (.color color, d)) ↔ IsColorCall name inner) ∧
      (∀ color d, readOne c = .ok (.color color, d) →
        color.channels = ((intsOf inner ++ [255]).take 4).map clampedByte) ∧
      (∀ v d, readOne c = .ok (v, d) → ¬IsColorCall name inner →
        ∃ arguments, componentsIn inner = .ok arguments ∧
          (eqIgnoringCase name "url" = true ∧ (∃ s, arguments = [.string s] ∧ v = .url s) ∨
            ¬(eqIgnoringCase name "url" = true ∧ ∃ s, arguments = [.string s]) ∧ v = .function (lower name) arguments)) ∧
      (∀ e, readOne c = .error e ↔ componentsIn inner = .error e) ∧
      (∀ v d, readOne c = .ok (v, d) → d.opened = none ∧ d.rest <:+ c.rest ∧ d.tokens = left.tail) ∧
      (left = [] ∨ left.head? = some (.closer .round)) := by
  intro inner left
  obtain ⟨d, closed, hnext, hcontents, hinner, hrest, htokens, hleft⟩ := hc.function_block h
  have hplace : d.leave.opened = none ∧ d.leave.rest <:+ c.rest ∧ d.leave.tokens = left.tail := ⟨rfl, hrest, htokens⟩
  rcases hcontents.readOne_function hnext hinner with
    ⟨hcall, ⟨arguments, harguments⟩, color, hread, hchannels⟩ | ⟨hcall, arguments, harguments, hread⟩ |
      ⟨hcall, e, harguments, hread⟩
  · simp only [hread, inner, harguments]
    refine ⟨iff_of_true ⟨color, _, rfl⟩ hcall, ?_, fun _ _ _ hno => absurd hcall hno, by simp, ?_, hleft⟩
    · rintro _ _ ⟨⟩
      exact hchannels
    · rintro _ _ ⟨⟩
      exact hplace
  · have hne := valueOfFunction_ne_color name arguments
    simp only [hread, inner, harguments]
    refine ⟨iff_of_false ?_ hcall, ?_, ?_, by simp, ?_, hleft⟩
    · rintro ⟨color, _, hcolor⟩
      exact hne color (Prod.mk.inj (Except.ok.inj hcolor)).1
    · intro color _ hcolor
      exact absurd (Prod.mk.inj (Except.ok.inj hcolor)).1 (hne color)
    · rintro _ _ ⟨⟩ -
      exact ⟨arguments, rfl, valueOfFunction_cases name arguments⟩
    · rintro _ _ ⟨⟩
      exact hplace
  · simp only [hread, inner, harguments]
    refine ⟨iff_of_false ?_ hcall, ?_, ?_, by simp, ?_, hleft⟩
    · rintro ⟨_, _, ⟨⟩⟩
    all_goals rintro _ _ ⟨⟩

/-- A color in letters of both cases, with mixed separators and numbers that are no bytes, by a reader that stops before the mark
of importance; and a function that is no color, although it is called like one and starts like one: it has all of its arguments,
with those of the function among them. -/
theorem readComponent_function_mixed :
    let text := "\tRgB(1,/**/300 -4)!important"
    let c := Cursor.ofNodes ((nodesOf text).takeWhile fun n => !n.isToken (.delim '!'))
    let text' := "RGB( , F(B)\"s\")x"
    let c' := Cursor.ofNodes (nodesOf text')
    (InText text c.rest ∧ c.skipTrivia.tokens = .function "RgB" :: c.skipTrivia.tokens.tail ∧
      ∃ color d, readOne c = .ok (.color color, d) ∧ color.channels = [1, 255, 0, 255] ∧ d.tokens = []) ∧
      InText text' c'.rest ∧ c'.skipTrivia.tokens = .function "RGB" :: c'.skipTrivia.tokens.tail ∧
        ∃ d, readOne c' = .ok (.function "rgb" [.separator, .function "f" [.keyword "b"], .string "s"], d) ∧
          d.tokens = [.ident "x"] := by
  intro text c text' c'
  have hc : InText text c.rest := .stretch .whole (List.takeWhile_prefix _).isInfix
  have h : c.skipTrivia.tokens = .function "RgB" :: c.skipTrivia.tokens.tail := by
    have hhead : c.skipTrivia.tokens.head? = some (.function "RgB") := by decide +kernel
    obtain ⟨after, hafter⟩ := List.head?_eq_some_iff.1 hhead
    rw [hafter]
    rfl
  have h' : c'.skipTrivia.tokens = [.function "RGB", .space, .comma, .space, .function "F", .ident "B", .closer .round,
      .string "s", .closer .round, .ident "x"] := by decide +kernel
  constructor
  · obtain ⟨hcolor, hchannels, -, -, hplace, -⟩ := readComponent_function hc h
    obtain ⟨color, d, hread⟩ := hcolor.2 (by decide +kernel)
    refine ⟨hc, h, color, d, hread, ?_, ?_⟩
    · rw [hchannels color d hread]
      decide +kernel
    · rw [(hplace _ d hread).2.2]
      decide +kernel
  · obtain ⟨-, -, hfunction, herror, hplace, -⟩ := readComponent_function .whole h'
    have hinner : componentsIn (untilClosed [.round] [.space, .comma, .space, .function "F", .ident "B", .closer .round,
        .string "s", .closer .round, .ident "x"]).1 = .ok [.separator, .function "f" [.keyword "b"], .string "s"] := by rfl
    cases hread : readOne c' with
    | error e =>
      rw [herror e, hinner] at hread
      cases hread
    | ok r =>
      obtain ⟨v, d⟩ := r
      obtain ⟨arguments, harguments, hv⟩ := hfunction v d hread (by decide)
      obtain rfl := Except.ok.inj (hinner.symm.trans harguments)
      rcases hv with ⟨hurl, -⟩ | ⟨-, rfl⟩
      · exact absurd hurl (by decide)
      · refine ⟨.whole, by rw [h']; rfl, d, rfl, ?_⟩
        rw [(hplace _ d hread).2.2]
        rfl

end StyleCheck
