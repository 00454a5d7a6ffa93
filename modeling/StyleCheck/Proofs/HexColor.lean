import Mathlib.Data.List.Basic
import StyleCheck.Proofs.Essence
import StyleCheck.Proofs.Spelling
import StyleCheck.Proofs.ValueScan

/-!
# Colors in hexadecimal digits

A hash is a color exactly if its name is three or six hexadecimal digits, once the blanks at its ends are taken off: a blank can
stand in a name as an escape, or as a character beyond ASCII, and is then no white space between tokens. Main statement:
`parse_hash`, for every text with a hash as its only token besides white space and comments, with the channels of the color as
the values of pairs of digits. `parse_hash_blank` is a hash that is a color although its name holds more than digits.
-/

namespace StyleCheck

/-- The hexadecimal digits in small letters, each at the place of its value. -/
def hexDigits : List Char := "0123456789abcdef".toList

/-- Whether the character is a hexadecimal digit, in either case. -/
def isHexDigit (c : Char) : Bool := hexDigits.contains c.toLower

/-- The value of a hexadecimal digit, in either case. -/
def hexDigitValue (c : Char) : Nat := hexDigits.idxOf c.toLower

/-- Three or six hexadecimal digits. -/
def IsHexColor (digits : List Char) : Prop :=
  (digits.length = 3 ∨ digits.length = 6) ∧ ∀ c ∈ digits, isHexDigit c = true

instance (digits : List Char) : Decidable (IsHexColor digits) :=
  decidable_of_iff ((digits.length = 3 ∨ digits.length = 6) ∧ digits.all isHexDigit = true) (by rw [List.all_eq_true, IsHexColor])

/-- The six digits that the digits of a color stand for: each of three is doubled. -/
def sixDigits (digits : List Char) : List Char :=
  if digits.length = 3 then digits.flatMap fun c => [c, c] else digits

/-! ## Digits -/

/-- A digit is read as its place among the digits. -/
theorem hexDigit?_eq (c : Char) : hexDigit? c = if isHexDigit c then some (hexDigitValue c) else none := by
  by_cases hc : c.toNat < 128
  · exact of_ascii (P := fun c => hexDigit? c = if isHexDigit c then some (hexDigitValue c) else none) (by decide) hc
  · have hlower : c.toLower = c := Char.toNat_inj.1 (by rw [toNat_toLower, if_neg (by omega)])
    have hnot : isHexDigit c = false := by
      have hall : hexDigits.all (·.toNat < 128) = true := by decide
      simpa [isHexDigit, hlower] using fun h => hc (of_decide_eq_true (List.all_eq_true.1 hall c h))
    have hle : ∀ d : Char, d.toNat < 128 → ¬c ≤ d := by
      intro d hd hcd
      exact hc (Nat.lt_of_le_of_lt hcd hd)
    simp [hexDigit?, hnot, hle]

/-- A hexadecimal digit is below sixteen. -/
theorem hexDigitValue_lt {c : Char} (h : isHexDigit c = true) : hexDigitValue c < 16 :=
  List.idxOf_lt_length_of_mem (List.contains_iff_mem.1 h)

/-- Digits are read all together, or not at all if one of them is no digit. -/
theorem mapM_hexDigit? (cs : List Char) :
    cs.mapM hexDigit? = if cs.all isHexDigit then some (cs.map hexDigitValue) else none := by
  induction cs with
  | nil => rfl
  | cons c cs ih =>
    rw [List.mapM_cons, hexDigit?_eq, ih, List.all_cons]
    cases isHexDigit c <;> cases cs.all isHexDigit <;> rfl

/-- Two digits make the byte that they write. -/
theorem toNat_byteOfDigits {a b : Char} (ha : isHexDigit a = true) (hb : isHexDigit b = true) :
    (byteOfDigits (hexDigitValue a) (hexDigitValue b)).toNat = 16 * hexDigitValue a + hexDigitValue b := by
  have := hexDigitValue_lt ha
  have := hexDigitValue_lt hb
  rw [byteOfDigits, UInt8.toNat_ofNat', Nat.mod_eq_of_lt (by omega)]

/-! ## Names of hashes -/

/-- Only three digits are doubled. -/
theorem sixDigits_of_length_ne {digits : List Char} (h : digits.length ≠ 3) : sixDigits digits = digits := if_neg h

/-- Doubling digits makes and unmakes no color. -/
theorem isHexColor_sixDigits (digits : List Char) : IsHexColor (sixDigits digits) ↔ IsHexColor digits := by
  by_cases h : digits.length = 3
  · obtain ⟨a, b, c, rfl⟩ := List.length_eq_three.1 h
    simp [IsHexColor, sixDigits]
  · rw [sixDigits_of_length_ne h]

/-- Digits of a color stand for six, two for each channel. -/
theorem Color.ofHex?_of_isHexColor {name : String} (h : IsHexColor (trimBlank name.toList)) :
    ∃ r r' g g' b b', sixDigits (trimBlank name.toList) = [r, r', g, g', b, b'] ∧
      Color.ofHex? name = some ⟨byteOfDigits (hexDigitValue r) (hexDigitValue r'),
        byteOfDigits (hexDigitValue g) (hexDigitValue g'), byteOfDigits (hexDigitValue b) (hexDigitValue b'), 255⟩ := by
  obtain ⟨hlength, hall⟩ := h
  rw [Color.ofHex?, mapM_hexDigit?, if_pos (List.all_eq_true.2 hall)]
  generalize trimBlank name.toList = digits at hlength
  rcases hlength with hthree | hsix
  · obtain ⟨r, g, b, rfl⟩ := List.length_eq_three.1 hthree
    exact ⟨r, r, g, g, b, b, rfl, rfl⟩
  · have hfirst : (digits.take 3).length = 3 := by rw [List.length_take, hsix]; rfl
    have hlast : (digits.drop 3).length = 3 := by rw [List.length_drop, hsix]
    obtain ⟨r, r', g, hfirst⟩ := List.length_eq_three.1 hfirst
    obtain ⟨g', b, b', hlast⟩ := List.length_eq_three.1 hlast
    obtain rfl : digits = [r, r', g, g', b, b'] := by
      rw [← List.take_append_drop 3 digits, hfirst, hlast]
      rfl
    exact ⟨r, r', g, g', b, b', rfl, rfl⟩

/-- Everything else is no color. -/
theorem Color.ofHex?_of_not_isHexColor {name : String} (h : ¬IsHexColor (trimBlank name.toList)) : Color.ofHex? name = none := by
  rw [Color.ofHex?, mapM_hexDigit?]
  generalize trimBlank name.toList = digits at h
  cases hall : digits.all isHexDigit with
  | false => rfl
  | true =>
    have hlength : ¬(digits.length = 3 ∨ digits.length = 6) := fun hl => h ⟨hl, List.all_eq_true.1 hall⟩
    rw [if_pos rfl]
    split
    · next hsome => exact absurd (.inl (by simpa using congrArg List.length (Option.some.inj hsome))) hlength
    · next hsome => exact absurd (.inr (by simpa using congrArg List.length (Option.some.inj hsome))) hlength
    · rfl

/-- Names with the same digits, some of them perhaps doubled in the one, are of the same color or of none. -/
theorem Color.ofHex?_of_sixDigits {a b : String} (h : trimBlank a.toList = sixDigits (trimBlank b.toList)) :
    Color.ofHex? a = Color.ofHex? b := by
  by_cases hb : IsHexColor (trimBlank b.toList)
  · obtain ⟨r, r', g, g', b, b', hdigits, hcolor⟩ := Color.ofHex?_of_isHexColor hb
    have ha : IsHexColor (trimBlank a.toList) := by rwa [h, isHexColor_sixDigits]
    obtain ⟨s, s', t, t', u, u', hdigits', hcolor'⟩ := Color.ofHex?_of_isHexColor ha
    rw [h, hdigits, sixDigits_of_length_ne (by simp)] at hdigits'
    simp only [List.cons.injEq, and_true] at hdigits'
    obtain ⟨rfl, rfl, rfl, rfl, rfl, rfl⟩ := hdigits'
    rw [hcolor, hcolor']
  · rw [Color.ofHex?_of_not_isHexColor hb, Color.ofHex?_of_not_isHexColor]
    rwa [h, isHexColor_sixDigits]

/-! ## Texts of one hash -/

/-- A text of one hash is its color, or is refused for not being one. -/
theorem parse_of_hash {text name : String} (h : significantTokens text = [.hash name]) :
    Value.parse text = (Color.ofHex? name).elim (.error .invalidColor) fun color => .ok (.color color) := by
  have hcomponents : componentsOf (nodesOf text) = componentsOf (group [(Token.hash name).bare]) := componentsOf_congr h
  have hleaf : group [(Token.hash name).bare] = [.leaf (Token.hash name).bare] := group_cons_leaf rfl []
  have hone : componentsOf [.leaf (Token.hash name).bare] = (Token.hash name).component.map ([·]) := by
    rw [componentsOf, if_neg (by simp [Node.isTrivia, Node.head, Token.bare, Token.isTrivia]), Node.component, Token.bare]
    cases (Token.hash name).component <;> rfl
  rw [Value.parse_eq, hcomponents, hleaf, hone, Token.component_of_ne_function (by simp), Token.literal?, valueOfToken]
  cases Color.ofHex? name <;> rfl

/-- A text with a hash as its only token, besides white space and comments, is a color exactly if the name of the hash, without
the blanks at its ends, is three or six hexadecimal digits, and is refused as an invalid color otherwise. The color is opaque,
and its channels are the values of pairs of digits, three digits being doubled first; doubled digits, or digits in another case,
are of the same color. -/
theorem parse_hash {text name : String} (h : significantTokens text = [.hash name]) :
    let digits := trimBlank name.toList
    ((∃ color, Value.parse text = .ok (.color color)) ↔ IsHexColor digits) ∧
      (¬IsHexColor digits → Value.parse text = .error .invalidColor) ∧
      (∀ color, Value.parse text = .ok (.color color) →
        ∃ r r' g g' b b', sixDigits digits = [r, r', g, g', b, b'] ∧
          color.red.toNat = 16 * hexDigitValue r + hexDigitValue r' ∧
          color.green.toNat = 16 * hexDigitValue g + hexDigitValue g' ∧
          color.blue.toNat = 16 * hexDigitValue b + hexDigitValue b' ∧ color.alpha = 255) ∧
      ∀ text' name', significantTokens text' = [.hash name'] →
        trimBlank name'.toList = sixDigits digits ∨ eqIgnoringCase name' name = true → Value.parse text' = Value.parse text := by
  intro digits
  have hparse := parse_of_hash h
  have hrefused : ¬IsHexColor digits → Value.parse text = .error .invalidColor := by
    intro hd
    rw [hparse, Color.ofHex?_of_not_isHexColor hd]
    rfl
  have hdigits : ∀ color, Value.parse text = .ok (.color color) → IsHexColor digits := by
    intro color hcolor
    refine Decidable.byContradiction fun hd => ?_
    rw [hrefused hd] at hcolor
    cases hcolor
  refine ⟨⟨fun ⟨color, hcolor⟩ => hdigits color hcolor, ?_⟩, hrefused, ?_, ?_⟩
  · intro hd
    obtain ⟨r, r', g, g', b, b', -, hcolor⟩ := Color.ofHex?_of_isHexColor hd
    exact ⟨_, by rw [hparse, hcolor]; rfl⟩
  · intro color hcolor
    have hd := hdigits color hcolor
    obtain ⟨r, r', g, g', b, b', hsix, hhex⟩ := Color.ofHex?_of_isHexColor hd
    have hall := ((isHexColor_sixDigits digits).2 hd).2
    rw [hsix] at hall
    simp only [List.forall_mem_cons] at hall
    obtain ⟨hr, hr', hg, hg', hb, hb', -⟩ := hall
    rw [hparse, hhex] at hcolor
    obtain rfl := Value.color.inj (Except.ok.inj hcolor)
    exact ⟨r, r', g, g', b, b', hsix, toNat_byteOfDigits hr hr', toNat_byteOfDigits hg hg', toNat_byteOfDigits hb hb', rfl⟩
  · intro text' name' h' hsame
    rw [hparse, parse_of_hash h']
    rcases hsame with hsix | hcase
    · rw [Color.ofHex?_of_sixDigits hsix]
    · rw [← Color.ofHex?_lower name', eqIgnoringCase_iff.1 hcase, Color.ofHex?_lower]

/-- The digits of a hash may be escapes, a blank beyond ASCII at its end is no digit, and the color is that of the six capital
digits; with four digits there is none. -/
theorem parse_hash_escaped :
    let text := "/**/ #a\\42 c\u3000\n"
    significantTokens text = [.hash "aBc\u3000"] ∧ IsHexColor (trimBlank "aBc\u3000".toList) ∧
      (∃ color, Value.parse text = .ok (.color color)) ∧ Value.parse "#AABBCC" = Value.parse text ∧
      Value.parse "#abcd" = .error .invalidColor := by
  intro text
  have htokens : significantTokens text = [.hash "aBc\u3000"] := by decide +kernel
  have hsix : significantTokens "#AABBCC" = [.hash "AABBCC"] := by decide +kernel
  have hsmall : significantTokens "#aaBBcc" = [.hash "aaBBcc"] := by decide +kernel
  have hfour : significantTokens "#abcd" = [.hash "abcd"] := by decide +kernel
  have hdigits : IsHexColor (trimBlank "aBc\u3000".toList) := by decide
  obtain ⟨hiff, -, -, hsame⟩ := parse_hash htokens
  obtain ⟨-, -, -, hcase⟩ := parse_hash hsmall
  have hcapitals : Value.parse "#AABBCC" = Value.parse "#aaBBcc" := hcase _ _ hsix (.inr (by decide))
  refine ⟨htokens, hdigits, hiff.2 hdigits, ?_, ?_⟩
  · rw [hcapitals]
    exact hsame _ _ hsmall (.inl (by decide))
  · exact (parse_hash hfour).2.1 (by decide)

/-- A hash whose name ends with a no-break space is a color, although the name is not just digits. -/
theorem parse_hash_blank :
    let text := "#abc\u00a0"
    significantTokens text = [.hash "abc\u00a0"] ∧ ¬IsHexColor "abc\u00a0".toList ∧
      Value.parse text = .ok (.color ⟨0xaa, 0xbb, 0xcc, 255⟩) := by
  intro text
  have htokens : significantTokens text = [.hash "abc\u00a0"] := by decide +kernel
  have hcolor : Color.ofHex? "abc\u00a0" = some ⟨0xaa, 0xbb, 0xcc, 255⟩ := by decide
  refine ⟨htokens, by decide, ?_⟩
  rw [parse_of_hash htokens, hcolor]
  rfl

end StyleCheck
