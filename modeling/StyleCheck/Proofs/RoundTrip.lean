import StyleCheck.Proofs.Essence
import StyleCheck.Proofs.Spelling
import StyleCheck.Proofs.ValueScan
import StyleCheck.Value.Printer

/-!
# Printed values are read back

A value without numbers whose parts can be written at all (`Printable`) is printed as a text that is read as the same value. The
printer and the reader meet at `Printed`: characters, the components they stand for, and the nodes they are read as. It is proved
for each kind of component, and composed along the printer: commas follow at once, a space or a bracket ends every other
component. Main statement: `parse_text_of_printable`.
-/

namespace StyleCheck

/-- The components that can be printed and read back, of any depth. -/
inductive Printable : Value → Prop where
  | keyword {s : String} (plain : isPlainName s = true) (small : lower s = s) : Printable (.keyword s)
  | separator : Printable .separator
  | color {c : Color} (solid : c.alpha = 255) : Printable (.color c)
  | delimiter {c : Char} (emitted : ∃ text, .delim c ∈ tokensOf text) (bare : c ≠ '\\') : Printable (.delimiter c)
  | string {s : String} (shown : ∀ c ∈ s.toList, isShown c = true) : Printable (.string s)
  | url {u : String} (plain : ∀ c ∈ u.toList, isUrlChar c = true) : Printable (.url u)
  | function {name : String} {arguments : List Value} (plain : isPlainName name = true) (small : lower name = name)
      (other : name ≠ "url") (inside : ∀ v ∈ arguments, Printable v) : Printable (.function name arguments)

/-- The tokens of characters other than white space and comments. -/
def significantIn (cs : List Char) : List Token := (tokensIn cs).filter (!·.isTrivia)

/-- The characters are read as the nodes before every separator, and the nodes are the components. They are closed wherever they
stand, and hold no channel of a color. -/
structure Printed (cs : List Char) (vs : List Value) (ns : List Node) : Prop where
  nested : ∀ inside, Nested inside true ns
  components : componentsOf ns = .ok vs
  channels : ∀ xs, channels? ns = some xs → xs = []
  tokens : ∀ rest, Separated rest → significantIn (cs ++ rest) = Node.tokensAll ns ++ significantIn rest

/-! ## Readers side by side -/

theorem channels?_append (ns ms : List Node) :
    channels? (ns ++ ms) = (channels? ns).bind fun xs => (channels? ms).map (xs ++ ·) := by
  induction ns with
  | nil =>
    show channels? ms = (channels? ms).map ([] ++ ·)
    cases channels? ms <;> rfl
  | cons n rest ih =>
    cases n with
    | block opener contents closer => rfl
    | leaf x =>
      obtain ⟨token, source⟩ := x
      cases token with
      | space => exact ih
      | comment => exact ih
      | comma => exact ih
      | number value int =>
        cases int with
        | none => rfl
        | some k =>
          show (channels? (rest ++ ms)).map (k :: ·) = ((channels? rest).map (k :: ·)).bind _
          rw [ih]
          cases channels? rest with
          | none => rfl
          | some xs => cases channels? ms <;> rfl
      | _ => rfl

/-! ## Where a component ends -/

/-- A significant token in front is followed by the significant tokens of what is left. -/
theorem significantIn_cons {c : Char} {rest left : List Char} {t : Token} (h : scan c rest = (t, left)) (ht : t.isTrivia = false) :
    significantIn (c :: rest) = t :: significantIn left := by
  rw [significantIn, tokensIn_cons, h, List.filter_cons_of_pos (by simp [ht])]
  rfl

/-- Blanks in front change no significant token. -/
theorem significantIn_dropWhile (cs : List Char) : significantIn (cs.dropWhile isSpace) = significantIn cs := by
  cases cs with
  | nil => rfl
  | cons c rest =>
    by_cases hc : isSpace c = true
    · have hscan : scan c rest = (.space, rest.dropWhile isSpace) := by rw [scan_eq, if_pos hc]
      rw [List.dropWhile_cons_of_pos hc, significantIn, significantIn, tokensIn_cons, hscan]
      rfl
    · rw [List.dropWhile_cons_of_neg hc]

theorem significantIn_space (cs : List Char) : significantIn (' ' :: cs) = significantIn cs := by
  rw [← significantIn_dropWhile cs, ← significantIn_dropWhile (' ' :: cs)]
  rfl

/-- After the first component the printer writes nothing or a separator. -/
theorem separated_textAll (vs : List Value) {rest : List Char} (h : Separated rest) :
    Separated ((Value.textAll false vs).toList ++ rest) := by
  cases vs with
  | nil => simpa [Value.textAll] using h
  | cons v vs =>
    cases v with
    | separator => simpa [Value.textAll] using separated_cons (by decide) _
    | _ => simpa [Value.textAll] using separated_cons (by decide) _

namespace Printed

theorem nil : Printed [] [] [] where
  nested _ := .nil
  components := rfl
  channels _ h := (Option.some.inj h).symm
  tokens _ _ := rfl

/-- A token that spells a component. -/
theorem token {cs : List Char} {t : Token} {v : Value} (hs : Spells cs t) (hv : t.component = .ok v)
    (hc : channels? [.leaf t.bare] = none) (ho : t.opens? = none) (hb : ∀ b, t ≠ .closer b) :
    ∃ ns, Printed cs [v] ns := by
  have ht : t.isTrivia = false := by
    cases t with
    | space => cases hc
    | comment => cases hc
    | _ => rfl
  refine ⟨[.leaf t.bare], ?_, ?_, ?_, ?_⟩
  · intro inside
    exact .leaf ho (fun b _ => hb b) .nil
  · have hn : Node.isTrivia (.leaf t.bare) = false := ht
    have hcomponent : Node.component (.leaf t.bare) = .ok v := hv
    rw [componentsOf, hn, hcomponent]
    rfl
  · intro xs hxs
    rw [hc] at hxs
    cases hxs
  · intro rest hr
    rw [significantIn, hs rest hr, List.filter_cons_of_pos (by simp [ht])]
    rfl

variable {cs cs' : List Char} {vs ws : List Value} {ns ms : List Node}

/-- What follows a component starts with a separator. -/
theorem append (h : Printed cs vs ns) (h' : Printed cs' ws ms) (hs : ∀ rest, Separated rest → Separated (cs' ++ rest)) :
    Printed (cs ++ cs') (vs ++ ws) (ns ++ ms) where
  nested inside := (h.nested inside).append (h'.nested inside)
  components := componentsOf_append h.components h'.components
  channels := by
    intro xs hxs
    rw [channels?_append] at hxs
    obtain ⟨ys, hys, hxs⟩ := Option.bind_eq_some_iff.1 hxs
    obtain ⟨zs, hzs, rfl⟩ := Option.map_eq_some_iff.1 hxs
    rw [h.channels ys hys, h'.channels zs hzs]
    rfl
  tokens := by
    intro rest hr
    rw [List.append_assoc, h.tokens _ (hs rest hr), h'.tokens rest hr, Node.tokensAll_append, List.append_assoc]

theorem space (h : Printed cs vs ns) : Printed (' ' :: cs) vs ns where
  nested := h.nested
  components := h.components
  channels := h.channels
  tokens := by
    intro rest hr
    rw [List.cons_append, significantIn_space, h.tokens rest hr]

/-- A comma ends by itself, so that nothing has to stand after it. -/
theorem comma (h : Printed cs vs ns) : Printed (',' :: cs) (.separator :: vs) (.leaf Token.comma.bare :: ns) where
  nested inside := .leaf rfl (fun _ _ hb => nomatch hb) (h.nested inside)
  components := by
    have hcomponent : Node.component (.leaf Token.comma.bare) = .ok .separator := rfl
    rw [componentsOf, hcomponent, h.components]
    rfl
  channels := h.channels
  tokens := by
    intro rest hr
    have hscan : scan ',' (cs ++ rest) = (.comma, cs ++ rest) := by rw [scan_eq]; rfl
    rw [List.cons_append, significantIn_cons hscan rfl, h.tokens rest hr]
    rfl

/-- A function is no color, whatever its name: its arguments hold no channels. -/
theorem function (h : Printed cs vs ns) {name : String} (plain : isPlainName name = true) (small : lower name = name)
    (other : name ≠ "url") : ∃ ms, Printed (name.toList ++ '(' :: cs ++ [')']) [.function name vs] ms := by
  have hurl : eqIgnoringCase name "url" = false := by
    rw [eqIgnoringCase, small]
    exact beq_false_of_ne other
  have hcolor : (channels? ns).bind (Color.ofChannels? name) = none := by
    cases hc : channels? ns with
    | none => rfl
    | some xs =>
      rw [h.channels xs hc]
      rfl
  refine ⟨[.block (Token.function name).bare ns (some (Token.closer .round).bare)], ?_, ?_, ?_, ?_⟩
  · intro inside
    exact .block rfl rfl (h.nested (some .round)) .nil
  · have hcomponent : Node.component (.block (Token.function name).bare ns (some (Token.closer .round).bare)) =
        .ok (.function name vs) := by
      rw [Token.bare, Node.component, hcolor, h.components]
      simp [Except.map, valueOfFunction, hurl, small]
    rw [componentsOf, hcomponent]
    rfl
  · intro xs hxs
    cases hxs
  · intro rest hr
    have htext : name.toList ++ '(' :: cs ++ [')'] ++ rest = name.toList ++ '(' :: (cs ++ ')' :: rest) := by simp
    have hclose : scan ')' rest = (.closer .round, rest) := by rw [scan_eq]; rfl
    have hinside : significantIn (cs ++ ')' :: rest) = Node.tokensAll ns ++ .closer .round :: significantIn rest := by
      rw [h.tokens _ (separated_cons (by decide) rest), significantIn_cons hclose rfl]
    rw [htext, significantIn, tokensIn_function plain hurl, List.filter_cons_of_pos rfl, ← significantIn, hinside,
      Node.tokensAll_block]
    simp [Token.bare]

end Printed

/-! ## Colors -/

/-- The character of a number below sixteen is a hexadecimal digit of that value. -/
theorem digitChar_facts {n : Nat} (h : n < 16) : hexDigit? (Nat.digitChar n) = some n ∧
    (Nat.digitChar n).isAlphanum = true ∧ isBlank (Nat.digitChar n) = false := by
  have hall : ∀ n < 16, hexDigit? (Nat.digitChar n) = some n ∧ (Nat.digitChar n).isAlphanum = true ∧
      isBlank (Nat.digitChar n) = false := by decide
  exact hall n h

/-- A byte is made of its two digits. -/
theorem byteOfDigits_div_mod (b : UInt8) : byteOfDigits (b.toNat / 16) (b.toNat % 16) = b := by
  rw [byteOfDigits, Nat.div_add_mod, UInt8.ofNat_toNat]

/-- A byte is written as two hexadecimal digits that read back as its own. -/
theorem hexByte_facts (b : UInt8) : (hexByte b).mapM hexDigit? = some [b.toNat / 16, b.toNat % 16] ∧
    ∀ c ∈ hexByte b, c.isAlphanum = true ∧ isBlank c = false := by
  have hlt : b.toNat / 16 < 16 := by
    have := b.toNat_lt
    omega
  obtain ⟨hhigh, hhigh'⟩ := digitChar_facts hlt
  obtain ⟨hlow, hlow'⟩ := digitChar_facts (Nat.mod_lt b.toNat (by decide : 16 > 0))
  constructor
  · simp [hexByte, hhigh, hlow]
  · intro c hc
    simp only [hexByte, List.mem_cons, List.not_mem_nil, or_false] at hc
    rcases hc with rfl | rfl
    · exact hhigh'
    · exact hlow'

/-- A text without blanks is trimmed to itself. -/
theorem trimBlank_eq_self {cs : List Char} (h : ∀ c ∈ cs, isBlank c = false) : trimBlank cs = cs := by
  have hdrop : ∀ ds : List Char, (∀ c ∈ ds, isBlank c = false) → ds.dropWhile isBlank = ds := by
    intro ds hds
    cases ds with
    | nil => rfl
    | cons d ds => rw [List.dropWhile_cons_of_neg (by simp [hds d List.mem_cons_self])]
  rw [trimBlank, hdrop cs h, hdrop cs.reverse fun c hc => h c (List.mem_reverse.1 hc), List.reverse_reverse]

/-- The hexadecimal digits of a color without transparency are read as that color. -/
theorem Color.ofHex?_hexByte (c : Color) (h : c.alpha = 255) :
    Color.ofHex? (String.ofList (hexByte c.red ++ hexByte c.green ++ hexByte c.blue)) = some c := by
  have hblank : ∀ d ∈ hexByte c.red ++ hexByte c.green ++ hexByte c.blue, isBlank d = false := by
    intro d hd
    rcases List.mem_append.1 hd with hd | hd
    · rcases List.mem_append.1 hd with hd | hd
      · exact ((hexByte_facts c.red).2 d hd).2
      · exact ((hexByte_facts c.green).2 d hd).2
    · exact ((hexByte_facts c.blue).2 d hd).2
  have hdigits : (hexByte c.red ++ hexByte c.green ++ hexByte c.blue).mapM hexDigit? =
      some [c.red.toNat / 16, c.red.toNat % 16, c.green.toNat / 16, c.green.toNat % 16, c.blue.toNat / 16, c.blue.toNat % 16] := by
    simp only [List.mapM_append, (hexByte_facts _).1]
    rfl
  rw [Color.ofHex?, String.toList_ofList, trimBlank_eq_self hblank, hdigits]
  simp only [byteOfDigits_div_mod, ← h]

/-- An opaque color is spelled as a hash of its six digits. -/
theorem spells_color (c : Color) (h : c.alpha = 255) :
    Spells c.text.toList (.hash (String.ofList (hexByte c.red ++ hexByte c.green ++ hexByte c.blue))) := by
  have hplain : ∀ b, ∀ d ∈ hexByte b, isPlainChar d = true := by
    intro b d hd
    simp [isPlainChar, ((hexByte_facts b).2 d hd).1]
  have htext : c.text.toList = '#' :: (hexByte c.red ++ hexByte c.green ++ hexByte c.blue) := by
    simp [Color.text, h]
  have hfirst : ∀ b : UInt8, hexByte b = Nat.digitChar (b.toNat / 16) :: [Nat.digitChar (b.toNat % 16)] := fun _ => rfl
  rw [htext, hfirst c.red]
  simp only [List.cons_append]
  refine spells_hash ((hexByte_facts c.red).2 _ List.mem_cons_self).1 ?_
  intro d hd
  have hd' : d ∈ hexByte c.red ++ hexByte c.green ++ hexByte c.blue := List.mem_cons_of_mem _ hd
  rcases List.mem_append.1 hd' with hd' | hd'
  · rcases List.mem_append.1 hd' with hd' | hd'
    · exact hplain _ d hd'
    · exact hplain _ d hd'
  · exact hplain _ d hd'

/-! ## Values -/

/-- Components in a row are printed as they are read. -/
theorem exists_printed_textAll {vs : List Value} (h : ∀ v ∈ vs, ∃ ns, Printed v.text.toList [v] ns) (first : Bool) :
    ∃ ns, Printed (Value.textAll first vs).toList vs ns := by
  induction vs generalizing first with
  | nil => exact ⟨[], Printed.nil⟩
  | cons v vs ih =>
    have ih := ih fun w hw => h w (List.mem_cons_of_mem _ hw)
    by_cases hv : v = .separator
    · -- a comma does not count as the first component, so the rest is printed as it would be without it
      subst hv
      obtain ⟨ns, hns⟩ := ih first
      refine ⟨.leaf Token.comma.bare :: ns, ?_⟩
      have htext : (Value.textAll first (.separator :: vs)).toList = ',' :: (Value.textAll first vs).toList := by
        simp [Value.textAll]
      rw [htext]
      exact hns.comma
    · obtain ⟨ns, hns⟩ := h v List.mem_cons_self
      obtain ⟨ms, hms⟩ := ih false
      have hall := hns.append hms fun rest hr => separated_textAll vs hr
      refine ⟨ns ++ ms, ?_⟩
      have htext : (Value.textAll first (v :: vs)).toList =
          (if first then [] else [' ']) ++ (v.text.toList ++ (Value.textAll false vs).toList) := by
        rw [Value.textAll]
        · cases first <;> simp
        · exact hv
      rw [htext]
      cases first with
      | true => exact hall
      | false => exact hall.space

/-- Every printable component is printed as it is read. -/
theorem Printable.exists_printed {v : Value} (h : Printable v) : ∃ ns, Printed v.text.toList [v] ns := by
  induction h with
  | @keyword s plain small =>
    refine Printed.token (spells_ident plain) ?_ rfl rfl (by simp)
    exact congrArg (fun s => Except.ok (Value.keyword s)) small
  | separator => exact ⟨_, Printed.nil.comma⟩
  | @color c solid =>
    refine Printed.token (spells_color c solid) ?_ rfl rfl (by simp)
    rw [Token.component_of_ne_function (by simp), Token.literal?, Color.ofHex?_hexByte c solid]
    rfl
  | @delimiter c emitted bare =>
    obtain ⟨text, htext⟩ := emitted
    obtain ⟨d, rest, hscan⟩ := exists_scan_of_mem htext
    obtain ⟨rfl, hdelimiter⟩ := isDelimiter_of_scan hscan
    exact Printed.token (by simpa [Value.text] using spells_delim hdelimiter bare) rfl rfl rfl (by simp)
  | @string s shown => exact Printed.token (spells_string shown) rfl rfl rfl (by simp)
  | @url u plain =>
    exact Printed.token (by simpa [Value.text] using spells_url plain) rfl rfl rfl (by simp)
  | @function name arguments plain small other _ ih =>
    obtain ⟨ns, hns⟩ := exists_printed_textAll ih true
    obtain ⟨ms, hms⟩ := hns.function plain small other
    refine ⟨ms, ?_⟩
    simpa [Value.text] using hms

/-- Characters that are printed components are read as those components. -/
theorem Printed.parse {text : String} {vs : List Value} {ns : List Node} (h : Printed text.toList vs ns) :
    Value.parse text = .ok (Value.ofComponents vs) := by
  have htokens := h.tokens [] separated_nil
  have hnil : significantIn [] = [] := by rw [significantIn, tokensIn, tokenize]; rfl
  rw [List.append_nil, hnil, List.append_nil] at htokens
  have hfilter : (Node.tokensAll ns).filter (!·.isTrivia) = Node.tokensAll ns := by
    rw [← htokens, significantIn, List.filter_filter]
    simp only [Bool.and_self]
  -- the nodes have the tokens of the text but not its sources, which no component depends on
  have hgroup : componentsOf (nodesOf text) = componentsOf (group (Node.lexemesAll ns)) := by
    refine componentsOf_congr ?_
    rw [← Node.tokensAll, hfilter, ← htokens]
    rfl
  rw [Value.parse_eq, hgroup, group_lexemesAll (h.nested none), h.components]
  rfl

/-- What is printed is read back: a printable component by itself, and none or at least two of them in a list. -/
theorem parse_text_of_printable {v : Value}
    (h : Printable v ∨ ∃ items, v = .list items ∧ items.length ≠ 1 ∧ ∀ c ∈ items, Printable c) :
    Value.parse v.text = .ok v := by
  rcases h with h | ⟨items, rfl, hlength, hitems⟩
  · obtain ⟨ns, hns⟩ := h.exists_printed
    exact hns.parse
  · obtain ⟨ns, hns⟩ := exists_printed_textAll (fun c hc => (hitems c hc).exists_printed) true
    have hlist : Value.ofComponents items = .list items := by
      match items, hlength with
      | [], _ => rfl
      | v :: w :: rest, _ => rfl
    have hparse := hns.parse
    rwa [hlist] at hparse

/-- Names of colors as functions, nothing between commas, escapes in a string, and marks side by side. -/
theorem parse_text_of_printable_nested :
    let inner := Value.function "rgb" [.separator, .string "a\"\\", .separator, .delimiter '/', .delimiter '*', .function "rgba" []]
    let v := Value.list [.separator, inner, .url "x?y", .color ⟨1, 2, 255, 255⟩, .delimiter '-', .keyword "b-1"]
    (∀ c ∈ v.components, Printable c) ∧ v.text = ",rgb(,\"a\\\"\\\\\", / * rgba()) url(x?y) #0102ff - b-1" ∧
      Value.parse ",rgb(,\"a\\\"\\\\\", / * rgba()) url(x?y) #0102ff - b-1" = .ok v := by
  intro inner v
  have hdelimiter : ∀ c ∈ ['/', '*', '-'], Printable (.delimiter c) := by
    intro c hc
    have hall : ['/', '*', '-'].all (fun c => decide (.delim c ∈ tokensOf (String.singleton c) ∧ c ≠ '\\')) = true := by
      decide +kernel
    obtain ⟨hc, hb⟩ := of_decide_eq_true (List.all_eq_true.1 hall c hc)
    exact .delimiter ⟨_, hc⟩ hb
  have hinner : Printable inner := by
    refine .function (by decide) (by decide) (by decide) ?_
    intro c hc
    simp only [List.mem_cons, List.not_mem_nil, or_false] at hc
    rcases hc with rfl | rfl | rfl | rfl | rfl | rfl
    · exact .separator
    · exact .string (List.all_eq_true.1 (by decide))
    · exact .separator
    · exact hdelimiter '/' (by decide)
    · exact hdelimiter '*' (by decide)
    · exact .function (by decide) (by decide) (by decide) (fun _ hc => nomatch hc)
  have hprintable : ∀ c ∈ v.components, Printable c := by
    intro c hc
    simp only [v, Value.components, List.mem_cons, List.not_mem_nil, or_false] at hc
    rcases hc with rfl | rfl | rfl | rfl | rfl | rfl
    · exact .separator
    · exact hinner
    · exact .url (List.all_eq_true.1 (by decide))
    · exact .color rfl
    · exact hdelimiter '-' (by decide)
    · exact .keyword (by decide) (by decide)
  have htext : v.text = ",rgb(,\"a\\\"\\\\\", / * rgba()) url(x?y) #0102ff - b-1" := by decide +kernel
  refine ⟨hprintable, htext, ?_⟩
  rw [← htext]
  exact parse_text_of_printable (.inr ⟨_, rfl, by decide, hprintable⟩)

end StyleCheck
