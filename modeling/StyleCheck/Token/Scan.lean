import StyleCheck.Token.Basic
import StyleCheck.Token.Numeral
import StyleCheck.Token.Url

/-!
# Reading a text as tokens

`scan` reads the token that starts at a character, and `tokenize` reads a whole text token by token. Main statements: what
`scan` leaves is an end piece of what follows the first character, and the sources of the tokens of a text, put together, are
the text.
-/

namespace StyleCheck

/-- The tokens of one character that is never part of a longer token. -/
def punctuation? : Char → Option Token
  | ',' => some .comma
  | ':' => some .colon
  | ';' => some .semicolon
  | '(' => some (.opener .round)
  | ')' => some (.closer .round)
  | '[' => some (.opener .square)
  | ']' => some (.closer .square)
  | '\x7b' => some (.opener .curly)
  | '\x7d' => some (.closer .curly)
  | _ => none

/-- The characters that form one token with a `=` after them. -/
def isMatchMark (c : Char) : Bool := c == '$' || c == '*' || c == '^' || c == '|' || c == '~'

/-- What is left after a comment, given what follows its `/*`. -/
def skipComment : List Char → List Char
  | [] => []
  | '*' :: '/' :: rest => rest
  | _ :: rest => skipComment rest

/-- A string, after its opening `quote`. -/
def scanString (quote : Char) (rest : List Char) : Token × List Char :=
  match readQuoted quote rest with
  | (some text, left) => (.string (String.ofList text), left)
  | (none, left) => (.badString, left)

/-- Whether a name stands here, or one that starts with a digit or with any hyphen. -/
def startsHash : List Char → Bool
  | c :: rest => startsIdent (c :: rest) || c.isDigit || c == '-'
  | [] => false

/-- What follows a `#`. -/
def scanHash (rest : List Char) : Token × List Char :=
  if startsHash rest then
    let name := readName rest
    (.hash (String.ofList name.1), name.2)
  else (.delim '#', rest)

/-- What follows an `@`. -/
def scanAt (rest : List Char) : Token × List Char :=
  if startsIdent rest then
    let name := readName rest
    (.atKeyword (String.ofList name.1), name.2)
  else (.delim '@', rest)

/-- A number, alone or followed by `%` or by a unit. -/
def scanNumber (cs : List Char) : Token × List Char :=
  let numeral := readNumeral cs
  let value := numeral.1.value
  match numeral.2 with
  | '%' :: left => (.percentage (value / 100).toFloat32, left)
  | left =>
    if startsIdent left then
      let unit := readName left
      (.dimension value.toFloat32 (String.ofList unit.1), unit.2)
    else (.number value.toFloat32 numeral.1.int?, left)

/-- What follows `url(`: with a quote it is an ordinary function, whose name is given, and else the text of a url. -/
def scanUrl (name : String) (rest : List Char) : Token × List Char :=
  if startsQuote rest then (.function name, rest)
  else
    match readUrl (rest.dropWhile isSpace) with
    | (some text, left) => (.url (String.ofList text), left)
    | (none, left) => (.badUrl, left)

/-- A name: an identifier, a function if `(` follows at once, or a url. -/
def scanIdent (cs : List Char) : Token × List Char :=
  let name := readName cs
  let text := String.ofList name.1
  match name.2 with
  | '(' :: left => if eqIgnoringCase text "url" then scanUrl text left else (.function text, left)
  | left => (.ident text, left)

/-- A name, or else a delimiter. -/
def scanOther (c : Char) (rest : List Char) : Token × List Char :=
  if startsIdent (c :: rest) then scanIdent (c :: rest) else (.delim c, rest)

/-- The token that starts with the character `c`, and what is left of the text after it. -/
def scan (c : Char) (rest : List Char) : Token × List Char :=
  if isSpace c then (.space, rest.dropWhile isSpace)
  else if isQuote c then scanString c rest
  else
    match punctuation? c with
    | some token => (token, rest)
    | none =>
      if c = '#' then scanHash rest
      else if c = '@' then scanAt rest
      else if startsNumeral (c :: rest) then scanNumber (c :: rest)
      else
        match c, rest with
        | '/', '*' :: left => (.comment, skipComment left)
        | '<', '!' :: '-' :: '-' :: left => (.cdo, left)
        | '-', '-' :: '>' :: left => (.cdc, left)
        | _, '=' :: left => if isMatchMark c then (.matching c, left) else scanOther c rest
        | _, _ => scanOther c rest

theorem skipComment_suffix (cs : List Char) : skipComment cs <:+ cs := by
  fun_induction skipComment cs with
  | case1 => exact List.suffix_refl _
  | case2 rest => exact ⟨['*', '/'], rfl⟩
  | case3 c rest _ ih => exact ih.trans (List.suffix_cons _ _)

theorem scanString_suffix (quote : Char) (rest : List Char) : (scanString quote rest).2 <:+ rest := by
  have h := readQuoted_suffix quote rest
  unfold scanString
  split <;> simp_all

theorem scanHash_suffix (rest : List Char) : (scanHash rest).2 <:+ rest := by
  unfold scanHash
  split
  · exact readName_suffix _
  · exact List.suffix_refl _

theorem scanAt_suffix (rest : List Char) : (scanAt rest).2 <:+ rest := by
  unfold scanAt
  split
  · exact readName_suffix _
  · exact List.suffix_refl _

theorem scanNumber_suffix {c : Char} {rest : List Char} (h : startsNumeral (c :: rest) = true) :
    (scanNumber (c :: rest)).2 <:+ rest := by
  have hn := readNumeral_suffix_tail h
  unfold scanNumber
  simp only
  split
  · next left he => exact (List.suffix_cons _ _).trans (he ▸ hn)
  · split
    · exact (readName_suffix _).trans hn
    · exact hn

theorem scanUrl_suffix (name : String) (rest : List Char) : (scanUrl name rest).2 <:+ rest := by
  unfold scanUrl
  split
  · exact List.suffix_refl _
  · have h := (readUrl_suffix (rest.dropWhile isSpace)).trans (List.dropWhile_suffix _)
    split <;> simp_all

theorem scanIdent_suffix {c : Char} {rest : List Char} (h : startsIdent (c :: rest) = true) :
    (scanIdent (c :: rest)).2 <:+ rest := by
  have hn := readName_suffix_tail h
  unfold scanIdent
  simp only
  split
  · next left he =>
    have hl : left <:+ rest := (List.suffix_cons _ _).trans (he ▸ hn)
    split
    · exact (scanUrl_suffix _ _).trans hl
    · exact hl
  · exact hn

theorem scanOther_suffix (c : Char) (rest : List Char) : (scanOther c rest).2 <:+ rest := by
  unfold scanOther
  split
  · next h => exact scanIdent_suffix h
  · exact List.suffix_refl _

/-- A token takes at least its first character, and what is left of the text is left unchanged. -/
theorem scan_suffix (c : Char) (rest : List Char) : (scan c rest).2 <:+ rest := by
  unfold scan
  split
  · exact List.dropWhile_suffix _
  split
  · exact scanString_suffix _ _
  split
  · exact List.suffix_refl _
  split
  · exact scanHash_suffix _
  split
  · exact scanAt_suffix _
  split
  · next h => exact scanNumber_suffix h
  split
  · exact (skipComment_suffix _).trans (List.suffix_cons _ _)
  · exact ⟨['!', '-', '-'], rfl⟩
  · exact ⟨['-', '>'], rfl⟩
  · split
    · exact List.suffix_cons _ _
    · exact scanOther_suffix _ _
  · exact scanOther_suffix _ _

/-- The tokens of a text, each with its source. -/
def tokenize : List Char → List Lexeme
  | [] => []
  | c :: rest =>
    let left := (scan c rest).2
    ⟨(scan c rest).1, (c :: rest).take (rest.length + 1 - left.length)⟩ :: tokenize left
termination_by cs => cs.length
decreasing_by
  have := (scan_suffix c rest).length_le
  simp only [List.length_cons]
  omega

/-- The sources of the tokens, put together, are the text. -/
theorem flatMap_source_tokenize (cs : List Char) : (tokenize cs).flatMap Lexeme.source = cs := by
  fun_induction tokenize cs with
  | case1 => rfl
  | case2 c rest left ih =>
    obtain ⟨taken, h⟩ : left <:+ c :: rest := (scan_suffix c rest).trans (List.suffix_cons c rest)
    have hl : rest.length + 1 - left.length = taken.length := by
      have := congrArg List.length h
      simp only [List.length_append, List.length_cons] at this
      omega
    rw [List.flatMap_cons, ih, hl, ← h, List.take_left]

end StyleCheck
