import StyleCheck.Proofs.Boundary
import StyleCheck.Proofs.LetterCase
import StyleCheck.Text.Quoted

/-!
# Spellings of tokens

What has to be written so that one given token is read. A spelling of a token is read as that token as soon as a separator or
the end of the text follows it, whatever comes then (`Spells`). Names of letters, digits and hyphens spell themselves, and a
color, a delimiter, a string between quotes and a url have spellings of their own.
-/

namespace StyleCheck

/-- The tokens of characters. -/
def tokensIn (cs : List Char) : List Token := (tokenize cs).map Lexeme.token

/-- The characters of plain names. -/
def isPlainChar (c : Char) : Bool := c.isAlphanum || c == '-'

/-- A plain name: a letter followed by letters, digits and hyphens. -/
def isPlainName (s : String) : Bool :=
  match s.toList with
  | [] => false
  | c :: rest => c.isAlpha && rest.all isPlainChar

/-- The characters that can follow a component or the name of a declaration. -/
def separators : List Char := [' ', ',', ':', ')']

/-- Either nothing follows, or a separator. -/
def Separated (rest : List Char) : Prop := ∀ c, rest.head? = some c → c ∈ separators

/-- Before a separator the characters are read as one token. -/
def Spells (cs : List Char) (t : Token) : Prop := ∀ rest, Separated rest → tokensIn (cs ++ rest) = t :: tokensIn rest

/-! ## Characters by number -/

/-- What can be checked of the first 128 characters holds of one of them. -/
theorem of_ascii {P : Char → Prop} (h : ∀ n < 128, P (Char.ofNat n)) {c : Char} (hc : c.toNat < 128) : P c := by
  have hp := h c.toNat hc
  rwa [Char.ofNat_toNat] at hp

/-- The small letters, by their code points. -/
theorem isLower_iff (c : Char) : c.isLower = true ↔ 97 ≤ c.toNat ∧ c.toNat ≤ 122 := by
  refine Bool.and_eq_true_iff.trans ?_
  exact and_congr decide_eq_true_iff decide_eq_true_iff

/-- A letter or digit is an ASCII character. -/
theorem toNat_lt_of_isAlphanum {c : Char} (h : c.isAlphanum = true) : c.toNat < 128 := by
  rcases Bool.or_eq_true_iff.1 h with h | h
  · rcases Bool.or_eq_true_iff.1 h with h | h
    · have hc := (isUpper_iff c).1 h
      omega
    · have hc := (isLower_iff c).1 h
      omega
  · have hc : c.toNat ≤ 57 := of_decide_eq_true (Bool.and_eq_true_iff.1 h).2
    omega

/-- A character of a plain name goes on any name and stands for itself in it. -/
theorem isNameChar_of_isPlainChar {c : Char} (h : isPlainChar c = true) :
    isNameChar c = true ∧ c ≠ '\\' ∧ replaceNul c = c := by
  have hlt : c.toNat < 128 := by
    rcases Bool.or_eq_true_iff.1 h with h | h
    · exact toNat_lt_of_isAlphanum h
    · rw [eq_of_beq h]
      decide
  revert h
  exact of_ascii (P := fun c => isPlainChar c = true → isNameChar c = true ∧ c ≠ '\\' ∧ replaceNul c = c) (by decide) hlt

/-- A letter may stand in a plain name. -/
theorem isPlainChar_of_isAlpha {c : Char} (h : c.isAlpha = true) : isPlainChar c = true := by
  simp [isPlainChar, Char.isAlphanum, h]

/-- A letter starts a name, and nothing else. -/
theorem letter_facts {c : Char} (h : c.isAlpha = true) :
    isSpace c = false ∧ isQuote c = false ∧ punctuation? c = none ∧ c.isDigit = false ∧ isMatchMark c = false ∧
      isNameStart c = true ∧ c ∉ ['#', '@', '+', '-', '.', '/', '<', '\\'] := by
  have hlt : c.toNat < 128 := toNat_lt_of_isAlphanum (by simp [Char.isAlphanum, h])
  revert h
  exact of_ascii (P := fun c => c.isAlpha = true → isSpace c = false ∧ isQuote c = false ∧ punctuation? c = none ∧
    c.isDigit = false ∧ isMatchMark c = false ∧ isNameStart c = true ∧ c ∉ ['#', '@', '+', '-', '.', '/', '<', '\\'])
    (by decide) hlt

theorem separated_nil : Separated [] := fun _ h => nomatch h

theorem separated_cons {c : Char} (h : c ∈ separators) (rest : List Char) : Separated (c :: rest) := by
  intro d hd
  obtain rfl := Option.some.inj hd
  exact h

/-- What can be checked of every separator holds of the one that follows. -/
theorem Separated.head {rest : List Char} (h : Separated rest) (P : Char → Prop) [DecidablePred P]
    (hP : separators.all (fun c => decide (P c)) = true) {c : Char} (hc : rest.head? = some c) : P c :=
  of_decide_eq_true (List.all_eq_true.1 hP c (h c hc))

/-- What follows a separated text does not begin with a character that is no separator. -/
theorem Separated.head_ne {rest : List Char} (h : Separated rest) {c : Char} (hc : c ∉ separators) : rest.head? ≠ some c :=
  fun hr => hc (h c hr)

/-! ## Where a token starts -/

/-- The tokens of a text, its first scanned off. -/
theorem tokensIn_cons (c : Char) (rest : List Char) : tokensIn (c :: rest) = (scan c rest).1 :: tokensIn (scan c rest).2 := by
  rw [tokensIn, tokenize_cons]
  rfl

theorem tokensIn_toList (text : String) : tokensIn text.toList = tokensOf text := rfl

/-- Where neither a sign nor a point stands, a numeral starts with a digit. -/
theorem startsNumeral_cons {c : Char} (h : c ∉ ['+', '-', '.']) (rest : List Char) : startsNumeral (c :: rest) = c.isDigit := by
  simp only [List.mem_cons, List.not_mem_nil, or_false, not_or] at h
  have hsign : readSign (c :: rest) = (false, c :: rest) := by
    unfold readSign
    split <;> simp_all
  rw [startsNumeral, hsign]
  simp only
  split
  · next he => exact absurd (List.cons.inj he).1 h.2.2
  · rfl

/-- A character that starts none of the other tokens starts a name or is a delimiter. -/
theorem scan_eq_scanMark {c : Char} {rest : List Char} (hs : isSpace c = false) (hq : isQuote c = false)
    (hp : punctuation? c = none) (hh : c ≠ '#') (ha : c ≠ '@') (hn : startsNumeral (c :: rest) = false) :
    scan c rest = scanMark c rest := by
  rw [scan_eq, hs, hq, hp, hn]
  simp [hh, ha]

/-- A letter begins an identifier. -/
theorem scan_letter {c : Char} (h : c.isAlpha = true) (rest : List Char) : scan c rest = scanIdent (c :: rest) := by
  obtain ⟨hs, hq, hp, hd, hm, hn, hne⟩ := letter_facts h
  simp only [List.mem_cons, List.not_mem_nil, or_false, not_or] at hne
  obtain ⟨hh, ha, hplus, hminus, hpoint, hslash, hless, hback⟩ := hne
  have hnumeral : startsNumeral (c :: rest) = false := by rw [startsNumeral_cons (by simp [hplus, hminus, hpoint]), hd]
  rw [scan_eq_scanMark hs hq hp hh ha hnumeral]
  have hother : scanMark c rest = scanOther c rest := by
    unfold scanMark
    split <;> simp_all
  rw [hother, scanOther, startsIdent_cons hminus hback, hn, if_pos rfl]

/-! ## Names -/

/-- A name ends where neither a character of names nor a backslash follows. -/
theorem readName_plain {cs rest : List Char} (h : ∀ c ∈ cs, isPlainChar c = true)
    (hr : ∀ c, rest.head? = some c → isNameChar c = false ∧ c ≠ '\\') : readName (cs ++ rest) = (cs, rest) := by
  induction cs with
  | nil =>
    cases rest with
    | nil => rw [List.nil_append, readName]
    | cons c rest =>
      obtain ⟨hn, hb⟩ := hr c rfl
      rw [List.nil_append, readName, if_neg hb, hn]
      rfl
  | cons c cs ih =>
    obtain ⟨hn, hb, hnul⟩ := isNameChar_of_isPlainChar (h c List.mem_cons_self)
    rw [List.cons_append, readName, if_neg hb, if_pos hn, ih fun d hd => h d (List.mem_cons_of_mem _ hd), hnul]

/-- A plain name begins with a letter and has only plain characters. -/
theorem exists_of_isPlainName {s : String} (h : isPlainName s = true) :
    ∃ c cs, s.toList = c :: cs ∧ c.isAlpha = true ∧ ∀ d ∈ c :: cs, isPlainChar d = true := by
  unfold isPlainName at h
  split at h
  · cases h
  · next c cs hs =>
    rw [Bool.and_eq_true, List.all_eq_true] at h
    refine ⟨c, cs, hs, h.1, fun d hd => ?_⟩
    rcases List.mem_cons.1 hd with rfl | hd
    · exact isPlainChar_of_isAlpha h.1
    · exact h.2 d hd

/-- A plain name is spelled as an identifier. -/
theorem spells_ident {s : String} (h : isPlainName s = true) : Spells s.toList (.ident s) := by
  intro rest hr
  obtain ⟨c, cs, hs, hc, hplain⟩ := exists_of_isPlainName h
  have hname : readName (c :: cs ++ rest) = (c :: cs, rest) :=
    readName_plain hplain fun d hd => hr.head (fun d => isNameChar d = false ∧ d ≠ '\\') (by decide) hd
  have hne : (readName (c :: cs ++ rest)).2.head? ≠ some '(' := by
    rw [hname]
    exact hr.head_ne (by decide)
  rw [hs, List.cons_append, tokensIn_cons, scan_letter hc, ← List.cons_append, scanIdent_of_ne hne, hname, ← hs,
    String.ofList_toList]

/-- A plain name before a round bracket is the name of a function, unless it is that of urls. -/
theorem tokensIn_function {s : String} (h : isPlainName s = true) (hu : eqIgnoringCase s "url" = false) (rest : List Char) :
    tokensIn (s.toList ++ '(' :: rest) = .function s :: tokensIn rest := by
  obtain ⟨c, cs, hs, hc, hplain⟩ := exists_of_isPlainName h
  have hname : readName (c :: cs ++ '(' :: rest) = (c :: cs, '(' :: rest) := by
    refine readName_plain hplain fun d hd => ?_
    obtain rfl := Option.some.inj hd
    decide
  have hparen : (readName (c :: cs ++ '(' :: rest)).2 = '(' :: rest := by rw [hname]
  have htext : String.ofList (readName (c :: cs ++ '(' :: rest)).1 = s := by rw [hname, ← hs, String.ofList_toList]
  rw [hs, List.cons_append, tokensIn_cons, scan_letter hc, ← List.cons_append, scanIdent_of_paren hparen, htext, hu]
  rfl

/-- A hash before letters, digits and hyphens, of which the first is no hyphen. -/
theorem spells_hash {c : Char} {cs : List Char} (hc : c.isAlphanum = true) (hcs : ∀ d ∈ cs, isPlainChar d = true) :
    Spells ('#' :: c :: cs) (.hash (String.ofList (c :: cs))) := by
  intro rest hr
  have hplain : ∀ d ∈ c :: cs, isPlainChar d = true := by
    intro d hd
    rcases List.mem_cons.1 hd with rfl | hd
    · simp [isPlainChar, hc]
    · exact hcs d hd
  have hname : readName (c :: cs ++ rest) = (c :: cs, rest) :=
    readName_plain hplain fun d hd => hr.head (fun d => isNameChar d = false ∧ d ≠ '\\') (by decide) hd
  have hstart : startsHash (c :: cs ++ rest) = true := by
    rw [List.cons_append, startsHash]
    rcases Bool.or_eq_true_iff.1 hc with ha | hd
    · obtain ⟨-, -, -, -, -, hn, hne⟩ := letter_facts ha
      simp only [List.mem_cons, List.not_mem_nil, or_false, not_or] at hne
      rw [startsIdent_cons hne.2.2.2.1 hne.2.2.2.2.2.2.2, hn]
      rfl
    · rw [hd, Bool.or_true, Bool.true_or]
  have hscan : scan '#' (c :: cs ++ rest) = scanHash (c :: cs ++ rest) := by rw [scan_eq]; rfl
  rw [List.cons_append, tokensIn_cons, hscan, scanHash, if_pos hstart, hname]

/-! ## Delimiters -/

/-- Every token is read where its first character stands. -/
theorem exists_scan_of_mem {t : Token} {cs : List Char} (h : t ∈ tokensIn cs) : ∃ c rest, (scan c rest).1 = t := by
  induction cs using tokenize.induct with
  | case1 =>
    rw [tokensIn, tokenize] at h
    cases h
  | case2 c rest left ih =>
    rw [tokensIn_cons] at h
    rcases List.mem_cons.1 h with rfl | h
    · exact ⟨c, rest, rfl⟩
    · exact ih h

theorem scanString_ne_delim (quote d : Char) (rest : List Char) : (scanString quote rest).1 ≠ .delim d := by
  unfold scanString
  split <;> simp

theorem scanNumber_ne_delim (d : Char) (cs : List Char) : (scanNumber cs).1 ≠ .delim d := by
  unfold scanNumber
  simp only
  split
  · simp
  · split <;> simp

theorem scanUrl_ne_delim (name : String) (d : Char) (rest : List Char) : (scanUrl name rest).1 ≠ .delim d := by
  unfold scanUrl
  split
  · simp
  · split <;> simp

theorem scanIdent_ne_delim (d : Char) (cs : List Char) : (scanIdent cs).1 ≠ .delim d := by
  unfold scanIdent
  simp only
  split
  · split
    · exact scanUrl_ne_delim _ _ _
    · simp
  · simp

/-- A delimiter is a character that starts no name, no number, no string and no white space, and has no token of its own. -/
structure IsDelimiter (c : Char) : Prop where
  space : isSpace c = false
  quote : isQuote c = false
  punctuation : punctuation? c = none
  digit : c.isDigit = false
  nameStart : isNameStart c = false

/-- A delimiter is its own character, which begins no name. -/
theorem isDelimiter_of_scanOther {c d : Char} {rest : List Char} (h : (scanOther c rest).1 = .delim d) :
    d = c ∧ isNameStart c = false := by
  unfold scanOther at h
  split at h
  · exact absurd h (scanIdent_ne_delim _ _)
  · next hi =>
    refine ⟨(Token.delim.inj h).symm, ?_⟩
    by_cases hh : c = '-'
    · rw [hh]
      decide
    · by_cases hb : c = '\\'
      · rw [hb]
        decide
      · rwa [startsIdent_cons hh hb, Bool.not_eq_true] at hi

/-- A mark scanned as a delimiter is its own character, which begins no name. -/
theorem isDelimiter_of_scanMark {c d : Char} {rest : List Char} (h : (scanMark c rest).1 = .delim d) :
    d = c ∧ isNameStart c = false := by
  unfold scanMark at h
  split at h
  · cases h
  · cases h
  · cases h
  · split at h
    · cases h
    · exact isDelimiter_of_scanOther h
  · exact isDelimiter_of_scanOther h

/-- Punctuation is never a delimiter. -/
theorem punctuation?_ne_delim (c d : Char) : punctuation? c ≠ some (.delim d) := by
  unfold punctuation?
  split <;> simp

/-- Whatever follows it, a character that is read as a delimiter is one. -/
theorem isDelimiter_of_scan {c d : Char} {rest : List Char} (h : (scan c rest).1 = .delim d) : d = c ∧ IsDelimiter c := by
  rw [scan_eq] at h
  split at h
  · cases h
  next hs =>
  split at h
  · exact absurd h (scanString_ne_delim _ _ _)
  next hq =>
  rw [Bool.not_eq_true] at hs hq
  split at h
  · next token hp => exact absurd (hp.trans (congrArg some h)) (punctuation?_ne_delim c d)
  next hp =>
  split at h
  · next hc =>
    rw [hc]
    unfold scanHash at h
    split at h
    · cases h
    · exact ⟨(Token.delim.inj h).symm, ⟨by decide, by decide, by decide, by decide, by decide⟩⟩
  split at h
  · next hc =>
    rw [hc]
    unfold scanAt at h
    split at h
    · cases h
    · exact ⟨(Token.delim.inj h).symm, ⟨by decide, by decide, by decide, by decide, by decide⟩⟩
  split at h
  · exact absurd h (scanNumber_ne_delim _ _)
  next hn =>
  obtain ⟨hd, hname⟩ := isDelimiter_of_scanMark h
  refine ⟨hd, hs, hq, hp, ?_, hname⟩
  by_cases hsign : c ∈ ['+', '-', '.']
  · have hall : ['+', '-', '.'].all (fun c => !c.isDigit) = true := by decide
    simpa using List.all_eq_true.1 hall c hsign
  · rwa [startsNumeral_cons hsign, Bool.not_eq_true] at hn

/-- No identifier begins where a text is separated. -/
theorem Separated.startsIdent {rest : List Char} (h : Separated rest) : startsIdent rest = false := by
  cases rest with
  | nil => rfl
  | cons d tail =>
    have hd := h.head (fun d => isNameStart d = false ∧ d ≠ '-' ∧ d ≠ '\\') (by decide) (c := d) rfl
    rw [startsIdent_cons hd.2.1 hd.2.2, hd.1]

/-- No hash begins where a text is separated. -/
theorem Separated.startsHash {rest : List Char} (h : Separated rest) : startsHash rest = false := by
  have hi := h.startsIdent
  cases rest with
  | nil => rfl
  | cons d tail =>
    have hd := h.head (fun d => d.isDigit = false ∧ d ≠ '-') (by decide) (c := d) rfl
    rw [StyleCheck.startsHash, hi, hd.1, beq_false_of_ne hd.2]
    rfl

/-- Before a separator a sign or a point alone is no numeral. -/
theorem Separated.startsNumeral {rest : List Char} (h : Separated rest) {c : Char} (hc : c.isDigit = false) :
    startsNumeral (c :: rest) = false := by
  by_cases hs : c ∈ ['+', '-', '.']
  · simp only [List.mem_cons, List.not_mem_nil, or_false] at hs
    cases rest with
    | nil => rcases hs with rfl | rfl | rfl <;> rfl
    | cons d tail =>
      have hd := h.head (fun d => d.isDigit = false ∧ d ≠ '.') (by decide) (c := d) rfl
      rcases hs with rfl | rfl | rfl <;> simp [StyleCheck.startsNumeral, readSign, startsDigit, hd]
  · rw [startsNumeral_cons hs, hc]

/-- A mark before a separated rest stands by itself. -/
theorem Separated.scanMark {rest : List Char} (h : Separated rest) (c : Char) : scanMark c rest = scanOther c rest := by
  unfold StyleCheck.scanMark
  split
  · exact absurd rfl (h.head_ne (c := '*') (by decide))
  · exact absurd rfl (h.head_ne (c := '!') (by decide))
  · exact absurd rfl (h.head_ne (c := '-') (by decide))
  · exact absurd rfl (h.head_ne (c := '=') (by decide))
  · rfl

/-- Any other character before a separated rest is a delimiter, unless it begins a name or an escape. -/
theorem Separated.scanOther {rest : List Char} (h : Separated rest) {c : Char} (hc : isNameStart c = false) (hb : c ≠ '\\') :
    scanOther c rest = (.delim c, rest) := by
  have hstart : StyleCheck.startsIdent (c :: rest) = false := by
    by_cases hh : c = '-'
    · subst hh
      cases rest with
      | nil => decide
      | cons d tail => exact h.head (fun d => (isNameStart d || d == '-' || d == '\\') = false) (by decide) rfl
    · rw [startsIdent_cons hh hb, hc]
  rw [StyleCheck.scanOther, hstart]
  rfl

/-- A delimiter stands for itself, except that a backslash before a separator is an escape. -/
theorem spells_delim {c : Char} (h : IsDelimiter c) (hb : c ≠ '\\') : Spells [c] (.delim c) := by
  intro rest hr
  have hscan : scan c rest = (.delim c, rest) := by
    by_cases hh : c = '#'
    · subst hh
      rw [scan_eq, h.space, h.quote, h.punctuation]
      simp [scanHash, hr.startsHash]
    by_cases ha : c = '@'
    · subst ha
      rw [scan_eq, h.space, h.quote, h.punctuation]
      simp [scanAt, hr.startsIdent]
    rw [scan_eq_scanMark h.space h.quote h.punctuation hh ha (hr.startsNumeral h.digit), hr.scanMark,
      hr.scanOther h.nameStart hb]
  rw [List.singleton_append, tokensIn_cons, hscan]

/-! ## Strings and urls -/

/-- The characters of texts that are printed as they are: from the space to the tilde. -/
def isShown (c : Char) : Bool := 0x20 ≤ c.toNat && c.toNat ≤ 0x7E

/-- The characters of urls that need no quotes. -/
def isUrlChar (c : Char) : Bool := isShown c && !(c ∈ [' ', '"', '\x27', '(', ')', '\\'])

/-- A shown character is an ASCII character. -/
theorem toNat_lt_of_isShown {c : Char} (h : isShown c = true) : c.toNat < 128 := by
  simp only [isShown, Bool.and_eq_true, decide_eq_true_eq] at h
  omega

/-- A shown character is quoted as itself, after a backslash if it is a double quote or a backslash. -/
theorem quoteChar_of_isShown {c : Char} (h : isShown c = true) :
    isNewline c = false ∧ replaceNul c = c ∧ quoteChar c = if c = '"' ∨ c = '\\' then ['\\', c] else [c] := by
  have hlt := toNat_lt_of_isShown h
  revert h
  exact of_ascii (P := fun c => isShown c = true → isNewline c = false ∧ replaceNul c = c ∧
    quoteChar c = if c = '"' ∨ c = '\\' then ['\\', c] else [c]) (by decide) hlt

/-- What is written between quotes is read back. -/
theorem readQuoted_flatMap_quoteChar {cs : List Char} (h : ∀ c ∈ cs, isShown c = true) (rest : List Char) :
    readQuoted '"' (cs.flatMap quoteChar ++ '"' :: rest) = (some cs, rest) := by
  induction cs with
  | nil =>
    rw [List.flatMap_nil, List.nil_append, readQuoted]
    rfl
  | cons c cs ih =>
    obtain ⟨hl, hnul, hquote⟩ := quoteChar_of_isShown (h c List.mem_cons_self)
    have ih := ih fun d hd => h d (List.mem_cons_of_mem _ hd)
    rw [List.flatMap_cons, hquote, List.append_assoc]
    by_cases hc : c = '"' ∨ c = '\\'
    · have hescape : ∀ l, readEscape (c :: l) = (c, l) := by
        rintro l
        rcases hc with rfl | rfl <;> rfl
      rw [if_pos hc, List.cons_append, List.singleton_append, readQuoted, if_neg (by decide), if_neg (by decide), if_pos rfl,
        if_neg (by simp), if_neg (by rw [startsNewline, hl]; decide), hescape]
      simp only [ih, Option.map_some]
    · rw [not_or] at hc
      rw [if_neg (by simp [hc]), List.singleton_append, readQuoted, if_neg hc.1, hl, if_neg (by decide), if_neg hc.2, ih, hnul]
      rfl

/-- A text of shown characters is spelled by its quotation. -/
theorem spells_string {s : String} (h : ∀ c ∈ s.toList, isShown c = true) : Spells (quote s).toList (.string s) := by
  intro rest _
  have hread := readQuoted_flatMap_quoteChar h rest
  have htext : (quote s).toList ++ rest = '"' :: (s.toList.flatMap quoteChar ++ '"' :: rest) := by simp [quote]
  have hscan : ∀ l, scan '"' l = scanString '"' l := by
    intro l
    rw [scan_eq]
    rfl
  rw [htext, tokensIn_cons, hscan, scanString, hread]
  simp only [String.ofList_toList]

/-- What a character of a plain url is not. -/
theorem urlChar_facts {c : Char} (h : isUrlChar c = true) :
    c ≠ ')' ∧ isSpace c = false ∧ spoilsUrl c = false ∧ c ≠ '\\' ∧ replaceNul c = c ∧ isQuote c = false := by
  have hlt := toNat_lt_of_isShown (Bool.and_eq_true_iff.1 h).1
  revert h
  exact of_ascii (P := fun c => isUrlChar c = true → c ≠ ')' ∧ isSpace c = false ∧ spoilsUrl c = false ∧ c ≠ '\\' ∧
    replaceNul c = c ∧ isQuote c = false) (by decide) hlt

/-- A plain url is read up to its parenthesis. -/
theorem readUrl_append_paren {cs : List Char} (h : ∀ c ∈ cs, isUrlChar c = true) (rest : List Char) :
    readUrl (cs ++ ')' :: rest) = (some cs, rest) := by
  induction cs with
  | nil =>
    rw [List.nil_append, readUrl]
    rfl
  | cons c cs ih =>
    obtain ⟨hp, hs, hspoils, hb, hnul, -⟩ := urlChar_facts (h c List.mem_cons_self)
    rw [List.cons_append, readUrl, if_neg hp, hs, if_neg (by decide), hspoils, if_neg (by decide), if_neg hb,
      ih fun d hd => h d (List.mem_cons_of_mem _ hd), hnul]
    rfl

/-- A plain url is spelled without quotes. -/
theorem spells_url {u : String} (h : ∀ c ∈ u.toList, isUrlChar c = true) :
    Spells (['u', 'r', 'l', '('] ++ u.toList ++ [')']) (.url u) := by
  intro rest _
  have hname : readName (['u', 'r', 'l'] ++ '(' :: (u.toList ++ ')' :: rest)) =
      (['u', 'r', 'l'], '(' :: (u.toList ++ ')' :: rest)) := by
    refine readName_plain (List.all_eq_true.1 (by decide)) fun d hd => ?_
    obtain rfl := Option.some.inj hd
    decide
  -- the first character is neither white space nor a quote, so that the url has none
  have hfirst : (u.toList ++ ')' :: rest).dropWhile isSpace = u.toList ++ ')' :: rest ∧
      startsQuote (u.toList ++ ')' :: rest) = false := by
    unfold startsQuote
    cases hu : u.toList with
    | nil => exact ⟨rfl, rfl⟩
    | cons c cs =>
      obtain ⟨-, hs, -, -, -, hq⟩ := urlChar_facts (h c (by rw [hu]; exact List.mem_cons_self))
      rw [List.cons_append, List.dropWhile_cons, hs]
      exact ⟨rfl, hq⟩
  have hscan : scanIdent (['u', 'r', 'l'] ++ '(' :: (u.toList ++ ')' :: rest)) = (.url u, rest) := by
    have hurl : eqIgnoringCase (String.ofList ['u', 'r', 'l']) "url" = true := by decide
    have hparen : (readName (['u', 'r', 'l'] ++ '(' :: (u.toList ++ ')' :: rest))).2 = '(' :: (u.toList ++ ')' :: rest) := by
      rw [hname]
    rw [scanIdent_of_paren hparen, hname, if_pos hurl, scanUrl, hfirst.2, hfirst.1, readUrl_append_paren h]
    simp only [String.ofList_toList]
    rfl
  have htext : ['u', 'r', 'l', '('] ++ u.toList ++ [')'] ++ rest = 'u' :: (['r', 'l'] ++ '(' :: (u.toList ++ ')' :: rest)) := by
    simp
  rw [htext, tokensIn_cons, scan_letter (by decide), ← List.cons_append]
  exact congrArg (fun r : Token × List Char => r.1 :: tokensIn r.2) hscan

end StyleCheck
