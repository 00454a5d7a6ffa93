import StyleCheck.Token.Scan

/-!
# Where tokens end

A character such as `;` or a closing bracket ends every token except those that take in anything: strings, urls, comments and
escapes. So a token before such a character either takes the character in, or is the token that would be read if the text
ended there, whatever comes after. Main statement: `tokenize_append_stop`, that a text cut at such a character is read in two
pieces as soon as the character is a token by itself after the first piece.
-/

namespace StyleCheck

/-- The characters that end a token and start none but their own. -/
def stops : List Char := [',', ':', ';', ')', '[', ']', '\x7b', '\x7d']

/-- Characters with a meaning inside of tokens. -/
def marks : List Char := "\\-+.%eE(*/=!>\"\x27".toList

/-- A reader meets a stop: either it ends before it, and reads what it reads without it, or it takes it in. What follows the
stop does not decide which. -/
def EndsOrTakes {α : Type} (read : List Char → α × List Char) (stop : Char) (cs : List Char) : Prop :=
  (∀ b, read (cs ++ stop :: b) = ((read cs).1, (read cs).2 ++ stop :: b)) ∨ ∀ b, (read (cs ++ stop :: b)).2 <:+ b

/-- A comment, one of the marks of two or more characters, a name or a delimiter: what `scan` reads where no other token
starts. -/
def scanMark (c : Char) (rest : List Char) : Token × List Char :=
  match c, rest with
  | '/', '*' :: left => (.comment, skipComment left)
  | '<', '!' :: '-' :: '-' :: left => (.cdo, left)
  | '-', '-' :: '>' :: left => (.cdc, left)
  | _, '=' :: left => if isMatchMark c then (.matching c, left) else scanOther c rest
  | _, _ => scanOther c rest

/-- The token that starts with a character, with all that is left to the marks in one place. -/
theorem scan_eq (c : Char) (rest : List Char) :
    scan c rest =
      if isSpace c then (.space, rest.dropWhile isSpace)
      else if isQuote c then scanString c rest
      else match punctuation? c with
        | some token => (token, rest)
        | none =>
          if c = '#' then scanHash rest
          else if c = '@' then scanAt rest
          else if startsNumeral (c :: rest) then scanNumber (c :: rest)
          else scanMark c rest := by
  unfold scan scanMark
  rfl

/-- A reader that goes on as another one does, after some characters, meets the stop as that one does. -/
theorem EndsOrTakes.of_step {α β : Type} {read : List Char → α × List Char} {other : List Char → β × List Char}
    {stop : Char} {cs left : List Char} (f : β → α) (h : EndsOrTakes other stop left)
    (hcs : read cs = (f (other left).1, (other left).2))
    (hb : ∀ b, read (cs ++ stop :: b) = (f (other (left ++ stop :: b)).1, (other (left ++ stop :: b)).2)) :
    EndsOrTakes read stop cs := by
  rcases h with h | h
  · refine .inl fun b => ?_
    rw [hb, h b, hcs]
  · refine .inr fun b => ?_
    rw [hb]
    exact h b

/-- The longest stretch ends before a stop that is none of it, whatever comes after. -/
theorem takeWhile_append_stop {α : Type} {p : α → Bool} {stop : α} (h : p stop = false) (cs b : List α) :
    (cs ++ stop :: b).takeWhile p = cs.takeWhile p := by
  induction cs with
  | nil => simp [h]
  | cons c cs ih => rw [List.cons_append, List.takeWhile_cons, List.takeWhile_cons, ih]

/-- What is left after the longest stretch has the stop in it, if the stop is none of the stretch. -/
theorem dropWhile_append_stop {α : Type} {p : α → Bool} {stop : α} (h : p stop = false) (cs b : List α) :
    (cs ++ stop :: b).dropWhile p = cs.dropWhile p ++ stop :: b := by
  induction cs with
  | nil => simp [h]
  | cons c cs ih =>
    rw [List.cons_append, List.dropWhile_cons, List.dropWhile_cons, ih]
    split <;> rfl

/-- The longest stretch of bounded length ends before a stop as well. -/
theorem takeWhile_take_append_stop {p : Char → Bool} {stop : Char} (h : p stop = false) (n : Nat) (cs b : List Char) :
    ((cs ++ stop :: b).take n).takeWhile p = (cs.take n).takeWhile p := by
  induction n generalizing cs with
  | zero => rfl
  | succ n ih =>
    cases cs with
    | nil => simp [h]
    | cons c cs => rw [List.cons_append, List.take_succ_cons, List.take_succ_cons, List.takeWhile_cons,
        List.takeWhile_cons, ih]

/-- Only a carriage return needs a second look to tell which white space is one. -/
theorem skipOneSpace_cons {c : Char} {rest : List Char} (h : c = '\r' → rest.head? ≠ some '\n') :
    skipOneSpace (c :: rest) = if isSpace c then rest else c :: rest := by
  unfold skipOneSpace
  split
  · next he =>
    obtain ⟨rfl, rfl⟩ := List.cons.inj he
    exact absurd rfl (h rfl)
  · next he =>
    obtain ⟨rfl, rfl⟩ := List.cons.inj he
    rfl
  · next he => cases he

/-- What follows the stop is not seen by a test of the first character. -/
theorem head?_append_stop_ne {stop c : Char} {cs : List Char} (hc : stop ≠ c) (h : cs.head? ≠ some c) (b : List Char) :
    (cs ++ stop :: b).head? ≠ some c := by
  cases cs with
  | nil => exact fun hn => hc (Option.some.inj hn)
  | cons d cs => exact h

/-- What follows the stop is not seen by a comparison with characters that are no stop. -/
theorem prefix_of_prefix_append_stop {stop : Char} {mark : List Char} (hm : stop ∉ mark) {cs b : List Char}
    (h : mark <+: cs ++ stop :: b) : mark <+: cs := by
  induction mark generalizing cs with
  | nil => exact List.nil_prefix
  | cons m mark ih =>
    cases cs with
    | nil => exact absurd (List.cons_prefix_cons.1 h).1.symm fun he => hm (by rw [he]; exact List.mem_cons_self)
    | cons c cs =>
      obtain ⟨hc, htail⟩ := List.cons_prefix_cons.1 h
      exact List.cons_prefix_cons.2 ⟨hc, ih (fun hmem => hm (List.mem_cons_of_mem _ hmem)) htail⟩

/-- A numeral with a percent sign after it is a percentage. -/
theorem scanNumber_of_percent {cs left : List Char} (h : (readNumeral cs).2 = '%' :: left) :
    scanNumber cs = (.percentage ((readNumeral cs).1.value / 100).toFloat32, left) := by
  simp only [scanNumber, h]

/-- A numeral without a percent sign is a dimension if a name starts after it, and else a number. -/
theorem scanNumber_of_ne {cs : List Char} (h : (readNumeral cs).2.head? ≠ some '%') :
    scanNumber cs =
      if startsIdent (readNumeral cs).2 then
        (.dimension (readNumeral cs).1.value.toFloat32 (String.ofList (readName (readNumeral cs).2).1),
          (readName (readNumeral cs).2).2)
      else (.number (readNumeral cs).1.value.toFloat32 (readNumeral cs).1.int?, (readNumeral cs).2) := by
  simp only [scanNumber]
  split
  · next he => exact absurd (by rw [he]; rfl) h
  · rfl

/-- A name with a round bracket after it is a function, unless it is `url`. -/
theorem scanIdent_of_paren {cs left : List Char} (h : (readName cs).2 = '(' :: left) :
    scanIdent cs =
      if eqIgnoringCase (String.ofList (readName cs).1) "url" then scanUrl (String.ofList (readName cs).1) left
      else (.function (String.ofList (readName cs).1), left) := by
  simp only [scanIdent, h]

/-- A name without a round bracket after it is an identifier. -/
theorem scanIdent_of_ne {cs : List Char} (h : (readName cs).2.head? ≠ some '(') :
    scanIdent cs = (.ident (String.ofList (readName cs).1), (readName cs).2) := by
  simp only [scanIdent]
  split
  · next he => exact absurd (by rw [he]; rfl) h
  · rfl

/-- Whatever a name starts, what is left of it is a part of what is left after the name. -/
theorem scanIdent_suffix_readName (cs : List Char) : (scanIdent cs).2 <:+ (readName cs).2 := by
  by_cases h : (readName cs).2.head? = some '('
  · obtain ⟨left, hl⟩ := List.head?_eq_some_iff.1 h
    rw [scanIdent_of_paren hl, hl]
    split
    · exact (scanUrl_suffix _ _).trans (List.suffix_cons _ _)
    · exact List.suffix_cons _ _
  · simp only [scanIdent_of_ne h, List.suffix_refl]

/-- Only a hyphen and a backslash need a second look to tell whether a name starts. -/
theorem startsIdent_cons {c : Char} (hh : c ≠ '-') (hb : c ≠ '\\') (rest : List Char) :
    startsIdent (c :: rest) = isNameStart c := by
  unfold startsIdent
  split <;> simp_all

section

variable {stop : Char} (hs : stop ∈ stops)

include hs

/-! ## What a stop is not -/

/-- What can be checked of every stop holds of one. -/
theorem of_mem_stops (P : Char → Prop) [DecidablePred P] (h : stops.all (fun c => decide (P c)) = true) : P stop :=
  of_decide_eq_true (List.all_eq_true.1 h stop hs)

/-- No name starts with a stop. -/
theorem isNameStart_stop : isNameStart stop = false := of_mem_stops hs (isNameStart · = false) (by decide)

/-- No name goes on with a stop. -/
theorem isNameChar_stop : isNameChar stop = false := of_mem_stops hs (isNameChar · = false) (by decide)

/-- A stop is no white space. -/
theorem isSpace_stop : isSpace stop = false := of_mem_stops hs (isSpace · = false) (by decide)

/-- A stop ends no line. -/
theorem isNewline_stop : isNewline stop = false := of_mem_stops hs (isNewline · = false) (by decide)

/-- A stop is no quotation mark. -/
theorem isQuote_stop : isQuote stop = false := of_mem_stops hs (isQuote · = false) (by decide)

/-- A stop does not spoil a url. -/
theorem spoilsUrl_stop : spoilsUrl stop = false := of_mem_stops hs (spoilsUrl · = false) (by decide)

/-- A stop is no digit. -/
theorem isDigit_stop : stop.isDigit = false := of_mem_stops hs (·.isDigit = false) (by decide)

/-- A stop is no hexadecimal digit. -/
theorem hexDigit?_stop : hexDigit? stop = none := of_mem_stops hs (hexDigit? · = none) (by decide)

/-- A stop has no meaning inside of tokens. -/
theorem ne_of_mem_marks {c : Char} (h : c ∈ marks) : stop ≠ c := by
  have hno : stop ∉ marks := of_mem_stops hs (· ∉ marks) (by decide)
  rintro rfl
  exact hno h

/-! ## Tests of what comes next -/

/-- Whether a line ends here is seen before the stop. -/
theorem startsNewline_append (cs b : List Char) : startsNewline (cs ++ stop :: b) = startsNewline cs := by
  cases cs with
  | nil => exact isNewline_stop hs
  | cons c cs => rfl

/-- Whether a digit comes next is seen before the stop. -/
theorem startsDigit_append (cs b : List Char) : startsDigit (cs ++ stop :: b) = startsDigit cs := by
  cases cs with
  | nil => exact isDigit_stop hs
  | cons c cs => rfl

/-- Whether a name starts here is seen before the stop, although it takes up to three characters to tell. -/
theorem startsIdent_append (cs b : List Char) : startsIdent (cs ++ stop :: b) = startsIdent cs := by
  have hh : stop ≠ '-' := ne_of_mem_marks hs (by decide)
  have hb : stop ≠ '\\' := ne_of_mem_marks hs (by decide)
  cases cs with
  | nil => rw [List.nil_append, startsIdent_cons hh hb, isNameStart_stop hs]; rfl
  | cons c cs =>
    by_cases hc : c = '-'
    · subst hc
      cases cs with
      | nil =>
        show (isNameStart stop || stop == '-' || stop == '\\') = false
        rw [isNameStart_stop hs, beq_false_of_ne hh, beq_false_of_ne hb]
        rfl
      | cons d cs => rfl
    · by_cases hc' : c = '\\'
      · subst hc'
        simp [startsIdent, startsNewline_append hs]
      · rw [List.cons_append, startsIdent_cons hc hc', startsIdent_cons hc hc']

/-- Whether a hash has a name is seen before the stop. -/
theorem startsHash_append (cs b : List Char) : startsHash (cs ++ stop :: b) = startsHash cs := by
  cases cs with
  | nil =>
    have hi := startsIdent_append hs [] b
    rw [List.nil_append] at hi ⊢
    simp [startsHash, hi, isDigit_stop hs, ne_of_mem_marks hs (c := '-') (by decide)]
    rfl
  | cons c cs =>
    have hi := startsIdent_append hs (c :: cs) b
    simp only [List.cons_append] at hi ⊢
    rw [startsHash, startsHash, hi]

/-- Whether a quotation mark comes after white space is seen before the stop. -/
theorem startsQuote_append (cs b : List Char) : startsQuote (cs ++ stop :: b) = startsQuote cs := by
  unfold startsQuote
  rw [dropWhile_append_stop (isSpace_stop hs)]
  cases cs.dropWhile isSpace with
  | nil => exact isQuote_stop hs
  | cons c cs => rfl

/-- A sign ends before the stop. -/
theorem readSign_append (cs b : List Char) :
    readSign (cs ++ stop :: b) = ((readSign cs).1, (readSign cs).2 ++ stop :: b) := by
  cases cs with
  | nil => simp [readSign, ne_of_mem_marks hs (c := '-') (by decide), ne_of_mem_marks hs (c := '+') (by decide)]
  | cons c cs =>
    unfold readSign
    simp only [List.cons_append]
    split <;> simp_all

/-! ## Readers that end before every stop -/

/-- Digits end before the stop. -/
theorem readDigits_append (cs b : List Char) :
    readDigits (cs ++ stop :: b) = ((readDigits cs).1, (readDigits cs).2 ++ stop :: b) := by
  simp only [readDigits, takeWhile_append_stop (isDigit_stop hs), dropWhile_append_stop (isDigit_stop hs)]

/-- A fraction ends before the stop, and there is none if digits are missing before it. -/
theorem readFraction_append (cs b : List Char) :
    readFraction (cs ++ stop :: b) = ((readFraction cs).1, (readFraction cs).2 ++ stop :: b) := by
  cases cs with
  | nil => simp [readFraction, ne_of_mem_marks hs (c := '.') (by decide)]
  | cons c cs =>
    by_cases hc : c = '.'
    · subst hc
      simp only [List.cons_append, readFraction, startsDigit_append hs, readDigits_append hs]
      split <;> rfl
    · simp [readFraction, hc]

/-- An exponent ends before the stop, and there is none if digits are missing before it. -/
theorem readExponent_append (cs b : List Char) :
    readExponent (cs ++ stop :: b) = ((readExponent cs).1, (readExponent cs).2 ++ stop :: b) := by
  cases cs with
  | nil =>
    simp [readExponent, ne_of_mem_marks hs (c := 'e') (by decide), ne_of_mem_marks hs (c := 'E') (by decide)]
  | cons c cs =>
    simp only [List.cons_append, readExponent, readSign_append hs, startsDigit_append hs, readDigits_append hs]
    split <;> rfl

/-- A numeral ends before the stop, with each of its parts. -/
theorem readNumeral_append (cs b : List Char) :
    readNumeral (cs ++ stop :: b) = ((readNumeral cs).1, (readNumeral cs).2 ++ stop :: b) := by
  simp only [readNumeral, readSign_append hs, readDigits_append hs, readFraction_append hs, readExponent_append hs]

/-- Whether a numeral starts here is seen before the stop. -/
theorem startsNumeral_append (cs b : List Char) : startsNumeral (cs ++ stop :: b) = startsNumeral cs := by
  unfold startsNumeral
  rw [readSign_append hs]
  cases (readSign cs).2 with
  | nil => simp [startsDigit, isDigit_stop hs, ne_of_mem_marks hs (c := '.') (by decide)]
  | cons c cs =>
    by_cases hc : c = '.'
    · subst hc
      exact startsDigit_append hs cs b
    · simp [hc, startsDigit]

/-- One white space, or a line break of two characters, is skipped before the stop. -/
theorem skipOneSpace_append (cs b : List Char) :
    skipOneSpace (cs ++ stop :: b) = skipOneSpace cs ++ stop :: b := by
  cases cs with
  | nil =>
    rw [List.nil_append, skipOneSpace_cons, isSpace_stop hs]
    · rfl
    · rintro rfl
      exact absurd (isSpace_stop hs) (by decide)
  | cons c cs =>
    by_cases hc : c = '\r' ∧ cs.head? = some '\n'
    · obtain ⟨rfl, hn⟩ := hc
      obtain ⟨rest, rfl⟩ := List.head?_eq_some_iff.1 hn
      rfl
    · rw [List.cons_append, skipOneSpace_cons fun h h' => hc ⟨h, h'⟩, skipOneSpace_cons]
      · split <;> rfl
      · rintro rfl hn
        cases cs with
        | nil =>
          obtain rfl := Option.some.inj hn
          exact absurd (isNewline_stop hs) (by decide)
        | cons d cs => exact hc ⟨rfl, hn⟩

/-- An escape takes the stop in only if nothing stands before it. -/
theorem readEscape_append {cs : List Char} (h : cs ≠ []) (b : List Char) :
    readEscape (cs ++ stop :: b) = ((readEscape cs).1, (readEscape cs).2 ++ stop :: b) := by
  cases cs with
  | nil => exact absurd rfl h
  | cons c cs =>
    have hstop : (hexDigit? stop).isSome = false := by rw [hexDigit?_stop hs]; rfl
    have hdigits := takeWhile_take_append_stop (p := fun d => (hexDigit? d).isSome) hstop 6 (c :: cs) b
    simp only [List.cons_append] at hdigits
    simp only [List.cons_append, readEscape, hdigits]
    split
    · have hle : (((c :: cs).take 6).takeWhile fun d => (hexDigit? d).isSome).length ≤ (c :: cs).length :=
        Nat.le_trans (List.takeWhile_sublist _).length_le (List.take_sublist _ _).length_le
      rw [← List.cons_append, List.drop_append_of_le_length hle, skipOneSpace_append hs]
    · rfl

/-- A stop right after a backslash is taken in, and nothing after it. -/
theorem readEscape_stop (b : List Char) : (readEscape (stop :: b)).2 = b := by
  simp [readEscape, hexDigit?_stop hs]

/-! ## Readers that may take a stop in -/

/-- A name ends before the stop, unless a backslash stands right before that. -/
theorem readName_endsOrTakes (cs : List Char) : EndsOrTakes readName stop cs := by
  induction cs using readName.induct with
  | case1 =>
    have hnil : readName [] = ([], []) := by rw [readName]
    refine .inl fun b => ?_
    rw [hnil, List.nil_append, readName, if_neg (ne_of_mem_marks hs (by decide)), isNameChar_stop hs]
    rfl
  | case2 rest hn =>
    refine .inl fun b => ?_
    rw [List.cons_append, readName, if_pos rfl, startsNewline_append hs, if_pos hn, readName, if_pos rfl, if_pos hn]
    rfl
  | case3 rest hn escape ih =>
    have hstep : ∀ b, readName ('\\' :: rest ++ stop :: b) =
        ((readEscape (rest ++ stop :: b)).1 :: (readName (readEscape (rest ++ stop :: b)).2).1,
          (readName (readEscape (rest ++ stop :: b)).2).2) := by
      intro b
      rw [List.cons_append, readName, if_pos rfl, startsNewline_append hs, if_neg hn]
    by_cases hr : rest = []
    · -- the backslash takes the stop in
      subst hr
      refine .inr fun b => ?_
      rw [hstep, List.nil_append, readEscape_stop hs]
      exact readName_suffix b
    · refine ih.of_step (escape.1 :: ·) (by rw [readName, if_pos rfl, if_neg hn]) fun b => ?_
      rw [hstep, readEscape_append hs hr]
  | case4 c rest hc hn ih =>
    refine ih.of_step (replaceNul c :: ·) (by rw [readName, if_neg hc, if_pos hn]) fun b => ?_
    rw [List.cons_append, readName, if_neg hc, if_pos hn]
  | case5 c rest hc hn =>
    refine .inl fun b => ?_
    rw [List.cons_append, readName, if_neg hc, if_neg hn, readName, if_neg hc, if_neg hn]
    rfl

/-- A string takes the stop in, unless its quotation mark or the line ends before that. -/
theorem readQuoted_endsOrTakes {quote : Char} (hq : isQuote quote = true) (cs : List Char) :
    EndsOrTakes (readQuoted quote) stop cs := by
  have hstop : stop ≠ quote := by
    rintro rfl
    rw [isQuote_stop hs] at hq
    cases hq
  induction cs using readQuoted.induct quote with
  | case1 =>
    refine .inr fun b => ?_
    rw [List.nil_append, readQuoted, if_neg hstop, isNewline_stop hs, if_neg (by simp),
      if_neg (ne_of_mem_marks hs (by decide))]
    exact readQuoted_suffix quote b
  | case2 rest =>
    refine .inl fun b => ?_
    rw [List.cons_append, readQuoted, if_pos rfl, readQuoted, if_pos rfl]
  | case3 c rest hc hn =>
    refine .inl fun b => ?_
    rw [List.cons_append, readQuoted, if_neg hc, if_pos hn, readQuoted, if_neg hc, if_pos hn]
    rfl
  | case4 rest he hc hn =>
    refine .inr fun b => ?_
    obtain rfl := List.isEmpty_iff.1 he
    rw [List.cons_append, List.nil_append, readQuoted, if_neg hc, if_neg hn, if_pos rfl, if_neg (by simp)]
    simp only [startsNewline, isNewline_stop hs, Bool.false_eq_true, if_false, readEscape_stop hs]
    exact readQuoted_suffix quote b
  | case5 rest he hl hc hn ih =>
    refine ih.of_step id (by rw [readQuoted, if_neg hc, if_neg hn, if_pos rfl, if_neg he, if_pos hl]; rfl) fun b => ?_
    rw [List.cons_append, readQuoted, if_neg hc, if_neg hn, if_pos rfl, if_neg (by simp), startsNewline_append hs,
      if_pos hl, skipOneSpace_append hs]
    rfl
  | case6 rest he hl escape hc hn ih =>
    have hr : rest ≠ [] := fun h => he (by rw [h]; rfl)
    refine ih.of_step (·.map (escape.1 :: ·))
      (by rw [readQuoted, if_neg hc, if_neg hn, if_pos rfl, if_neg he, if_neg hl]) fun b => ?_
    rw [List.cons_append, readQuoted, if_neg hc, if_neg hn, if_pos rfl, if_neg (by simp), startsNewline_append hs,
      if_neg hl, readEscape_append hs hr]
  | case7 c rest hc hn hb ih =>
    refine ih.of_step (·.map (replaceNul c :: ·))
      (by rw [readQuoted, if_neg hc, if_neg hn, if_neg hb]) fun b => ?_
    rw [List.cons_append, readQuoted, if_neg hc, if_neg hn, if_neg hb]

/-- What is left after a spoiled url, read from a stop on, comes after the stop. -/
theorem skipBadUrl_stop (b : List Char) : skipBadUrl (stop :: b) <:+ b := by
  unfold skipBadUrl
  split
  · next he => cases he
  · next he =>
    obtain ⟨-, rfl⟩ := List.cons.inj he
    exact List.suffix_refl _
  · next he => exact absurd (List.cons.inj he).1 (ne_of_mem_marks hs (by decide))
  · next he => exact absurd (List.cons.inj he).1 (ne_of_mem_marks hs (by decide))
  · next he =>
    obtain ⟨-, rfl⟩ := List.cons.inj he
    exact skipBadUrl_suffix _

/-- A spoiled url takes the stop in, unless its bracket comes before that. -/
theorem skipBadUrl_endsOrTakes {α : Type} (a : α) (cs : List Char) :
    EndsOrTakes (fun cs => (a, skipBadUrl cs)) stop cs := by
  induction cs using skipBadUrl.induct with
  | case1 => exact .inr fun b => skipBadUrl_stop hs b
  | case2 rest => exact .inl fun b => rfl
  | case3 rest ih => exact ih.of_step id rfl fun b => rfl
  | case4 rest ih => exact ih.of_step id rfl fun b => rfl
  | case5 c rest hp hbp hbb ih =>
    cases rest with
    | nil =>
      -- a last backslash may form a pair with the stop, which is taken in all the same
      refine .inr fun b => ?_
      show skipBadUrl (c :: stop :: b) <:+ b
      unfold skipBadUrl
      split
      · next he => cases he
      · next he => exact absurd (List.cons.inj he).1 hp
      · next he =>
        obtain ⟨-, rfl⟩ := List.cons.inj (List.cons.inj he).2
        exact skipBadUrl_suffix _
      · next he =>
        obtain ⟨-, rfl⟩ := List.cons.inj (List.cons.inj he).2
        exact skipBadUrl_suffix _
      · next he =>
        obtain ⟨-, rfl⟩ := List.cons.inj he
        exact skipBadUrl_stop hs b
    | cons d rest =>
      have hstep : ∀ l, skipBadUrl (c :: d :: l) = skipBadUrl (d :: l) := by
        intro l
        refine skipBadUrl.eq_5 c (d :: l) hp (fun r hc hr => ?_) fun r hc hr => ?_
        · exact hbp rest hc (by rw [(List.cons.inj hr).1])
        · exact hbb rest hc (by rw [(List.cons.inj hr).1])
      exact ih.of_step id (congrArg (Prod.mk a) (hstep rest)) fun b => congrArg (Prod.mk a) (hstep _)

/-- The white space at the end of a url is followed by its bracket before the stop, or the url is spoiled and takes the stop in.
-/
theorem readUrlEnd_endsOrTakes (cs : List Char) : EndsOrTakes readUrlEnd stop cs := by
  have hdrop : ∀ b, (cs ++ stop :: b).dropWhile isSpace = cs.dropWhile isSpace ++ stop :: b :=
    fun b => dropWhile_append_stop (isSpace_stop hs) cs b
  cases hd : cs.dropWhile isSpace with
  | nil =>
    refine .inr fun b => ?_
    rw [readUrlEnd, hdrop, hd, List.nil_append]
    simp only
    split
    · exact List.suffix_refl _
    · exact skipBadUrl_suffix _
  | cons c rest =>
    by_cases hc : c = ')'
    · subst hc
      refine .inl fun b => ?_
      rw [readUrlEnd, readUrlEnd, hdrop, hd]
      rfl
    · refine (skipBadUrl_endsOrTakes hs none rest).of_step id ?_ fun b => ?_
      · rw [readUrlEnd, hd]
        exact if_neg hc
      · rw [readUrlEnd, hdrop, hd]
        exact if_neg hc

/-- A url takes the stop in, unless its bracket comes before that. -/
theorem readUrl_endsOrTakes (cs : List Char) : EndsOrTakes readUrl stop cs := by
  induction cs using readUrl.induct with
  | case1 =>
    refine .inr fun b => ?_
    rw [List.nil_append, readUrl]
    split
    · exact List.suffix_refl _
    · rw [isSpace_stop hs, spoilsUrl_stop hs, if_neg (by simp), if_neg (by simp),
        if_neg (ne_of_mem_marks hs (by decide))]
      exact readUrl_suffix b
  | case2 rest =>
    refine .inl fun b => ?_
    rw [List.cons_append, readUrl, if_pos rfl, readUrl, if_pos rfl]
  | case3 c rest hc hsp =>
    refine (readUrlEnd_endsOrTakes hs rest).of_step id (by rw [readUrl, if_neg hc, if_pos hsp]; rfl) fun b => ?_
    rw [List.cons_append, readUrl, if_neg hc, if_pos hsp]
    rfl
  | case4 c rest hc hsp hbad =>
    refine (skipBadUrl_endsOrTakes hs none rest).of_step id
      (by rw [readUrl, if_neg hc, if_neg hsp, if_pos hbad]; rfl) fun b => ?_
    rw [List.cons_append, readUrl, if_neg hc, if_neg hsp, if_pos hbad]
    rfl
  | case5 rest hl hc hsp hbad =>
    refine (skipBadUrl_endsOrTakes hs none rest).of_step id
      (by rw [readUrl, if_neg hc, if_neg hsp, if_neg hbad, if_pos rfl, if_pos hl]; rfl) fun b => ?_
    rw [List.cons_append, readUrl, if_neg hc, if_neg hsp, if_neg hbad, if_pos rfl, startsNewline_append hs, if_pos hl]
    rfl
  | case6 rest hl escape hc hsp hbad ih =>
    have hstep : ∀ b, readUrl ('\\' :: rest ++ stop :: b) =
        ((readUrl (readEscape (rest ++ stop :: b)).2).1.map ((readEscape (rest ++ stop :: b)).1 :: ·),
          (readUrl (readEscape (rest ++ stop :: b)).2).2) := by
      intro b
      rw [List.cons_append, readUrl, if_neg hc, if_neg hsp, if_neg hbad, if_pos rfl, startsNewline_append hs, if_neg hl]
    by_cases hr : rest = []
    · subst hr
      refine .inr fun b => ?_
      rw [hstep, List.nil_append, readEscape_stop hs]
      exact readUrl_suffix b
    · refine ih.of_step (·.map (escape.1 :: ·))
        (by rw [readUrl, if_neg hc, if_neg hsp, if_neg hbad, if_pos rfl, if_neg hl]) fun b => ?_
      rw [hstep, readEscape_append hs hr]
  | case7 c rest hc hsp hbad hb ih =>
    refine ih.of_step (·.map (replaceNul c :: ·))
      (by rw [readUrl, if_neg hc, if_neg hsp, if_neg hbad, if_neg hb]) fun b => ?_
    rw [List.cons_append, readUrl, if_neg hc, if_neg hsp, if_neg hbad, if_neg hb]

/-- A comment takes the stop in, unless it is closed before that. -/
theorem skipComment_endsOrTakes {α : Type} (a : α) (cs : List Char) :
    EndsOrTakes (fun cs => (a, skipComment cs)) stop cs := by
  have hstep : ∀ {c : Char} {l : List Char}, (c = '*' → l.head? ≠ some '/') → skipComment (c :: l) = skipComment l := by
    intro c l h
    refine skipComment.eq_3 c l fun rest hc hr => ?_
    exact h hc (by rw [hr]; rfl)
  induction cs using skipComment.induct with
  | case1 =>
    refine .inr fun b => ?_
    show skipComment (stop :: b) <:+ b
    rw [hstep fun h => absurd h (ne_of_mem_marks hs (by decide))]
    exact skipComment_suffix b
  | case2 rest => exact .inl fun b => rfl
  | case3 c rest hc ih =>
    have hnext : ∀ b, c = '*' → (rest ++ stop :: b).head? ≠ some '/' := by
      intro b h hr
      cases rest with
      | nil => exact ne_of_mem_marks hs (c := '/') (by decide) (Option.some.inj hr)
      | cons d rest => exact hc rest h (by rw [Option.some.inj hr])
    have hrest : c = '*' → rest.head? ≠ some '/' := by
      intro h hr
      obtain ⟨rest', rfl⟩ := List.head?_eq_some_iff.1 hr
      exact hc rest' h rfl
    exact ih.of_step id (congrArg (Prod.mk a) (hstep hrest)) fun b => congrArg (Prod.mk a) (hstep (hnext b))

/-! ## Tokens -/

/-- A string token meets a stop as its characters do. -/
theorem scanString_endsOrTakes {quote : Char} (hq : isQuote quote = true) (rest : List Char) :
    EndsOrTakes (scanString quote) stop rest := by
  have hread : ∀ cs, scanString quote cs =
      ((readQuoted quote cs).1.elim .badString fun text => .string (String.ofList text), (readQuoted quote cs).2) := by
    intro cs
    unfold scanString
    split <;> simp_all
  exact (readQuoted_endsOrTakes hs hq rest).of_step (·.elim .badString fun text => .string (String.ofList text))
    (hread rest) fun b => hread _

/-- A hash meets a stop as its name does, and without a name ends before it. -/
theorem scanHash_endsOrTakes (rest : List Char) : EndsOrTakes scanHash stop rest := by
  by_cases hr : startsHash rest = true
  · refine (readName_endsOrTakes hs rest).of_step (fun name => .hash (String.ofList name)) ?_ fun b => ?_
    · rw [scanHash, if_pos hr]
    · rw [scanHash, startsHash_append hs, if_pos hr]
  · refine .inl fun b => ?_
    rw [scanHash, startsHash_append hs, if_neg hr, scanHash, if_neg hr]

/-- A name after `@` meets a stop as a name does. -/
theorem scanAt_endsOrTakes (rest : List Char) : EndsOrTakes scanAt stop rest := by
  by_cases hr : startsIdent rest = true
  · refine (readName_endsOrTakes hs rest).of_step (fun name => .atKeyword (String.ofList name)) ?_ fun b => ?_
    · rw [scanAt, if_pos hr]
    · rw [scanAt, startsIdent_append hs, if_pos hr]
  · refine .inl fun b => ?_
    rw [scanAt, startsIdent_append hs, if_neg hr, scanAt, if_neg hr]

/-- A number meets a stop as the name of its unit does, and without a unit ends before it. -/
theorem scanNumber_endsOrTakes (cs : List Char) : EndsOrTakes scanNumber stop cs := by
  have hnumeral : ∀ b, readNumeral (cs ++ stop :: b) = ((readNumeral cs).1, (readNumeral cs).2 ++ stop :: b) :=
    fun b => readNumeral_append hs cs b
  by_cases hp : (readNumeral cs).2.head? = some '%'
  · obtain ⟨left, hl⟩ := List.head?_eq_some_iff.1 hp
    refine .inl fun b => ?_
    have hb : (readNumeral (cs ++ stop :: b)).2 = '%' :: (left ++ stop :: b) := by rw [hnumeral, hl]; rfl
    rw [scanNumber_of_percent hb, scanNumber_of_percent hl, hnumeral]
  · have hb : ∀ b, (readNumeral (cs ++ stop :: b)).2.head? ≠ some '%' := by
      intro b
      rw [hnumeral]
      exact head?_append_stop_ne (ne_of_mem_marks hs (by decide)) hp b
    by_cases hi : startsIdent (readNumeral cs).2 = true
    · refine (readName_endsOrTakes hs (readNumeral cs).2).of_step
        (fun unit => .dimension (readNumeral cs).1.value.toFloat32 (String.ofList unit)) ?_ fun b => ?_
      · rw [scanNumber_of_ne hp, if_pos hi]
      · rw [scanNumber_of_ne (hb b), hnumeral, startsIdent_append hs, if_pos hi]
    · refine .inl fun b => ?_
      rw [scanNumber_of_ne (hb b), hnumeral, startsIdent_append hs, if_neg hi, scanNumber_of_ne hp, if_neg hi]

/-- A url token meets a stop as the url does, and a function called `url` ends before it. -/
theorem scanUrl_endsOrTakes (name : String) (rest : List Char) : EndsOrTakes (scanUrl name) stop rest := by
  by_cases hq : startsQuote rest = true
  · refine .inl fun b => ?_
    rw [scanUrl, startsQuote_append hs, if_pos hq, scanUrl, if_pos hq]
  · have hread : ∀ cs, startsQuote cs ≠ true → scanUrl name cs =
        ((readUrl (cs.dropWhile isSpace)).1.elim .badUrl fun text => .url (String.ofList text),
          (readUrl (cs.dropWhile isSpace)).2) := by
      intro cs h
      rw [scanUrl, if_neg h]
      split <;> simp_all
    refine (readUrl_endsOrTakes hs (rest.dropWhile isSpace)).of_step
      (·.elim .badUrl fun text => .url (String.ofList text)) (hread rest hq) fun b => ?_
    rw [hread _ (by rw [startsQuote_append hs]; exact hq), dropWhile_append_stop (isSpace_stop hs)]

/-- What starts with a name meets a stop as the name does, or as a url. -/
theorem scanIdent_endsOrTakes (cs : List Char) : EndsOrTakes scanIdent stop cs := by
  rcases readName_endsOrTakes hs cs with hname | hname
  · by_cases hp : (readName cs).2.head? = some '('
    · obtain ⟨left, hl⟩ := List.head?_eq_some_iff.1 hp
      have hb : ∀ b, (readName (cs ++ stop :: b)).2 = '(' :: (left ++ stop :: b) := by
        intro b
        rw [hname, hl]
        rfl
      by_cases hu : eqIgnoringCase (String.ofList (readName cs).1) "url" = true
      · refine (scanUrl_endsOrTakes hs (String.ofList (readName cs).1) left).of_step id ?_ fun b => ?_
        · rw [scanIdent_of_paren hl, if_pos hu]
          rfl
        · rw [scanIdent_of_paren (hb b), hname, if_pos hu]
          rfl
      · refine .inl fun b => ?_
        rw [scanIdent_of_paren (hb b), hname, if_neg hu, scanIdent_of_paren hl, if_neg hu]
    · refine .inl fun b => ?_
      have hb : (readName (cs ++ stop :: b)).2.head? ≠ some '(' := by
        rw [hname]
        exact head?_append_stop_ne (ne_of_mem_marks hs (by decide)) hp b
      rw [scanIdent_of_ne hb, hname, scanIdent_of_ne hp]
  · exact .inr fun b => (scanIdent_suffix_readName _).trans (hname b)

/-- A name or a delimiter meets a stop as a name does. -/
theorem scanOther_endsOrTakes (c : Char) (rest : List Char) : EndsOrTakes (scanOther c) stop rest := by
  have hb : ∀ b, startsIdent (c :: (rest ++ stop :: b)) = startsIdent (c :: rest) :=
    fun b => startsIdent_append hs (c :: rest) b
  by_cases hi : startsIdent (c :: rest) = true
  · refine (scanIdent_endsOrTakes hs (c :: rest)).of_step id ?_ fun b => ?_
    · rw [scanOther, if_pos hi]
      rfl
    · rw [scanOther, hb, if_pos hi]
      rfl
  · refine .inl fun b => ?_
    rw [scanOther, hb, if_neg hi, scanOther, if_neg hi]

/-- A mark of several characters ends before the stop, and a comment may take it in. -/
theorem scanMark_endsOrTakes (c : Char) (rest : List Char) : EndsOrTakes (scanMark c) stop rest := by
  by_cases hcomment : c = '/' ∧ ['*'] <+: rest
  · obtain ⟨rfl, left, rfl⟩ := hcomment
    exact (skipComment_endsOrTakes hs Token.comment left).of_step id rfl fun b => rfl
  by_cases hcdo : c = '<' ∧ ['!', '-', '-'] <+: rest
  · obtain ⟨rfl, left, rfl⟩ := hcdo
    exact .inl fun b => rfl
  by_cases hcdc : c = '-' ∧ ['-', '>'] <+: rest
  · obtain ⟨rfl, left, rfl⟩ := hcdc
    exact .inl fun b => rfl
  have hother : ∀ l, (∀ left, l = '=' :: left → False) → (['*'] <+: l → ['*'] <+: rest) →
      (['!', '-', '-'] <+: l → ['!', '-', '-'] <+: rest) → (['-', '>'] <+: l → ['-', '>'] <+: rest) →
      scanMark c l = scanOther c l := by
    intro l hmatch h1 h2 h3
    refine scanMark.eq_5 c l hmatch (fun left hc hl => ?_) (fun left hc hl => ?_) fun left hc hl => ?_
    · exact hcomment ⟨hc, h1 ⟨left, hl.symm⟩⟩
    · exact hcdo ⟨hc, h2 ⟨left, hl.symm⟩⟩
    · exact hcdc ⟨hc, h3 ⟨left, hl.symm⟩⟩
  by_cases hmatch : ['='] <+: rest
  · obtain ⟨left, rfl⟩ := hmatch
    have hmark : ∀ l, scanMark c ('=' :: l) = if isMatchMark c then (.matching c, l) else scanOther c ('=' :: l) :=
      scanMark.eq_4 c
    by_cases hc : isMatchMark c = true
    · refine .inl fun b => ?_
      simp only [List.cons_append, List.nil_append, hmark, if_pos hc]
    · refine (scanOther_endsOrTakes hs c ('=' :: left)).of_step id ?_ fun b => ?_
      · exact (hmark left).trans (if_neg hc)
      · exact (hmark _).trans (if_neg hc)
  · refine (scanOther_endsOrTakes hs c rest).of_step id ?_ fun b => ?_
    · exact hother rest (fun left hl => hmatch ⟨left, hl.symm⟩) id id id
    · refine hother _ (fun left hl => hmatch ?_) ?_ ?_ ?_
      · exact prefix_of_prefix_append_stop (of_mem_stops hs (· ∉ ['=']) (by decide)) ⟨left, hl.symm⟩
      · exact prefix_of_prefix_append_stop (of_mem_stops hs (· ∉ ['*']) (by decide))
      · exact prefix_of_prefix_append_stop (of_mem_stops hs (· ∉ ['!', '-', '-']) (by decide))
      · exact prefix_of_prefix_append_stop (of_mem_stops hs (· ∉ ['-', '>']) (by decide))

/-- A token before a stop takes it in, or is the token read if the text ended there. -/
theorem scan_endsOrTakes (c : Char) (rest : List Char) : EndsOrTakes (scan c) stop rest := by
  by_cases hsp : isSpace c = true
  · refine .inl fun b => ?_
    rw [scan_eq, if_pos hsp, scan_eq, if_pos hsp, dropWhile_append_stop (isSpace_stop hs)]
  by_cases hq : isQuote c = true
  · have hscan : ∀ l, scan c l = scanString c l := fun l => by rw [scan_eq, if_neg hsp, if_pos hq]
    exact (scanString_endsOrTakes hs hq rest).of_step id (hscan rest) fun b => hscan _
  cases hp : punctuation? c with
  | some token =>
    refine .inl fun b => ?_
    rw [scan_eq, if_neg hsp, if_neg hq, hp, scan_eq, if_neg hsp, if_neg hq, hp]
  | none =>
    by_cases hh : c = '#'
    · have hscan : ∀ l, scan c l = scanHash l := fun l => by rw [scan_eq, if_neg hsp, if_neg hq, hp]; exact if_pos hh
      exact (scanHash_endsOrTakes hs rest).of_step id (hscan rest) fun b => hscan _
    by_cases ha : c = '@'
    · have hscan : ∀ l, scan c l = scanAt l := by
        intro l
        rw [scan_eq, if_neg hsp, if_neg hq, hp]
        exact (if_neg hh).trans (if_pos ha)
      exact (scanAt_endsOrTakes hs rest).of_step id (hscan rest) fun b => hscan _
    have hscan : ∀ l, scan c l = if startsNumeral (c :: l) then scanNumber (c :: l) else scanMark c l := by
      intro l
      rw [scan_eq, if_neg hsp, if_neg hq, hp]
      exact (if_neg hh).trans (if_neg ha)
    have hnumeral : ∀ b, startsNumeral (c :: (rest ++ stop :: b)) = startsNumeral (c :: rest) :=
      fun b => startsNumeral_append hs (c :: rest) b
    by_cases hn : startsNumeral (c :: rest) = true
    · refine (scanNumber_endsOrTakes hs (c :: rest)).of_step id ?_ fun b => ?_
      · exact (hscan rest).trans (if_pos hn)
      · exact (hscan _).trans (if_pos (by rw [hnumeral, hn]))
    · refine (scanMark_endsOrTakes hs c rest).of_step id ?_ fun b => ?_
      · exact (hscan rest).trans (if_neg hn)
      · exact (hscan _).trans (if_neg (by rw [hnumeral]; exact hn))

end

/-! ## A text cut at a stop -/

/-- The tokens of a text. -/
def tokensOf (text : String) : List Token := (tokenize text.toList).map Lexeme.token

/-- The first token of a text, with the characters it was read from, and those of the rest. -/
theorem tokenize_cons (c : Char) (rest : List Char) :
    tokenize (c :: rest) =
      ⟨(scan c rest).1, (c :: rest).take (rest.length + 1 - (scan c rest).2.length)⟩ :: tokenize (scan c rest).2 := by
  rw [tokenize]

/-- Where a token starts with a stop, the stop is all of it. -/
theorem tokenize_stop {stop : Char} (hs : stop ∈ stops) {token : Token} (hp : punctuation? stop = some token)
    (b : List Char) : tokenize (stop :: b) = ⟨token, [stop]⟩ :: tokenize b := by
  have hscan : scan stop b = (token, b) := by
    rw [scan_eq, isSpace_stop hs, isQuote_stop hs, hp]
    rfl
  rw [tokenize_cons, hscan, Nat.add_sub_cancel_left]
  rfl

/-- A token that ends before a stop has the same source without it. -/
theorem tokenize_cons_append_stop {stop c : Char} {rest b : List Char}
    (h : scan c (rest ++ stop :: b) = ((scan c rest).1, (scan c rest).2 ++ stop :: b)) :
    tokenize (c :: rest ++ stop :: b) =
      ⟨(scan c rest).1, (c :: rest).take (rest.length + 1 - (scan c rest).2.length)⟩ ::
        tokenize ((scan c rest).2 ++ stop :: b) := by
  have hlength : (rest ++ stop :: b).length + 1 - ((scan c rest).2 ++ stop :: b).length =
      rest.length + 1 - (scan c rest).2.length := by
    simp only [List.length_append, List.length_cons]
    omega
  rw [List.cons_append, tokenize_cons, h, hlength, ← List.cons_append,
    List.take_append_of_le_length (by simp only [List.length_cons]; omega)]

/-- If a stop is a token by itself after a text, then it is one whatever follows, and the two sides are read apart. -/
theorem tokenize_append_stop {stop : Char} (hs : stop ∈ stops) {token : Token} (hp : punctuation? stop = some token)
    {a : List Char} (h : (tokenize (a ++ [stop])).length = (tokenize a).length + 1) (b : List Char) :
    tokenize (a ++ stop :: b) = tokenize a ++ ⟨token, [stop]⟩ :: tokenize b := by
  induction a using tokenize.induct with
  | case1 => rw [List.nil_append, tokenize_stop hs hp, tokenize, List.nil_append]
  | case2 c rest left ih =>
    rcases scan_endsOrTakes hs c rest with hends | htakes
    · rw [tokenize_cons_append_stop (hends []), tokenize_cons, List.length_cons, List.length_cons] at h
      rw [tokenize_cons_append_stop (hends b), ih (Nat.add_right_cancel h), tokenize_cons, List.cons_append]
    · -- the token takes the stop in, and nothing is left for another one
      have hnil : (scan c (rest ++ [stop])).2 = [] := List.suffix_nil.1 (htakes [])
      rw [List.cons_append, tokenize_cons, hnil, tokenize_cons, tokenize] at h
      simp only [List.length_cons, List.length_nil] at h
      omega

/-- A stop that is read by itself after a text is read by itself after it whatever comes next. -/
theorem tokenize_toList_append (stop : Char) (hs : stop ∈ stops) {a s : String} (hstop : s.toList = [stop]) {token : Token}
    (hp : punctuation? stop = some token) (h : tokensOf (a ++ s) = tokensOf a ++ [token]) (b : List Char) :
    tokenize (a.toList ++ stop :: b) = tokenize a.toList ++ ⟨token, [stop]⟩ :: tokenize b := by
  refine tokenize_append_stop hs hp ?_ b
  have hlength := congrArg List.length h
  simpa [tokensOf, hstop] using hlength

end StyleCheck
