import StyleCheck.Proofs.Essence
import StyleCheck.Proofs.Spelling

/-!
# Tokens in small letters

A text and the same text in small letters are cut into tokens at the same places, and the tokens differ at most in the case of
the texts they carry. Each reader is followed through both texts at once (`SameButCase`): what it reads is the same in small
letters, and what it leaves of the one text is what it leaves of the other, in small letters. An `e` of an exponent, the digits of
an escape and the name of urls are where a letter decides; all of them are taken in either case.

Main statement: `tokensOf_lower`.
-/

namespace StyleCheck

/-- The characters with each of the letters `A` to `Z` made small. -/
def small (cs : List Char) : List Char := cs.map Char.toLower

/-- What is read from characters in small letters, and what is read from the same characters as they are: they look the same
through `view`, and so does what is left in small letters. -/
structure SameButCase {α β : Type} (view : α → β) (x y : α × List Char) : Prop where
  read : view x.1 = view y.1
  left : x.2 = small y.2

/-! ## Characters -/

/-- Characters are made small one by one. -/
@[simp]
theorem small_cons (c : Char) (cs : List Char) : small (c :: cs) = c.toLower :: small cs := rfl

/-- Making characters small leaves none of them out. -/
@[simp]
theorem isEmpty_small (cs : List Char) : (small cs).isEmpty = cs.isEmpty := by
  cases cs <;> rfl

/-- Making characters small keeps their number. -/
@[simp]
theorem length_small (cs : List Char) : (small cs).length = cs.length := List.length_map _

/-- A text is made small character by character. -/
theorem lower_ofList (cs : List Char) : lower (String.ofList cs) = String.ofList (small cs) := by
  rw [lower, String.toList_ofList, small]

/-- What no capital letter is, is the same in small letters. -/
theorem toLower_eq_self {p : Char → Bool} (hp : capitals.all (fun c => !p c) = true) {c : Char} (h : p c = true) :
    c.toLower = c := by
  rcases toLower_eq_self_or_mem_capitals c with hc | hc
  · exact hc
  · have hno := List.all_eq_true.1 hp c hc
    rw [h] at hno
    cases hno

/-- A character that is no letter is the small form of no other. -/
theorem toLower_ne {k : Char} (hk : k.isAlpha = false) {c : Char} (h : c ≠ k) : c.toLower ≠ k :=
  fun hc => h ((toLower_eq_iff hk c).1 hc)

/-- A letter ends no line, in either case. -/
@[simp]
theorem isNewline_toLower (c : Char) : isNewline c.toLower = isNewline c := apply_toLower isNewline (by decide) c

/-- A letter is no white space, in either case. -/
@[simp]
theorem isSpace_toLower (c : Char) : isSpace c.toLower = isSpace c := apply_toLower isSpace (by decide) c

/-- A name starts with letters of either case. -/
@[simp]
theorem isNameStart_toLower (c : Char) : isNameStart c.toLower = isNameStart c := apply_toLower isNameStart (by decide) c

/-- A name goes on with letters of either case. -/
@[simp]
theorem isNameChar_toLower (c : Char) : isNameChar c.toLower = isNameChar c := apply_toLower isNameChar (by decide) c

/-- A letter is no digit, in either case. -/
@[simp]
theorem isDigit_toLower (c : Char) : c.toLower.isDigit = c.isDigit := apply_toLower Char.isDigit (by decide) c

/-- A letter is no quotation mark, in either case. -/
@[simp]
theorem isQuote_toLower (c : Char) : isQuote c.toLower = isQuote c := apply_toLower isQuote (by decide) c

/-- A letter spoils no url, in either case. -/
@[simp]
theorem spoilsUrl_toLower (c : Char) : spoilsUrl c.toLower = spoilsUrl c := apply_toLower spoilsUrl (by decide) c

/-- The hexadecimal digits from ten on have their values in either case. -/
@[simp]
theorem hexDigit?_toLower (c : Char) : hexDigit? c.toLower = hexDigit? c := apply_toLower hexDigit? (by decide) c

/-- What stands for a character that has no place in a text has no case. -/
theorem toLower_replaceNul (c : Char) : (replaceNul c.toLower).toLower = (replaceNul c).toLower :=
  apply_toLower (fun c => (replaceNul c).toLower) (by decide) c

/-- What is left after a stretch is the same in small letters, if the case of a letter does not decide where it ends. -/
theorem dropWhile_small {p : Char → Bool} (h : ∀ c, p c.toLower = p c) (cs : List Char) :
    (small cs).dropWhile p = small (cs.dropWhile p) := by
  rw [small, List.dropWhile_map, funext (f := p ∘ Char.toLower) h, small]

/-- A stretch is the same in small letters, if the case of a letter does not decide where it ends. -/
theorem takeWhile_small {p : Char → Bool} (h : ∀ c, p c.toLower = p c) (cs : List Char) :
    (small cs).takeWhile p = small (cs.takeWhile p) := by
  rw [small, List.takeWhile_map, funext (f := p ∘ Char.toLower) h, small]

/-- Characters that are no letters stand at the start in small letters exactly if they do otherwise. -/
theorem prefix_small_iff {mark : List Char} (hm : mark.all (fun k => !k.isAlpha) = true) (cs : List Char) :
    mark <+: small cs ↔ mark <+: cs := by
  induction mark generalizing cs with
  | nil => exact ⟨fun _ => List.nil_prefix, fun _ => List.nil_prefix⟩
  | cons k mark ih =>
    rw [List.all_cons, Bool.and_eq_true, Bool.not_eq_true'] at hm
    cases cs with
    | nil => rfl
    | cons c cs =>
      rw [small_cons, List.cons_prefix_cons, List.cons_prefix_cons, ih hm.2, eq_comm, toLower_eq_iff hm.1, eq_comm]

/-- A character that is no letter comes first in small letters exactly if it does otherwise. -/
theorem head?_small_iff {k : Char} (hk : k.isAlpha = false) (cs : List Char) :
    (small cs).head? = some k ↔ cs.head? = some k := by
  cases cs with
  | nil => rfl
  | cons c cs =>
    rw [small_cons, List.head?_cons, List.head?_cons, Option.some.injEq, Option.some.injEq, toLower_eq_iff hk]

/-- One more character in front of a name. -/
theorem SameButCase.cons {c d : Char} {x y : List Char × List Char} (h : SameButCase small x y) (hc : c.toLower = d.toLower) :
    SameButCase small (c :: x.1, x.2) (d :: y.1, y.2) where
  read := by simp only [small_cons, hc, h.read]
  left := h.left

/-- One more character in front of the contents of a string or url, unless it is spoiled. -/
theorem SameButCase.map_cons {c d : Char} {x y : Option (List Char) × List Char} (h : SameButCase (Option.map small) x y)
    (hc : c.toLower = d.toLower) :
    SameButCase (Option.map small) (x.1.map (c :: ·), x.2) (y.1.map (d :: ·), y.2) where
  read := by
    have hcons : ∀ e, small ∘ (e :: ·) = (e.toLower :: ·) ∘ small := fun _ => rfl
    simp only [Option.map_map, hcons]
    rw [← Option.map_map, h.read, Option.map_map, hc]
  left := h.left

/-- Both are spoiled, or the contents are the same in small letters. -/
theorem SameButCase.none_or_some {x y : Option (List Char) × List Char} (h : SameButCase (Option.map small) x y) :
    (∃ left, x = (none, small left) ∧ y = (none, left)) ∨
      ∃ text text' left, small text = small text' ∧ x = (some text, small left) ∧ y = (some text', left) := by
  obtain ⟨text, left⟩ := x
  obtain ⟨text', left'⟩ := y
  obtain ⟨hread, rfl⟩ := h
  cases text with
  | none =>
    cases text' with
    | none => exact .inl ⟨left', rfl, rfl⟩
    | some _ => cases hread
  | some cs =>
    cases text' with
    | none => cases hread
    | some ds => exact .inr ⟨cs, ds, left', Option.some.inj hread, rfl, rfl⟩

/-! ## Tests of what stands here -/

/-- Where a line ends does not depend on the case of letters. -/
theorem startsNewline_small (cs : List Char) : startsNewline (small cs) = startsNewline cs := by
  cases cs with
  | nil => rfl
  | cons c cs => exact isNewline_toLower c

/-- Where a digit comes next does not depend on the case of letters. -/
theorem startsDigit_small (cs : List Char) : startsDigit (small cs) = startsDigit cs := by
  cases cs with
  | nil => rfl
  | cons c cs => exact isDigit_toLower c

/-- Where a quotation mark comes after white space does not depend on the case of letters. -/
theorem startsQuote_small (cs : List Char) : startsQuote (small cs) = startsQuote cs := by
  rw [startsQuote, startsQuote, dropWhile_small isSpace_toLower]
  cases cs.dropWhile isSpace with
  | nil => rfl
  | cons c cs => exact isQuote_toLower c

/-- Where a name starts does not depend on the case of letters. -/
theorem startsIdent_small (cs : List Char) : startsIdent (small cs) = startsIdent cs := by
  cases cs with
  | nil => rfl
  | cons c rest =>
    by_cases hh : c = '-'
    · subst hh
      cases rest with
      | nil => rfl
      | cons d rest =>
        exact apply_toLower (fun d => isNameStart d || d == '-' || d == '\\') (by decide) d
    · by_cases hb : c = '\\'
      · subst hb
        exact congrArg not (startsNewline_small rest)
      · have hh' : c.toLower ≠ '-' := toLower_ne (by decide) hh
        have hb' : c.toLower ≠ '\\' := toLower_ne (by decide) hb
        rw [small_cons, startsIdent_cons hh' hb', startsIdent_cons hh hb, isNameStart_toLower]

/-- Where a hash has a name does not depend on the case of letters. -/
theorem startsHash_small (cs : List Char) : startsHash (small cs) = startsHash cs := by
  cases cs with
  | nil => rfl
  | cons c rest =>
    have hident := startsIdent_small (c :: rest)
    have hhyphen : (c.toLower == '-') = (c == '-') := apply_toLower (· == '-') (by decide) c
    rw [small_cons] at hident
    rw [small_cons, startsHash, startsHash, hident, isDigit_toLower, hhyphen]

/-! ## Numerals -/

/-- A sign is the same in small letters. -/
theorem readSign_small (cs : List Char) : readSign (small cs) = ((readSign cs).1, small (readSign cs).2) := by
  cases cs with
  | nil => rfl
  | cons c rest =>
    by_cases hminus : c = '-'
    · subst hminus
      rfl
    · by_cases hplus : c = '+'
      · subst hplus
        rfl
      · have hsign : ∀ d l, d ≠ '-' → d ≠ '+' → readSign (d :: l) = (false, d :: l) := by
          intro d l hd hd'
          unfold readSign
          split <;> simp_all
        have hminus' : c.toLower ≠ '-' := toLower_ne (by decide) hminus
        have hplus' : c.toLower ≠ '+' := toLower_ne (by decide) hplus
        rw [small_cons, hsign _ _ hminus' hplus', hsign _ _ hminus hplus]
        rfl

/-- Digits are the same in small letters. -/
theorem readDigits_small (cs : List Char) : readDigits (small cs) = ((readDigits cs).1, small (readDigits cs).2) := by
  have hdigits : small (cs.takeWhile Char.isDigit) = cs.takeWhile Char.isDigit := by
    refine (List.map_congr_left fun c hc => ?_).trans (List.map_id _)
    exact toLower_eq_self (p := Char.isDigit) (by decide) (List.all_eq_true.1 List.all_takeWhile c hc)
  rw [readDigits, readDigits, takeWhile_small isDigit_toLower, dropWhile_small isDigit_toLower, hdigits]

/-- A fraction is the same in small letters. -/
theorem readFraction_small (cs : List Char) :
    readFraction (small cs) = ((readFraction cs).1, small (readFraction cs).2) := by
  cases cs with
  | nil => rfl
  | cons c rest =>
    by_cases hpoint : c = '.'
    · subst hpoint
      show readFraction ('.' :: small rest) = _
      rw [readFraction, readFraction, startsDigit_small, readDigits_small]
      split <;> rfl
    · have hpoint' : c.toLower ≠ '.' := toLower_ne (by decide) hpoint
      simp [readFraction, hpoint, hpoint']

/-- An exponent is the same after `e` and after `E`. -/
theorem readExponent_small (cs : List Char) :
    readExponent (small cs) = ((readExponent cs).1, small (readExponent cs).2) := by
  cases cs with
  | nil => rfl
  | cons c rest =>
    have he : (c.toLower = 'e' ∨ c.toLower = 'E') ↔ c = 'e' ∨ c = 'E' := by
      have hmark := apply_toLower (fun c => decide (c = 'e' ∨ c = 'E')) (by decide) c
      exact decide_eq_decide.1 hmark
    simp only [small_cons, readExponent, readSign_small, startsDigit_small, readDigits_small, he]
    split <;> rfl

/-- A numeral has the same value in small letters. -/
theorem readNumeral_small (cs : List Char) : readNumeral (small cs) = ((readNumeral cs).1, small (readNumeral cs).2) := by
  simp only [readNumeral, readSign_small, readDigits_small, readFraction_small, readExponent_small]

/-- Where a numeral starts does not depend on the case of letters. -/
theorem startsNumeral_small (cs : List Char) : startsNumeral (small cs) = startsNumeral cs := by
  unfold startsNumeral
  rw [readSign_small]
  cases (readSign cs).2 with
  | nil => rfl
  | cons c rest =>
    by_cases hpoint : c = '.'
    · subst hpoint
      exact startsDigit_small rest
    · have hpoint' : c.toLower ≠ '.' := toLower_ne (by decide) hpoint
      simp [hpoint, hpoint', startsDigit]

/-! ## Names and escapes -/

/-- One white space is skipped alike in small letters. -/
theorem skipOneSpace_small (cs : List Char) : skipOneSpace (small cs) = small (skipOneSpace cs) := by
  cases cs with
  | nil => rfl
  | cons c rest =>
    by_cases hc : c = '\r' ∧ rest.head? = some '\n'
    · obtain ⟨rfl, hn⟩ := hc
      obtain ⟨left, rfl⟩ := List.head?_eq_some_iff.1 hn
      rfl
    · have hc' : c.toLower = '\r' → (small rest).head? ≠ some '\n' := by
        intro hr hn
        exact hc ⟨(toLower_eq_iff (by decide) c).1 hr, (head?_small_iff (by decide) rest).1 hn⟩
      rw [small_cons, skipOneSpace_cons hc', skipOneSpace_cons fun hr hn => hc ⟨hr, hn⟩, isSpace_toLower]
      split <;> rfl

/-- Hexadecimal digits have the same value in small letters. -/
theorem hexValue_small (digits : List Char) : hexValue (small digits) = hexValue digits := by
  simp only [hexValue, small, List.foldl_map, hexDigit?_toLower]

/-- An escape is the same character in small letters if it is written by its number, and else the same but for its case. -/
theorem readEscape_small (cs : List Char) : SameButCase Char.toLower (readEscape (small cs)) (readEscape cs) := by
  cases cs with
  | nil => exact ⟨rfl, rfl⟩
  | cons c rest =>
    have hdigits : ((small (c :: rest)).take 6).takeWhile (fun d => (hexDigit? d).isSome) =
        small (((c :: rest).take 6).takeWhile fun d => (hexDigit? d).isSome) := by
      rw [small, ← List.map_take]
      exact takeWhile_small (p := fun d => (hexDigit? d).isSome) (fun d => by rw [hexDigit?_toLower]) _
    rw [small_cons] at hdigits
    simp only [small_cons, readEscape, hexDigit?_toLower, hdigits]
    split
    · constructor
      · rw [hexValue_small]
      · have hdrop : ∀ n, (small (c :: rest)).drop n = small ((c :: rest).drop n) := fun n => List.map_drop.symm
        simp only [length_small, ← small_cons, hdrop, skipOneSpace_small]
    · exact ⟨toLower_replaceNul c, rfl⟩

/-- A name is the same in small letters but for the case of its letters. -/
theorem readName_small (cs : List Char) : SameButCase small (readName (small cs)) (readName cs) := by
  induction cs using readName.induct with
  | case1 =>
    have hnil : readName [] = ([], []) := by rw [readName]
    show SameButCase small (readName []) _
    rw [hnil]
    exact ⟨rfl, rfl⟩
  | case2 rest hn =>
    have hstop : ∀ l, startsNewline l = true → readName ('\\' :: l) = ([], '\\' :: l) := by
      intro l hl
      rw [readName, if_pos rfl, if_pos hl]
    show SameButCase small (readName ('\\' :: small rest)) _
    rw [hstop rest hn, hstop (small rest) (by rw [startsNewline_small, hn])]
    exact ⟨rfl, rfl⟩
  | case3 rest hn escape ih =>
    obtain ⟨hread, hleft⟩ := readEscape_small rest
    show SameButCase small (readName ('\\' :: small rest)) _
    rw [readName, if_pos rfl, startsNewline_small, if_neg hn, readName, if_pos rfl, if_neg hn]
    simp only [hleft]
    exact ih.cons hread
  | case4 c rest hc hn ih =>
    have hc' : c.toLower ≠ '\\' := toLower_ne (by decide) hc
    rw [small_cons, readName, if_neg hc', isNameChar_toLower, if_pos hn, readName, if_neg hc, if_pos hn]
    exact ih.cons (toLower_replaceNul c)
  | case5 c rest hc hn =>
    have hc' : c.toLower ≠ '\\' := toLower_ne (by decide) hc
    rw [small_cons, readName, if_neg hc', isNameChar_toLower, if_neg hn, readName, if_neg hc, if_neg hn]
    exact ⟨rfl, rfl⟩

/-! ## Strings, urls and comments -/

/-- A string is the same in small letters but for the case of its letters, or cut off in both. -/
theorem readQuoted_small {quote : Char} (hq : isQuote quote = true) (cs : List Char) :
    SameButCase (Option.map small) (readQuoted quote (small cs)) (readQuoted quote cs) := by
  have hquote : quote.isAlpha = false := by
    rcases Bool.or_eq_true_iff.1 hq with h | h
    · rw [eq_of_beq h]; decide
    · rw [eq_of_beq h]; decide
  induction cs using readQuoted.induct quote with
  | case1 =>
    have hnil : readQuoted quote [] = (some [], []) := by rw [readQuoted]
    show SameButCase _ (readQuoted quote []) _
    rw [hnil]
    exact ⟨rfl, rfl⟩
  | case2 rest =>
    rw [small_cons, readQuoted, if_pos ((toLower_eq_iff hquote quote).2 rfl), readQuoted, if_pos rfl]
    exact ⟨rfl, rfl⟩
  | case3 c rest hc hn =>
    rw [small_cons, readQuoted, if_neg (toLower_ne hquote hc), isNewline_toLower, if_pos hn, readQuoted, if_neg hc, if_pos hn]
    exact ⟨rfl, rfl⟩
  | case4 rest he hc hn =>
    show SameButCase _ (readQuoted quote ('\\' :: small rest)) _
    rw [readQuoted, if_neg hc, if_neg hn, if_pos rfl, isEmpty_small, if_pos he, readQuoted, if_neg hc, if_neg hn, if_pos rfl,
      if_pos he]
    exact ⟨rfl, rfl⟩
  | case5 rest he hl hc hn ih =>
    show SameButCase _ (readQuoted quote ('\\' :: small rest)) _
    rw [readQuoted, if_neg hc, if_neg hn, if_pos rfl, isEmpty_small, if_neg he, startsNewline_small, if_pos hl,
      skipOneSpace_small, readQuoted, if_neg hc, if_neg hn, if_pos rfl, if_neg he, if_pos hl]
    exact ih
  | case6 rest he hl escape hc hn ih =>
    obtain ⟨hread, hleft⟩ := readEscape_small rest
    show SameButCase _ (readQuoted quote ('\\' :: small rest)) _
    rw [readQuoted, if_neg hc, if_neg hn, if_pos rfl, isEmpty_small, if_neg he, startsNewline_small, if_neg hl, readQuoted,
      if_neg hc, if_neg hn, if_pos rfl, if_neg he, if_neg hl]
    simp only [hleft]
    exact ih.map_cons hread
  | case7 c rest hc hn hb ih =>
    rw [small_cons, readQuoted, if_neg (toLower_ne hquote hc), isNewline_toLower, if_neg hn, if_neg (toLower_ne (by decide) hb),
      readQuoted, if_neg hc, if_neg hn, if_neg hb]
    exact ih.map_cons (toLower_replaceNul c)

/-- A spoiled url ends at the same place in small letters. -/
theorem skipBadUrl_small (cs : List Char) : skipBadUrl (small cs) = small (skipBadUrl cs) := by
  fun_induction skipBadUrl cs with
  | case1 => rfl
  | case2 rest => rfl
  | case3 rest ih => exact ih
  | case4 rest ih => exact ih
  | case5 c rest hparen hpair hpair' ih =>
    -- neither character of a pair is a letter, so none is hidden or made by the case
    have hback : c.toLower = '\\' → c = '\\' := (toLower_eq_iff (by decide) c).1
    have hnext : ∀ {k : Char} {l : List Char}, k.isAlpha = false → small rest = k :: l → ∃ l', rest = k :: l' := by
      intro k l hk hl
      exact List.head?_eq_some_iff.1 ((head?_small_iff hk rest).1 (by rw [hl]; rfl))
    rw [small_cons, skipBadUrl, ih]
    · exact toLower_ne (by decide) hparen
    · intro l h hl
      obtain ⟨l', hl'⟩ := hnext (by decide) hl
      exact hpair l' (hback h) hl'
    · intro l h hl
      obtain ⟨l', hl'⟩ := hnext (by decide) hl
      exact hpair' l' (hback h) hl'

/-- The end of a url is the same in small letters. -/
theorem readUrlEnd_small (cs : List Char) : SameButCase (Option.map small) (readUrlEnd (small cs)) (readUrlEnd cs) := by
  rw [readUrlEnd, readUrlEnd, dropWhile_small isSpace_toLower]
  cases cs.dropWhile isSpace with
  | nil => exact ⟨rfl, rfl⟩
  | cons c rest =>
    simp only [small_cons, toLower_eq_iff (k := ')') (by decide)]
    split
    · exact ⟨rfl, rfl⟩
    · exact ⟨rfl, skipBadUrl_small rest⟩

/-- A url is the same in small letters but for the case of its letters, or spoiled in both. -/
theorem readUrl_small (cs : List Char) : SameButCase (Option.map small) (readUrl (small cs)) (readUrl cs) := by
  induction cs using readUrl.induct with
  | case1 =>
    have hnil : readUrl [] = (some [], []) := by rw [readUrl]
    show SameButCase _ (readUrl []) _
    rw [hnil]
    exact ⟨rfl, rfl⟩
  | case2 rest =>
    show SameButCase _ (readUrl (')' :: small rest)) _
    rw [readUrl, if_pos rfl, readUrl, if_pos rfl]
    exact ⟨rfl, rfl⟩
  | case3 c rest hc hs =>
    rw [small_cons, readUrl, if_neg (toLower_ne (by decide) hc), isSpace_toLower, if_pos hs, readUrl, if_neg hc, if_pos hs]
    exact readUrlEnd_small rest
  | case4 c rest hc hs hp =>
    rw [small_cons, readUrl, if_neg (toLower_ne (by decide) hc), isSpace_toLower, if_neg hs, spoilsUrl_toLower, if_pos hp, readUrl,
      if_neg hc, if_neg hs, if_pos hp]
    exact ⟨rfl, skipBadUrl_small rest⟩
  | case5 rest hn hc hs hp =>
    show SameButCase _ (readUrl ('\\' :: small rest)) _
    rw [readUrl, if_neg hc, if_neg hs, if_neg hp, if_pos rfl, startsNewline_small, if_pos hn, readUrl, if_neg hc, if_neg hs,
      if_neg hp, if_pos rfl, if_pos hn]
    exact ⟨rfl, skipBadUrl_small rest⟩
  | case6 rest hn escape hc hs hp ih =>
    obtain ⟨hread, hleft⟩ := readEscape_small rest
    show SameButCase _ (readUrl ('\\' :: small rest)) _
    rw [readUrl, if_neg hc, if_neg hs, if_neg hp, if_pos rfl, startsNewline_small, if_neg hn, readUrl, if_neg hc, if_neg hs,
      if_neg hp, if_pos rfl, if_neg hn]
    simp only [hleft]
    exact ih.map_cons hread
  | case7 c rest hc hs hp hb ih =>
    rw [small_cons, readUrl, if_neg (toLower_ne (by decide) hc), isSpace_toLower, if_neg hs, spoilsUrl_toLower, if_neg hp,
      if_neg (toLower_ne (by decide) hb), readUrl, if_neg hc, if_neg hs, if_neg hp, if_neg hb]
    exact ih.map_cons (toLower_replaceNul c)

/-- A comment ends at the same place in small letters. -/
theorem skipComment_small (cs : List Char) : skipComment (small cs) = small (skipComment cs) := by
  fun_induction skipComment cs with
  | case1 => rfl
  | case2 rest => rfl
  | case3 c rest hend ih =>
    rw [small_cons, skipComment, ih]
    intro l h hl
    obtain ⟨l', hl'⟩ := List.head?_eq_some_iff.1 ((head?_small_iff (k := '/') (by decide) rest).1 (by rw [hl]; rfl))
    exact hend l' ((toLower_eq_iff (by decide) c).1 h) hl'

/-! ## Tokens -/

/-- Characters with the same small form make texts with the same small form. -/
theorem lower_ofList_eq {cs ds : List Char} (h : small cs = small ds) : lower (String.ofList cs) = lower (String.ofList ds) := by
  rw [lower_ofList, lower_ofList, h]

/-- A string token is the same in small letters but for the case of its letters. -/
theorem scanString_small {quote : Char} (hq : isQuote quote = true) (rest : List Char) :
    SameButCase (Token.mapText lower) (scanString quote (small rest)) (scanString quote rest) := by
  unfold scanString
  rcases (readQuoted_small hq rest).none_or_some with ⟨left, hx, hy⟩ | ⟨text, text', left, htext, hx, hy⟩
  · rw [hx, hy]
    exact ⟨rfl, rfl⟩
  · rw [hx, hy]
    exact ⟨congrArg Token.string (lower_ofList_eq htext), rfl⟩

/-- A hash is the same in small letters but for the case of its name. -/
theorem scanHash_small (rest : List Char) : SameButCase (Token.mapText lower) (scanHash (small rest)) (scanHash rest) := by
  obtain ⟨hread, hleft⟩ := readName_small rest
  rw [scanHash, scanHash, startsHash_small]
  split
  · exact ⟨congrArg Token.hash (lower_ofList_eq hread), hleft⟩
  · exact ⟨rfl, rfl⟩

/-- A name after `@` is the same in small letters but for its case. -/
theorem scanAt_small (rest : List Char) : SameButCase (Token.mapText lower) (scanAt (small rest)) (scanAt rest) := by
  obtain ⟨hread, hleft⟩ := readName_small rest
  rw [scanAt, scanAt, startsIdent_small]
  split
  · exact ⟨congrArg Token.atKeyword (lower_ofList_eq hread), hleft⟩
  · exact ⟨rfl, rfl⟩

/-- A number is the same in small letters, but for the case of its unit. -/
theorem scanNumber_small (cs : List Char) : SameButCase (Token.mapText lower) (scanNumber (small cs)) (scanNumber cs) := by
  have hnumeral := readNumeral_small cs
  by_cases hp : (readNumeral cs).2.head? = some '%'
  · obtain ⟨left, hl⟩ := List.head?_eq_some_iff.1 hp
    have hl' : (readNumeral (small cs)).2 = '%' :: small left := by
      rw [hnumeral, hl]
      rfl
    rw [scanNumber_of_percent hl', scanNumber_of_percent hl, hnumeral]
    exact ⟨rfl, rfl⟩
  · have hp' : (readNumeral (small cs)).2.head? ≠ some '%' := by
      rw [hnumeral]
      exact fun h => hp ((head?_small_iff (by decide) _).1 h)
    rw [scanNumber_of_ne hp', scanNumber_of_ne hp, hnumeral, startsIdent_small]
    split
    · obtain ⟨hread, hleft⟩ := readName_small (readNumeral cs).2
      exact ⟨congrArg (Token.dimension _) (lower_ofList_eq hread), hleft⟩
    · exact ⟨rfl, rfl⟩

/-- After a name that is `url` in either case comes the same url, but for the case of its letters. -/
theorem scanUrl_small {a b : String} (h : lower a = lower b) (rest : List Char) :
    SameButCase (Token.mapText lower) (scanUrl a (small rest)) (scanUrl b rest) := by
  rw [scanUrl, scanUrl, startsQuote_small, dropWhile_small isSpace_toLower]
  split
  · exact ⟨congrArg Token.function h, rfl⟩
  · rcases (readUrl_small (rest.dropWhile isSpace)).none_or_some with ⟨left, hx, hy⟩ | ⟨text, text', left, htext, hx, hy⟩
    · rw [hx, hy]
      exact ⟨rfl, rfl⟩
    · rw [hx, hy]
      exact ⟨congrArg Token.url (lower_ofList_eq htext), rfl⟩

/-- What starts with a name is the same in small letters but for the case of its text: `URL` makes a url as well. -/
theorem scanIdent_small (cs : List Char) : SameButCase (Token.mapText lower) (scanIdent (small cs)) (scanIdent cs) := by
  obtain ⟨hread, hleft⟩ := readName_small cs
  have hname := lower_ofList_eq hread
  by_cases hp : (readName cs).2.head? = some '('
  · obtain ⟨left, hl⟩ := List.head?_eq_some_iff.1 hp
    have hl' : (readName (small cs)).2 = '(' :: small left := by
      rw [hleft, hl]
      rfl
    rw [scanIdent_of_paren hl', scanIdent_of_paren hl, eqIgnoringCase, eqIgnoringCase, hname]
    split
    · exact scanUrl_small hname left
    · exact ⟨congrArg Token.function hname, rfl⟩
  · have hp' : (readName (small cs)).2.head? ≠ some '(' := by
      rw [hleft]
      exact fun h => hp ((head?_small_iff (by decide) _).1 h)
    rw [scanIdent_of_ne hp', scanIdent_of_ne hp]
    exact ⟨congrArg Token.ident hname, hleft⟩

section

variable {c : Char} (hc : c.toLower = c)

include hc

/-- A name or a delimiter is the same in small letters but for the case of its letters. -/
theorem scanOther_small (rest : List Char) :
    SameButCase (Token.mapText lower) (scanOther c (small rest)) (scanOther c rest) := by
  have hcons : c :: small rest = small (c :: rest) := by rw [small_cons, hc]
  rw [scanOther, scanOther, hcons, startsIdent_small]
  split
  · exact scanIdent_small (c :: rest)
  · exact ⟨rfl, rfl⟩

/-- Marks of several characters and comments have no letters in them that decide. -/
theorem scanMark_small (rest : List Char) :
    SameButCase (Token.mapText lower) (scanMark c (small rest)) (scanMark c rest) := by
  by_cases hcomment : c = '/' ∧ ['*'] <+: rest
  · obtain ⟨rfl, left, rfl⟩ := hcomment
    exact ⟨rfl, skipComment_small left⟩
  by_cases hcdo : c = '<' ∧ ['!', '-', '-'] <+: rest
  · obtain ⟨rfl, left, rfl⟩ := hcdo
    exact ⟨rfl, rfl⟩
  by_cases hcdc : c = '-' ∧ ['-', '>'] <+: rest
  · obtain ⟨rfl, left, rfl⟩ := hcdc
    exact ⟨rfl, rfl⟩
  by_cases hmatch : ['='] <+: rest
  · obtain ⟨left, rfl⟩ := hmatch
    have hmark : ∀ l, scanMark c ('=' :: l) = if isMatchMark c then (.matching c, l) else scanOther c ('=' :: l) :=
      scanMark.eq_4 c
    show SameButCase _ (scanMark c ('=' :: small left)) (scanMark c ('=' :: left))
    rw [hmark, hmark]
    split
    · exact ⟨rfl, rfl⟩
    · exact scanOther_small hc ('=' :: left)
  -- what starts none of the marks in one text starts none in the other
  have hother : ∀ l, (∀ mark, mark.all (fun k => !k.isAlpha) = true → mark <+: l → mark <+: rest) →
      scanMark c l = scanOther c l := by
    intro l hl
    refine scanMark.eq_5 c l (fun left he => ?_) (fun left hd he => ?_) (fun left hd he => ?_) fun left hd he => ?_
    · exact hmatch (hl ['='] (by decide) ⟨left, he.symm⟩)
    · exact hcomment ⟨hd, hl ['*'] (by decide) ⟨left, he.symm⟩⟩
    · exact hcdo ⟨hd, hl ['!', '-', '-'] (by decide) ⟨left, he.symm⟩⟩
    · exact hcdc ⟨hd, hl ['-', '>'] (by decide) ⟨left, he.symm⟩⟩
  rw [hother rest fun _ _ h => h, hother (small rest) fun mark hm h => (prefix_small_iff hm rest).1 h]
  exact scanOther_small hc rest

end

/-- One token: in small letters the same is read, up to case, and the same is left, in small letters. -/
theorem scan_small (c : Char) (rest : List Char) :
    SameButCase (Token.mapText lower) (scan c.toLower (small rest)) (scan c rest) := by
  rcases toLower_eq_self_or_mem_capitals c with hc | hc
  · rw [hc, scan_eq, scan_eq c rest]
    split
    · exact ⟨rfl, dropWhile_small isSpace_toLower rest⟩
    split
    · next hq => exact scanString_small hq rest
    cases punctuation? c with
    | some token => exact ⟨rfl, rfl⟩
    | none =>
      have hcons : c :: small rest = small (c :: rest) := by rw [small_cons, hc]
      simp only [hcons, startsNumeral_small]
      split
      · exact scanHash_small rest
      split
      · exact scanAt_small rest
      split
      · exact scanNumber_small (c :: rest)
      · exact scanMark_small hc rest
  · -- a capital letter starts a name, and so does its small form
    have hletter : c.isAlpha = true := List.all_eq_true.1 (by decide : capitals.all Char.isAlpha = true) c hc
    have hletter' : c.toLower.isAlpha = true := by rw [apply_toLower Char.isAlpha (by decide) c, hletter]
    rw [scan_letter hletter', scan_letter hletter]
    exact scanIdent_small (c :: rest)

/-- The tokens of characters are the same in small letters but for the case of their texts. -/
theorem tokensIn_small (cs : List Char) :
    (tokensIn (small cs)).map (Token.mapText lower) = (tokensIn cs).map (Token.mapText lower) := by
  induction cs using tokenize.induct with
  | case1 => rfl
  | case2 c rest left ih =>
    obtain ⟨hread, hleft⟩ := scan_small c rest
    rw [small_cons, tokensIn_cons, tokensIn_cons, List.map_cons, List.map_cons, hread, hleft, ih]

/-- A text and the same text in small letters have the same tokens, up to the case of the texts they carry. -/
theorem tokensOf_lower (text : String) :
    (tokensOf (lower text)).map (Token.mapText lower) = (tokensOf text).map (Token.mapText lower) := by
  rw [← tokensIn_toList, ← tokensIn_toList, toList_lower]
  exact tokensIn_small text.toList

end StyleCheck
