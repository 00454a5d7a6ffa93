import StyleCheck.Text.Ascii

/-!
# Names and escapes

A name is a run of letters, digits, `_`, `-`, characters beyond ASCII and escapes. An escape is a backslash before anything
but the end of a line: up to six hexadecimal digits and one white space after them stand for the character of that number,
any other character stands for itself. A NUL, and a number that is no character, read as the replacement character. Each
reader returns what it read and what is left, which is always an end piece of what it was given.
-/

namespace StyleCheck

/-- The character that stands for one that cannot be had. -/
def replacement : Char := '\uFFFD'

/-- The characters that end a line. -/
def isNewline (c : Char) : Bool := c == '\n' || c == '\r' || c == '\x0c'

/-- The characters of white space between tokens. -/
def isSpace (c : Char) : Bool := c == ' ' || c == '\t' || isNewline c

/-- The characters a name may start with: a letter, `_`, NUL, or anything beyond ASCII. -/
def isNameStart (c : Char) : Bool := c.isAlpha || c == '_' || c == '\x00' || c.toNat ≥ 0x80

/-- The characters a name may go on with. -/
def isNameChar (c : Char) : Bool := isNameStart c || c.isDigit || c == '-'

/-- Whether a line ends here. -/
def startsNewline : List Char → Bool
  | c :: _ => isNewline c
  | [] => false

/-- Whether a name can start here. After a hyphen every backslash will do, also one that starts no escape: the name is then the
hyphen alone. -/
def startsIdent : List Char → Bool
  | '-' :: c :: _ => isNameStart c || c == '-' || c == '\\'
  | '\\' :: rest => !startsNewline rest
  | c :: _ => isNameStart c
  | [] => false

/-- One white space, if there is one; a carriage return and the line feed after it are one. -/
def skipOneSpace : List Char → List Char
  | '\r' :: '\n' :: rest => rest
  | c :: rest => if isSpace c then rest else c :: rest
  | [] => []

/-- The number that hexadecimal digits stand for. -/
def hexValue (digits : List Char) : Nat :=
  digits.foldl (fun n c => 16 * n + (hexDigit? c).getD 0) 0

/-- The character of a number, or the replacement character if the number is zero or no character has it. -/
def charOfNumber (n : Nat) : Char :=
  if n ≠ 0 ∧ n.isValidChar then Char.ofNat n else replacement

/-- A NUL reads as the replacement character. -/
def replaceNul (c : Char) : Char := if c = '\x00' then replacement else c

/-- What an escape stands for, read after its backslash. -/
def readEscape : List Char → Char × List Char
  | [] => (replacement, [])
  | c :: rest =>
    if (hexDigit? c).isSome then
      let digits := ((c :: rest).take 6).takeWhile (fun d => (hexDigit? d).isSome)
      (charOfNumber (hexValue digits), skipOneSpace ((c :: rest).drop digits.length))
    else (replaceNul c, rest)

theorem skipOneSpace_suffix (cs : List Char) : skipOneSpace cs <:+ cs := by
  unfold skipOneSpace
  split
  · exact ⟨['\r', '\n'], rfl⟩
  · split
    · exact List.suffix_cons _ _
    · exact List.suffix_refl _
  · exact List.suffix_refl _

theorem readEscape_suffix (cs : List Char) : (readEscape cs).2 <:+ cs := by
  unfold readEscape
  split
  · exact List.suffix_refl _
  · split
    · exact (skipOneSpace_suffix _).trans (List.drop_suffix _ _)
    · exact List.suffix_cons _ _

/-- The longest name that starts here, which may be empty. -/
def readName (cs : List Char) : List Char × List Char :=
  match cs with
  | [] => ([], [])
  | c :: rest =>
    if c = '\\' then
      if startsNewline rest then ([], c :: rest)
      else
        let escape := readEscape rest
        let tail := readName escape.2
        (escape.1 :: tail.1, tail.2)
    else if isNameChar c then
      let tail := readName rest
      (replaceNul c :: tail.1, tail.2)
    else ([], c :: rest)
termination_by cs.length
decreasing_by
  · have := (readEscape_suffix rest).length_le
    simp only [List.length_cons]
    omega
  · simp

theorem readName_suffix (cs : List Char) : (readName cs).2 <:+ cs := by
  fun_induction readName cs with
  | case1 => exact List.suffix_refl _
  | case2 => exact List.suffix_refl _
  | case3 rest _ escape tail ih => exact (ih.trans (readEscape_suffix rest)).trans (List.suffix_cons _ _)
  | case4 c rest _ _ tail ih => exact ih.trans (List.suffix_cons _ _)
  | case5 => exact List.suffix_refl _

/-- Where a name can start, the reader takes at least one character. -/
theorem readName_suffix_tail {c : Char} {rest : List Char} (h : startsIdent (c :: rest) = true) :
    (readName (c :: rest)).2 <:+ rest := by
  rw [readName]
  split
  · next hc =>
    subst hc
    have hn : startsNewline rest = false := by simpa [startsIdent] using h
    simp only [hn, Bool.false_eq_true, if_false]
    exact (readName_suffix _).trans (readEscape_suffix rest)
  · next hc =>
    have hn : isNameChar c = true := by
      unfold startsIdent at h
      split at h <;> simp_all [isNameChar]
    simp only [hn, if_true]
    exact readName_suffix _

end StyleCheck
