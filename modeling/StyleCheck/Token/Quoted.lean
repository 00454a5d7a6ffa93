import StyleCheck.Token.Name

/-!
# Strings between quotes

A string runs to the quote that opened it or to the end of the text. A backslash at the end of a line, or at the end of the
text, is dropped together with the line end; other escapes are those of names. A line end without a backslash cuts the string
off, and is left to be read again.
-/

namespace StyleCheck

/-- The two quotes. -/
def isQuote (c : Char) : Bool := c == '"' || c == '\x27'

/-- The text of a string up to its closing `quote`, read after the opening one; none if the string is cut off. -/
def readQuoted (quote : Char) (cs : List Char) : Option (List Char) × List Char :=
  match cs with
  | [] => (some [], [])
  | c :: rest =>
    if c = quote then (some [], rest)
    else if isNewline c then (none, c :: rest)
    else if c = '\\' then
      if rest.isEmpty then (some [], [])
      else if startsNewline rest then readQuoted quote (skipOneSpace rest)
      else
        let escape := readEscape rest
        let tail := readQuoted quote escape.2
        (tail.1.map (escape.1 :: ·), tail.2)
    else
      let tail := readQuoted quote rest
      (tail.1.map (replaceNul c :: ·), tail.2)
termination_by cs.length
decreasing_by
  · have := (skipOneSpace_suffix rest).length_le
    simp only [List.length_cons]
    omega
  · have := (readEscape_suffix rest).length_le
    simp only [List.length_cons]
    omega
  · simp

theorem readQuoted_suffix (quote : Char) (cs : List Char) : (readQuoted quote cs).2 <:+ cs := by
  fun_induction readQuoted quote cs with
  | case1 => exact List.suffix_refl _
  | case2 => exact List.suffix_cons _ _
  | case3 => exact List.suffix_refl _
  | case4 => exact List.nil_suffix
  | case5 rest _ _ _ _ ih => exact (ih.trans (skipOneSpace_suffix rest)).trans (List.suffix_cons _ _)
  | case6 rest _ _ _ _ escape tail ih => exact (ih.trans (readEscape_suffix rest)).trans (List.suffix_cons _ _)
  | case7 c rest _ _ _ tail ih => exact ih.trans (List.suffix_cons _ _)

end StyleCheck
