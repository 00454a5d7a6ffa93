import StyleCheck.Token.Quoted

/-!
# Urls without quotes

After `url(` and white space, anything but a quote is read as the text of a url up to `)` or the end of the text. White space
may stand only before the end. A quote, a round bracket, a control character or a backslash at the end of a line spoils the
url, and all up to the next `)` is spoiled with it.
-/

namespace StyleCheck

/-- The characters a url cannot hold. -/
def spoilsUrl (c : Char) : Bool :=
  let n := c.toNat
  isQuote c || c == '(' || (1 ≤ n && n ≤ 8) || n == 0x0B || (0x0E ≤ n && n ≤ 0x1F) || n == 0x7F

/-- What is left after a spoiled url: it goes on to the next `)`, and `\)` and `\\` are passed over as pairs. -/
def skipBadUrl : List Char → List Char
  | [] => []
  | ')' :: rest => rest
  | '\\' :: ')' :: rest => skipBadUrl rest
  | '\\' :: '\\' :: rest => skipBadUrl rest
  | _ :: rest => skipBadUrl rest

/-- The end of a url after white space: only `)` or the end of the text may follow. -/
def readUrlEnd (cs : List Char) : Option (List Char) × List Char :=
  match cs.dropWhile isSpace with
  | [] => (some [], [])
  | c :: rest => if c = ')' then (some [], rest) else (none, skipBadUrl rest)

/-- The text of a url up to its end; none if the url is spoiled. -/
def readUrl (cs : List Char) : Option (List Char) × List Char :=
  match cs with
  | [] => (some [], [])
  | c :: rest =>
    if c = ')' then (some [], rest)
    else if isSpace c then readUrlEnd rest
    else if spoilsUrl c then (none, skipBadUrl rest)
    else if c = '\\' then
      if startsNewline rest then (none, skipBadUrl rest)
      else
        let escape := readEscape rest
        let tail := readUrl escape.2
        (tail.1.map (escape.1 :: ·), tail.2)
    else
      let tail := readUrl rest
      (tail.1.map (replaceNul c :: ·), tail.2)
termination_by cs.length
decreasing_by
  · have := (readEscape_suffix rest).length_le
    simp only [List.length_cons]
    omega
  · simp

/-- Whether a quote follows, after any white space. -/
def startsQuote (cs : List Char) : Bool :=
  match cs.dropWhile isSpace with
  | c :: _ => isQuote c
  | [] => false

theorem skipBadUrl_suffix (cs : List Char) : skipBadUrl cs <:+ cs := by
  fun_induction skipBadUrl cs with
  | case1 => exact List.suffix_refl _
  | case2 => exact List.suffix_cons _ _
  | case3 rest ih => exact ih.trans ⟨['\\', ')'], rfl⟩
  | case4 rest ih => exact ih.trans ⟨['\\', '\\'], rfl⟩
  | case5 c rest _ _ _ ih => exact ih.trans (List.suffix_cons _ _)

theorem readUrlEnd_suffix (cs : List Char) : (readUrlEnd cs).2 <:+ cs := by
  unfold readUrlEnd
  split
  · exact List.nil_suffix
  · next c rest h =>
    have hr : rest <:+ cs := (List.suffix_cons c rest).trans (h ▸ List.dropWhile_suffix _)
    split
    · exact hr
    · exact (skipBadUrl_suffix _).trans hr

theorem readUrl_suffix (cs : List Char) : (readUrl cs).2 <:+ cs := by
  fun_induction readUrl cs with
  | case1 => exact List.suffix_refl _
  | case2 => exact List.suffix_cons _ _
  | case3 => exact (readUrlEnd_suffix _).trans (List.suffix_cons _ _)
  | case4 => exact (skipBadUrl_suffix _).trans (List.suffix_cons _ _)
  | case5 => exact (skipBadUrl_suffix _).trans (List.suffix_cons _ _)
  | case6 rest _ _ _ _ escape tail ih => exact (ih.trans (readEscape_suffix rest)).trans (List.suffix_cons _ _)
  | case7 c rest _ _ _ _ tail ih => exact ih.trans (List.suffix_cons _ _)

end StyleCheck
