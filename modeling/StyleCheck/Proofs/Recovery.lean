import StyleCheck.Declaration
import StyleCheck.Proofs.Boundary
import StyleCheck.Proofs.Nesting

/-!
# Recovery is local to a declaration

Whatever stands in a piece of a declaration list, the reader is back in step after the semicolon that ends the piece. Each
reader of an item stops at the first semicolon of its level, or earlier; so it reads the same from the piece alone as from the
piece with a semicolon and anything else after it, up to the source that a skipped item is reported with. Main statement:
`parseDeclarations_append_semicolon`.
-/

namespace StyleCheck

/-- An item read from a piece alone, and one read from the piece with a semicolon and more after it: both are the same
declaration or both are skipped, and what is left in the second case still holds the semicolon or starts right after it. -/
structure SameItem (semicolon : Node) (more : List Node) (alone within : Item × List Node) : Prop where
  declaration : within.1.toOption = alone.1.toOption
  left : within.2 = alone.2 ++ semicolon :: more ∨ alone.2 = [] ∧ within.2 = more

/-- A reader that drops all nodes up to the first one that is not inside its item drops no more than a semicolon. -/
theorem drop_one_dropWhile_append {semicolon : Node} {inside : Node → Bool} (hi : inside semicolon = false)
    (rest more : List Node) :
    ((rest ++ semicolon :: more).dropWhile inside).drop 1 = (rest.dropWhile inside).drop 1 ++ semicolon :: more ∨
      (rest.dropWhile inside).drop 1 = [] ∧ ((rest ++ semicolon :: more).dropWhile inside).drop 1 = more := by
  rw [dropWhile_append_stop hi]
  cases rest.dropWhile inside with
  | nil => exact .inr ⟨rfl, rfl⟩
  | cons n rest => exact .inl rfl

theorem toOption_mapError {ε ε' α : Type} (f : ε → ε') (x : Except ε α) : (x.mapError f).toOption = x.toOption := by
  cases x <;> rfl

section

variable {semicolon : Node} (hs : semicolon.isToken .semicolon = true)

include hs

/-- A statement is read alike whether or not a semicolon and more follow it. -/
theorem readStatement_sameItem (read : List Node → Except SkipReason Declaration) (n : Node) (rest more : List Node) :
    SameItem semicolon more (readStatement read n rest) (readStatement read n (rest ++ semicolon :: more)) := by
  have hi : (!semicolon.isToken .semicolon) = false := by rw [hs]; rfl
  have hbody : (rest ++ semicolon :: more).takeWhile (fun n => !n.isToken .semicolon) =
      rest.takeWhile fun n => !n.isToken .semicolon :=
    takeWhile_append_stop (p := fun n => !n.isToken .semicolon) hi rest more
  refine ⟨?_, drop_one_dropWhile_append hi rest more⟩
  simp only [readStatement, toOption_mapError, hbody]

/-- An at-rule is skipped alike whether or not a semicolon and more follow it. -/
theorem skipAtRule_sameItem (n : Node) (rest more : List Node) :
    SameItem semicolon more (.error (skipAtRule n rest).1, (skipAtRule n rest).2)
      (.error (skipAtRule n (rest ++ semicolon :: more)).1, (skipAtRule n (rest ++ semicolon :: more)).2) := by
  have hi : (!(semicolon.isToken .semicolon || semicolon.isCurly)) = false := by rw [hs]; rfl
  have hleft : ∀ l, (skipAtRule n l).2 = (l.dropWhile fun n => !(n.isToken .semicolon || n.isCurly)).drop 1 := by
    intro l
    unfold skipAtRule
    simp only
    split <;> rfl
  refine ⟨rfl, ?_⟩
  simp only [hleft]
  exact drop_one_dropWhile_append hi rest more

/-- An item is read alike whether or not a semicolon and more follow it. -/
theorem readItem_sameItem (n : Node) (rest more : List Node) :
    SameItem semicolon more (readItem n rest) (readItem n (rest ++ semicolon :: more)) := by
  unfold readItem
  split
  · exact readStatement_sameItem hs _ _ rest more
  · exact skipAtRule_sameItem hs _ rest more
  · exact readStatement_sameItem hs _ _ rest more

/-- The declarations on both sides of a semicolon are read apart. -/
theorem declarationsOf_readItems_append (ns ms : List Node) :
    declarationsOf (readItems (ns ++ semicolon :: ms)) = declarationsOf (readItems ns) ++ declarationsOf (readItems ms) := by
  induction ns using readItems.induct with
  | case1 =>
    have hbetween : semicolon.isBetweenItems = true := by rw [Node.isBetweenItems, hs, Bool.or_true, Bool.true_or]
    have hnil : readItems [] = [] := by rw [readItems]
    rw [List.nil_append, hnil, readItems, if_pos hbetween]
    rfl
  | case2 n rest hn ih => rw [List.cons_append, readItems, if_pos hn, ih, readItems, if_pos hn]
  | case3 n rest hn ih =>
    obtain ⟨hdeclaration, hleft⟩ := readItem_sameItem hs n rest ms
    rw [List.cons_append, readItems, if_neg hn, readItems, if_neg hn, declarationsOf, declarationsOf, List.filterMap_cons,
      List.filterMap_cons, hdeclaration, ← declarationsOf, ← declarationsOf]
    have hrest : declarationsOf (readItems (readItem n (rest ++ semicolon :: ms)).2) =
        declarationsOf (readItems (readItem n rest).2) ++ declarationsOf (readItems ms) := by
      rcases hleft with hleft | ⟨hnil, hleft⟩
      · rw [hleft, ih]
      · rw [hleft, hnil, readItems]
        rfl
    rw [hrest]
    cases (readItem n rest).1.toOption <;> rfl

end

/-- A semicolon that is a token by itself, after a text that leaves no bracket open, is a node of the outermost level, and the
nodes on both sides of it are those of the two texts. -/
theorem nodesOf_append_semicolon {a : String} (h : tokensOf (a ++ ";") = tokensOf a ++ [.semicolon])
    (hopen : openBrackets [] (tokensOf a) = []) (b : String) :
    nodesOf (a ++ ";" ++ b) = nodesOf a ++ .leaf ⟨.semicolon, [';']⟩ :: nodesOf b := by
  have htokens := tokenize_toList_append ';' (by decide) rfl rfl h b.toList
  have htext : (a ++ ";" ++ b).toList = a.toList ++ ';' :: b.toList := by simp
  rw [nodesOf, htext, htokens, group_append hopen, group_cons_leaf rfl]
  rfl

/-- Recovery is local to a declaration: whatever a text holds that leaves no bracket open and does not swallow the semicolon
after it, the declarations after the semicolon are read as if they stood alone. -/
theorem parseDeclarations_append_semicolon {a : String} (h : tokensOf (a ++ ";") = tokensOf a ++ [.semicolon])
    (hopen : openBrackets [] (tokensOf a) = []) (b : String) :
    parseDeclarations (a ++ ";" ++ b) = parseDeclarations a ++ parseDeclarations b := by
  rw [parseDeclarations, parseItems, nodesOf_append_semicolon h hopen]
  exact declarationsOf_readItems_append rfl (nodesOf a) (nodesOf b)

/-- A piece with an at-rule, a stray bracket, a block that is no value and an unfinished declaration does not disturb the
declaration after it. -/
theorem parseDeclarations_append_semicolon_malformed :
    let a := "A: red; @m x \x7b b: c \x7d ) d: [e; f]; g"
    tokensOf (a ++ ";") = tokensOf a ++ [.semicolon] ∧ openBrackets [] (tokensOf a) = [] ∧
      (parseDeclarations (a ++ ";" ++ "h: i")).map Declaration.name = ["a", "h"] := by
  intro a
  have htokens : tokensOf (a ++ ";") = tokensOf a ++ [.semicolon] := by decide +kernel
  have hopen : openBrackets [] (tokensOf a) = [] := by decide +kernel
  have ha : (parseDeclarations a).map Declaration.name = ["a"] := by decide +kernel
  have hb : (parseDeclarations "h: i").map Declaration.name = ["h"] := by decide +kernel
  refine ⟨htokens, hopen, ?_⟩
  rw [parseDeclarations_append_semicolon htokens hopen, List.map_append, ha, hb]
  rfl

end StyleCheck
