import Mathlib.Data.List.TakeWhile
import StyleCheck.Proofs.Essence
import StyleCheck.Proofs.Spelling
import StyleCheck.Proofs.ValueScan

/-!
# The value of a declaration and what follows it

A declaration reads its value up to the first `!` of its level, while a value by itself takes a `!` for a delimiter like any
other. Both read the same as long as no such delimiter stands at the level of the value, and what follows the value then decides:
nothing but white space and comments, `!important`, or anything else from a `!` on, for which the whole declaration is refused.
Main statement: `parseDeclarations_value_append`.
-/

namespace StyleCheck

/-! ## Nodes that are components -/

/-- The component of a token is no list. -/
theorem Token.isList_component {t : Token} {v : Value} (h : t.component = .ok v) : v.isList = false := by
  cases t with
  | hash name =>
    simp only [Token.component, Token.literal?, valueOfToken] at h
    cases hc : Color.ofHex? name with
    | none => rw [hc] at h; cases h
    | some color => rw [hc] at h; cases h; rfl
  | dimension value unit =>
    simp only [Token.component, Token.literal?, valueOfToken] at h
    cases hu : LengthUnit.ofSuffix? unit with
    | none => rw [hu] at h; cases h; rfl
    | some u => rw [hu] at h; cases h; rfl
  | function name =>
    cases h
    unfold valueOfFunction
    split <;> rfl
  | _ => cases h <;> rfl

/-- A component is never a list. -/
theorem Node.isList_component {n : Node} {v : Value} (h : n.component = .ok v) : v.isList = false := by
  unfold Node.component at h
  split at h
  · exact Token.isList_component h
  · next name source contents closer =>
    split at h
    · cases h
      rfl
    · cases hc : componentsOf contents with
      | error e => rw [hc] at h; cases h
      | ok arguments =>
        rw [hc] at h
        cases h
        unfold valueOfFunction
        split <;> rfl
  · exact Token.isList_component h

/-- Every node other than white space and comments is one of the components. -/
theorem exists_component_of_mem {nodes : List Node} {vs : List Value} (h : componentsOf nodes = .ok vs) {n : Node}
    (hn : n ∈ nodes) (ht : n.isTrivia = false) : ∃ v ∈ vs, n.component = .ok v := by
  induction nodes generalizing vs with
  | nil => cases hn
  | cons m rest ih =>
    rcases componentsOf_cons_eq_ok h with ⟨hm, hrest⟩ | ⟨-, v, ws, hv, hrest, rfl⟩
    · rcases List.mem_cons.1 hn with rfl | hn
      · rw [ht] at hm
        cases hm
      · exact ih hrest hn
    · rcases List.mem_cons.1 hn with rfl | hn
      · exact ⟨v, List.mem_cons_self, hv⟩
      · obtain ⟨w, hw, hwn⟩ := ih hrest hn
        exact ⟨w, List.mem_cons_of_mem _ hw, hwn⟩

/-- Every component is one of the nodes. -/
theorem exists_node_of_mem {nodes : List Node} {vs : List Value} (h : componentsOf nodes = .ok vs) {v : Value} (hv : v ∈ vs) :
    ∃ n ∈ nodes, n.component = .ok v := by
  induction nodes generalizing vs with
  | nil =>
    cases h
    cases hv
  | cons m rest ih =>
    rcases componentsOf_cons_eq_ok h with ⟨-, hrest⟩ | ⟨-, w, ws, hw, hrest, rfl⟩
    · obtain ⟨n, hn, hc⟩ := ih hrest hv
      exact ⟨n, List.mem_cons_of_mem _ hn, hc⟩
    · rcases List.mem_cons.1 hv with rfl | hv
      · exact ⟨m, List.mem_cons_self, hw⟩
      · obtain ⟨n, hn, hc⟩ := ih hrest hv
        exact ⟨n, List.mem_cons_of_mem _ hn, hc⟩

/-- The components of a value that was read are those it was made of. -/
theorem components_ofComponents {nodes : List Node} {vs : List Value} (h : componentsOf nodes = .ok vs) :
    (Value.ofComponents vs).components = vs := by
  match vs with
  | [] => rfl
  | [v] =>
    obtain ⟨n, -, hn⟩ := exists_node_of_mem h List.mem_cons_self
    have hlist := Node.isList_component hn
    cases v <;> first | rfl | cases hlist
  | v :: w :: rest => rfl

/-- Among components a token that is none of them does not stand alone. -/
theorem isToken_eq_false_of_componentsOf {nodes : List Node} {vs : List Value} (h : componentsOf nodes = .ok vs) {t : Token}
    (ht : t.isTrivia = false) (hno : ∀ v ∈ vs, t.component ≠ .ok v) : ∀ n ∈ nodes, n.isToken t = false := by
  intro n hn
  rw [Bool.eq_false_iff]
  intro hnt
  cases n with
  | block opener contents closer => cases hnt
  | leaf x =>
    have hx : x.token = t := of_decide_eq_true hnt
    obtain ⟨v, hv, hc⟩ := exists_component_of_mem h hn (by rw [Node.isTrivia, Node.head, hx, ht])
    rw [Node.component, hx] at hc
    exact hno v hv hc

/-! ## What follows the value -/

/-- A piece of a declaration list without semicolons, from a name and a colon on, is one declaration or none. -/
theorem declarationsOf_readItems_named {name : String} {x y : Lexeme} (hx : x.token = .ident name) (hy : y.token = .colon)
    {nodes : List Node} (h : ∀ n ∈ nodes, n.isToken .semicolon = false) :
    declarationsOf (readItems (.leaf x :: .leaf y :: nodes)) = (readDeclared name nodes).toOption.toList := by
  obtain ⟨t, source⟩ := x
  obtain ⟨u, source'⟩ := y
  obtain rfl := hx
  obtain rfl := hy
  have hall : ∀ n ∈ Node.leaf ⟨.colon, source'⟩ :: nodes, (!n.isToken .semicolon) = true := by
    intro n hn
    rcases List.mem_cons.1 hn with rfl | hn
    · rfl
    · rw [h n hn]
      rfl
  have htake := List.takeWhile_eq_self_iff.2 hall
  have hdrop := List.dropWhile_eq_nil_iff.2 hall
  have hdeclaration : readDeclaration name (.leaf ⟨.colon, source'⟩ :: nodes) = readDeclared name nodes := rfl
  have hbetween : Node.isBetweenItems (.leaf ⟨.ident name, source⟩) ≠ true := Bool.false_ne_true
  rw [readItems, if_neg hbetween]
  simp only [readItem, readStatement, htake, hdrop, hdeclaration, List.drop_nil]
  rw [readItems, declarationsOf]
  cases readDeclared name nodes <;> rfl

/-- A declaration has the value that stands before the first `!`, and what comes from there on decides the rest. -/
theorem readDeclared_append {name : String} {ns ms : List Node} {vs : List Value} (hv : componentsOf ns = .ok vs) (hne : vs ≠ [])
    (hbang : .delimiter '!' ∉ vs) (hms : ∀ m, ms.head? = some m → m.isToken (.delim '!') = true) :
    readDeclared name (ns ++ ms) = (readImportance ms).map fun important => ⟨lower name, .ofComponents vs, important⟩ := by
  have hns : ∀ n ∈ ns, (!n.isToken (.delim '!')) = true := by
    intro n hn
    rw [isToken_eq_false_of_componentsOf hv (t := .delim '!') rfl _ n hn]
    · rfl
    · intro v hvs hc
      obtain rfl := Except.ok.inj hc
      exact hbang hvs
  have hcut : ms.takeWhile (fun n => !n.isToken (.delim '!')) = [] ∧ ms.dropWhile (fun n => !n.isToken (.delim '!')) = ms := by
    cases ms with
    | nil => exact ⟨rfl, rfl⟩
    | cons m ms => simp [hms m rfl]
  simp only [readDeclared, List.takeWhile_append_of_pos hns, List.dropWhile_append_of_pos hns, hcut, List.append_nil,
    readComponents_eq, Cursor.ofNodes, hv]

/-- The nodes that what follows the value is read from: its tokens other than white space and comments, grouped. -/
def followingNodes (s : String) : List Node := Node.essenceAll id (nodesOf s)

/-- What follows is grouped from its significant tokens. -/
theorem followingNodes_eq (s : String) : followingNodes s = group ((significantTokens s).map Token.bare) := by
  rw [followingNodes, nodesOf, ← group_essence, essenceOf_eq]
  simp only [Token.mapText_id]
  rfl

/-- A text that begins with a bang gives the bang by itself, then the grouped rest. -/
theorem followingNodes_of_bang {s : String} {ts : List Token} (h : significantTokens s = .delim '!' :: ts) :
    followingNodes s = .leaf (Token.delim '!').bare :: group (ts.map Token.bare) := by
  rw [followingNodes_eq, h, List.map_cons]
  exact group_cons_leaf rfl _

/-- A semicolon at the level of nodes stands outside of all blocks in their text. -/
theorem exists_semicolon_of_mem {s : String} {n : Node} (hn : n ∈ nodesOf s) (ht : n.isToken .semicolon = true) :
    ∃ before after, tokensOf s = before ++ .semicolon :: after ∧ openBrackets [] before = [] := by
  obtain ⟨ns, ms, hsplit⟩ := List.append_of_mem hn
  obtain ⟨closed, hnested⟩ := nested_group (tokenize s.toList)
  have htokens := tokensAll_group (tokenize s.toList)
  rw [← nodesOf, hsplit] at hnested htokens
  cases n with
  | block opener contents closer => cases ht
  | leaf x =>
    have hx : x.token = .semicolon := of_decide_eq_true ht
    refine ⟨Node.tokensAll ns, Node.tokensAll ms, ?_, hnested.of_append_cons.1.openBrackets_eq_of_closed [] rfl⟩
    rw [tokensOf, ← htokens, Node.tokensAll_append, Node.tokensAll_leaf, hx]

/-- A text whose semicolons all lie inside brackets has none at its top level. -/
theorem isToken_semicolon_of_mem_followingNodes {s : String}
    (h : ∀ before after, tokensOf s = before ++ .semicolon :: after → openBrackets [] before ≠ []) :
    ∀ n ∈ followingNodes s, n.isToken .semicolon = false := by
  intro m hm
  rw [Bool.eq_false_iff]
  intro hsemicolon
  obtain ⟨n, hn, rfl⟩ : ∃ n ∈ nodesOf s, n.essence id = m := by
    rw [followingNodes, Node.essenceAll_eq_map, List.mem_map] at hm
    obtain ⟨n, hn, rfl⟩ := hm
    exact ⟨n, (List.mem_filter.1 hn).1, rfl⟩
  rw [Node.isToken_essence id rfl] at hsemicolon
  obtain ⟨before, after, htokens, hopen⟩ := exists_semicolon_of_mem hn hsemicolon
  exact h before after htokens hopen

/-- The first token of a node is one of the tokens of the nodes. -/
theorem Node.head_mem_tokensAll {n : Node} {nodes : List Node} (h : n ∈ nodes) : n.head ∈ Node.tokensAll nodes := by
  obtain ⟨ns, ms, rfl⟩ := List.append_of_mem h
  rw [Node.tokensAll_append]
  refine List.mem_append_right _ ?_
  cases n with
  | leaf x => exact List.mem_cons_self
  | block opener contents closer =>
    rw [Node.tokensAll_block]
    exact List.mem_cons_self

/-- What starts with `!` and is not `!important` is refused. -/
theorem readImportance_of_bang {s : String} {ts : List Token} (h : significantTokens s = .delim '!' :: ts)
    (hno : ¬∃ word, ts = [.ident word] ∧ eqIgnoringCase word "important" = true) :
    (readImportance (followingNodes s)).toOption = none := by
  have htrivia : ∀ t ∈ ts, t.isTrivia = false := by
    intro t ht
    have hmem : t ∈ significantTokens s := by rw [h]; exact List.mem_cons_of_mem _ ht
    simpa using (List.mem_filter.1 hmem).2
  have htokens : Node.tokensAll (group (ts.map Token.bare)) = ts := by rw [tokensAll_group, map_token_map_bare]
  generalize hrest : group (ts.map Token.bare) = rest at htokens
  have hfilter : rest.filter (!·.isTrivia) = rest := by
    refine List.filter_eq_self.2 fun n hn => ?_
    have hhead : n.head ∈ ts := by rw [← htokens]; exact Node.head_mem_tokensAll hn
    rw [Node.isTrivia, htrivia _ hhead]
    rfl
  rw [followingNodes_of_bang h, hrest, readImportance, List.filter_cons_of_pos rfl, hfilter]
  rcases rest with _ | ⟨word, _ | ⟨other, more⟩⟩
  · rfl
  · cases hword : word.isIdent "important" with
    | false => simp [hword, Except.toOption]
    | true =>
      -- a node with this spelling is a name, which is then all that follows the mark
      unfold Node.isIdent at hword
      split at hword
      · next name source => exact absurd ⟨name, htokens.symm, hword⟩ hno
      · cases hword
  · rfl

/-! ## The declaration as a whole -/

/-- The declarations of a name, a colon, a value and what follows it, if no semicolon ends them before. -/
theorem parseDeclarations_named {n t s : String} {vs : List Value} (hn : isPlainName n = true)
    (hv : componentsOf (nodesOf t) = .ok vs) (hne : vs ≠ []) (hbang : .delimiter '!' ∉ vs)
    (hopen : openBrackets [] (tokensOf t) = []) (hts : tokensOf (t ++ s) = tokensOf t ++ tokensOf s)
    (hfirst : ∀ u, (significantTokens s).head? = some u → u = .delim '!')
    (hs : ∀ m ∈ followingNodes s, m.isToken .semicolon = false) :
    parseDeclarations (n ++ ":" ++ t ++ s) =
      ((readImportance (followingNodes s)).toOption.map fun important => ⟨lower n, .ofComponents vs, important⟩).toList := by
  have htokens : tokensOf (n ++ ":" ++ t ++ s) = .ident n :: .colon :: (tokensOf t ++ tokensOf s) := by
    have htext : (n ++ ":" ++ t ++ s).toList = n.toList ++ ':' :: (t ++ s).toList := by simp
    have hcolon : tokensIn (':' :: (t ++ s).toList) = .colon :: tokensIn (t ++ s).toList := by
      rw [tokensIn, tokenize_stop (by decide) rfl]
      rfl
    rw [← tokensIn_toList, htext, spells_ident hn _ (separated_cons (by decide) _), hcolon, tokensIn_toList, hts]
  -- any lexemes with these tokens will do, so take those of the value and what matters of the rest
  let xs := (Token.ident n).bare :: Token.colon.bare :: (tokenize t.toList ++ (significantTokens s).map Token.bare)
  have hgroup : group xs = .leaf (Token.ident n).bare :: .leaf Token.colon.bare :: (nodesOf t ++ followingNodes s) := by
    rw [group_cons_leaf rfl, group_cons_leaf rfl, group_append hopen, ← followingNodes_eq]
    rfl
  have hxs : xs.map Lexeme.token = .ident n :: .colon :: (tokensOf t ++ significantTokens s) := by
    rw [List.map_cons, List.map_cons, List.map_append, map_token_map_bare]
    rfl
  have hsame : parseDeclarations (n ++ ":" ++ t ++ s) = declarationsOf (readItems (group xs)) := by
    refine declarationsOf_congr ?_
    rw [← tokensOf, htokens, hxs, List.filter_cons_of_pos rfl, List.filter_cons_of_pos rfl, List.filter_cons_of_pos rfl,
      List.filter_cons_of_pos rfl, List.filter_append, List.filter_append, significantTokens, List.filter_filter]
    simp only [Bool.and_self]
  have hsemicolon : ∀ m ∈ nodesOf t ++ followingNodes s, m.isToken .semicolon = false := by
    intro m hm
    rcases List.mem_append.1 hm with hm | hm
    · refine isToken_eq_false_of_componentsOf hv rfl ?_ m hm
      intro v _ hc
      cases hc
    · exact hs m hm
  have hmark : ∀ m, (followingNodes s).head? = some m → m.isToken (.delim '!') = true := by
    intro m hm
    cases hsig : significantTokens s with
    | nil =>
      rw [followingNodes_eq, hsig] at hm
      cases hm
    | cons u ts =>
      obtain rfl := hfirst u (by rw [hsig]; rfl)
      rw [followingNodes_of_bang hsig] at hm
      obtain rfl := Option.some.inj hm
      rfl
  rw [hsame, hgroup, declarationsOf_readItems_named rfl rfl hsemicolon, readDeclared_append hv hne hbang hmark]
  cases readImportance (followingNodes s) <;> rfl

/-- A declaration has the value that its text has by itself, and importance is read exactly: given a plain name and the text of
a value that has components, none of them a `!` at its level, and that leaves no function open, what follows it decides. White
space and comments make a normal declaration, `!important` an important one, and whatever else starts with `!` and stays before
the next semicolon makes none. -/
theorem parseDeclarations_value_append {n t s : String} {v : Value} (hn : isPlainName n = true) (hv : Value.parse t = .ok v)
    (hne : v.components ≠ []) (hbang : .delimiter '!' ∉ v.components) (hopen : openBrackets [] (tokensOf t) = [])
    (hts : tokensOf (t ++ s) = tokensOf t ++ tokensOf s) :
    (significantTokens s = [] → parseDeclarations (n ++ ":" ++ t ++ s) = [⟨lower n, v, false⟩]) ∧
      (∀ word, significantTokens s = [.delim '!', .ident word] → eqIgnoringCase word "important" = true →
        parseDeclarations (n ++ ":" ++ t ++ s) = [⟨lower n, v, true⟩]) ∧
      ((significantTokens s).head? = some (.delim '!') →
        (∀ before after, tokensOf s = before ++ .semicolon :: after → openBrackets [] before ≠ []) →
        (¬∃ word, significantTokens s = [.delim '!', .ident word] ∧ eqIgnoringCase word "important" = true) →
        parseDeclarations (n ++ ":" ++ t ++ s) = []) := by
  rw [Value.parse_eq] at hv
  cases hvs : componentsOf (nodesOf t) with
  | error e => rw [hvs] at hv; cases hv
  | ok vs =>
    rw [hvs] at hv
    obtain rfl := Except.ok.inj hv
    rw [components_ofComponents hvs] at hne hbang
    have hnamed := parseDeclarations_named hn hvs hne hbang hopen hts
    refine ⟨?_, ?_, ?_⟩
    · intro hs
      have hnodes : followingNodes s = [] := by rw [followingNodes_eq, hs]; rfl
      rw [hnodes, hs] at hnamed
      exact hnamed (fun u hu => nomatch hu) (fun m hm => nomatch hm)
    · intro word hs hword
      have hnodes : followingNodes s = [.leaf (Token.delim '!').bare, .leaf (Token.ident word).bare] := by
        rw [followingNodes_eq, hs]
        rfl
      have himportant : readImportance (followingNodes s) = .ok true := by
        rw [hnodes]
        exact if_pos hword
      rw [himportant, hnodes, hs] at hnamed
      refine hnamed ?_ ?_
      · intro u hu
        exact (Option.some.inj hu).symm
      · intro m hm
        simp only [List.mem_cons, List.not_mem_nil, or_false] at hm
        rcases hm with rfl | rfl <;> rfl
    · intro hfirst hsemicolon hno
      obtain ⟨ts, hs⟩ := List.head?_eq_some_iff.1 hfirst
      have hrefused : (readImportance (followingNodes s)).toOption = none := by
        refine readImportance_of_bang hs ?_
        rintro ⟨word, rfl, hword⟩
        exact hno ⟨word, hs, hword⟩
      rw [hrefused] at hnamed
      refine hnamed ?_ (isToken_semicolon_of_mem_followingNodes hsemicolon)
      intro u hu
      rw [hfirst] at hu
      exact (Option.some.inj hu).symm

/-- A `!` inside of a function belongs to the value; after the value it has to be followed by the word alone. -/
theorem parseDeclarations_value_append_marked :
    let n := "Top"
    let t := " f(a !) B"
    let v := Value.list [.function "f" [.keyword "a", .delimiter '!'], .keyword "b"]
    let s := " ! /**/ IMPORTANT "
    let s' := " !important (; c: d)"
    isPlainName n = true ∧ Value.parse t = .ok v ∧ v.components ≠ [] ∧ .delimiter '!' ∉ v.components ∧
      openBrackets [] (tokensOf t) = [] ∧ tokensOf (t ++ s) = tokensOf t ++ tokensOf s ∧
      tokensOf (t ++ s') = tokensOf t ++ tokensOf s' ∧ parseDeclarations (n ++ ":" ++ t ++ s) = [⟨"top", v, true⟩] ∧
      parseDeclarations (n ++ ":" ++ t ++ s') = [] := by
  intro n t v s s'
  have hn : isPlainName n = true := by decide
  have hv : Value.parse t = .ok v := by
    let xs := [Token.function "f", .ident "a", .delim '!', .closer .round, .ident "B"].map Token.bare
    have htokens : significantTokens t = (xs.map Lexeme.token).filter (!·.isTrivia) := by decide +kernel
    have hcomponents : componentsOf (nodesOf t) = componentsOf (group xs) := componentsOf_congr htokens
    rw [Value.parse_eq, hcomponents]
    rfl
  have hne : v.components ≠ [] := by simp [v, Value.components]
  have hbang : .delimiter '!' ∉ v.components := by simp [v, Value.components]
  have hopen : openBrackets [] (tokensOf t) = [] := by decide +kernel
  have hts : tokensOf (t ++ s) = tokensOf t ++ tokensOf s := by decide +kernel
  have hts' : tokensOf (t ++ s') = tokensOf t ++ tokensOf s' := by decide +kernel
  have hs' : tokensOf s' = [.space, .delim '!', .ident "important", .space, .opener .round, .semicolon, .space, .ident "c",
      .colon, .space, .ident "d", .closer .round] := by decide +kernel
  have hlower : lower n = "top" := by decide
  refine ⟨hn, hv, hne, hbang, hopen, hts, hts', ?_, ?_⟩
  · rw [← hlower]
    exact (parseDeclarations_value_append hn hv hne hbang hopen hts).2.1 "IMPORTANT" (by decide +kernel) (by decide)
  · refine (parseDeclarations_value_append hn hv hne hbang hopen hts').2.2 (by decide +kernel) ?_ ?_
    · intro before after hsplit
      have hcheck : ∀ i < 12, (tokensOf s')[i]? = some .semicolon → openBrackets [] ((tokensOf s').take i) ≠ [] := by
        rw [hs']
        decide
      have hlength : before.length < 12 := by
        have htotal := congrArg List.length hsplit
        simp only [hs', List.length_append, List.length_cons, List.length_nil] at htotal
        omega
      have hbefore : (tokensOf s').take before.length = before := by simp [hsplit]
      have hnone := hcheck before.length hlength (by simp [hsplit])
      rwa [hbefore] at hnone
    · rintro ⟨word, hword, -⟩
      rw [significantTokens, hs'] at hword
      cases hword

end StyleCheck
