import StyleCheck.Stylesheet
import StyleCheck.Proofs.Importance

/-!
# The form of values that are read

Whatever a text looks like, the values read from it have one form: names, keywords and units are in small letters, a number has a
unit of length as a length only, a url is never a function with a string in it, and lists stand neither in lists nor in functions.
A declaration has besides a value that is not empty and that ends before the first `!`. Properties rely on that form without
checking it. Main statement: `isNormal_of_read`.

The form is proved node by node, so it holds for every reader of values: on their own, in declaration lists and in style sheets.
-/

namespace StyleCheck

/-- Whether arguments are a string and nothing else. -/
def isLoneString : List Value → Bool
  | [.string _] => true
  | _ => false

mutual

/-- Whether a component, with all that it contains, has the form that readers give it. -/
def Value.isNormalComponent : Value → Bool
  | .keyword text => isSmall text
  | .list _ => false
  | .dimension _ unit => isSmall unit && (LengthUnit.ofSuffix? unit).isNone
  | .function name arguments =>
    isSmall name && !(name == "url" && isLoneString arguments) && Value.allNormalComponents arguments
  | _ => true

/-- Whether all components have the form that readers give them. -/
def Value.allNormalComponents : List Value → Bool
  | [] => true
  | v :: rest => v.isNormalComponent && Value.allNormalComponents rest

end

/-- Whether a value has the form that readers give it: a component alone, or a list of none or at least two of them. -/
def Value.isNormal : Value → Bool
  | .list items => items.length != 1 && Value.allNormalComponents items
  | v => v.isNormalComponent

/-- A declaration of the form that readers give it. -/
structure Declaration.Normal (d : Declaration) : Prop where
  name : isSmall d.name = true
  value : d.value.isNormal = true
  components : d.value.components ≠ []
  unmarked : .delimiter '!' ∉ d.value.components

theorem exists_of_map_eq_ok {ε α β : Type} {x : Except ε α} {f : α → β} {b : β} (h : x.map f = .ok b) :
    ∃ a, x = .ok a ∧ f a = b := by
  cases x with
  | error e => cases h
  | ok a => exact ⟨a, rfl, Except.ok.inj h⟩

/-! ## Components -/

/-- A value made of components in normal form is in normal form. -/
theorem Value.isNormal_ofComponents {vs : List Value} (h : Value.allNormalComponents vs = true) :
    (Value.ofComponents vs).isNormal = true := by
  match vs with
  | [] => rfl
  | [v] =>
    have hv : v.isNormalComponent = true := by simpa [Value.allNormalComponents] using h
    cases v with
    | list items => cases hv
    | _ => exact hv
  | v :: w :: rest => simp [Value.ofComponents, Value.isNormal, h]

/-- A function of arguments in normal form is in normal form: a `url` of one string becomes a url. -/
theorem isNormalComponent_valueOfFunction (name : String) {arguments : List Value}
    (h : Value.allNormalComponents arguments = true) : (valueOfFunction name arguments).isNormalComponent = true := by
  unfold valueOfFunction
  split
  · rfl
  · next hno =>
    simp only [Value.isNormalComponent, isSmall_lower, h, Bool.true_and, Bool.and_true, Bool.not_eq_true', Bool.and_eq_false_iff]
    by_cases hurl : lower name = "url"
    · refine .inr ?_
      have hname : eqIgnoringCase name "url" = true := eqIgnoringCase_iff.2 hurl
      unfold isLoneString
      split
      · next text => exact absurd rfl (hno text hname)
      · rfl
    · exact .inl (beq_false_of_ne hurl)

/-- The component of a token is in normal form. -/
theorem Token.isNormalComponent_component {t : Token} {v : Value} (h : t.component = .ok v) : v.isNormalComponent = true := by
  cases t with
  | ident name =>
    cases h
    exact isSmall_lower name
  | hash name =>
    simp only [Token.component, Token.literal?, valueOfToken] at h
    cases hc : Color.ofHex? name with
    | none => rw [hc] at h; cases h
    | some color => rw [hc] at h; cases h; rfl
  | dimension value unit =>
    simp only [Token.component, Token.literal?, valueOfToken] at h
    cases hu : LengthUnit.ofSuffix? unit with
    | none =>
      rw [hu] at h
      cases h
      rw [Value.isNormalComponent, isSmall_lower, LengthUnit.ofSuffix?_mapText lower_lower, hu]
      rfl
    | some u => rw [hu] at h; cases h; rfl
  | function name =>
    cases h
    exact isNormalComponent_valueOfFunction name rfl
  | _ => cases h <;> rfl

mutual

/-- The component that a node is read as is in normal form. -/
theorem Node.isNormalComponent_component (n : Node) {v : Value} (h : n.component = .ok v) : v.isNormalComponent = true := by
  match n with
  | .leaf x => exact Token.isNormalComponent_component h
  | .block ⟨t, source⟩ contents closer =>
    by_cases ht : ∃ name, t = .function name
    · obtain ⟨name, rfl⟩ := ht
      rw [Node.component] at h
      cases hcolor : (channels? contents).bind (Color.ofChannels? name) with
      | some color =>
        rw [hcolor] at h
        cases h
        rfl
      | none =>
        rw [hcolor] at h
        obtain ⟨arguments, hc, rfl⟩ := exists_of_map_eq_ok h
        exact isNormalComponent_valueOfFunction name (allNormalComponents_componentsOf contents hc)
    · rw [Node.component] at h
      · exact Token.isNormalComponent_component h
      · exact fun name _ hname => ht ⟨name, (Lexeme.mk.inj hname).1⟩

/-- The components that nodes are read as are in normal form. -/
theorem allNormalComponents_componentsOf (nodes : List Node) {vs : List Value} (h : componentsOf nodes = .ok vs) :
    Value.allNormalComponents vs = true := by
  match nodes with
  | [] =>
    cases h
    rfl
  | n :: rest =>
    rcases componentsOf_cons_eq_ok h with ⟨-, hrest⟩ | ⟨-, v, ws, hv, hrest, rfl⟩
    · exact allNormalComponents_componentsOf rest hrest
    · rw [Value.allNormalComponents, Node.isNormalComponent_component n hv, allNormalComponents_componentsOf rest hrest]
      rfl

end

/-! ## Values of declarations -/

/-- What a declaration is made of: its name in small letters, and the components before the first `!`. -/
theorem of_readDeclared_eq_ok {name : String} {nodes : List Node} {d : Declaration} (h : readDeclared name nodes = .ok d) :
    ∃ vs, componentsOf (nodes.takeWhile fun n => !n.isToken (.delim '!')) = .ok vs ∧ vs ≠ [] ∧ d.name = lower name ∧
      d.value = .ofComponents vs := by
  simp only [readDeclared, readComponents_eq, Cursor.ofNodes] at h
  cases hvs : componentsOf (nodes.takeWhile fun n => !n.isToken (.delim '!')) with
  | error e => rw [hvs] at h; cases h
  | ok vs =>
    rw [hvs] at h
    cases vs with
    | nil => cases h
    | cons v ws =>
      refine ⟨v :: ws, rfl, by simp, ?_⟩
      obtain ⟨important, -, rfl⟩ := exists_of_map_eq_ok h
      exact ⟨rfl, rfl⟩

/-- A function is never read as a delimiter. -/
theorem valueOfFunction_ne_delimiter (name : String) (arguments : List Value) (c : Char) :
    valueOfFunction name arguments ≠ .delimiter c := by
  unfold valueOfFunction
  split <;> simp

/-- A delimiter is read of its own token only. -/
theorem Token.eq_delim_of_component {t : Token} {c : Char} (h : t.component = .ok (.delimiter c)) : t = .delim c := by
  cases t with
  | delim d =>
    cases h
    rfl
  | hash name =>
    simp only [Token.component, Token.literal?, valueOfToken] at h
    cases hc : Color.ofHex? name <;> rw [hc] at h <;> cases h
  | dimension value unit =>
    simp only [Token.component, Token.literal?, valueOfToken] at h
    cases hu : LengthUnit.ofSuffix? unit <;> rw [hu] at h <;> cases h
  | function name =>
    exact absurd (Except.ok.inj h) (valueOfFunction_ne_delimiter name [] c)
  | _ => cases h

/-- Among nested nodes a delimiter is read from the token of that character only. -/
theorem Nested.isToken_of_component {inside : Option Bracket} {closed : Bool} {nodes : List Node}
    (h : Nested inside closed nodes) {n : Node} (hn : n ∈ nodes) {c : Char} (hc : n.component = .ok (.delimiter c)) :
    n.isToken (.delim c) = true := by
  cases n with
  | leaf x => exact decide_eq_true (Token.eq_delim_of_component hc)
  | block opener contents closer =>
    obtain ⟨t, source⟩ := opener
    obtain ⟨b, -, hopens, -⟩ := h.of_mem_block hn
    rcases eq_of_opens hopens with ht | ⟨-, name, ht⟩ <;> simp only at ht <;> subst ht
    · cases hc
    · rw [Node.component] at hc
      split at hc
      · cases hc
      · obtain ⟨arguments, -, hc⟩ := exists_of_map_eq_ok hc
        exact absurd hc (valueOfFunction_ne_delimiter name arguments c)

/-- A declaration read from nested nodes is in normal form. -/
theorem Nested.normal_of_readDeclared {inside : Option Bracket} {closed : Bool} {nodes : List Node}
    (h : Nested inside closed nodes) {name : String} {ns : List Node} (hns : ∀ n ∈ ns, n ∈ nodes) {d : Declaration}
    (hd : readDeclared name ns = .ok d) : d.Normal := by
  obtain ⟨vs, hvs, hne, hname, hvalue⟩ := of_readDeclared_eq_ok hd
  have hcomponents := components_ofComponents hvs
  refine ⟨?_, ?_, ?_, ?_⟩
  · rw [hname, isSmall_lower]
  · rw [hvalue]
    exact Value.isNormal_ofComponents (allNormalComponents_componentsOf _ hvs)
  · rwa [hvalue, hcomponents]
  · rw [hvalue, hcomponents]
    intro hmem
    obtain ⟨n, hn, hc⟩ := exists_node_of_mem hvs hmem
    have htoken := h.isToken_of_component (hns n ((List.takeWhile_sublist _).subset hn)) hc
    have hinside := List.mem_takeWhile_imp hn
    rw [htoken] at hinside
    cases hinside

/-! ## Declaration lists and style sheets -/

/-- A declaration is read of nodes that stand after its name. -/
theorem of_readDeclaration_eq_ok {name : String} {nodes : List Node} {d : Declaration}
    (h : readDeclaration name nodes = .ok d) : ∃ ns, (∀ n ∈ ns, n ∈ nodes) ∧ readDeclared name ns = .ok d := by
  unfold readDeclaration at h
  split at h
  · cases h
  · next n rest hrest =>
    split at h
    · refine ⟨rest, fun m hm => ?_, h⟩
      have hmem : m ∈ nodes.dropWhile Node.isTrivia := by rw [hrest]; exact List.mem_cons_of_mem _ hm
      exact (List.dropWhile_sublist _).subset hmem
    · cases h

/-- A statement is read of the nodes before the first semicolon. -/
theorem of_readStatement_eq_ok {read : List Node → Except SkipReason Declaration} {n : Node} {rest : List Node} {d : Declaration}
    (h : (readStatement read n rest).1 = .ok d) : read (rest.takeWhile fun n => !n.isToken .semicolon) = .ok d := by
  simp only [readStatement] at h
  cases hd : read (rest.takeWhile fun n => !n.isToken .semicolon) with
  | error e => rw [hd] at h; cases h
  | ok d' =>
    rw [hd] at h
    cases h
    rfl

/-- An item that is a declaration was read from a name and nodes after it. -/
theorem of_readItem_eq_ok {n : Node} {rest : List Node} {d : Declaration} (h : (readItem n rest).1 = .ok d) :
    ∃ name ns, (∀ m ∈ ns, m ∈ rest) ∧ readDeclared name ns = .ok d := by
  unfold readItem at h
  split at h
  · next name source =>
    obtain ⟨ns, hns, hd⟩ := of_readDeclaration_eq_ok (of_readStatement_eq_ok h)
    exact ⟨name, ns, fun m hm => (List.takeWhile_sublist _).subset (hns m hm), hd⟩
  · cases h
  · cases of_readStatement_eq_ok h

/-- Every declaration of a list was read from some of its nodes. -/
theorem exists_readDeclared_of_mem {nodes : List Node} {d : Declaration} (h : d ∈ declarationsOf (readItems nodes)) :
    ∃ name ns, (∀ n ∈ ns, n ∈ nodes) ∧ readDeclared name ns = .ok d := by
  induction nodes using readItems.induct with
  | case1 =>
    rw [readItems] at h
    cases h
  | case2 n rest hn ih =>
    rw [readItems, if_pos hn] at h
    obtain ⟨name, ns, hns, hd⟩ := ih h
    exact ⟨name, ns, fun m hm => List.mem_cons_of_mem _ (hns m hm), hd⟩
  | case3 n rest hn ih =>
    rw [readItems, if_neg hn, declarationsOf, List.filterMap_cons] at h
    have hrest : d ∈ declarationsOf (readItems (readItem n rest).2) →
        ∃ name ns, (∀ m ∈ ns, m ∈ n :: rest) ∧ readDeclared name ns = .ok d := by
      intro hmem
      obtain ⟨name, ns, hns, hd⟩ := ih hmem
      exact ⟨name, ns, fun m hm => List.mem_cons_of_mem _ ((readItem_suffix n rest).subset (hns m hm)), hd⟩
    cases hi : (readItem n rest).1 with
    | error s =>
      rw [hi] at h
      exact hrest h
    | ok e =>
      rw [hi] at h
      rcases List.mem_cons.1 h with rfl | h
      · obtain ⟨name, ns, hns, hd⟩ := of_readItem_eq_ok hi
        exact ⟨name, ns, fun m hm => List.mem_cons_of_mem _ (hns m hm), hd⟩
      · exact hrest h

/-- The declarations of nested nodes are in normal form. -/
theorem Nested.normal_of_mem {inside : Option Bracket} {closed : Bool} {nodes : List Node} (h : Nested inside closed nodes)
    {d : Declaration} (hd : d ∈ declarationsOf (readItems nodes)) : d.Normal := by
  obtain ⟨name, ns, hns, hread⟩ := exists_readDeclared_of_mem hd
  exact h.normal_of_readDeclared hns hread

/-- The declarations of a text are in normal form. -/
theorem normal_of_mem_parseDeclarations {text : String} {d : Declaration} (hd : d ∈ parseDeclarations text) : d.Normal := by
  obtain ⟨closed, hnested⟩ := nested_group (tokenize text.toList)
  exact hnested.normal_of_mem hd

/-- The parts at a block in braces stand among the nodes that were split. -/
theorem of_splitAtCurly?_eq_some {nodes before contents left : List Node}
    (h : splitAtCurly? nodes = some (before, contents, left)) :
    (∃ opener closer, .block opener contents closer ∈ nodes) ∧ ∀ n ∈ left, n ∈ nodes := by
  unfold splitAtCurly? at h
  split at h
  · next opener inner closer rest he =>
    obtain ⟨-, h⟩ := Prod.mk.inj (Option.some.inj h)
    obtain ⟨rfl, rfl⟩ := Prod.mk.inj h
    have hsub : ∀ n ∈ Node.block opener inner closer :: rest, n ∈ nodes := by
      rw [← he]
      exact (List.dropWhile_sublist _).subset
    exact ⟨⟨opener, closer, hsub _ List.mem_cons_self⟩, fun n hn => hsub n (List.mem_cons_of_mem _ hn)⟩
  · cases h

/-- The items of a rule are those of one of the blocks. -/
theorem exists_block_of_mem_readRules {nodes : List Node} {rule : Rule} (h : rule ∈ readRules nodes) :
    ∃ opener contents closer, .block opener contents closer ∈ nodes ∧ rule.items = readItems contents := by
  fun_induction readRules nodes with
  | case1 => cases h
  | case2 n rest _ ih =>
    obtain ⟨opener, contents, closer, hblock, hitems⟩ := ih h
    exact ⟨opener, contents, closer, List.mem_cons_of_mem _ hblock, hitems⟩
  | case3 n rest _ _ _ ih =>
    obtain ⟨opener, contents, closer, hblock, hitems⟩ := ih h
    exact ⟨opener, contents, closer, List.mem_cons_of_mem _ ((afterAtRule_suffix rest).subset hblock), hitems⟩
  | case4 => cases h
  | case5 n rest _ before inner left hsplit _ _ _ ih =>
    obtain ⟨opener, contents, closer, hblock, hitems⟩ := ih h
    exact ⟨opener, contents, closer, (of_splitAtCurly?_eq_some hsplit).2 _ hblock, hitems⟩
  | case6 n rest _ before inner left hsplit _ _ _ ih =>
    rcases List.mem_cons.1 h with rfl | h
    · obtain ⟨⟨opener, closer, hblock⟩, -⟩ := of_splitAtCurly?_eq_some hsplit
      exact ⟨opener, inner, closer, hblock, rfl⟩
    · obtain ⟨opener, contents, closer, hblock, hitems⟩ := ih h
      exact ⟨opener, contents, closer, (of_splitAtCurly?_eq_some hsplit).2 _ hblock, hitems⟩

/-- Whatever is read from a text is in normal form: a value, the declarations of a list, and those of the rules of a style
sheet. -/
theorem isNormal_of_read (text : String) :
    (∀ v, Value.parse text = .ok v → v.isNormal = true) ∧
      (∀ d ∈ parseDeclarations text, d.Normal) ∧
      ∀ rule ∈ parseStylesheet text, ∀ d ∈ rule.declarations, d.Normal := by
  refine ⟨?_, ?_, ?_⟩
  · intro v hv
    rw [Value.parse_eq] at hv
    obtain ⟨vs, hvs, rfl⟩ := exists_of_map_eq_ok hv
    exact Value.isNormal_ofComponents (allNormalComponents_componentsOf _ hvs)
  · intro d hd
    exact normal_of_mem_parseDeclarations hd
  · intro rule hrule d hd
    obtain ⟨closed, hnested⟩ := nested_group (tokenize text.toList)
    obtain ⟨opener, contents, closer, hblock, hitems⟩ := exists_block_of_mem_readRules hrule
    obtain ⟨b, closed', -, hcontents⟩ := hnested.of_mem_block hblock
    rw [Rule.declarations, hitems] at hd
    exact hcontents.normal_of_mem hd

/-- Capital letters, a url in quotes and an unknown unit, in a value on its own, in a declaration list and in a style sheet. -/
theorem isNormal_of_read_capitals :
    let value := "URL('x') F(2KHZ, url('y' Z))"
    let text := "A: " ++ value ++ " !Important; B: c"
    (∃ v, Value.parse value = .ok v ∧ v.isNormal = true) ∧
      (∃ d ∈ parseDeclarations text, d.name = "a" ∧ d.Normal) ∧
      ∃ rule ∈ parseStylesheet ("P \x7b" ++ text ++ "\x7d"), ∃ d ∈ rule.declarations, d.name = "b" ∧ d.Normal := by
  intro value text
  have hvalue : (Value.parse value).isOk = true := by decide +kernel
  have hlist : "a" ∈ (parseDeclarations text).map Declaration.name := by decide +kernel
  have hsheet : ["a", "b"] ∈ (parseStylesheet ("P \x7b" ++ text ++ "\x7d")).map (·.declarations.map Declaration.name) := by
    decide +kernel
  refine ⟨?_, ?_, ?_⟩
  · cases hv : Value.parse value with
    | error e => rw [hv] at hvalue; cases hvalue
    | ok v => exact ⟨v, rfl, (isNormal_of_read value).1 v hv⟩
  · obtain ⟨d, hd, hname⟩ := List.mem_map.1 hlist
    exact ⟨d, hd, hname, (isNormal_of_read text).2.1 d hd⟩
  · obtain ⟨rule, hrule, hnames⟩ := List.mem_map.1 hsheet
    have hb : "b" ∈ rule.declarations.map Declaration.name := by rw [hnames]; decide
    obtain ⟨d, hd, hname⟩ := List.mem_map.1 hb
    exact ⟨rule, hrule, d, hd, hname, (isNormal_of_read _).2.2 rule hrule d hd⟩

end StyleCheck
