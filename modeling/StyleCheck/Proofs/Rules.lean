import Mathlib.Data.List.Infix
import Mathlib.Data.List.TakeWhile
import StyleCheck.Stylesheet
import StyleCheck.Proofs.Boundary
import StyleCheck.Proofs.Nesting

/-!
# Style sheets rule by rule

A text of the form prelude, curly block, rest is read as one rule and then the rest, and the block is read as its contents would
be alone. `IsPrelude` and `IsBody` say which texts can stand before and inside the block without swallowing its brackets. Main
statement: `parseStylesheet_rule`.
-/

namespace StyleCheck

/-- Whether tokens start with a name that starts with two hyphens, and a colon after it. -/
def startsCustom : List Token → Bool
  | .ident name :: rest => ['-', '-'].isPrefixOf name.toList && rest.find? (!·.isTrivia) == some .colon
  | _ => false

/-- Whether a rule can start with the token: it neither stands between rules nor starts an at-rule. -/
def Token.startsRule : Token → Bool
  | .cdo | .cdc | .atKeyword _ => false
  | t => !t.isTrivia

/-- A text that can stand before the block of a rule. -/
@[mk_iff]
structure IsPrelude (p : String) : Prop where
  starts : (tokensOf p).head?.all Token.startsRule = true
  notCustom : startsCustom (tokensOf p) = false
  /-- The bracket after it is a token by itself. -/
  ends : tokensOf (p ++ "\x7b") = tokensOf p ++ [.opener .curly]
  balanced : openBrackets [] (tokensOf p) = []
  /-- A curly bracket opens only inside of other brackets. -/
  noCurly : ∀ ts ∈ (tokensOf p).inits, ts ++ [.opener .curly] <+: tokensOf p → openBrackets [] ts ≠ []

/-- A text that can stand inside the block of a rule. -/
@[mk_iff]
structure IsBody (b : String) : Prop where
  /-- The bracket after it is a token by itself. -/
  ends : tokensOf (b ++ "\x7d") = tokensOf b ++ [.closer .curly]
  /-- It does not close the block around it. -/
  staysOpen : ∀ ts ∈ (tokensOf b).inits, openBrackets [.curly] ts ≠ []
  /-- It leaves no other bracket open. -/
  balanced : openBrackets [.curly] (tokensOf b) = [.curly]

instance (p : String) : Decidable (IsPrelude p) := decidable_of_iff _ (isPrelude_iff p).symm

instance (b : String) : Decidable (IsBody b) := decidable_of_iff _ (isBody_iff b).symm

/-! ## The first tokens of nodes -/

/-- The first token of some nodes is the head of the first node. -/
theorem Node.head?_tokensAll {n : Node} {nodes : List Node} (h : nodes.head? = some n) :
    (Node.tokensAll nodes).head? = some n.head := by
  obtain ⟨rest, rfl⟩ := List.head?_eq_some_iff.1 h
  cases n <;> rfl

/-- The first token that is not white space or a comment is that of the first node that is not. -/
theorem Nested.find?_tokensAll {inside : Option Bracket} {closed : Bool} {nodes : List Node}
    (h : Nested inside closed nodes) :
    (Node.tokensAll nodes).find? (!·.isTrivia) = (nodes.find? (!·.isTrivia)).map Node.head := by
  induction h with
  | nil => rfl
  | @leaf _ _ x rest _ _ _ ih =>
    rw [Node.tokensAll_leaf, List.find?_cons, List.find?_cons, ih, Node.isTrivia, Node.head]
    cases x.token.isTrivia <;> rfl
  | block opens _ _ _ _ _ =>
    rw [Node.tokensAll_block, List.find?_cons, List.find?_cons, Node.isTrivia, Node.head, isTrivia_of_opens opens]
    rfl
  | unclosed opens _ _ =>
    rw [Node.tokensAll_block, List.find?_cons, List.find?_cons, Node.isTrivia, Node.head, isTrivia_of_opens opens]
    rfl

/-- A node that is a token has it as its head. -/
theorem Node.head_of_isToken {n : Node} {t : Token} (h : n.isToken t = true) : n.head = t := by
  cases n with
  | leaf x => exact of_decide_eq_true h
  | block => cases h

/-- A node with another head is not that token. -/
theorem Node.isToken_eq_false {n : Node} {t : Token} (h : n.head ≠ t) : n.isToken t = false := by
  cases ht : n.isToken t with
  | false => rfl
  | true => exact absurd (head_of_isToken ht) h

/-- A token that starts a rule is neither a blank nor a comment. -/
theorem Token.isTrivia_of_startsRule {t : Token} (h : t.startsRule = true) : t.isTrivia = false := by
  cases t with
  | space => cases h
  | comment => cases h
  | _ => rfl

/-- A token that starts a rule differs from every token that does not. -/
theorem Token.ne_of_startsRule {t u : Token} (h : t.startsRule = true) (hu : u.startsRule = false) : t ≠ u := by
  rintro rfl
  rw [h] at hu
  cases hu

/-- A node that starts a rule does not stand between rules. -/
theorem Node.isBetweenRules_eq_false {n : Node} (h : n.head.startsRule = true) : n.isBetweenRules = false := by
  rw [isBetweenRules, isTrivia, Token.isTrivia_of_startsRule h, isToken_eq_false (Token.ne_of_startsRule h rfl),
    isToken_eq_false (Token.ne_of_startsRule h rfl)]
  rfl

/-- Nodes with a block after them look like the declaration of a custom property only if their tokens do. -/
theorem Nested.startsCustom_of_looksDeclared {closed : Bool} {nodes more : List Node} (h : Nested none closed nodes)
    {block : Node} (hb : block.isCurly = true) (hl : looksDeclared (nodes ++ block :: more) = true) :
    startsCustom (Node.tokensAll nodes) = true := by
  obtain ⟨opener, contents, closer, rfl⟩ : ∃ opener contents closer, block = .block opener contents closer := by
    cases block with
    | leaf => cases hb
    | block opener contents closer => exact ⟨opener, contents, closer, rfl⟩
  cases h with
  | nil => cases hl
  | @leaf _ _ x rest _ _ tail =>
    obtain ⟨token, source⟩ := x
    cases token with
    | ident name =>
      rw [List.cons_append, looksDeclared, Bool.and_eq_true, ← List.find?_not_eq_head?_dropWhile, List.find?_append] at hl
      obtain ⟨hname, hcolon⟩ := hl
      have htrivia : (!Node.isTrivia (.block opener contents closer)) = true := by
        rw [Node.isTrivia, Node.head, of_decide_eq_true hb]
        rfl
      rw [List.find?_cons, htrivia] at hcolon
      rw [Node.tokensAll_leaf, startsCustom, hname, tail.find?_tokensAll, Bool.true_and]
      cases hf : rest.find? (!·.isTrivia) with
      | none =>
        rw [hf] at hcolon
        cases hcolon
      | some m =>
        rw [hf] at hcolon
        rw [Option.map_some, Node.head_of_isToken hcolon]
        rfl
    | _ => cases hl
  | block => cases hl
  | unclosed => cases hl

/-- In a text without curly brackets outside of other brackets no node is a curly block. -/
theorem Nested.isCurly_eq_false {closed : Bool} {nodes : List Node} (h : Nested none closed nodes)
    (hno : ∀ ts, ts ++ [.opener .curly] <+: Node.tokensAll nodes → openBrackets [] ts ≠ []) :
    ∀ n ∈ nodes, n.isCurly = false := by
  intro n hn
  obtain ⟨before, after, rfl⟩ := List.append_of_mem hn
  have hopen := h.of_append_cons.1.openBrackets_eq_of_closed [] rfl
  cases n with
  | leaf x => rfl
  | block opener contents closer =>
    refine decide_eq_false fun hc => hno _ ?_ hopen
    rw [Node.tokensAll_append, Node.tokensAll_block, hc, List.prefix_append_right_inj]
    exact ⟨_, rfl⟩

/-! ## One rule -/

/-- Nodes that split at a block in braces are read as a rule, then the rules after it. -/
theorem readRules_cons_of_split {n : Node} {rest before contents left : List Node} (hn : n.head.startsRule = true)
    (hl : looksDeclared (n :: rest) = false) (h : splitAtCurly? (n :: rest) = some (before, contents, left)) :
    readRules (n :: rest) = ⟨sourceText before, readItems contents⟩ :: readRules left := by
  rw [readRules, if_neg (Bool.eq_false_iff.1 (Node.isBetweenRules_eq_false hn))]
  split
  · next name hname => exact absurd hname (Token.ne_of_startsRule hn rfl)
  · split
    · next hnone => rw [h] at hnone; cases hnone
    · next hsome =>
      rw [h] at hsome
      cases hsome
      rw [if_neg (Bool.eq_false_iff.1 hl)]

/-- Nodes without a curly block, then one, then more: the rule that they start with. -/
theorem readRules_append_block {nodes : List Node} {opener : Lexeme} {contents : List Node} {closer : Option Lexeme}
    (hcurly : ∀ n ∈ nodes, n.isCurly = false) (hb : Node.isCurly (.block opener contents closer) = true)
    (hstarts : ∀ n, nodes.head? = some n → n.head.startsRule = true)
    {more : List Node} (hl : looksDeclared (nodes ++ .block opener contents closer :: more) = false) :
    readRules (nodes ++ .block opener contents closer :: more) =
      ⟨sourceText nodes, readItems contents⟩ :: readRules more := by
  have hinside : ∀ n ∈ nodes, (!n.isCurly) = true := fun n hn => by rw [hcurly n hn]; rfl
  have hstop : (!Node.isCurly (.block opener contents closer)) = false := by rw [hb]; rfl
  have hdrop : (nodes ++ .block opener contents closer :: more).dropWhile (fun n => !n.isCurly) =
      .block opener contents closer :: more := by
    rw [dropWhile_append_stop (p := fun n : Node => !n.isCurly) hstop, List.dropWhile_eq_nil_iff.2 hinside, List.nil_append]
  have htake : (nodes ++ .block opener contents closer :: more).takeWhile (fun n => !n.isCurly) = nodes := by
    rw [takeWhile_append_stop (p := fun n : Node => !n.isCurly) hstop, List.takeWhile_eq_self_iff.2 hinside]
  have hsplit : splitAtCurly? (nodes ++ .block opener contents closer :: more) = some (nodes, contents, more) := by
    rw [splitAtCurly?, hdrop, htake]
  cases nodes with
  | nil =>
    refine readRules_cons_of_split ?_ hl hsplit
    rw [Node.head, of_decide_eq_true hb]
    rfl
  | cons n rest => exact readRules_cons_of_split (hstarts n rfl) hl hsplit

/-! ## Texts -/

/-- The nodes of a text have that text as their source, trimmed. -/
theorem sourceText_nodesOf (text : String) : sourceText (nodesOf text) = String.ofList (trimBlank text.toList) := by
  have hsource : (nodesOf text).flatMap Node.source = ((nodesOf text).flatMap Node.lexemes).flatMap Lexeme.source :=
    List.flatMap_assoc.symm
  rw [sourceText, hsource, nodesOf, flatMap_lexemes_group, flatMap_source_tokenize]

/-- The nodes of a rule and what follows it. -/
theorem nodesOf_rule {p b : String} (hp : IsPrelude p) (hb : IsBody b) (r : String) :
    nodesOf (p ++ "\x7b" ++ b ++ "\x7d" ++ r) =
      nodesOf p ++ .block ⟨.opener .curly, ['\x7b']⟩ (nodesOf b) (some ⟨.closer .curly, ['\x7d']⟩) :: nodesOf r := by
  have htext : (p ++ "\x7b" ++ b ++ "\x7d" ++ r).toList = p.toList ++ '\x7b' :: (b.toList ++ '\x7d' :: r.toList) := by simp
  rw [nodesOf, htext, tokenize_toList_append '\x7b' (by decide) rfl rfl hp.ends,
    tokenize_toList_append '\x7d' (by decide) rfl rfl hb.ends, group_append hp.balanced,
    group_cons_block rfl rfl (nested_group_inside (fun ts hts => hb.staysOpen ts ((List.mem_inits _ _).2 hts))
      hb.balanced)]
  rfl

/-- A style sheet is read rule by rule: a prelude and a block are one rule, whatever follows it, and its block is read as a
declaration list would be that stands alone. -/
theorem parseStylesheet_rule {p b : String} (hp : IsPrelude p) (hb : IsBody b) (r : String) :
    ∃ rule, parseStylesheet (p ++ "\x7b" ++ b ++ "\x7d" ++ r) = rule :: parseStylesheet r ∧
      rule.prelude = String.ofList (trimBlank p.toList) ∧ rule.items = parseItems b ∧
      rule.declarations = parseDeclarations b := by
  have hnested : Nested none true (nodesOf p) := nested_group_of_balanced hp.balanced
  have htokens : Node.tokensAll (nodesOf p) = tokensOf p := tokensAll_group _
  refine ⟨⟨sourceText (nodesOf p), parseItems b⟩, ?_, sourceText_nodesOf p, rfl, rfl⟩
  rw [parseStylesheet, nodesOf_rule hp hb]
  refine readRules_append_block ?_ rfl ?_ ?_
  · refine hnested.isCurly_eq_false fun ts hts => ?_
    rw [htokens] at hts
    exact hp.noCurly ts ((List.mem_inits _ _).2 ((List.prefix_append _ _).trans hts)) hts
  · intro n hn
    have hstarts := hp.starts
    rwa [← htokens, Node.head?_tokensAll hn] at hstarts
  · cases hl : looksDeclared _ with
    | false => rfl
    | true =>
      have hcustom := hnested.startsCustom_of_looksDeclared rfl hl
      rw [htokens, hp.notCustom] at hcustom
      cases hcustom

/-- A curly bracket inside of others does not end the prelude, and neither a nested rule nor a stray bracket, an at-rule or an
unfinished declaration hides the end of the block. -/
theorem parseStylesheet_rule_malformed :
    let p := "a[b\x7b\x7d] "
    let b := "c: d; ) e \x7b f: g \x7d; @m x; H: i !important; j"
    IsPrelude p ∧ IsBody b ∧
      ∃ rule, parseStylesheet (p ++ "\x7b" ++ b ++ "\x7d" ++ "k \x7b\x7d") = rule :: parseStylesheet "k \x7b\x7d" ∧
        rule.prelude = "a[b\x7b\x7d]" ∧ rule.declarations.map Declaration.name = ["c", "h"] := by
  intro p b
  have hp : IsPrelude p := by decide +kernel
  have hb : IsBody b := by decide +kernel
  have hprelude : String.ofList (trimBlank p.toList) = "a[b\x7b\x7d]" := by decide +kernel
  have hnames : (parseDeclarations b).map Declaration.name = ["c", "h"] := by decide +kernel
  obtain ⟨rule, hparse, htrim, -, hdeclarations⟩ := parseStylesheet_rule hp hb "k \x7b\x7d"
  refine ⟨hp, hb, rule, hparse, htrim.trans hprelude, ?_⟩
  rw [hdeclarations, hnames]

end StyleCheck
