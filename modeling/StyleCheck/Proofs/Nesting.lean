import StyleCheck.Node

/-!
# Brackets and nodes

Two views of the brackets of a text: the stack of open brackets along its tokens (`openBrackets`), and the nodes into which
`group` gathers them. `Nested` says what nodes look like that come from a text: a leaf opens nothing and does not close the
block it stands in, a closed block has only closed blocks in it, and only a block at the very end may be left open.

Main statements: `nested_group`, that the nodes of a text are nested, and `group_lexemesAll`, that nested nodes are the only ones
with their lexemes. So what a text is grouped into is known as soon as nested nodes with the same lexemes are.
-/

namespace StyleCheck

/-- The open brackets after one more token, the innermost first: an opening token adds its bracket, a closing token takes away
the innermost bracket if it is of the same kind, and every other token changes nothing. -/
def nest (stack : List Bracket) : Token → List Bracket
  | .opener b => b :: stack
  | .function _ => .round :: stack
  | .closer b => if stack.head? = some b then stack.tail else stack
  | _ => stack

/-- The open brackets after tokens, the innermost first. -/
def openBrackets (stack : List Bracket) (tokens : List Token) : List Bracket := tokens.foldl nest stack

/-- The tokens of nodes, in order. -/
def Node.tokensAll (nodes : List Node) : List Token := (Node.lexemesAll nodes).map Lexeme.token

/-- Nodes as they stand in a text, inside a block with the bracket `inside` or at the outermost level; `closed` tells whether
all of their blocks are closed. -/
inductive Nested : Option Bracket → Bool → List Node → Prop where
  | nil {inside : Option Bracket} : Nested inside true []
  | leaf {inside : Option Bracket} {closed : Bool} {x : Lexeme} {rest : List Node} (opens : x.token.opens? = none)
      (stays : ∀ b, inside = some b → x.token ≠ .closer b) (tail : Nested inside closed rest) :
      Nested inside closed (.leaf x :: rest)
  | block {inside : Option Bracket} {closed : Bool} {b : Bracket} {opener closer : Lexeme} {contents rest : List Node}
      (opens : opener.token.opens? = some b) (closes : closer.token = .closer b) (body : Nested (some b) true contents)
      (tail : Nested inside closed rest) : Nested inside closed (.block opener contents (some closer) :: rest)
  | unclosed {inside : Option Bracket} {closed : Bool} {b : Bracket} {opener : Lexeme} {contents : List Node}
      (opens : opener.token.opens? = some b) (body : Nested (some b) closed contents) :
      Nested inside false [.block opener contents none]

/-! ## Tokens of nodes -/

theorem Node.lexemesAll_append (ns ms : List Node) :
    Node.lexemesAll (ns ++ ms) = Node.lexemesAll ns ++ Node.lexemesAll ms := by
  simp [Node.lexemesAll_eq_flatMap]

@[simp]
theorem Node.tokensAll_nil : Node.tokensAll [] = [] := rfl

theorem Node.tokensAll_append (ns ms : List Node) :
    Node.tokensAll (ns ++ ms) = Node.tokensAll ns ++ Node.tokensAll ms := by
  rw [tokensAll, tokensAll, tokensAll, lexemesAll_append, List.map_append]

theorem Node.tokensAll_leaf (x : Lexeme) (rest : List Node) :
    Node.tokensAll (.leaf x :: rest) = x.token :: Node.tokensAll rest := rfl

/-- A block gives its opening token, its contents and its closing token, if it has one. -/
theorem Node.tokensAll_block (opener : Lexeme) (contents : List Node) (closer : Option Lexeme) (rest : List Node) :
    Node.tokensAll (.block opener contents closer :: rest) =
      opener.token :: (Node.tokensAll contents ++ closer.toList.map Lexeme.token ++ Node.tokensAll rest) := by
  simp [tokensAll, Node.lexemesAll, Node.lexemes]

/-! ## The stack of open brackets -/

/-- A token that opens a block is a bracket or a function. -/
theorem eq_of_opens {t : Token} {b : Bracket} (h : t.opens? = some b) :
    t = .opener b ∨ b = .round ∧ ∃ name, t = .function name := by
  unfold Token.opens? at h
  split at h
  · exact .inl (congrArg Token.opener (Option.some.inj h))
  · next name => exact .inr ⟨(Option.some.inj h).symm, name, rfl⟩
  · cases h

/-- An opening token adds its bracket to those that are open. -/
theorem nest_of_opens {t : Token} {b : Bracket} (h : t.opens? = some b) (stack : List Bracket) : nest stack t = b :: stack := by
  rcases eq_of_opens h with rfl | ⟨rfl, name, rfl⟩ <;> rfl

/-- The closing token of the innermost bracket closes it. -/
theorem nest_of_closes {t : Token} {b : Bracket} (h : t = .closer b) (stack : List Bracket) : nest (b :: stack) t = stack := by
  rw [h]
  exact if_pos rfl

/-- An opening token is neither a blank nor a comment. -/
theorem isTrivia_of_opens {t : Token} {b : Bracket} (h : t.opens? = some b) : t.isTrivia = false := by
  rcases eq_of_opens h with rfl | ⟨-, name, rfl⟩ <;> rfl

/-- A token that neither opens a bracket nor closes the innermost one changes nothing. -/
theorem nest_of_stays {t : Token} {stack : List Bracket} (h : t.opens? = none)
    (hs : ∀ b, stack.head? = some b → t ≠ .closer b) : nest stack t = stack := by
  cases t with
  | opener b => cases h
  | function name => cases h
  | closer b => exact if_neg fun hb => hs b hb rfl
  | _ => rfl

theorem openBrackets_cons (stack : List Bracket) (t : Token) (ts : List Token) :
    openBrackets stack (t :: ts) = openBrackets (nest stack t) ts := rfl

/-- The brackets left open by one stretch are open when the next begins. -/
theorem openBrackets_append (stack : List Bracket) (ts us : List Token) :
    openBrackets stack (ts ++ us) = openBrackets (openBrackets stack ts) us :=
  List.foldl_append

namespace Nested

/-- Nested nodes leave the brackets around them open, and add those of their unclosed blocks. -/
theorem openBrackets_tokensAll {inside : Option Bracket} {closed : Bool} {nodes : List Node}
    (h : Nested inside closed nodes) (stack : List Bracket) (hs : stack.head? = inside) :
    ∃ opened, openBrackets stack (Node.tokensAll nodes) = opened ++ stack ∧ (closed = true ↔ opened = []) := by
  induction h generalizing stack with
  | nil => exact ⟨[], rfl, by simp⟩
  | leaf opens stays _ ih =>
    rw [Node.tokensAll_leaf, openBrackets_cons, nest_of_stays opens fun b hb => stays b (hs.symm.trans hb)]
    exact ih stack hs
  | @block _ _ b opener closer contents rest opens closes _ _ ihBody ihTail =>
    obtain ⟨opened, hbody, hclosed⟩ := ihBody (b :: stack) rfl
    obtain rfl := hclosed.1 rfl
    rw [Node.tokensAll_block, openBrackets_cons, nest_of_opens opens, openBrackets_append, openBrackets_append, hbody]
    have hcloser : openBrackets (b :: stack) ((some closer).toList.map Lexeme.token) = stack := nest_of_closes closes stack
    rw [List.nil_append, hcloser]
    exact ihTail stack hs
  | @unclosed _ _ b opener contents opens _ ihBody =>
    obtain ⟨opened, hbody, -⟩ := ihBody (b :: stack) rfl
    rw [Node.tokensAll_block, openBrackets_cons, nest_of_opens opens]
    simp only [Option.toList_none, List.map_nil, List.append_nil, Node.tokensAll_nil]
    exact ⟨opened ++ [b], by rw [hbody, List.append_assoc]; rfl, by simp⟩

/-- Closed nodes leave the same brackets open. -/
theorem openBrackets_eq_of_closed {inside : Option Bracket} {nodes : List Node} (h : Nested inside true nodes)
    (stack : List Bracket) (hs : stack.head? = inside) : openBrackets stack (Node.tokensAll nodes) = stack := by
  obtain ⟨opened, ho, hclosed⟩ := h.openBrackets_tokensAll stack hs
  rw [ho, hclosed.1 rfl, List.nil_append]

/-- Nodes that leave no bracket open are closed. -/
theorem closed_of_openBrackets_eq {inside : Option Bracket} {closed : Bool} {nodes : List Node}
    (h : Nested inside closed nodes) (stack : List Bracket) (hs : stack.head? = inside)
    (ho : openBrackets stack (Node.tokensAll nodes) = stack) : closed = true := by
  obtain ⟨opened, ho', hclosed⟩ := h.openBrackets_tokensAll stack hs
  rw [ho] at ho'
  exact hclosed.2 (List.self_eq_append_left.1 ho')

/-! ## Nodes side by side -/

/-- Nested nodes after closed ones are nested. -/
theorem append {inside : Option Bracket} {closed : Bool} {ns ms : List Node} (h : Nested inside true ns)
    (h' : Nested inside closed ms) : Nested inside closed (ns ++ ms) := by
  generalize hc : true = c at h
  induction h with
  | nil => exact h'
  | leaf opens stays _ ih => exact leaf opens stays (ih h' hc)
  | block opens closes body _ _ ih => exact block opens closes body (ih h' hc)
  | unclosed => cases hc

/-- All blocks before a node are closed. -/
theorem of_append_cons {inside : Option Bracket} {closed : Bool} {n : Node} {ns ms : List Node}
    (h : Nested inside closed (ns ++ n :: ms)) : Nested inside true ns ∧ Nested inside closed (n :: ms) := by
  induction ns with
  | nil => exact ⟨nil, h⟩
  | cons m ns ih =>
    rw [List.cons_append] at h
    cases hl : ns ++ n :: ms with
    | nil => exact absurd hl (by simp)
    | cons k ks =>
      rw [hl] at h ih
      cases h with
      | leaf opens stays tail => exact ⟨leaf opens stays (ih tail).1, (ih tail).2⟩
      | block opens closes body tail => exact ⟨block opens closes body (ih tail).1, (ih tail).2⟩

/-- A block among nested nodes starts with an opening token, and its contents are nested. -/
theorem of_mem_block {inside : Option Bracket} {closed : Bool} {nodes : List Node} (h : Nested inside closed nodes)
    {opener : Lexeme} {contents : List Node} {closer : Option Lexeme} (hn : .block opener contents closer ∈ nodes) :
    ∃ b closed', opener.token.opens? = some b ∧ Nested (some b) closed' contents := by
  induction h with
  | nil => cases hn
  | leaf _ _ _ ih =>
    rcases List.mem_cons.1 hn with hn | hn
    · cases hn
    · exact ih hn
  | block opens _ body _ _ ih =>
    rcases List.mem_cons.1 hn with hn | hn
    · cases hn
      exact ⟨_, _, opens, body⟩
    · exact ih hn
  | unclosed opens body _ =>
    cases List.mem_singleton.1 hn
    exact ⟨_, _, opens, body⟩

/-- Nodes that never close a bracket around them can stand inside it. -/
theorem inside_of_openBrackets_ne_nil {closed : Bool} {nodes : List Node} {b : Bracket} (h : Nested none closed nodes)
    (hopen : ∀ ts, ts <+: Node.tokensAll nodes → openBrackets [b] ts ≠ []) : Nested (some b) closed nodes := by
  -- what comes after nodes that leave the bracket open does not close it either
  have hafter : ∀ {ns rest : List Node}, openBrackets [b] (Node.tokensAll ns) = [b] →
      (∀ ts, ts <+: Node.tokensAll (ns ++ rest) → openBrackets [b] ts ≠ []) →
      ∀ ts, ts <+: Node.tokensAll rest → openBrackets [b] ts ≠ [] := by
    intro ns rest hns hall ts hts
    rw [← hns, ← openBrackets_append]
    refine hall _ ?_
    rw [Node.tokensAll_append]
    exact (List.prefix_append_right_inj _).2 hts
  generalize hi : none = inside at h
  induction h with
  | nil => exact nil
  | @leaf _ _ x rest opens stays _ ih =>
    have hstays : ∀ c, some b = some c → x.token ≠ .closer c := by
      rintro c hc hx
      obtain rfl := Option.some.inj hc
      refine hopen [x.token] ⟨Node.tokensAll rest, rfl⟩ ?_
      rw [hx]
      exact if_pos rfl
    have hx : openBrackets [b] (Node.tokensAll [.leaf x]) = [b] :=
      (leaf opens hstays nil).openBrackets_eq_of_closed [b] rfl
    exact leaf opens hstays (ih (hafter hx hopen) hi)
  | @block _ _ c opener closer contents rest opens closes body _ _ ih =>
    have hb : openBrackets [b] (Node.tokensAll [.block opener contents (some closer)]) = [b] :=
      (block opens closes body nil).openBrackets_eq_of_closed [b] rfl
    exact block opens closes body (ih (hafter hb hopen) hi)
  | unclosed opens body => exact unclosed opens body

end Nested

/-! ## Grouping -/

/-- Open blocks and the nodes at the innermost level, as they stand in a text. -/
def Grouping.Sound : List Frame → List Node → Prop
  | [], nodes => Nested none true nodes.reverse
  | f :: frames, nodes =>
    f.opener.token.opens? = some f.bracket ∧ Nested (some f.bracket) true nodes.reverse ∧ Sound frames f.before

/-- A closed node may be added to a sound grouping. -/
theorem Grouping.Sound.cons {frames : List Frame} {nodes : List Node} {n : Node} (h : Sound frames nodes)
    (hn : Nested (frames.head?.map Frame.bracket) true [n]) : Sound frames (n :: nodes) := by
  cases frames with
  | nil =>
    rw [Sound, List.reverse_cons]
    exact h.append hn
  | cons f frames =>
    refine ⟨h.1, ?_, h.2.2⟩
    rw [List.reverse_cons]
    exact h.2.1.append hn

/-- A grouping stays sound with one more lexeme. -/
theorem Grouping.sound_push {g : Grouping} (h : Sound g.frames g.nodes) (x : Lexeme) :
    Sound (g.push x).frames (g.push x).nodes := by
  obtain ⟨frames, nodes⟩ := g
  unfold push
  split
  · next b _ hb => exact ⟨hb, Nested.nil, h⟩
  · next hx hf =>
    simp only at hf
    subst hf
    exact h.cons (.leaf hx (fun b hb => nomatch hb) .nil)
  · next f rest hx hf =>
    simp only at hf
    subst hf
    split
    · next hc =>
      obtain ⟨hopens, hbody, hbelow⟩ := h
      exact hbelow.cons (.block hopens hc hbody .nil)
    · next hc =>
      refine h.cons (.leaf hx (fun b hb => ?_) .nil)
      obtain rfl := Option.some.inj hb
      exact hc

/-- The nodes of a sound grouping are nested in the innermost open block. -/
theorem Grouping.Sound.nested {frames : List Frame} {nodes : List Node} (h : Sound frames nodes) :
    Nested (frames.head?.map Frame.bracket) true nodes.reverse ∧ Sound frames [] := by
  cases frames with
  | nil => exact ⟨h, Nested.nil⟩
  | cons f frames => exact ⟨h.2.1, h.1, Nested.nil, h.2.2⟩

/-- The end of a text leaves open blocks only at the end of their level. -/
theorem Grouping.nested_closeAll {frames : List Frame} {nodes : List Node} {closed : Bool} (h : Sound frames [])
    (hn : Nested (frames.head?.map Frame.bracket) closed nodes.reverse) :
    ∃ c, Nested none c (closeAll frames nodes).reverse := by
  induction frames generalizing nodes closed with
  | nil => exact ⟨closed, hn⟩
  | cons f frames ih =>
    obtain ⟨hbefore, hbelow⟩ := h.2.2.nested
    refine @ih _ false hbelow ?_
    rw [List.reverse_cons]
    exact hbefore.append (.unclosed h.1 hn)

/-- The nodes of a text are nested. -/
theorem nested_group (xs : List Lexeme) : ∃ closed, Nested none closed (group xs) := by
  have hsound : ∀ g : Grouping, Grouping.Sound g.frames g.nodes →
      Grouping.Sound (xs.foldl Grouping.push g).frames (xs.foldl Grouping.push g).nodes := by
    induction xs with
    | nil => exact fun g hg => hg
    | cons x xs ih => exact fun g hg => ih _ (Grouping.sound_push hg x)
  obtain ⟨hn, hbelow⟩ := (hsound .empty Nested.nil).nested
  exact Grouping.nested_closeAll hbelow hn

theorem lexemesAll_group (xs : List Lexeme) : Node.lexemesAll (group xs) = xs := by
  rw [Node.lexemesAll_eq_flatMap, flatMap_lexemes_group]

/-- Grouping loses no token. -/
theorem tokensAll_group (xs : List Lexeme) : Node.tokensAll (group xs) = xs.map Lexeme.token := by
  rw [Node.tokensAll, lexemesAll_group]

/-- The nodes of a text that leaves no bracket open are closed. -/
theorem nested_group_of_balanced {xs : List Lexeme} (h : openBrackets [] (xs.map Lexeme.token) = []) :
    Nested none true (group xs) := by
  obtain ⟨closed, hn⟩ := nested_group xs
  obtain rfl := hn.closed_of_openBrackets_eq [] rfl (by rw [tokensAll_group, h])
  exact hn

/-- What never closes a bracket around it, and leaves no other open, is closed inside that bracket. -/
theorem nested_group_inside {xs : List Lexeme} {b : Bracket}
    (hopen : ∀ ts, ts <+: xs.map Lexeme.token → openBrackets [b] ts ≠ [])
    (h : openBrackets [b] (xs.map Lexeme.token) = [b]) : Nested (some b) true (group xs) := by
  rw [← tokensAll_group] at hopen h
  obtain ⟨closed, hn⟩ := nested_group xs
  have hinside := hn.inside_of_openBrackets_ne_nil hopen
  obtain rfl := hinside.closed_of_openBrackets_eq [b] rfl h
  exact hinside

/-! ### Grouping the lexemes of nodes again -/

/-- An opening lexeme begins a block. -/
theorem Grouping.push_of_opens {x : Lexeme} {b : Bracket} (h : x.token.opens? = some b) (g : Grouping) :
    g.push x = ⟨⟨x, b, g.nodes⟩ :: g.frames, []⟩ := by
  unfold push
  rw [h]

/-- A lexeme that neither opens a block nor closes the innermost one is a leaf. -/
theorem Grouping.push_of_stays {x : Lexeme} {frames : List Frame} (h : x.token.opens? = none)
    (hs : ∀ b, frames.head?.map Frame.bracket = some b → x.token ≠ .closer b) (nodes : List Node) :
    push ⟨frames, nodes⟩ x = ⟨frames, .leaf x :: nodes⟩ := by
  unfold push
  rw [h]
  cases frames with
  | nil => rfl
  | cons f frames => exact if_neg (hs f.bracket rfl)

/-- The closing lexeme of the innermost block ends it. -/
theorem Grouping.push_of_closes {x : Lexeme} {f : Frame} (h : x.token = .closer f.bracket) (frames : List Frame)
    (nodes : List Node) :
    push ⟨f :: frames, nodes⟩ x = ⟨frames, .block f.opener nodes.reverse (some x) :: f.before⟩ := by
  have hopens : x.token.opens? = none := by rw [h]; rfl
  unfold push
  rw [hopens]
  exact if_pos h

/-- A block gives its opening lexeme, its contents and its closing lexeme, if it has one. -/
theorem Node.lexemesAll_block (opener : Lexeme) (contents : List Node) (closer : Option Lexeme) (rest : List Node) :
    Node.lexemesAll (.block opener contents closer :: rest) =
      opener :: (Node.lexemesAll contents ++ closer.toList ++ Node.lexemesAll rest) := by
  simp [Node.lexemesAll, Node.lexemes]

/-- Closed nodes are added to those before them at the innermost level. -/
theorem Nested.foldl_push {inside : Option Bracket} {nodes : List Node} (h : Nested inside true nodes)
    {frames : List Frame} (hf : frames.head?.map Frame.bracket = inside) (before : List Node) :
    (Node.lexemesAll nodes).foldl Grouping.push ⟨frames, before⟩ = ⟨frames, nodes.reverse ++ before⟩ := by
  generalize hc : true = closed at h
  induction h generalizing frames before with
  | nil => rfl
  | @leaf _ _ x rest opens stays _ ih =>
    show (Node.lexemesAll rest).foldl Grouping.push (Grouping.push ⟨frames, before⟩ x) = _
    rw [Grouping.push_of_stays opens fun b hb => stays b (hf.symm.trans hb), ih hf _ hc, List.reverse_cons,
      List.append_assoc]
    rfl
  | @block _ _ b opener closer contents rest opens closes _ _ ihBody ihTail =>
    have hbody := @ihBody (⟨opener, b, before⟩ :: frames) rfl [] rfl
    rw [Node.lexemesAll_block, List.foldl_cons, Grouping.push_of_opens opens, List.foldl_append, List.foldl_append, hbody]
    show (Node.lexemesAll rest).foldl Grouping.push (Grouping.push _ closer) = _
    rw [Grouping.push_of_closes closes, ihTail hf _ hc, List.append_nil, List.reverse_reverse, List.reverse_cons,
      List.append_assoc]
    rfl
  | unclosed => cases hc

/-- Nodes whose last block is unclosed end as they should when the text ends. -/
theorem Nested.finish_foldl_push {inside : Option Bracket} {closed : Bool} {nodes : List Node}
    (h : Nested inside closed nodes) {frames : List Frame} (hf : frames.head?.map Frame.bracket = inside)
    (before : List Node) :
    ((Node.lexemesAll nodes).foldl Grouping.push ⟨frames, before⟩).finish =
      (Grouping.closeAll frames (nodes.reverse ++ before)).reverse := by
  induction h generalizing frames before with
  | nil => rfl
  | @leaf _ _ x rest opens stays _ ih =>
    show ((Node.lexemesAll rest).foldl Grouping.push (Grouping.push ⟨frames, before⟩ x)).finish = _
    rw [Grouping.push_of_stays opens fun b hb => stays b (hf.symm.trans hb), ih hf, List.reverse_cons, List.append_assoc]
    rfl
  | @block inside _ b opener closer contents rest opens closes body _ _ ihTail =>
    have hclosed : Nested inside true [.block opener contents (some closer)] := .block opens closes body .nil
    have hblock := hclosed.foldl_push hf before
    have hsplit : Node.lexemesAll (.block opener contents (some closer) :: rest) =
        Node.lexemesAll [.block opener contents (some closer)] ++ Node.lexemesAll rest :=
      Node.lexemesAll_append [_] rest
    rw [hsplit, List.foldl_append, hblock, ihTail hf]
    simp only [List.reverse_cons, List.reverse_nil, List.nil_append, List.append_assoc]
  | @unclosed _ _ b opener contents opens _ ihBody =>
    have hbody := @ihBody (⟨opener, b, before⟩ :: frames) rfl []
    rw [Node.lexemesAll_block, List.foldl_cons, Grouping.push_of_opens opens]
    simp only [Option.toList_none, Node.lexemesAll, List.append_nil]
    rw [hbody, Grouping.closeAll, List.append_nil, List.reverse_reverse]
    rfl

/-- Nested nodes are the ones that their lexemes are grouped into. -/
theorem group_lexemesAll {closed : Bool} {nodes : List Node} (h : Nested none closed nodes) :
    group (Node.lexemesAll nodes) = nodes := by
  rw [group, Grouping.empty, h.finish_foldl_push rfl, Grouping.closeAll, List.append_nil, List.reverse_reverse]

/-- Lexemes that leave no bracket open are grouped apart from those after them. -/
theorem group_append {xs : List Lexeme} (h : openBrackets [] (xs.map Lexeme.token) = []) (ys : List Lexeme) :
    group (xs ++ ys) = group xs ++ group ys := by
  obtain ⟨closed, hys⟩ := nested_group ys
  have hnodes := group_lexemesAll ((nested_group_of_balanced h).append hys)
  rwa [Node.lexemesAll_append, lexemesAll_group, lexemesAll_group] at hnodes

/-- A lexeme that opens no block is a leaf in front of the grouped rest. -/
theorem group_cons_leaf {x : Lexeme} (h : x.token.opens? = none) (ys : List Lexeme) :
    group (x :: ys) = .leaf x :: group ys := by
  obtain ⟨closed, hys⟩ := nested_group ys
  have hnodes := group_lexemesAll (.leaf h (fun b hb => nomatch hb) hys)
  rwa [Node.lexemesAll, Node.lexemes, lexemesAll_group] at hnodes

/-- A block with what it contains, and all that follows it. -/
theorem group_cons_block {opener closer : Lexeme} {b : Bracket} {xs : List Lexeme} (ho : opener.token.opens? = some b)
    (hc : closer.token = .closer b) (h : Nested (some b) true (group xs)) (ys : List Lexeme) :
    group (opener :: (xs ++ closer :: ys)) = .block opener (group xs) (some closer) :: group ys := by
  obtain ⟨closed, hys⟩ := nested_group ys
  have hnodes := group_lexemesAll (.block ho hc h hys)
  rw [Node.lexemesAll_block, lexemesAll_group, lexemesAll_group, List.append_assoc] at hnodes
  exact hnodes

end StyleCheck
