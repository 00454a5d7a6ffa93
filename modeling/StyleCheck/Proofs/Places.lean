import StyleCheck.Cursor
import StyleCheck.Proofs.Nesting

/-!
# Places in a text

A reader is given the nodes of a text, those inside one of its blocks, or a stretch of such nodes, for it may stop before the
end of its level and goes on after what it has read. All of these nodes are nested (`InText.nested`). So the end of the block that
opens at a place can be found among the tokens that follow, by the brackets alone: `untilClosed` stops where they are closed, and
that is at the end of the node (`Nested.untilClosed_block`).
-/

namespace StyleCheck

/-- The nodes that a reader can have before it in a text. -/
inductive InText (text : String) : List Node → Prop where
  | whole : InText text (nodesOf text)
  | contents {nodes contents : List Node} {opener : Lexeme} {closer : Option Lexeme} (outer : InText text nodes)
      (block : .block opener contents closer ∈ nodes) : InText text contents
  | stretch {nodes part : List Node} (outer : InText text nodes) (within : part <:+: nodes) : InText text part

/-- The tokens not yet read, those of an open block included. -/
def Cursor.tokens (c : Cursor) : List Token := c.lexemes.map Lexeme.token

/-- The tokens before the one that closes all of the open brackets, and the tokens from that one on; without it, the first of
them are all. -/
def untilClosed (stack : List Bracket) : List Token → List Token × List Token
  | [] => ([], [])
  | t :: rest =>
    if nest stack t = [] then ([], t :: rest)
    else
      let further := untilClosed (nest stack t) rest
      (t :: further.1, further.2)

/-! ## Nested nodes at every level -/

/-- Any stretch of nested nodes is nested. -/
theorem Nested.of_stretch {inside : Option Bracket} {closed : Bool} {nodes part : List Node} (h : Nested inside closed nodes)
    (hp : part <:+: nodes) : ∃ closed', Nested inside closed' part := by
  obtain ⟨before, after, rfl⟩ := hp
  rw [List.append_assoc] at h
  cases part with
  | nil => exact ⟨true, .nil⟩
  | cons n part =>
    have hpart : Nested inside closed (n :: part ++ after) := (Nested.of_append_cons h).2
    cases after with
    | nil => exact ⟨closed, by rwa [List.append_nil] at hpart⟩
    | cons m after => exact ⟨true, hpart.of_append_cons.1⟩

/-- What stands inside a block stands anywhere. -/
theorem Nested.outside {inside : Option Bracket} {closed : Bool} {nodes : List Node} (h : Nested inside closed nodes) :
    Nested none closed nodes := by
  induction h with
  | nil => exact .nil
  | leaf opens _ _ ih => exact .leaf opens (fun b hb => nomatch hb) ih
  | block opens closes body _ _ ih => exact .block opens closes body ih
  | unclosed opens body _ => exact .unclosed opens body

/-- Nodes that stand in a text are nested. -/
theorem InText.nested {text : String} {nodes : List Node} (h : InText text nodes) :
    ∃ inside closed, Nested inside closed nodes := by
  induction h with
  | whole =>
    obtain ⟨closed, hn⟩ := nested_group (tokenize text.toList)
    exact ⟨none, closed, hn⟩
  | contents _ block ih =>
    obtain ⟨inside, closed, hn⟩ := ih
    obtain ⟨b, closed', -, hc⟩ := hn.of_mem_block block
    exact ⟨some b, closed', hc⟩
  | stretch _ within ih =>
    obtain ⟨inside, closed, hn⟩ := ih
    obtain ⟨closed', hp⟩ := hn.of_stretch within
    exact ⟨inside, closed', hp⟩

/-! ## The end of a block -/

/-- A token that leaves a bracket open belongs to the stretch before the close. -/
theorem untilClosed_cons_of_ne_nil {stack : List Bracket} {t : Token} (h : nest stack t ≠ []) (ts : List Token) :
    untilClosed stack (t :: ts) = (t :: (untilClosed (nest stack t) ts).1, (untilClosed (nest stack t) ts).2) := by
  rw [untilClosed, if_neg h]

/-- Closed nodes are passed over. -/
theorem Nested.untilClosed_append {inside : Option Bracket} {nodes : List Node} (h : Nested inside true nodes)
    {stack : List Bracket} (hs : stack.head? = inside) (hne : stack ≠ []) (ts : List Token) :
    untilClosed stack (Node.tokensAll nodes ++ ts) =
      (Node.tokensAll nodes ++ (untilClosed stack ts).1, (untilClosed stack ts).2) := by
  generalize hc : true = closed at h
  induction h generalizing stack ts with
  | nil => rfl
  | @leaf _ _ x rest opens stays _ ih =>
    have hnest : nest stack x.token = stack := nest_of_stays opens fun b hb => stays b (hs.symm.trans hb)
    rw [Node.tokensAll_leaf, List.cons_append, untilClosed_cons_of_ne_nil (by rwa [hnest]), hnest, ih hs hne ts hc]
    rfl
  | @block _ _ b opener closer contents rest opens closes _ _ ihBody ihTail =>
    have hopen : nest stack opener.token = b :: stack := nest_of_opens opens stack
    have hclose : nest (b :: stack) closer.token = stack := nest_of_closes closes stack
    have hcloser : untilClosed (b :: stack) (closer.token :: (Node.tokensAll rest ++ ts)) =
        (closer.token :: (Node.tokensAll rest ++ (untilClosed stack ts).1), (untilClosed stack ts).2) := by
      rw [untilClosed_cons_of_ne_nil (by rwa [hclose]), hclose, ihTail hs hne ts hc]
    have hbody := @ihBody (b :: stack) rfl (by simp) (closer.token :: (Node.tokensAll rest ++ ts)) rfl
    rw [Node.tokensAll_block, List.cons_append, untilClosed_cons_of_ne_nil (by simp [hopen]), hopen, List.append_assoc,
      List.append_assoc]
    simp only [Option.toList_some, List.map_cons, List.map_nil, List.cons_append, List.nil_append]
    rw [hbody, hcloser]
    simp
  | unclosed => cases hc

/-- The end of the text is met in nodes that the open brackets never close in. -/
theorem Nested.untilClosed_end {inside : Option Bracket} {closed : Bool} {nodes : List Node} (h : Nested inside closed nodes)
    {stack : List Bracket} (hs : stack.head? = inside) (hne : stack ≠ []) :
    untilClosed stack (Node.tokensAll nodes) = (Node.tokensAll nodes, []) := by
  induction h generalizing stack with
  | nil => rfl
  | @leaf _ _ x rest opens stays _ ih =>
    have hnest : nest stack x.token = stack := nest_of_stays opens fun b hb => stays b (hs.symm.trans hb)
    rw [Node.tokensAll_leaf, untilClosed_cons_of_ne_nil (by rwa [hnest]), hnest, ih hs hne]
  | @block inside _ b opener closer contents rest opens closes body _ _ ihTail =>
    have hblock : Nested inside true [.block opener contents (some closer)] := .block opens closes body .nil
    have hsplit : Node.tokensAll (.block opener contents (some closer) :: rest) =
        Node.tokensAll [.block opener contents (some closer)] ++ Node.tokensAll rest := Node.tokensAll_append [_] rest
    rw [hsplit, hblock.untilClosed_append hs hne, ihTail hs hne]
  | @unclosed _ _ b opener contents opens _ ihBody =>
    have hopen : nest stack opener.token = b :: stack := nest_of_opens opens stack
    have hbody := @ihBody (b :: stack) rfl (by simp)
    rw [Node.tokensAll_block, untilClosed_cons_of_ne_nil (by simp [hopen]), hopen]
    simp only [Option.toList_none, List.map_nil, List.append_nil, Node.tokensAll_nil]
    rw [hbody]

/-- A block among nested nodes ends where its bracket is closed, or at the end of the text. -/
theorem Nested.untilClosed_block {inside : Option Bracket} {closed : Bool} {opener : Lexeme} {contents rest : List Node}
    {closer : Option Lexeme} (h : Nested inside closed (.block opener contents closer :: rest)) :
    ∃ b closed', opener.token.opens? = some b ∧ Nested (some b) closed' contents ∧
      untilClosed [b] (Node.tokensAll contents ++ closer.toList.map Lexeme.token ++ Node.tokensAll rest) =
        (Node.tokensAll contents, closer.toList.map Lexeme.token ++ Node.tokensAll rest) ∧
      ((∃ x, closer = some x ∧ x.token = .closer b) ∨ closer = none ∧ rest = []) := by
  cases h with
  | @block _ _ b _ x _ _ opens closes body _ =>
    have hclose : nest [b] x.token = [] := nest_of_closes closes []
    refine ⟨b, true, opens, body, ?_, .inl ⟨x, rfl, closes⟩⟩
    rw [List.append_assoc, body.untilClosed_append rfl (by simp)]
    simp only [Option.toList_some, List.map_cons, List.map_nil, List.cons_append, List.nil_append]
    rw [untilClosed, if_pos hclose, List.append_nil]
  | @unclosed _ closed' b _ _ opens body =>
    refine ⟨b, closed', opens, body, ?_, .inr ⟨rfl, rfl⟩⟩
    simp only [Option.toList_none, List.map_nil, List.append_nil, Node.tokensAll_nil]
    exact body.untilClosed_end rfl (by simp)

end StyleCheck
