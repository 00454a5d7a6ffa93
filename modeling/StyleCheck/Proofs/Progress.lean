import StyleCheck.Proofs.Dispatch
import StyleCheck.Proofs.Reading

/-!
# Components are read one after the other

Wherever a component is read, the reader comes further: past white space and comments, and past the one token that the component
is, or past the bracket that closes it if the component is a function. It never passes a token that it is to stop before, and no
block is left open behind it (`Reading.Reachable.advances`). So the components of a level are read in no more rounds than there are
bytes in it, and the reader is at the end when the last one was read: that a block is read to its end need not be checked after
its contents were read. Main statement: `readComponent_progress`.
-/

namespace StyleCheck

/-- What is left after the component that starts after white space and comments: after its token or, if the token opens a block,
after the block. -/
def afterComponent (tokens : List Token) : List Token :=
  match tokens.dropWhile Token.isTrivia with
  | [] => []
  | t :: rest => afterBlock t.opens? rest

/-- How a reader has come further by one component. -/
structure Advances (text : String) (s s' : Reading) : Prop where
  /-- It stands at a later byte. -/
  later : s.position text < s'.position text
  /-- It stands where a token ends: what is left is what the tokens of the text end with. -/
  boundary : ∃ read, tokenize text.toList = read ++ s'.left ∧ s'.position text = bytesOf read
  /-- No block is left open. -/
  settled : s'.pending = none ∧ s'.cursor.opened = none
  /-- It stands right after the component. -/
  exactly : s'.tokens = afterComponent (afterBlock s.pending s.tokens)
  /-- It has not passed the first token that it is to stop before. -/
  within : fromStop s.stop s.pending.toList s.tokens <:+ s'.tokens
  /-- It can go on from there. -/
  reachable : s'.Reachable text

/-- The run of a loop that reads components: those read, the place where it ended, and why the next one was refused if that is
what ended it. -/
structure Run where
  components : List Value
  place : Cursor
  refusal? : Option ValueError

namespace Run

/-- The run that has read one more component before. -/
def after (r : Run) (v : Value) : Run := { r with components := v :: r.components }

/-- The number of components that were tried. -/
def rounds (r : Run) : Nat := r.components.length + r.refusal?.toList.length

/-- What comes of the run: all components, or the reason for which one was refused. -/
def result (r : Run) : Except ValueError (List Value) := r.refusal?.elim (.ok r.components) .error

theorem rounds_after (r : Run) (v : Value) : (r.after v).rounds = r.rounds + 1 := by
  simp only [rounds, after, List.length_cons]
  omega

theorem result_after (r : Run) (v : Value) : (r.after v).result = r.result.map (v :: ·) := by
  rw [result, result, after]
  cases r.refusal? <;> rfl

end Run

/-- Reads components until the end is reached or one is refused. -/
def runComponents (c : Cursor) : Run :=
  if c.atEnd then ⟨[], c, none⟩
  else
    match readComponent c with
    | .error e => ⟨[], c, some e⟩
    | .ok (v, ⟨d, _⟩) => (runComponents d).after v
termination_by c.size

/-- How reading a block fails: what it contains is refused, or something of it is left over. -/
inductive BlockError where
  | leftOver
  | refused (cause : ValueError)
  deriving DecidableEq

/-- The reason that is given for a block that cannot be read. -/
def BlockError.cause : BlockError → ValueError
  | .leftOver => .unexpectedToken
  | .refused cause => cause

/-- Reads the contents of a block, and then checks that nothing of it is left over. -/
def readBlock (contents : List Node) : Except BlockError (List Value) :=
  let run := runComponents (.ofNodes contents)
  match run.result with
  | .error cause => .error (.refused cause)
  | .ok components => if run.place.atEnd then .ok components else .error .leftOver

/-! ## One component -/

/-- A bracket by itself is no component. -/
theorem Token.component_of_opener (b : Bracket) : (Token.opener b).component = .error .unexpectedToken := by
  cases b <;> rfl

/-- Neither a blank nor a comment opens a block. -/
theorem Token.opens?_of_isTrivia {t : Token} (h : t.isTrivia = true) : t.opens? = none := by
  cases hopens : t.opens? with
  | none => rfl
  | some b =>
    rw [isTrivia_of_opens hopens] at h
    cases h

/-- All that reading a component can do: leave the block of a function, or take one token that is a component. -/
theorem readOne_eq_ok_cases {c d : Cursor} {v : Value} (h : readOne c = .ok (v, d)) :
    ∃ t e, c.skipTrivia.next = (some t, e) ∧
      ((∃ name, t = .function name) ∧ d = e.leave ∨ (∀ name, t ≠ .function name) ∧ t.component = .ok v ∧ d = e) := by
  rcases hn : c.skipTrivia.next with ⟨_ | t, e⟩
  · rw [readOne_of_end (by rw [hn])] at h
    cases h
  refine ⟨t, e, rfl, ?_⟩
  by_cases hf : ∃ name, t = .function name
  · refine .inl ⟨hf, ?_⟩
    obtain ⟨name, rfl⟩ := hf
    rw [readOne_function hn] at h
    split at h
    · exact (Prod.mk.inj (Except.ok.inj h)).2.symm
    · cases hr : readComponents (.ofNodes e.contents) with
      | error cause => rw [hr] at h; cases h
      | ok arguments =>
        rw [hr] at h
        exact (Prod.mk.inj (Except.ok.inj h)).2.symm
  · have hne : ∀ name, t ≠ .function name := fun name hname => hf ⟨name, hname⟩
    refine .inr ⟨hne, ?_⟩
    rw [readOne_of_next hn hne] at h
    cases hv : t.component with
    | error cause => rw [hv] at h; cases h
    | ok w =>
      rw [hv] at h
      obtain ⟨rfl, rfl⟩ := Prod.mk.inj (Except.ok.inj h)
      exact ⟨rfl, rfl⟩

/-- A component is the first node that is no white space and no comment, and the reader comes to the place after it. -/
theorem LevelBefore.exists_node_of_readOne {c d : Cursor} {after : List Lexeme} {v : Value} (hl : LevelBefore c.rest after)
    (h : readOne c = .ok (v, d)) : ∃ n rest, c.rest.dropWhile Node.isTrivia = n :: rest ∧ d = ⟨none, rest⟩ := by
  obtain ⟨t, e, hn, hcases⟩ := readOne_eq_ok_cases h
  obtain ⟨n, rest, hrest, rfl, rfl⟩ := Cursor.exists_of_next hn
  have hdrop : c.rest.dropWhile Node.isTrivia = n :: rest := hrest
  refine ⟨n, rest, hdrop, ?_⟩
  rcases hcases with ⟨-, rfl⟩ | ⟨hne, hv, rfl⟩
  · rfl
  · have hblock := (hl.of_suffix (hdrop ▸ List.dropWhile_suffix _)).openBlock
    cases hopens : n.head.opens? with
    | none => rw [hblock.opened_eq_none hopens]
    | some b =>
      -- a token other than a function that opens a block is no component
      rcases eq_of_opens hopens with ht | ⟨-, name, ht⟩
      · rw [ht, Token.component_of_opener] at hv
        cases hv
      · exact absurd ht (hne name)

/-- White space and comments at the start of a level are those at the start of its tokens. -/
theorem LevelBefore.dropWhile_tokens {nodes rest : List Node} {n : Node} {after : List Lexeme} (h : LevelBefore nodes after)
    (hd : nodes.dropWhile Node.isTrivia = n :: rest) :
    ((Node.lexemesAll nodes ++ after).map Lexeme.token).dropWhile Token.isTrivia =
      (Node.lexemesAll (n :: rest) ++ after).map Lexeme.token := by
  induction nodes with
  | nil => cases hd
  | cons m nodes ih =>
    by_cases hm : m.isTrivia = true
    · rw [List.dropWhile_cons_of_pos hm] at hd
      have htoken : m.head.isTrivia = true := hm
      have hopened := h.openBlock.opened_eq_none (Token.opens?_of_isTrivia htoken)
      rw [Node.map_token_cons, hopened, List.dropWhile_cons_of_pos htoken]
      exact ih h.tail hd
    · rw [List.dropWhile_cons_of_neg hm] at hd
      rw [hd, Node.map_token_cons]
      obtain ⟨rfl, rfl⟩ := List.cons.inj hd
      exact List.dropWhile_cons_of_neg hm

/-- After the first node of a level come the tokens after its component. -/
theorem LevelBefore.afterComponent_eq {nodes rest : List Node} {n : Node} {after : List Lexeme} (h : LevelBefore nodes after)
    (hd : nodes.dropWhile Node.isTrivia = n :: rest) :
    afterComponent ((Node.lexemesAll nodes ++ after).map Lexeme.token) = (Node.lexemesAll rest ++ after).map Lexeme.token := by
  have hlevel : LevelBefore (n :: rest) after := h.of_suffix (hd ▸ List.dropWhile_suffix _)
  rw [afterComponent, h.dropWhile_tokens hd, Node.map_token_cons]
  exact hlevel.openBlock.afterBlock_eq

namespace Reading

/-- A component takes bytes from what is left of the level. -/
theorem Sound.bytesLeft_lt {text : String} {s : Reading} (h : s.Sound text) {n : Node} {rest : List Node}
    (hd : s.cursor.rest.dropWhile Node.isTrivia = n :: rest) :
    (Cursor.mk none rest).bytesLeft < s.cursor.bytesLeft := by
  obtain ⟨x, -, hlexemes⟩ := n.exists_lexemes_eq_cons
  obtain ⟨before, hbefore⟩ := List.dropWhile_suffix (l := s.cursor.rest) Node.isTrivia
  generalize hpassed : openLexemes s.cursor.opened ++ (Node.lexemesAll before ++ n.lexemes) = passed
  have hcursor : s.cursor.lexemes = passed ++ Node.lexemesAll rest := by
    rw [Cursor.lexemes_eq, ← hbefore, hd, Node.lexemesAll_append, ← hpassed, Node.lexemesAll]
    simp
  have hsuffix := h.suffix
  rw [left, hcursor, List.append_assoc] at hsuffix
  have hlt := bytesOf_lt_of_suffix hsuffix (by simp [← hpassed, hlexemes])
  have hleft : s.cursor.bytesLeft = bytesOf (passed ++ Node.lexemesAll rest) := congrArg bytesOf hcursor
  have hrest : (Cursor.mk none rest).bytesLeft = bytesOf (Node.lexemesAll rest) := rfl
  rw [← List.append_assoc, bytesOf_append, bytesOf_append (passed ++ _)] at hlt
  omega

/-- The reader comes further by the node that a component can be. -/
theorem Reachable.advances {text : String} {s : Reading} (hs : s.Reachable text) {n : Node} {rest : List Node}
    (hd : s.cursor.rest.dropWhile Node.isTrivia = n :: rest) : Advances text s (s.moved ⟨none, rest⟩) := by
  have hsound := hs.sound
  have hnext : (s.moved s.cursor.skipTrivia).cursor.next = (some n.head, ⟨n.inside?, rest⟩) :=
    Cursor.next_of_rest hd
  have hs' : (s.moved ⟨none, rest⟩).Reachable text := (hs.skip.next hnext).leave
  obtain ⟨read, hread, hposition⟩ := hsound.exists_read
  obtain ⟨read', hread', hposition'⟩ := hs'.sound.exists_read
  refine ⟨?_, ⟨read', hread', hposition'⟩, ⟨rfl, rfl⟩, ?_, ?_, hs'⟩
  · have hlt := hsound.bytesLeft_lt hd
    have hbytes : bytesOf read + bytesOf s.left = bytesOf read' + bytesOf (s.moved ⟨none, rest⟩).left := by
      rw [← bytesOf_append, ← bytesOf_append, ← hread, ← hread']
    have hleft : bytesOf s.left = s.cursor.bytesLeft + bytesOf s.beyond := bytesOf_append _ _
    have hleft' : bytesOf (s.moved ⟨none, rest⟩).left = (Cursor.mk none rest).bytesLeft + bytesOf s.beyond :=
      bytesOf_append _ _
    omega
  · rw [hsound.afterBlock_tokens, hsound.level.afterComponent_eq hd]
    rfl
  · rw [hsound.fromStop_tokens, tokens, left, List.map_append]
    exact List.suffix_append _ _

/-- Whatever component is read, the reader comes further. -/
theorem Reachable.advances_of_readOne {text : String} {s : Reading} (hs : s.Reachable text) {v : Value} {d : Cursor}
    (h : readOne s.cursor = .ok (v, d)) : Advances text s (s.moved d) := by
  obtain ⟨n, rest, hd, rfl⟩ := hs.sound.level.exists_node_of_readOne h
  exact hs.advances hd

end Reading

/-! ## One component after the other -/

/-- A component is read in one round. -/
theorem readOne_of_readComponent {c : Cursor} {v : Value} {d : { d : Cursor // d.size < c.size }}
    (h : readComponent c = .ok (v, d)) : readOne c = .ok (v, d.1) := by
  rw [readOne, h]
  rfl

/-- Before the end there is a node that is neither a blank nor a comment. -/
theorem Cursor.exists_node_of_not_atEnd {c : Cursor} (h : ¬c.atEnd = true) :
    ∃ n rest, c.rest.dropWhile Node.isTrivia = n :: rest := by
  rw [atEnd, List.isEmpty_iff] at h
  exact List.exists_cons_of_ne_nil h

/-- The loop gives what the reader of components gives. -/
theorem readComponents_eq_result (c : Cursor) : readComponents c = (runComponents c).result := by
  fun_induction runComponents c with
  | case1 c hend => rw [readComponents, if_pos hend]; rfl
  | case2 c hend e he => rw [readComponents, if_neg hend, he]; rfl
  | case3 c hend v d hd he ih =>
    rw [readComponents_of_readOne (Bool.eq_false_iff.2 hend), readOne_of_readComponent he, Run.result_after, ← ih]

/-- A loop in which nothing is refused comes to the end. -/
theorem atEnd_place_of_refusal?_eq_none {c : Cursor} (h : (runComponents c).refusal? = none) :
    (runComponents c).place.atEnd = true := by
  fun_induction runComponents c with
  | case1 c hend => exact hend
  | case2 => cases h
  | case3 c hend v d hd he ih => exact ih h

/-- A loop tries no more components than there are bytes before it: each takes one at least. -/
theorem Reading.Reachable.rounds_le {text : String} {s : Reading} (hs : s.Reachable text) :
    (runComponents s.cursor).rounds ≤ s.cursor.bytesLeft := by
  generalize hc : s.cursor = c
  revert s
  fun_induction runComponents c with
  | case1 => exact fun _ _ => Nat.zero_le _
  | case2 c hend e he =>
    rintro s hs rfl
    obtain ⟨n, rest, hd⟩ := Cursor.exists_node_of_not_atEnd hend
    exact Nat.lt_of_le_of_lt (Nat.zero_le _) (hs.sound.bytesLeft_lt hd)
  | case3 c hend v d hd he ih =>
    rintro s hs rfl
    obtain ⟨n, rest, hdrop, rfl⟩ := hs.sound.level.exists_node_of_readOne (readOne_of_readComponent he)
    have hlt := hs.sound.bytesLeft_lt hdrop
    have hfurther := ih (hs.advances hdrop).reachable rfl
    rw [Run.rounds_after]
    omega

/-! ## Blocks are read to their end -/

/-- Nothing is left over of a block whose contents were read. -/
theorem readBlock_eq (contents : List Node) :
    readBlock contents = (readComponents (.ofNodes contents)).mapError .refused := by
  rw [readBlock, readComponents_eq_result]
  generalize hrun : runComponents (.ofNodes contents) = run
  cases hrefusal : run.refusal? with
  | some cause =>
    simp only [Run.result, hrefusal, Option.elim_some]
    rfl
  | none =>
    have hend : run.place.atEnd = true := by
      rw [← hrun] at hrefusal ⊢
      exact atEnd_place_of_refusal?_eq_none hrefusal
    simp only [Run.result, hrefusal, Option.elim_none, hend, if_true]
    rfl

/-- A reader anywhere in a text comes further by every component: to a later byte and to the end of a token, right after the
component, with no block left open, and no further than the first token that it is to stop before. So a loop that reads components
gives all of them in no more rounds than there are bytes before it, and ends where nothing is left unless one is refused. The
contents of a function are read by such a loop, and the check that nothing is left of them after it never fails. -/
theorem readComponent_progress {text : String} {s : Reading} (hs : s.Reachable text) :
    (∀ v d, readOne s.cursor = .ok (v, d) → Advances text s (s.moved d)) ∧
      ((runComponents s.cursor).rounds ≤ s.cursor.bytesLeft ∧ readComponents s.cursor = (runComponents s.cursor).result ∧
        ((runComponents s.cursor).refusal? = none → (runComponents s.cursor).place.atEnd = true)) ∧
      ∀ name d, s.cursor.skipTrivia.next = (some (.function name), d) →
        readBlock d.contents ≠ .error .leftOver ∧
          ((channels? d.contents).bind (Color.ofChannels? name) = none →
            readOne s.cursor = ((readBlock d.contents).mapError BlockError.cause).map fun arguments =>
              (valueOfFunction name arguments, d.leave)) := by
  refine ⟨fun v d h => hs.advances_of_readOne h,
    ⟨hs.rounds_le, readComponents_eq_result _, atEnd_place_of_refusal?_eq_none⟩, fun name d hn => ?_⟩
  rw [readBlock_eq]
  refine ⟨?_, fun hcolor => ?_⟩
  · cases readComponents (.ofNodes d.contents) <;> exact fun h => nomatch h
  · rw [readOne_function hn, hcolor]
    cases readComponents (.ofNodes d.contents) <;> rfl

/-- The value of a declaration, read up to the mark of importance: one inside of a function is none. -/
theorem readComponent_progress_declared :
    let text := "w: f(!)!x"
    ∃ s v d, s.Reachable text ∧ s.position text = 2 ∧ fromStop s.stop s.pending.toList s.tokens = [.delim '!', .ident "x"] ∧
      readOne s.cursor = .ok (v, d) ∧ Advances text s (s.moved d) ∧ (s.moved d).position text = 7 ∧
      (runComponents s.cursor).rounds ≤ 5 ∧ readBlock [.leaf ⟨.delim '!', ['!']⟩] ≠ .error .leftOver := by
  intro text
  have htokens : tokenize text.toList = [⟨.ident "w", ['w']⟩, ⟨.colon, [':']⟩, ⟨.space, [' ']⟩, ⟨.function "f", ['f', '(']⟩,
      ⟨.delim '!', ['!']⟩, ⟨.closer .round, [')']⟩, ⟨.delim '!', ['!']⟩, ⟨.ident "x", ['x']⟩] := by decide +kernel
  have hstart := @Reading.Reachable.start text
  rw [nodesOf, htokens] at hstart
  have hs := ((hstart.next rfl).next rfl).stopping fun t => decide (t = .delim '!')
  obtain ⟨hadvances, ⟨hrounds, -⟩, hfunction⟩ := readComponent_progress hs
  obtain ⟨hblock, hread⟩ := hfunction "f" _ rfl
  have hone := hread (by decide +kernel)
  rw [readBlock_eq, readComponents_eq] at hone
  exact ⟨_, _, _, hs, by decide +kernel, by decide +kernel, hone, hadvances _ _ hone, by decide +kernel, hrounds, hblock⟩

end StyleCheck
