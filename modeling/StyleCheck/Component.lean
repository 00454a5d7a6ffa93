import StyleCheck.Literal
import StyleCheck.Value.Printer

/-!
# Reading values

A component is tried as each kind of literal in turn, from the same place, and what none of them takes is decided by its
token. The arguments of a function are components in their turn. A value is read to its end or not at all.
-/

namespace StyleCheck

/-- Why a text is not a value. -/
inductive ValueError where
  | unexpectedToken
  | invalidColor
  | emptyValue
  deriving DecidableEq, Repr

/-- The wording of a refused value. -/
def ValueError.message : ValueError → String
  | .unexpectedToken => "unexpected token in value"
  | .invalidColor => "invalid hex color"
  | .emptyValue => "empty declaration value"

/-- A reader of literals as a reader of components: after a failure nothing has been read. -/
def attempt {α : Type} (read : Reader α) (make : α → Value) (c : Cursor) : Option (Value × Cursor) :=
  match read c with
  | (.ok a, d) => some (make a, d)
  | (.error _, _) => none

/-- A component that is a literal. -/
def readLiteral? (c : Cursor) : Option (Value × Cursor) :=
  attempt readColor .color c <|> attempt readIdent .keyword c <|> attempt readNumber .number c <|>
    attempt readPercentage .percentage c <|> attempt readLength .length c

/-- The component of a token that is no literal and opens nothing. -/
def valueOfToken : Token → Except ValueError Value
  | .comma => .ok .separator
  | .dimension value unit => .ok (.dimension value (lower unit))
  | .hash name => (Color.ofHex? name).elim (.error .invalidColor) (fun color => .ok (.color color))
  | .string text => .ok (.string text)
  | .url text => .ok (.url text)
  | .delim c => .ok (.delimiter c)
  | _ => .error .unexpectedToken

/-- A function with its arguments. A `url` whose only argument is a string is a url. -/
def valueOfFunction (name : String) (arguments : List Value) : Value :=
  match eqIgnoringCase name "url", arguments with
  | true, [.string text] => .url text
  | _, _ => .function (lower name) arguments

theorem attempt_size {α : Type} {read : Reader α} {make : α → Value} {c d : Cursor} {v : Value}
    (hr : ∀ {a : α} {e : Cursor}, read c = (.ok a, e) → e.size < c.size)
    (h : attempt read make c = some (v, d)) : d.size < c.size := by
  unfold attempt at h
  split at h
  · next a e he =>
    obtain ⟨-, rfl⟩ := Prod.mk.inj (Option.some.inj h)
    exact hr he
  · simp at h

theorem readLiteral?_size {c d : Cursor} {v : Value} (h : readLiteral? c = some (v, d)) : d.size < c.size := by
  simp only [readLiteral?, Option.orElse_eq_orElse, Option.orElse_eq_or, Option.or_eq_some_iff] at h
  rcases h with h | ⟨-, h | ⟨-, h | ⟨-, h | ⟨-, h⟩⟩⟩⟩
  · exact attempt_size readColor_size h
  · exact attempt_size readToken_size h
  · exact attempt_size readToken_size h
  · exact attempt_size readToken_size h
  · exact attempt_size readToken_size h

mutual

/-- The next component, after any white space and comments, and the place after it, where less is left to read. -/
def readComponent (c : Cursor) : Except ValueError (Value × { d : Cursor // d.size < c.size }) :=
  match hl : readLiteral? c.skipTrivia with
  | some (v, d) => .ok (v, ⟨d, Nat.lt_of_lt_of_le (readLiteral?_size hl) c.size_skipTrivia_le⟩)
  | none =>
    match hn : c.skipTrivia.next with
    | (none, _) => .error .unexpectedToken
    | (some (.function name), d) =>
      have hd : d.size < c.size := Nat.lt_of_lt_of_le (Cursor.size_next_lt hn) c.size_skipTrivia_le
      match readComponents (.ofNodes d.contents) with
      | .ok arguments => .ok (valueOfFunction name arguments, ⟨d.leave, Nat.lt_of_le_of_lt d.size_leave_le hd⟩)
      | .error e => .error e
    | (some token, d) =>
      (valueOfToken token).map fun v =>
        (v, ⟨d, Nat.lt_of_lt_of_le (Cursor.size_next_lt hn) c.size_skipTrivia_le⟩)
termination_by 2 * c.size
decreasing_by
  have := d.size_contents_le
  omega

/-- All components up to the end. -/
def readComponents (c : Cursor) : Except ValueError (List Value) :=
  if c.atEnd then .ok []
  else
    match readComponent c with
    | .error e => .error e
    | .ok (v, ⟨d, _⟩) =>
      match readComponents d with
      | .error e => .error e
      | .ok rest => .ok (v :: rest)
termination_by 2 * c.size + 1
decreasing_by all_goals omega

end

/-- The value of a text. A text without components is an empty list. -/
def Value.parse (text : String) : Except ValueError Value :=
  (readComponents (.ofNodes (nodesOf text))).map Value.ofComponents

end StyleCheck
