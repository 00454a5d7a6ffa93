import StyleCheck.Cursor
import StyleCheck.Value.Basic

/-!
# Readers of single literals

Each reader takes the next token, white space included, and fails if it is of another kind. After a failure the place is the
one after the token that was refused; whoever wants to try another reader goes back to the place before.
-/

namespace StyleCheck

/-- Why a literal was refused. -/
inductive LiteralError where
  | unexpectedToken
  deriving DecidableEq, Repr

/-- The wording of a refused literal. -/
def LiteralError.message : LiteralError → String
  | .unexpectedToken => "unexpected token"

/-- A reader moves from one place to another, whether it succeeds or not. -/
abbrev Reader (α : Type) := Cursor → Except LiteralError α × Cursor

/-- Reads the next token, if `accept` takes it. -/
def readToken {α : Type} (accept : Token → Option α) : Reader α := fun c =>
  match c.next.1.bind accept with
  | some a => (.ok a, c.next.2)
  | none => (.error .unexpectedToken, c.next.2)

/-- An identifier, in small letters. -/
def readIdent : Reader String :=
  readToken fun
    | .ident name => some (lower name)
    | _ => none

/-- A number, whole or not. -/
def readNumber : Reader Float32 :=
  readToken fun
    | .number value _ => some value
    | _ => none

/-- A percentage, as a fraction. -/
def readPercentage : Reader Float32 :=
  readToken fun
    | .percentage fraction => some fraction
    | _ => none

/-- A length: a number with a unit of length, or a zero, which needs none. -/
def readLength : Reader Length :=
  readToken fun
    | .dimension value unit => (LengthUnit.ofSuffix? unit).map (Length.mk value)
    | .number value _ => if value == 0 then some ⟨0, .pixels⟩ else none
    | _ => none

/-- The whole numbers in the arguments of a color function. Commas, white space and comments between them are passed over,
and anything else is refused. -/
def channels? : List Node → Option (List Int)
  | [] => some []
  | .leaf x :: rest =>
    match x.token with
    | .number _ (some n) => (channels? rest).map (n :: ·)
    | .comma | .space | .comment => channels? rest
    | _ => none
  | .block _ _ _ :: _ => none

/-- A color in hexadecimal digits or as a function. The whole of a function is passed over, also of one that is no color. -/
def readColor : Reader Color := fun c =>
  match c.next with
  | (some (.hash name), d) =>
    match Color.ofHex? name with
    | some color => (.ok color, d)
    | none => (.error .unexpectedToken, d)
  | (some (.function name), d) =>
    match (channels? d.contents).bind (Color.ofChannels? name) with
    | some color => (.ok color, d.leave)
    | none => (.error .unexpectedToken, d.leave)
  | (_, d) => (.error .unexpectedToken, d)

theorem readToken_size {α : Type} {accept : Token → Option α} {c d : Cursor} {a : α}
    (h : readToken accept c = (.ok a, d)) : d.size < c.size := by
  unfold readToken at h
  split at h
  · next b hb =>
    obtain ⟨t, ht, -⟩ := Option.bind_eq_some_iff.1 hb
    obtain ⟨-, rfl⟩ := Prod.mk.inj h
    exact Cursor.size_next_lt (Prod.ext ht rfl)
  · simp at h

theorem readColor_size {c d : Cursor} {a : Color} (h : readColor c = (.ok a, d)) : d.size < c.size := by
  unfold readColor at h
  split at h
  · next name e hn =>
    split at h
    · obtain ⟨-, rfl⟩ := Prod.mk.inj h
      exact Cursor.size_next_lt hn
    · simp at h
  · next name e hn =>
    split at h
    · obtain ⟨-, rfl⟩ := Prod.mk.inj h
      exact Nat.lt_of_le_of_lt e.size_leave_le (Cursor.size_next_lt hn)
    · simp at h
  · simp at h

end StyleCheck
