/-!
# Tokens

A text is read as a run of tokens. Nothing fails at this level: a string or url that cannot be read is a token of its own, and
a character that starts nothing else is a delimiter. A lexeme is a token with the characters it was read from.
-/

namespace StyleCheck

/-- The three kinds of bracket. -/
inductive Bracket where
  | round | square | curly
  deriving DecidableEq, Repr

/-- The kinds of token. Escapes in names, strings and urls are already decoded. -/
inductive Token where
  /-- A run of white space. -/
  | space
  /-- A comment, from `/*` up to `*/` or the end of the text. -/
  | comment
  | ident (name : String)
  /-- A name after `@`. -/
  | atKeyword (name : String)
  /-- A name after `#`. -/
  | hash (name : String)
  | string (text : String)
  /-- A string cut off by the end of its line. -/
  | badString
  /-- A url without quotes. -/
  | url (text : String)
  | badUrl
  /-- A number; `int` is its value if it was written without point and exponent, kept between the bounds of 32 bits. -/
  | number (value : Float32) (int : Option Int)
  /-- A number followed by `%`, as a fraction: `50%` is a half. -/
  | percentage (fraction : Float32)
  /-- A number followed by a name. -/
  | dimension (value : Float32) (unit : String)
  | colon
  | semicolon
  | comma
  /-- One of `$=`, `*=`, `^=`, `|=` and `~=`, by its first character. -/
  | matching (mark : Char)
  /-- The opening `<!--` of a text embedded in a document. -/
  | cdo
  /-- The closing `-->` of a text embedded in a document. -/
  | cdc
  /-- A name followed at once by `(`, which opens its arguments. -/
  | function (name : String)
  | opener (bracket : Bracket)
  | closer (bracket : Bracket)
  /-- Any other character. -/
  | delim (c : Char)
  deriving DecidableEq

/-- White space and comments separate tokens and mean nothing else. -/
def Token.isTrivia : Token → Bool
  | .space | .comment => true
  | _ => false

/-- The bracket that a token opens; a function opens a round one. -/
def Token.opens? : Token → Option Bracket
  | .opener b => some b
  | .function _ => some .round
  | _ => none

/-- A token and the characters it was read from. -/
structure Lexeme where
  token : Token
  source : List Char
  deriving DecidableEq

end StyleCheck
