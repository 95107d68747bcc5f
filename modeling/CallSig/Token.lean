/-!
# `CallSig.Token` — the kinds of tokens in a descriptor line

A token says what kind of lexeme was read; the spelling of identifiers, integers and string literals is kept
with the lexeme, not with the token.

## Contents
- **Brackets.** `Bracket` (round, square, angle) with the characters that open and close it.
- **Tokens.** `Token`, `Token.describe` (how error messages name a token).
-/

namespace CallSig

/-! ## Brackets -/

/-- The three pairs of brackets that nest. -/
inductive Bracket
  | round
  | square
  | angle
  deriving Repr, DecidableEq, Inhabited

namespace Bracket

/-- The character that opens the pair. -/
def opener : Bracket → Char
  | round => '('
  | square => '['
  | angle => '<'

/-- The character that closes the pair. -/
def closer : Bracket → Char
  | round => ')'
  | square => ']'
  | angle => '>'

end Bracket

/-! ## Tokens -/

/-- The kinds of tokens. -/
inductive Token
  /-- A letter or underscore, then letters, digits and underscores, all ASCII. -/
  | identifier
  /-- Decimal digits. -/
  | integer
  /-- Text between two single or two double quotes. -/
  | stringLiteral
  | opening (bracket : Bracket)
  | closing (bracket : Bracket)
  | comma
  | colon
  | doubleColon
  | dot
  | ellipsis
  | arrow
  | equal
  | star
  | slash
  | pipe
  | minus
  /-- Any other punctuation that native spellings use. -/
  | punct (c : Char)
  deriving Repr, DecidableEq, Inhabited

namespace Token

/-- A character between single quotes, as messages show it. -/
def quotedChar (c : Char) : String := s!"'{c}'"

/-- How messages name a token: its class, or its spelling between quotes. -/
def describe : Token → String
  | identifier => "identifier"
  | integer => "integer"
  | stringLiteral => "string literal"
  | opening b => quotedChar b.opener
  | closing b => quotedChar b.closer
  | comma => "','"
  | colon => "':'"
  | doubleColon => "'::'"
  | dot => "'.'"
  | ellipsis => "'...'"
  | arrow => "'->'"
  | equal => "'='"
  | star => "'*'"
  | slash => "'/'"
  | pipe => "'|'"
  | minus => "'-'"
  | punct c => quotedChar c

end Token

end CallSig
