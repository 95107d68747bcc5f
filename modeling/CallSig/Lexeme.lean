import CallSig.ParseError
import CallSig.Text.Basic

/-!
# `CallSig.Lexeme` — reading a text as lexemes

A lexeme is a token with its spelling, the blanks before it and the byte offset where it starts. The lexemes of
a text, with their blanks, spell the text up to the blanks it ends with, so a run of lexemes has a text of its
own. At each place the longest possible token is read.

## Contents
- **Tokens by longest match.** `isGap`, `stringTail?`, `Token.read?`.
- **Lexemes.** `Lexeme`, `Lexeme.span`, `Lexeme.scan` (from an offset), `Lexeme.ofText`.
- **Runs.** `Lexeme.runText`, `Lexeme.runSpan`.
-/

namespace CallSig

/-! ## Tokens by longest match -/

/-- The characters that separate tokens: space, tab, carriage return and line feed. -/
def isGap (c : Char) : Bool := c == ' ' || c == '\t' || c == '\r' || c == '\n'

/-- The characters an identifier begins with. -/
def isNameStart (c : Char) : Bool := c.isAlpha || c == '_'

/-- The characters an identifier goes on with. -/
def isNamePart (c : Char) : Bool := c.isAlphanum || c == '_'

/-- The characters that are tokens of their own without any other meaning. -/
def punctuation : List Char :=
  ['!', '#', '$', '%', '&', '+', ';', '?', '@', '\\', '^', '\x60', '\x7b', '\x7d', '~']

/-- How many characters after an opening quote belong to the string literal, the closing quote included. A
backslash takes the next character, which may be anything but a line feed. -/
def stringTail? (quote : Char) : List Char → Option Nat
  | [] => none
  | ['\\'] => none
  | '\\' :: c :: cs => if c = '\n' then none else (stringTail? quote cs).map (· + 2)
  | c :: cs => if c = quote then some 1 else (stringTail? quote cs).map (· + 1)

namespace Token

/-- The token that one character spells, wherever it stands. -/
def ofChar? (c : Char) : Option Token :=
  match c with
  | '(' => some (.opening .round)
  | ')' => some (.closing .round)
  | '[' => some (.opening .square)
  | ']' => some (.closing .square)
  | '<' => some (.opening .angle)
  | '>' => some (.closing .angle)
  | ',' => some .comma
  | ':' => some .colon
  | '.' => some .dot
  | '=' => some .equal
  | '*' => some .star
  | '/' => some .slash
  | '|' => some .pipe
  | '-' => some .minus
  | c => if punctuation.contains c then some (.punct c) else none

/-- The longest token that begins with the character `c`, and how many of the characters after it belong to
it. -/
def read? (c : Char) (rest : List Char) : Option (Token × Nat) :=
  if isNameStart c then some (.identifier, (rest.takeWhile isNamePart).length)
  else if c.isDigit then some (.integer, (rest.takeWhile Char.isDigit).length)
  else if c = '"' ∨ c = '\'' then (stringTail? c rest).map fun n => (.stringLiteral, n)
  else if c = ':' ∧ rest.head? = some ':' then some (.doubleColon, 1)
  else if c = '.' ∧ rest.take 2 = ['.', '.'] then some (.ellipsis, 2)
  else if c = '-' ∧ rest.head? = some '>' then some (.arrow, 1)
  else (ofChar? c).map fun token => (token, 0)

end Token

/-! ## Lexemes -/

/-- A token where it stands: its spelling, the blanks before it, and the byte offset where it starts. -/
structure Lexeme where
  token : Token
  gap : List Char
  text : List Char
  start : Nat
  deriving Repr, DecidableEq

namespace Lexeme

/-- The bytes of the spelling. -/
def span (x : Lexeme) : Span := ⟨x.start, x.start + Text.width x.text⟩

/-- The error at a character that starts no token: a quote without its partner reaches to the end of the text,
any other character stands for itself. -/
def errorAt (start : Nat) (c : Char) (rest : List Char) : ParseError :=
  if c = '"' ∨ c = '\'' then ⟨.unterminatedString, ⟨start, start + Text.width (c :: rest)⟩⟩
  else ⟨.unexpectedCharacter c, ⟨start, start + c.utf8Size⟩⟩

/-- The lexemes of a text that starts at a byte offset, or the first error. -/
def scan (start : Nat) (cs : List Char) : Except ParseError (List Lexeme) :=
  let gap := cs.takeWhile isGap
  match _h : cs.dropWhile isGap with
  | [] => .ok []
  | c :: rest =>
    let here := start + Text.width gap
    match Token.read? c rest with
    | none => .error (errorAt here c rest)
    | some (token, n) =>
      let text := c :: rest.take n
      (scan (here + Text.width text) (rest.drop n)).map (⟨token, gap, text, here⟩ :: ·)
termination_by cs.length
decreasing_by
  have hle := Text.length_dropWhile_le isGap cs
  rw [_h] at hle
  simp only [List.length_cons, List.length_drop] at *
  omega

/-- The lexemes of a text. -/
def ofText (cs : List Char) : Except ParseError (List Lexeme) := scan 0 cs

/-! ## Runs -/

/-- The text from the first lexeme of a run to its last, with the blanks between them. -/
def runText : List Lexeme → List Char
  | [] => []
  | x :: xs => x.text ++ xs.flatMap fun y => y.gap ++ y.text

/-- The bytes from the first lexeme of a run to its last. -/
def runSpan (first : Lexeme) (rest : List Lexeme) : Span := first.span.cover (rest.getLastD first).span

end Lexeme

end CallSig
