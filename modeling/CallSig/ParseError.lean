import CallSig.Span
import CallSig.Token

/-!
# `CallSig.ParseError` — what can be wrong with a descriptor line

A parse error is a fault at a span. The fault says what is wrong; its number, its wording and the suggestion
that goes with it are functions of it.

## Contents
- **Faults.** `ArgumentFault`, `Marker`, `Fault`.
- **Wording.** `Fault.number`, `Fault.message`, `Fault.suggestion?`.
- **Errors.** `ParseError`, `ParseError.text`.
-/

namespace CallSig

/-! ## Faults -/

/-- What is wrong with an argument, or with the overload index before the line. -/
inductive ArgumentFault
  | indexOutOfRange (digits : String)
  | empty
  | noType (name : String)
  | emptyType (name : String)
  | emptyDefault (name : String)
  | variadicDefault (name : String)
  deriving Repr, DecidableEq

/-- The marks between arguments that decide how the others may be passed. -/
inductive Marker
  /-- Arguments before it are positional only. -/
  | slash
  /-- Arguments after it are keyword only. -/
  | star
  deriving Repr, DecidableEq

/-- What is wrong with a line. -/
inductive Fault
  | unexpectedCharacter (c : Char)
  | unterminatedString
  | unexpectedToken (expected found : Token)
  | unexpectedEnd (expected : Token)
  | malformedArgument (cause : ArgumentFault)
  | unbalancedBracket (found : Bracket)
  | unclosedBracket (opened : Bracket)
  | nestingTooDeep (limit : Nat)
  | misplacedMarker (marker : Marker)
  | trailingInput
  deriving Repr, DecidableEq

/-! ## Wording -/

/-- The fault of an argument in words. -/
def ArgumentFault.reason : ArgumentFault → String
  | indexOutOfRange digits => s!"overload index '{digits}' is out of range"
  | empty => "empty argument"
  | noType name => s!"'{name}' has no type"
  | emptyType name => s!"'{name}' has an empty type"
  | emptyDefault name => s!"'{name}' has an empty default"
  | variadicDefault name => s!"variadic '{name}' cannot have a default"

/-- The character of a marker. -/
def Marker.char : Marker → Char
  | slash => '/'
  | star => '*'

namespace Fault

/-- The number of a fault among those of the grammar. -/
def number : Fault → Nat
  | unexpectedCharacter _ => 1
  | unterminatedString => 2
  | unexpectedToken _ _ => 3
  | unexpectedEnd _ => 4
  | malformedArgument _ => 5
  | unbalancedBracket _ => 6
  | unclosedBracket _ => 7
  | nestingTooDeep _ => 8
  | misplacedMarker _ => 9
  | trailingInput => 10

/-- The fault in words. -/
def message : Fault → String
  | unexpectedCharacter c => s!"Unexpected character '{c}'"
  | unterminatedString => "Unterminated string literal"
  | unexpectedToken expected found => s!"Expected {expected.describe}, found {found.describe}"
  | unexpectedEnd expected => s!"Unexpected end of line, expected {expected.describe}"
  | malformedArgument cause => s!"Malformed argument: {cause.reason}"
  | unbalancedBracket found => s!"Unbalanced closing bracket '{found.closer}'"
  | unclosedBracket opened => s!"Unclosed '{opened.opener}'"
  | nestingTooDeep limit => s!"Brackets nested deeper than {limit} levels"
  | misplacedMarker marker => s!"Parameter marker '{marker.char}' is misplaced or repeated"
  | trailingInput => "Unexpected input after the argument list"

/-- How the line could be mended, where there is one obvious way. -/
def suggestion? : Fault → Option String
  | unterminatedString => some "Add a closing quote to terminate the string"
  | malformedArgument (.noType name) => some s!"Write it as '{name}:<type>'"
  | unclosedBracket opened => some s!"Add the missing '{opened.closer}'"
  | trailingInput => some "A return type must be introduced by '->'"
  | _ => none

end Fault

/-! ## Errors -/

/-- A fault and where in the line it is. -/
structure ParseError where
  fault : Fault
  span : Span
  deriving Repr, DecidableEq

namespace ParseError

/-- The fault in words. -/
def message (e : ParseError) : String := e.fault.message

/-- How the line could be mended, where there is one obvious way. -/
def suggestion? (e : ParseError) : Option String := e.fault.suggestion?

/-- The whole report: place, message, and the suggestion on a line of its own. -/
def text (e : ParseError) : String :=
  let report := s!"Parse error at {e.span.text}: {e.message}"
  match e.suggestion? with
  | none => report
  | some suggestion => s!"{report}\n  Suggestion: {suggestion}"

end ParseError

end CallSig
