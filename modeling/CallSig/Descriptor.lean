import CallSig.Span
import CallSig.Text.Basic

/-!
# `CallSig.Descriptor` — what a descriptor line says

A descriptor line declares one native function: an overload index, a dotted name, arguments with their type
and default tokens, and a result token. Tokens are kept as the native side spells them.

## Contents
- **Kinds.** `ParamKind`, ordered by `rank` as kinds must follow one another in a signature.
- **Lines.** `Argument`, `Descriptor`, with `owner?` and `fullName`.
-/

namespace CallSig

/-! ## Kinds -/

/-- How an argument may be passed. -/
inductive ParamKind
  | positionalOnly
  | positionalOrKeyword
  | varPositional
  | keywordOnly
  | varKeyword
  deriving Repr, DecidableEq, Inhabited

namespace ParamKind

/-- The place of a kind in a signature: kinds may not decrease from one parameter to the next. -/
def rank : ParamKind → Nat
  | positionalOnly => 0
  | positionalOrKeyword => 1
  | varPositional => 2
  | keywordOnly => 3
  | varKeyword => 4

/-- Whether the argument can be passed by position, so that its default counts from the right. -/
def isPositional : ParamKind → Bool
  | positionalOnly => true
  | positionalOrKeyword => true
  | _ => false

/-- Whether the argument collects any number of values. -/
def isVariadic : ParamKind → Bool
  | varPositional => true
  | varKeyword => true
  | _ => false

/-- The name of a kind. -/
def text : ParamKind → String
  | positionalOnly => "positional-only"
  | positionalOrKeyword => "positional-or-keyword"
  | varPositional => "var-positional"
  | keywordOnly => "keyword-only"
  | varKeyword => "var-keyword"

end ParamKind

/-! ## Lines -/

/-- One argument of a line. -/
structure Argument where
  /-- The name, escaped against reserved words. -/
  name : String
  /-- The native type token, with single spaces. -/
  typeToken : String
  /-- The native default token, as spelled. -/
  default? : Option String
  kind : ParamKind
  /-- The whole argument inside its line. -/
  span : Span
  deriving Repr, DecidableEq

/-- What one line says. -/
structure Descriptor where
  /-- The overload index before the line. -/
  index? : Option Nat
  /-- The segments of the dotted name before the last one. -/
  scope : List String
  /-- The last segment of the dotted name, escaped against reserved words. -/
  name : String
  /-- The arguments in order; markers are folded into their kinds. -/
  arguments : List Argument
  /-- The native result token, with single spaces. -/
  result? : Option String
  /-- The dotted name inside the line. -/
  nameSpan : Span
  deriving Repr, DecidableEq

namespace Descriptor

/-- The dotted name before its last segment: the declaring type or module. -/
def owner? (d : Descriptor) : Option String :=
  if d.scope.isEmpty then none else some (Text.join "." d.scope)

/-- The whole dotted name. -/
def fullName (d : Descriptor) : String := Text.join "." (d.scope ++ [d.name])

end Descriptor

end CallSig
