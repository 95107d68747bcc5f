import CallSig.Decimal.Reading
import CallSig.Dict
import CallSig.Text.Alphabetic
import CallSig.Text.Blank
import CallSig.Text.Numeral
import CallSig.Value

/-!
# `CallSig.Expression` — default-value expressions

A small closed language: integer, float and string literals, dotted paths to defined host objects, calls on such
a path, and flags joined by bars. Nothing is executed.

## Contents
- **Literals.** `integer?`, `float?`, `string?`.
- **Paths and calls.** `isPath`, `closesAtEnd`, `callee?`.
- **Evaluation.** `isFlag`, `evaluate` against the defined objects.
-/

namespace CallSig.Expression

open Text

/-! ## Literals -/

/-- The letters that may follow an integer literal. -/
def isIntegerSuffix (c : Char) : Bool := c == 'u' || c == 'U' || c == 'l' || c == 'L'

/-- An integer without its minus sign: decimal digits, or digits in base sixteen after `0x`, which may carry a
sign of their own. -/
def magnitude? (cs : List Char) : Option Int64 :=
  match cs with
  | '0' :: 'x' :: digits => signedWord? 16 digits
  | '0' :: 'X' :: digits => signedWord? 16 digits
  | _ => if cs.all Char.isDigit then signedWord? 10 cs else none

/-- The value of an integer literal: an optional minus, a magnitude that fits a signed word, and any suffix. -/
def integer? (cs : List Char) : Option Int64 :=
  let body := (cs.reverse.dropWhile isIntegerSuffix).reverse
  match body with
  | '-' :: rest => (magnitude? rest).map fun n => -n
  | _ => magnitude? body

/-- The characters of a float literal. -/
def isFloatChar (c : Char) : Bool :=
  c.isDigit || c == '.' || c == 'e' || c == 'E' || c == '+' || c == '-'

/-- The value of a float literal, which has a point or an exponent and may end with the letter `f`. -/
def float? (cs : List Char) : Option Float :=
  let body := match cs.getLast? with
    | some 'f' => cs.dropLast
    | some 'F' => cs.dropLast
    | _ => cs
  match body with
  | [] => none
  | first :: _ =>
    let starts := first.isDigit || first == '-' || first == '.'
    let marked := body.any fun c => c == '.' || c == 'e' || c == 'E'
    if starts && marked && body.all isFloatChar then Decimal.float? body else none

/-- The text of a string literal: what stands between two equal quotes, escapes and all. -/
def string? (cs : List Char) : Option String :=
  match cs with
  | [] => none
  | quote :: rest =>
    if (quote = '"' ∨ quote = '\'') ∧ rest.getLast? = some quote then some (String.ofList rest.dropLast)
    else none

/-! ## Paths and calls -/

/-- Whether the characters form one name of a path. -/
def isPathSegment : List Char → Bool
  | [] => false
  | c :: cs => (isAlphabetic c || c == '_') && cs.all fun c => isAlphanumeric c || c == '_'

/-- Whether the characters form names with dots between them. -/
def isPath (cs : List Char) : Bool := (cutAt '.' cs).all isPathSegment

/-- Whether the round brackets, `depth` of them open, are all closed by the last character and not before. -/
def closesAtEnd (depth : Nat) : List Char → Bool
  | [] => depth == 0
  | c :: cs =>
    if c = '(' then closesAtEnd (depth + 1) cs
    else if c = ')' then
      match depth with
      | 0 => false
      | 1 => cs.isEmpty
      | d + 2 => closesAtEnd (d + 1) cs
    else closesAtEnd depth cs

/-- The path that is called, if the characters are a call: a path, and arguments in round brackets. -/
def callee? (cs : List Char) : Option (List Char) :=
  let head := cs.takeWhile (· != '(')
  let tail := cs.dropWhile (· != '(')
  let path := trim head
  if cs.getLast? = some ')' ∧ !tail.isEmpty ∧ closesAtEnd 0 tail ∧ isPath path then some path else none

/-! ## Evaluation -/

/-- Whether a text is a flag: an integer, or a path to a constant or a sentinel. -/
def isFlag (definitions : Dict Value) (cs : List Char) : Bool :=
  (integer? cs).isSome ||
    (isPath cs && match definitions.get? (String.ofList cs) with
      | some (.constant _) => true
      | some (.sentinel _) => true
      | _ => false)

/-- The sentinel for a value that is constructed as spelled. -/
def constructed (cs : List Char) : Value := .sentinel ⟨.constructed, String.ofList cs⟩

/-- The value of an expression without blanks around it that is no literal. -/
def evaluateName (definitions : Dict Value) (cs : List Char) : Option Value :=
  if isPath cs then definitions.get? (String.ofList cs)
  else match callee? cs with
    | some path => (definitions.get? (String.ofList path)).map fun _ => constructed cs
    | none =>
      if cs.contains '|' ∧ (cutAt '|' cs).all (fun part => isFlag definitions (trim part)) then
        some (constructed cs)
      else none

/-- The value of an expression, if it has one. -/
def evaluate (definitions : Dict Value) (expr : String) : Option Value :=
  let cs := trim expr.toList
  if cs.isEmpty then none
  else match integer? cs with
    | some n => some (.literal (.int n))
    | none => match float? cs with
      | some x => some (.literal (.float x))
      | none => match string? cs with
        | some s => some (.literal (.str s))
        | none => evaluateName definitions cs

end CallSig.Expression
