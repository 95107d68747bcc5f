import CallSig.Decimal.Reading
import CallSig.Dict
import CallSig.Json

/-!
# `CallSig.Json.Reader` — JSON values from their text

A number without point and exponent is an integer if a machine word holds it, and a float otherwise. A float is
read in two steps: its digits are gathered in an unsigned word, as many as fit, and this word, rounded to a
float, is scaled by a power of ten that is a float too. Object fields are put in ascending order of their names,
and the last of several fields with one name counts.

## Contents
- **Numbers.** `absorb`, `scale?`, `ofDigits?`, `number?`.
- **Strings.** `escaped?`, `stringTail?`, `string?`.
- **Values.** `value?`, with `items?` and `fields?`.
- **Texts.** `read?`; `field?` of an object.
-/

namespace CallSig.Json

/-! ## Numbers -/

/-- Takes in digits after a number as long as an unsigned word holds the result; also what is left of them. -/
def absorb (n : Nat) : List Char → Nat × List Char
  | [] => (n, [])
  | c :: cs =>
    let next := 10 * n + (c.toNat - '0'.toNat)
    if next < Text.wordBound then absorb next cs else (n, c :: cs)

/-- A float scaled by a power of ten, if the result is finite. Powers below every float are taken in steps; the
fuel bounds their number, and two steps make any word vanish. -/
def scale? : Nat → Float → Int → Option Float
  | 0, x, _ => some x
  | fuel + 1, x, exponent =>
    if exponent.natAbs ≤ 308 then
      let power := Float.ofScientific 1 false exponent.natAbs
      if exponent < 0 then some (x / power)
      else if (x * power).isInf then none
      else some (x * power)
    else if x == 0.0 then some x
    else if 0 ≤ exponent then none
    else scale? fuel (x / 1e308) (exponent + 308)

/-- The number with these digits before and after its point and this exponent. -/
def ofDigits? (negative : Bool) (whole fraction : List Char) (exponent? : Option Int) : Option Json :=
  let (front, long) := absorb 0 whole
  let (significand, dropped) := absorb front fraction
  let isWhole := fraction.isEmpty && exponent?.isNone && long.isEmpty
  let fits := !negative || (0 < significand && significand ≤ Text.signedBound)
  if isWhole && fits then some (.int (if negative then -(significand : Int) else significand))
  else
    let exponent : Int := exponent?.getD 0 + long.length - (fraction.length - dropped.length : Nat)
    (scale? 3 (Float.ofScientific significand false 0) exponent).map fun x => .float (if negative then -x else x)

/-- The digits after a point, if there is one, and what follows them. -/
def fraction? : List Char → Option (List Char × List Char)
  | '.' :: rest =>
    let digits := rest.takeWhile Char.isDigit
    if digits.isEmpty then none else some (digits, rest.dropWhile Char.isDigit)
  | cs => some ([], cs)

/-- The exponent after its mark, if there is one, and what follows it. -/
def exponent? : List Char → Option (Option Int × List Char)
  | [] => some (none, [])
  | c :: rest =>
    if c = 'e' ∨ c = 'E' then
      let (negative, rest) := Decimal.splitSign rest
      (Text.natural? 10 (rest.takeWhile Char.isDigit)).map fun n =>
        (some (if negative then -(n : Int) else n), rest.dropWhile Char.isDigit)
    else some (none, c :: rest)

/-- A number, and what follows it. -/
def number? (cs : List Char) : Option (Json × List Char) :=
  let (negative, body) := match cs with
    | '-' :: rest => (true, rest)
    | _ => (false, cs)
  let whole := body.takeWhile Char.isDigit
  if whole.isEmpty || (whole.head? == some '0' && whole.length != 1) then none
  else
    (fraction? (body.dropWhile Char.isDigit)).bind fun (fraction, rest) =>
      (exponent? rest).bind fun (exponent?, rest) =>
        (ofDigits? negative whole fraction exponent?).map fun n => (n, rest)

/-! ## Strings -/

/-- A number of four digits of base sixteen, and what follows it. -/
def unit? (cs : List Char) : Option (Nat × List Char) :=
  let digits := cs.take 4
  if digits.length = 4 then (Text.natural? 16 digits).map fun n => (n, cs.drop 4) else none

/-- The character that a numbered escape stands for after its letter; characters beyond sixteen bits are written
as two such escapes. -/
def numbered? (cs : List Char) : Option (Char × List Char) :=
  (unit? cs).bind fun (high, rest) =>
    if 0xD800 ≤ high ∧ high < 0xDC00 then
      match rest with
      | '\\' :: 'u' :: rest =>
        (unit? rest).bind fun (low, rest) =>
          if 0xDC00 ≤ low ∧ low < 0xE000 then
            some (Char.ofNat (0x10000 + (high - 0xD800) * 0x400 + (low - 0xDC00)), rest)
          else none
      | _ => none
    else if high.isValidChar then some (Char.ofNat high, rest)
    else none

/-- The character that an escape stands for after its backslash, and what follows it. -/
def escaped? : List Char → Option (Char × List Char)
  | '"' :: rest => some ('"', rest)
  | '\\' :: rest => some ('\\', rest)
  | '/' :: rest => some ('/', rest)
  | 'b' :: rest => some ('\x08', rest)
  | 'f' :: rest => some ('\x0c', rest)
  | 'n' :: rest => some ('\n', rest)
  | 'r' :: rest => some ('\r', rest)
  | 't' :: rest => some ('\t', rest)
  | 'u' :: rest => numbered? rest
  | _ => none

/-- The characters up to the quote that ends a string, and what follows it; the fuel bounds their number. -/
def stringTail? : Nat → List Char → Option (List Char × List Char)
  | 0, _ => none
  | fuel + 1, cs =>
    match cs with
    | [] => none
    | '"' :: rest => some ([], rest)
    | '\\' :: rest =>
      (escaped? rest).bind fun (c, rest) => (stringTail? fuel rest).map fun (more, rest) => (c :: more, rest)
    | c :: rest =>
      if c.toNat < 0x20 then none else (stringTail? fuel rest).map fun (more, rest) => (c :: more, rest)

/-- A string, and what follows it. -/
def string? : List Char → Option (String × List Char)
  | '"' :: rest => (stringTail? (rest.length + 1) rest).map fun (text, rest) => (String.ofList text, rest)
  | _ => none

/-! ## Values -/

/-- What follows white space. -/
def skipSpace (cs : List Char) : List Char := cs.dropWhile fun c => c == ' ' || c == '\t' || c == '\n' || c == '\r'

mutual

/-- A value and what follows it; the fuel bounds the number of steps. -/
def value? : Nat → List Char → Option (Json × List Char)
  | 0, _ => none
  | fuel + 1, cs =>
    match cs with
    | 'n' :: 'u' :: 'l' :: 'l' :: rest => some (.null, rest)
    | 't' :: 'r' :: 'u' :: 'e' :: rest => some (.bool true, rest)
    | 'f' :: 'a' :: 'l' :: 's' :: 'e' :: rest => some (.bool false, rest)
    | '"' :: _ => (string? cs).map fun (text, rest) => (.string text, rest)
    | '[' :: rest =>
      match skipSpace rest with
      | ']' :: rest => some (.array [], rest)
      | rest => (items? fuel rest).map fun (items, rest) => (.array items, rest)
    | '\x7b' :: rest =>
      match skipSpace rest with
      | '\x7d' :: rest => some (.object [], rest)
      | rest => (fields? fuel rest).map fun (fields, rest) => (.object (Dict.ofList fields).entries, rest)
    | _ => number? cs

/-- The items of an array, at least one, up to its closing bracket. -/
def items? : Nat → List Char → Option (List Json × List Char)
  | 0, _ => none
  | fuel + 1, cs =>
    (value? fuel (skipSpace cs)).bind fun (item, rest) =>
      match skipSpace rest with
      | ']' :: rest => some ([item], rest)
      | ',' :: rest => (items? fuel rest).map fun (items, rest) => (item :: items, rest)
      | _ => none

/-- The fields of an object, at least one, up to its closing brace. -/
def fields? : Nat → List Char → Option (List (String × Json) × List Char)
  | 0, _ => none
  | fuel + 1, cs =>
    (string? (skipSpace cs)).bind fun (name, rest) =>
      match skipSpace rest with
      | ':' :: rest =>
        (value? fuel (skipSpace rest)).bind fun (value, rest) =>
          match skipSpace rest with
          | '\x7d' :: rest => some ([(name, value)], rest)
          | ',' :: rest => (fields? fuel rest).map fun (fields, rest) => ((name, value) :: fields, rest)
          | _ => none
      | _ => none

end

/-! ## Texts -/

/-- The value that a whole text spells. -/
def read? (text : String) : Option Json :=
  let cs := skipSpace text.toList
  (value? (2 * cs.length + 2) cs).bind fun (value, rest) => if (skipSpace rest).isEmpty then some value else none

/-- The value of an object's field. -/
def field? (name : String) : Json → Option Json
  | .object fields => (fields.find? fun field => field.1 == name).map Prod.snd
  | _ => none

end CallSig.Json
