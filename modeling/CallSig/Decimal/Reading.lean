import CallSig.Text.Numeral

/-!
# `CallSig.Decimal.Reading` — floats in texts

A decimal text is an optional sign, digits with at most one point among or beside them, and an optional
exponent with a sign of its own; some digit stands before or after the point. The float it denotes is the
nearest one; a text too large for any finite float denotes an infinity.

## Contents
- **Texts.** `Numerator`, `numerator?` (what the characters spell).
- **Values.** `Numerator.toFloat`, `float?` (also `inf`, `infinity` and `nan`).
-/

namespace CallSig.Decimal

open Text

/-! ## Texts -/

/-- An unsigned decimal `digits * 10 ^ exponent` as it is spelled. -/
structure Numerator where
  digits : Nat
  exponent : Int
  deriving Repr, DecidableEq

/-- An optional sign and what follows it; the flag is set for a minus. -/
def splitSign : List Char → Bool × List Char
  | '-' :: rest => (true, rest)
  | '+' :: rest => (false, rest)
  | cs => (false, cs)

/-- The exponent a text ends with: nothing, or a mark, an optional sign and digits. -/
def exponent? : List Char → Option Int
  | [] => some 0
  | c :: rest =>
    if c = 'e' ∨ c = 'E' then
      let (negative, digits) := splitSign rest
      (natural? 10 digits).map fun n => if negative then -(n : Int) else n
    else none

/-- What an unsigned decimal text spells. -/
def numerator? (cs : List Char) : Option Numerator :=
  let whole := cs.takeWhile Char.isDigit
  let rest := cs.dropWhile Char.isDigit
  let (fraction, tail) := match rest with
    | '.' :: after => (after.takeWhile Char.isDigit, after.dropWhile Char.isDigit)
    | _ => ([], rest)
  (natural? 10 (whole ++ fraction)).bind fun digits =>
    (exponent? tail).map fun exponent => ⟨digits, exponent - fraction.length⟩

/-! ## Values -/

/-- The float nearest to a decimal. Decimals far outside the range of floats are settled by their size. -/
def Numerator.toFloat (n : Numerator) : Float :=
  let magnitude := n.exponent + (Nat.toDigits 10 n.digits).length
  if n.digits = 0 ∨ magnitude < -400 then 0.0
  else if magnitude > 400 then 1.0 / 0.0
  else Float.ofScientific n.digits (n.exponent < 0) n.exponent.natAbs

/-- The float that a text denotes, names of the special values included in any letter case. -/
def float? (cs : List Char) : Option Float :=
  let (negative, body) := splitSign cs
  let name := String.ofList (body.map Char.toLower)
  let size :=
    if name = "inf" ∨ name = "infinity" then some (1.0 / 0.0)
    else if name = "nan" then some (0.0 / 0.0)
    else (numerator? body).map Numerator.toFloat
  size.map fun x => if negative then -x else x

end CallSig.Decimal
