/-!
# `CallSig.Decimal.Shortest` — the shortest decimal that reads back

A binary float stands for the interval of reals that round to it. Its decimal text has the fewest digits
that a decimal in this interval can have; of the decimals with that many digits it is the nearest to the
float, and a `Tie` decides between two that are equally near.

## Contents
- **Interval.** `fractionBound`, `signBit`, `Interval`, `Interval.ofBits` (the reals that round to a float).
- **Choice.** `Tie`, `Interval.gridPoint?` (the best point of one decimal grid), `Interval.shortest`.
- **Text.** `Style` (the positional range, the tie, the plus sign), `Style.text`.
-/

namespace CallSig.Decimal

/-! ## Interval -/

/-- The number of fractions a float can have: 52 bits. -/
def fractionBound : Nat := 0x10000000000000

/-- The bit that is set in negative floats. -/
def signBit : Nat := 0x8000000000000000

/-- The reals that round to a positive float: from `low / unit` to `high / unit`, around `value / unit`.
The ends belong to the interval when `closed` is set. -/
structure Interval where
  low : Nat
  value : Nat
  high : Nat
  unit : Nat
  closed : Bool

/-- The interval of the float `mantissa * 2 ^ exponent`. A quarter of the spacing is the common unit; the
neighbour below is half as far away when `narrow` is set. -/
def Interval.around (mantissa : Nat) (exponent : Int) (narrow : Bool) : Interval :=
  let up := Nat.pow 2 (exponent - 2).toNat
  { low := (4 * mantissa - (if narrow then 1 else 2)) * up
    value := 4 * mantissa * up
    high := (4 * mantissa + 2) * up
    unit := Nat.pow 2 (2 - exponent).toNat
    closed := mantissa % 2 == 0 }

/-- The interval of the positive finite float with these bits (the sign bit is not looked at). -/
def Interval.ofBits (bits : UInt64) : Interval :=
  let fraction : Nat := bits.toNat % fractionBound
  let biased : Nat := bits.toNat / fractionBound % 0x800
  if biased = 0 then .around fraction (-1074) false
  else .around (fractionBound + fraction) ((biased : Int) - 1075) (fraction == 0 && biased != 1)

/-! ## Choice -/

/-- The number of decimal digits of a natural number, at least one. -/
def digitCount (n : Nat) : Nat := (Nat.toDigits 10 n).length

/-- The decimal exponent of the leading digit of `value / unit`, for floats of the usual range. -/
def Interval.magnitude (i : Interval) : Int :=
  (digitCount (i.value * Nat.pow 10 400 / i.unit) : Int) - 401

/-- Whether the interval, multiplied by `scale`, holds `n / unit`. -/
def Interval.holds (i : Interval) (scale n : Nat) : Bool :=
  if i.closed then i.low * scale ≤ n && n ≤ i.high * scale
  else i.low * scale < n && n < i.high * scale

/-- Which of two equally near decimals is taken. -/
inductive Tie
  /-- The larger one. -/
  | up
  /-- The one whose last digit is even. -/
  | toEven
  deriving Repr, DecidableEq

/-- Whether `n` is taken rather than `n + 1` for a value that exceeds `n` by the fraction `excess / step`. -/
def Tie.takesLower (tie : Tie) (n excess step : Nat) : Bool :=
  2 * excess < step || (2 * excess == step && tie == .toEven && n % 2 == 0)

/-- The multiple of `10 ^ grid` in the interval that is nearest to the value, if one of the value's two
neighbours on this grid lies in the interval. -/
def Interval.gridPoint? (tie : Tie) (i : Interval) (grid : Int) : Option Nat :=
  let scale := Nat.pow 10 (-grid).toNat
  let step := i.unit * Nat.pow 10 grid.toNat
  let below := i.value * scale / step
  let above := below + 1
  match i.holds scale (below * step), i.holds scale (above * step) with
  | true, true => some (if tie.takesLower below (i.value * scale - below * step) step then below else above)
  | true, false => some below
  | false, true => some above
  | false, false => none

/-- A positive decimal `digits * 10 ^ exponent`. -/
structure Scaled where
  digits : Nat
  exponent : Int
  deriving Repr, DecidableEq

/-- The decimal without the zeros at the end of its digits; the fuel bounds how many are removed. -/
def Scaled.reduce : Nat → Scaled → Scaled
  | 0, d => d
  | fuel + 1, d => if d.digits % 10 = 0 then reduce fuel ⟨d.digits / 10, d.exponent + 1⟩ else d

/-- The decimal with the fewest digits in the interval; seventeen are always enough. -/
def Interval.shortest (tie : Tie) (i : Interval) : Scaled :=
  let top := i.magnitude
  let found := (List.range 17).findSome? fun (n : Nat) =>
    (i.gridPoint? tie (top - n)).map fun digits => Scaled.mk digits (top - n)
  (found.getD ⟨i.value / i.unit, 0⟩).reduce 20

/-! ## Text -/

/-- How floats are written. -/
structure Style where
  /-- The lowest decimal exponent of the leading digit for which the text is positional. -/
  lowest : Int
  /-- The highest such exponent. -/
  highest : Int
  tie : Tie
  /-- Whether a positive exponent has a plus sign. -/
  plus : Bool

/-- Positional text: at least one digit on either side of the point. -/
def positional (digits : List Char) (leading : Int) : List Char :=
  if leading < 0 then
    ['0', '.'] ++ List.replicate (-leading - 1).toNat '0' ++ digits
  else
    let whole := digits.take (leading.toNat + 1)
    let zeros := List.replicate (leading.toNat + 1 - digits.length) '0'
    let fraction := digits.drop (leading.toNat + 1)
    whole ++ zeros ++ ['.'] ++ (if fraction.isEmpty then ['0'] else fraction)

/-- Exponent text: one digit before the point, no point without digits after it. -/
def exponential (plus : Bool) (digits : List Char) (leading : Int) : List Char :=
  let fraction := digits.drop 1
  let sign := if plus ∧ 0 ≤ leading then ['+'] else []
  digits.take 1 ++ (if fraction.isEmpty then [] else '.' :: fraction) ++ ['e'] ++ sign ++ (toString leading).toList

/-- The text of a positive decimal in this style. -/
def Style.scaledText (style : Style) (d : Scaled) : List Char :=
  let digits := Nat.toDigits 10 d.digits
  let leading := d.exponent + digits.length - 1
  if style.lowest ≤ leading ∧ leading ≤ style.highest then positional digits leading
  else exponential style.plus digits leading

/-- The text of a float in this style: `NaN`, `inf`, or the shortest decimal that reads back, with a minus
sign for a negative one. -/
def Style.text (style : Style) (x : Float) : String :=
  let bits := x.toBits
  let magnitude := bits.toNat % signBit
  let infinite := 0x7FF0000000000000
  if magnitude > infinite then "NaN"
  else
    let body :=
      if magnitude = infinite then ['i', 'n', 'f']
      else if magnitude = 0 then ['0', '.', '0']
      else style.scaledText ((Interval.ofBits bits).shortest style.tie)
    String.ofList (if bits.toNat ≥ signBit then '-' :: body else body)

end CallSig.Decimal
