/-!
# `CallSig.Text.Numeral` — whole numbers in texts

Reading digits in a radix, with the bounds of a machine word: an unsigned word is below `2 ^ 64` and may
carry one plus sign, a signed word lies in `-2 ^ 63 .. 2 ^ 63 - 1` and may carry one sign of either kind.

## Contents
- **Digits.** `digitValue?`, `natural?`, `padded`.
- **Words.** `wordBound`, `signedBound`, `word?`, `signedWord?`.
-/

namespace CallSig.Text

/-! ## Digits -/

/-- The value of a digit in the radix (at most 36, letters of either case), if it is one. -/
def digitValue? (radix : Nat) (c : Char) : Option Nat :=
  let value :=
    if c.isDigit then c.toNat - '0'.toNat
    else if c.isLower then c.toNat - 'a'.toNat + 10
    else if c.isUpper then c.toNat - 'A'.toNat + 10
    else radix
  if value < radix then some value else none

/-- The number that digits in the radix write after the number `n`. -/
def naturalFrom? (radix : Nat) (n : Nat) : List Char → Option Nat
  | [] => some n
  | c :: cs => (digitValue? radix c).bind fun d => naturalFrom? radix (n * radix + d) cs

/-- The number that one or more digits in the radix write. -/
def natural? (radix : Nat) (cs : List Char) : Option Nat :=
  if cs.isEmpty then none else naturalFrom? radix 0 cs

/-- The decimal digits of a number, with zeros before them up to a width. -/
def padded (width n : Nat) : List Char :=
  let digits := Nat.toDigits 10 n
  List.replicate (width - digits.length) '0' ++ digits

/-! ## Words -/

/-- The first number that no unsigned machine word holds. -/
def wordBound : Nat := 0x10000000000000000

/-- The first number that no signed machine word holds. The least one that it holds is its negative. -/
def signedBound : Nat := 0x8000000000000000

/-- The unsigned word that decimal digits write, after at most one plus sign. -/
def word? (cs : List Char) : Option Nat :=
  let digits := match cs with
    | '+' :: rest => rest
    | _ => cs
  (natural? 10 digits).bind fun n => if n < wordBound then some n else none

/-- The signed word with this value, if there is one. -/
def signedOfInt? (n : Int) : Option Int64 :=
  if -(signedBound : Int) ≤ n ∧ n < (signedBound : Int) then some (Int64.ofInt n) else none

/-- The signed word that digits in the radix write, after at most one sign. -/
def signedWord? (radix : Nat) (cs : List Char) : Option Int64 :=
  match cs with
  | '-' :: rest => (natural? radix rest).bind fun n => signedOfInt? (-n)
  | '+' :: rest => (natural? radix rest).bind fun n => signedOfInt? n
  | _ => (natural? radix cs).bind fun n => signedOfInt? n

end CallSig.Text
