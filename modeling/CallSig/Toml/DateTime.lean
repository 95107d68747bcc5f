import CallSig.Text.Numeral

/-!
# `CallSig.Toml.DateTime` — dates and times

A date has a day that its month has, leap years counted; a time has a second up to 60, for leap seconds, and
keeps nine digits after the point. A date may be followed by a time, and that time by its offset from universal
time; a time without a date has no offset.

## Contents
- **Dates and times.** `Date`, `Time`, `Offset`, `DateTime`.
- **Reading.** `monthDays`, `date?`, `time?`, `offset?`, `dateTime?`.
- **Texts.** `Date.text`, `Time.text`, `Offset.text`, `DateTime.text`.
-/

namespace CallSig.Toml

/-! ## Dates and times -/

/-- A day of the calendar. -/
structure Date where
  year : Nat
  month : Nat
  day : Nat
  deriving Repr, DecidableEq

/-- A time of day. -/
structure Time where
  hour : Nat
  minute : Nat
  second : Nat
  nanosecond : Nat
  deriving Repr, DecidableEq

/-- How far a local time is from universal time. -/
inductive Offset
  /-- Universal time itself, by its letter. -/
  | universal
  | minutes (n : Int)
  deriving Repr, DecidableEq

/-- A date, a time of day, or both; a time with a date may have an offset. -/
inductive DateTime
  | date (d : Date)
  | time (t : Time)
  | both (d : Date) (t : Time) (offset? : Option Offset)
  deriving Repr, DecidableEq

/-! ## Reading -/

/-- A number of exactly so many digits, and what follows it. -/
def fixed? (count : Nat) (cs : List Char) : Option (Nat × List Char) :=
  let digits := cs.take count
  if digits.length = count then (Text.natural? 10 digits).map fun n => (n, cs.drop count) else none

/-- A number of two digits between bounds, and what follows it. -/
def twoDigits? (low high : Nat) (cs : List Char) : Option (Nat × List Char) :=
  (fixed? 2 cs).bind fun (n, rest) => if low ≤ n ∧ n ≤ high then some (n, rest) else none

/-- What follows a character. -/
def after? (c : Char) : List Char → Option (List Char)
  | [] => none
  | d :: rest => if d = c then some rest else none

/-- Whether a year has a leap day. -/
def isLeap (year : Nat) : Bool := year % 4 == 0 && (year % 100 != 0 || year % 400 == 0)

/-- The number of days of a month. -/
def monthDays (year month : Nat) : Nat :=
  if month = 2 then if isLeap year then 29 else 28
  else if month = 4 ∨ month = 6 ∨ month = 9 ∨ month = 11 then 30
  else 31

/-- A date, and what follows it. -/
def date? (cs : List Char) : Option (Date × List Char) := do
  let (year, rest) ← fixed? 4 cs
  let (month, rest) ← twoDigits? 1 12 (← after? '-' rest)
  let (day, rest) ← twoDigits? 1 (monthDays year month) (← after? '-' rest)
  return (⟨year, month, day⟩, rest)

/-- The nanoseconds that the digits after a point write, and what follows them; none without a point. -/
def fraction (cs : List Char) : Nat × List Char :=
  match cs with
  | '.' :: rest =>
    let digits := rest.takeWhile Char.isDigit
    let kept := digits.take 9
    match Text.natural? 10 digits with
    | some _ =>
      (((Text.natural? 10 (kept ++ List.replicate (9 - kept.length) '0')).getD 0), rest.dropWhile Char.isDigit)
    | none => (0, cs)
  | _ => (0, cs)

/-- A time of day, and what follows it. -/
def time? (cs : List Char) : Option (Time × List Char) := do
  let (hour, rest) ← twoDigits? 0 23 cs
  let (minute, rest) ← twoDigits? 0 59 (← after? ':' rest)
  let (second, rest) ← twoDigits? 0 60 (← after? ':' rest)
  let (nanosecond, rest) := fraction rest
  return (⟨hour, minute, second, nanosecond⟩, rest)

/-- The minutes of an offset after its sign, and what follows it. -/
def offsetMinutes? (cs : List Char) : Option (Nat × List Char) := do
  let (hours, rest) ← twoDigits? 0 23 cs
  let (minutes, rest) ← twoDigits? 0 59 (← after? ':' rest)
  return (60 * hours + minutes, rest)

/-- An offset, and what follows it. -/
def offset? : List Char → Option (Offset × List Char)
  | 'Z' :: rest => some (.universal, rest)
  | 'z' :: rest => some (.universal, rest)
  | '+' :: rest => (offsetMinutes? rest).map fun (n, rest) => (.minutes n, rest)
  | '-' :: rest => (offsetMinutes? rest).map fun (n, rest) => (.minutes (-(n : Int)), rest)
  | _ => none

/-- The time after a date and the letter or space between them, and what follows it. -/
def laterTime? : List Char → Option (Time × List Char)
  | [] => none
  | c :: rest => if c = 'T' ∨ c = 't' ∨ c = ' ' then time? rest else none

/-- A date, a time, or both, and what follows. -/
def dateTime? (cs : List Char) : Option (DateTime × List Char) :=
  match date? cs with
  | none => (time? cs).map fun (t, rest) => (.time t, rest)
  | some (d, rest) =>
    match laterTime? rest with
    | none => some (.date d, rest)
    | some (t, rest) =>
      match offset? rest with
      | none => some (.both d t none, rest)
      | some (offset, rest) => some (.both d t (some offset), rest)

/-! ## Texts -/

/-- The text of a date. -/
def Date.text (d : Date) : List Char :=
  Text.padded 4 d.year ++ ['-'] ++ Text.padded 2 d.month ++ ['-'] ++ Text.padded 2 d.day

/-- The text of a time of day; its fraction does not end in a zero. -/
def Time.text (t : Time) : List Char :=
  let fraction := ((Text.padded 9 t.nanosecond).reverse.dropWhile (· == '0')).reverse
  Text.padded 2 t.hour ++ [':'] ++ Text.padded 2 t.minute ++ [':'] ++ Text.padded 2 t.second ++
    (if fraction.isEmpty then [] else '.' :: fraction)

/-- The text of an offset; none at all, spelled in digits, has a plus sign. -/
def Offset.text : Offset → List Char
  | .universal => ['Z']
  | .minutes n =>
    (if n < 0 then '-' else '+') :: Text.padded 2 (n.natAbs / 60) ++ [':'] ++ Text.padded 2 (n.natAbs % 60)

/-- The text of a date or time: a capital letter stands between the two. -/
def DateTime.text : DateTime → String
  | .date d => String.ofList d.text
  | .time t => String.ofList t.text
  | .both d t offset? =>
    String.ofList (d.text ++ ['T'] ++ t.text ++ match offset? with
      | some offset => offset.text
      | none => [])

end CallSig.Toml
