import CallSig.Decimal.Shortest
import CallSig.Text.Basic

/-!
# `CallSig.Json` — JSON values and their text

A JSON value is written either compactly or over several lines with two spaces per level. Characters beyond
ASCII are written as they are, and object fields in their given order.

## Contents
- **Values.** `Json`, `floatStyle`.
- **Strings.** `hexDigit`, `escapeChar`, `stringText`.
- **Texts.** `Json.compact`, `Json.pretty`.
-/

namespace CallSig

/-! ## Values -/

/-- A JSON value. -/
inductive Json
  | null
  | bool (b : Bool)
  | int (n : Int)
  | float (x : Float)
  | string (s : String)
  | array (items : List Json)
  | object (fields : List (String × Json))
  deriving Inhabited

namespace Json

/-- Floats are written positionally from `1e-5` up to, but not including, `1e16`; a tie goes to the even digit,
and a positive exponent has a plus sign. -/
def floatStyle : Decimal.Style := ⟨-5, 15, .toEven, true⟩

/-! ## Strings -/

/-- A digit in base sixteen, in lower case. -/
def hexDigit (n : Nat) : Char :=
  if n < 10 then Char.ofNat ('0'.toNat + n) else Char.ofNat ('a'.toNat + (n - 10))

/-- The written form of one character inside a JSON string: quotes, backslashes and control characters are
escaped. -/
def escapeChar (c : Char) : List Char :=
  if c = '"' then ['\\', '"']
  else if c = '\\' then ['\\', '\\']
  else if c = '\n' then ['\\', 'n']
  else if c = '\r' then ['\\', 'r']
  else if c = '\t' then ['\\', 't']
  else if c = '\x08' then ['\\', 'b']
  else if c = '\x0c' then ['\\', 'f']
  else if c.toNat < 0x20 then ['\\', 'u', '0', '0', hexDigit (c.toNat / 16), hexDigit (c.toNat % 16)]
  else [c]

/-- The written form of a string. -/
def stringText (s : String) : String := String.ofList ('"' :: s.toList.flatMap escapeChar ++ ['"'])

/-! ## Texts -/

mutual

/-- The text of a value without any space. -/
def compact : Json → String
  | null => "null"
  | bool b => if b then "true" else "false"
  | int n => toString n
  | float x => floatStyle.text x
  | string s => stringText s
  | array items => "[" ++ Text.join "," (compactItems items) ++ "]"
  | object fields => "\x7b" ++ Text.join "," (compactFields fields) ++ "\x7d"

/-- The compact texts of the items of an array. -/
def compactItems : List Json → List String
  | [] => []
  | item :: items => compact item :: compactItems items

/-- The compact texts of the fields of an object. -/
def compactFields : List (String × Json) → List String
  | [] => []
  | (name, value) :: fields => (stringText name ++ ":" ++ compact value) :: compactFields fields

end

/-- Spaces for a nesting level. -/
def indentation (level : Nat) : String := String.ofList (List.replicate (2 * level) ' ')

/-- Items between brackets: each on a line of its own one level deeper, and nothing between them if there are
no items. -/
def block (level : Nat) (opener closer : String) (items : List String) : String :=
  if items.isEmpty then opener ++ closer
  else
    let inner := "\n" ++ indentation (level + 1)
    opener ++ inner ++ Text.join ("," ++ inner) items ++ "\n" ++ indentation level ++ closer

mutual

/-- The text of a value over several lines, at a nesting level. -/
def prettyAt (level : Nat) : Json → String
  | array items => block level "[" "]" (prettyItems (level + 1) items)
  | object fields => block level "\x7b" "\x7d" (prettyFields (level + 1) fields)
  | null => "null"
  | bool b => if b then "true" else "false"
  | int n => toString n
  | float x => floatStyle.text x
  | string s => stringText s

/-- The texts of the items of an array. -/
def prettyItems (level : Nat) : List Json → List String
  | [] => []
  | item :: items => prettyAt level item :: prettyItems level items

/-- The texts of the fields of an object. -/
def prettyFields (level : Nat) : List (String × Json) → List String
  | [] => []
  | (name, value) :: fields => (stringText name ++ ": " ++ prettyAt level value) :: prettyFields level fields

end

/-- The text of a value over several lines. -/
def pretty (json : Json) : String := prettyAt 0 json

end Json

end CallSig
