import CallSig.Json
import CallSig.Settings
import CallSig.Toml

/-!
# `CallSig.Settings.Printer` — the text of settings

Settings are written as a TOML text with one line per key and a table of aliases at the end. An array with more
than one member has a line for each of them.

## Contents
- **Parts.** `escapeChar`, `stringText`, `keyText`, `arrayText`.
- **Settings.** `Settings.toml`.
-/

namespace CallSig.Settings

/-! ## Parts -/

/-- The written form of one character inside a string. -/
def escapeChar (c : Char) : List Char :=
  if c = '"' then ['\\', '"']
  else if c = '\\' then ['\\', '\\']
  else if c.toNat < 0x20 ∨ c.toNat = 0x7F then
    ['\\', 'u', '0', '0', Json.hexDigit (c.toNat / 16), Json.hexDigit (c.toNat % 16)]
  else [c]

/-- The written form of a string. -/
def stringText (s : String) : String := String.ofList ('"' :: s.toList.flatMap escapeChar ++ ['"'])

/-- The written form of a key: without quotes where its characters allow it. -/
def keyText (key : String) : String :=
  if !key.isEmpty && key.toList.all Toml.isBareKeyChar then key else stringText key

/-- The written form of an array of strings. -/
def arrayText : List String → String
  | [] => "[]"
  | [s] => "[" ++ stringText s ++ "]"
  | ss => "[\n" ++ String.join (ss.map fun s => "    " ++ stringText s ++ ",\n") ++ "]"

/-! ## Settings -/

/-- The text of settings. -/
def toml (s : Settings) : String :=
  "bracket_depth = " ++ toString s.bracketDepth ++ "\n" ++
    "optional_returns = " ++ arrayText s.optionalReturns ++ "\n" ++
    "strict = " ++ (if s.strict then "true" else "false") ++ "\n" ++
    "\n[aliases]\n" ++
    String.join (s.aliases.entries.map fun e => keyText e.1 ++ " = " ++ stringText e.2 ++ "\n")

end CallSig.Settings
