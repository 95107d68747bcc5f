/-!
# `CallSig.Reserved` — names the host language keeps for itself

A native name that is a reserved word of the host language cannot name a host callable or parameter, so it
gets an underscore at its end.

## Contents
- **Words.** `reservedWords`, `isReserved`.
- **Escape.** `escapeReserved`, with `escapeReserved_of_not_reserved`.
-/

namespace CallSig

/-! ## Words -/

/-- The reserved words of the host language. -/
def reservedWords : List String :=
  ["False", "None", "True", "and", "as", "assert", "async", "await", "break", "class", "continue", "def", "del",
   "elif", "else", "except", "finally", "for", "from", "global", "if", "import", "in", "is", "lambda", "nonlocal",
   "not", "or", "pass", "raise", "return", "try", "while", "with", "yield"]

/-- Whether a name is a reserved word. -/
def isReserved (name : String) : Bool := reservedWords.contains name

/-! ## Escape -/

/-- The name, with an underscore after it if it is reserved. -/
def escapeReserved (name : String) : String := if isReserved name then name ++ "_" else name

theorem escapeReserved_of_not_reserved {name : String} (h : isReserved name = false) :
    escapeReserved name = name := by
  simp [escapeReserved, h]

end CallSig
