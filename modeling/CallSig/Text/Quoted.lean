/-!
# `CallSig.Text.Quoted` — quoted text

A quoted text stands between single quotes; inside, a quote and a backslash carry a backslash, and a line
feed and a tab are written `\n` and `\t`. Nothing else is escaped.

## Contents
- **Writing.** `escape` (one character), `quote` (characters), `quoted` (strings).
-/

namespace CallSig.Text

/-- The written form of one character inside quotes. -/
def escape (c : Char) : List Char :=
  if c = '\'' then ['\\', '\'']
  else if c = '\\' then ['\\', '\\']
  else if c = '\n' then ['\\', 'n']
  else if c = '\t' then ['\\', 't']
  else [c]

/-- The written form of a text: its characters escaped, between single quotes. -/
def quote (cs : List Char) : List Char := '\'' :: cs.flatMap escape ++ ['\'']

/-- The quoted form of a string. -/
def quoted (s : String) : String := String.ofList (quote s.toList)

end CallSig.Text
