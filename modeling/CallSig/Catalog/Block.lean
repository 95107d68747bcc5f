import CallSig.Overload
import CallSig.Span
import CallSig.Text.Blank

/-!
# `CallSig.Catalog.Block` — merged lines inside their block

A block is a list of raw lines joined by line feeds. Merging trims a line and may change or drop its overload
number, so a span of a merged line has to be moved to find the same bytes in the block.

## Contents
- **Lines of a block.** `blockText`, `lineStart`, `lineSpan`.
- **Moving spans.** `bodyStart`, `bodyShift`, `toBlock`.
- **Searching.** `tokenSpan`.
-/

namespace CallSig.Catalog

open Text

/-! ## Lines of a block -/

/-- The text of a block. -/
def blockText (lines : List String) : String := join "\n" lines

/-- The byte of the block at which a line starts. -/
def lineStart : List String → Nat → Nat
  | line :: lines, i + 1 => width line.toList + 1 + lineStart lines i
  | _, _ => 0

/-- The bytes of the block that form a line. -/
def lineSpan (start : Nat) (raw : List Char) : Span := ⟨start, start + width raw⟩

/-! ## Moving spans -/

/-- The byte of a raw line at which its body starts, after leading blanks, a number, and blanks again. -/
def bodyStart (raw : List Char) : Nat :=
  let lead := width raw - width (trimStart raw)
  let text := trim raw
  let body := (Overload.splitIndex text).2
  lead + (width text - width body) + (width body - width (trimStart body))

/-- How far the body of a raw line lies to the right of the body of its merged form. -/
def bodyShift (raw merged : List Char) : Nat :=
  bodyStart raw - (width merged - width (Overload.splitIndex merged).2)

/-- A span of a merged line as a span of the block; it does not reach beyond the raw line. -/
def toBlock (start : Nat) (raw merged : List Char) (span : Span) : Span :=
  (span.shift (start + bodyShift raw merged)).clamp (lineSpan start raw).stop

/-! ## Searching -/

/-- The first occurrence of a token in a raw line as a span of the block, or the whole line. -/
def tokenSpan (start : Nat) (raw token : List Char) : Span :=
  match offsetOf? token raw with
  | some at_ => ⟨start + at_, start + at_ + width token⟩
  | none => lineSpan start raw

end CallSig.Catalog
