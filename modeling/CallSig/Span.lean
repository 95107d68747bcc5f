/-!
# `CallSig.Span` — byte ranges

A span is a range of bytes of some text, given by its first byte and the byte after its last.

## Contents
- **Spans.** `Span`, `cover`, `shift`, `size`, `isEmpty`, `text`.
-/

namespace CallSig

/-- A range of bytes: from `start` up to, but not including, `stop`. -/
structure Span where
  start : Nat
  stop : Nat
  deriving Repr, DecidableEq, Inhabited

namespace Span

/-- The smallest span that contains both. -/
def cover (a b : Span) : Span := ⟨min a.start b.start, max a.stop b.stop⟩

/-- The span moved to the right. -/
def shift (a : Span) (offset : Nat) : Span := ⟨a.start + offset, a.stop + offset⟩

/-- The span with neither end beyond the limit. -/
def clamp (a : Span) (limit : Nat) : Span := ⟨min a.start limit, min a.stop limit⟩

/-- The number of bytes. -/
def size (a : Span) : Nat := a.stop - a.start

/-- Whether the span contains no byte. -/
def isEmpty (a : Span) : Bool := a.size == 0

/-- The span with two dots between its ends. -/
def text (a : Span) : String := s!"{a.start}..{a.stop}"

end Span

end CallSig
