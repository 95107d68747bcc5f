import CallSig.Dict
import CallSig.Text.Blank
import CallSig.Text.Numeral

/-!
# `CallSig.Overload` — merging numbered lines

The lines of one overloaded function are numbered downwards to zero. Overloads that the native side tells apart
may have the same body once written for the host, so each group is replaced by its distinct bodies: sorted,
numbered anew from zero, and written highest number first. A group with one body left loses its number.

## Contents
- **Numbers.** `splitIndex?` (the number before a line), `splitIndex` (with a body in any case).
- **Groups.** `Merged`, `flush` (a finished group), `mergeFrom`, `merge`.
-/

namespace CallSig.Overload

/-! ## Numbers -/

/-- The number before a line and the body after its colon. -/
def splitIndex? (line : List Char) : Option (Nat × List Char) :=
  let digits := line.takeWhile Char.isDigit
  match line.dropWhile Char.isDigit with
  | ':' :: body => if digits.isEmpty then none else (Text.word? digits).map fun n => (n, body)
  | _ => none

/-- The number before a line, if there is one, and the body. -/
def splitIndex (line : List Char) : Option Nat × List Char :=
  match splitIndex? line with
  | some (n, body) => (some n, body)
  | none => (none, line)

/-! ## Groups -/

/-- A line after merging, and the first input line that had its body. -/
structure Merged where
  text : String
  origin : Nat
  deriving Repr, DecidableEq

/-- The lines of a finished group, given as its bodies with their origins: body `i` in ascending order gets
number `i`, and the highest number comes first. -/
def flush (group : Dict Nat) : List Merged :=
  match group.entries with
  | [(body, origin)] => [⟨body, origin⟩]
  | entries => (entries.zipIdx.map fun ((body, origin), i) => ⟨s!"{i}:{body}", origin⟩).reverse

/-- The merged form of the lines from position `origin` on, with the bodies of the open group. -/
def mergeFrom (group : Dict Nat) (origin : Nat) : List String → List Merged
  | [] => flush group
  | line :: rest =>
    let text := Text.trim line.toList
    if text.isEmpty then mergeFrom group (origin + 1) rest
    else match splitIndex? text with
      | none => ⟨String.ofList text, origin⟩ :: mergeFrom group (origin + 1) rest
      | some (index, body) =>
        let group := group.insertNew (String.ofList (Text.trim body)) origin
        if index = 0 then flush group ++ mergeFrom .empty (origin + 1) rest
        else mergeFrom group (origin + 1) rest

/-- The merged form of the lines: they are trimmed, blank ones are dropped, and a group ends at its line
numbered zero or at the end. -/
def merge (lines : List String) : List Merged := mergeFrom .empty 0 lines

end CallSig.Overload
