import CallSig.Diagnostic
import CallSig.Json

/-!
# `CallSig.Report` — collected diagnostics

A report holds the diagnostics collected so far, oldest first, and the blocks they point into. Blocks are
registered under consecutive numbers and stay when diagnostics go.

## Contents
- **Reports.** `Report`, `addFile`, `push`, `retain`, `errorCount`, `drain`.
- **Places.** `locate` (line and column of a byte).
- **JSON.** `labelJson?`, `diagnosticJson`, `json`.
-/

namespace CallSig

/-! ## Reports -/

/-- A registered block. -/
structure SourceFile where
  name : String
  source : String
  deriving Repr, DecidableEq

/-- The diagnostics collected so far and the blocks they point into. -/
structure Report where
  files : List SourceFile
  diagnostics : List Diagnostic
  deriving Repr, DecidableEq

namespace Report

/-- The report without diagnostics and blocks. -/
def empty : Report := ⟨[], []⟩

/-- Registers a block; the number is the one it can be pointed to by. -/
def addFile (r : Report) (name source : String) : Nat × Report :=
  (r.files.length, { r with files := r.files ++ [⟨name, source⟩] })

/-- Adds a diagnostic. -/
def push (r : Report) (d : Diagnostic) : Report := { r with diagnostics := r.diagnostics ++ [d] }

/-- Keeps the diagnostics that satisfy `keep`. -/
def retain (r : Report) (keep : Diagnostic → Bool) : Report :=
  { r with diagnostics := r.diagnostics.filter keep }

/-- The number of diagnostics that are errors or worse. -/
def errorCount (r : Report) : Nat := r.diagnostics.countP fun d => d.severity.isError

/-- Hands out all diagnostics; the blocks stay. -/
def drain (r : Report) : List Diagnostic × Report := (r.diagnostics, { r with diagnostics := [] })

end Report

/-! ## Places -/

/-- A line and a column, both counted from one. -/
structure Place where
  line : Nat
  column : Nat
  deriving Repr, DecidableEq

namespace Place

/-- The place reached from another one, at byte `offset`, by passing the characters that end at or before the
byte `target`. A line feed leads to the next line. -/
def advance (target offset : Nat) (place : Place) : List Char → Place
  | [] => place
  | c :: cs =>
    if offset + c.utf8Size ≤ target then
      advance target (offset + c.utf8Size)
        (if c = '\n' then ⟨place.line + 1, 1⟩ else ⟨place.line, place.column + 1⟩) cs
    else place

/-- The place of a byte of a text. -/
def locate (source : String) (target : Nat) : Place := advance target 0 ⟨1, 1⟩ source.toList

end Place

/-! ## JSON -/

namespace Report

/-- The JSON form of a label; a label into a block that is not registered has none. -/
def labelJson? (r : Report) (label : Label) : Option Json :=
  r.files[label.file]?.map fun file =>
    let first := Place.locate file.source label.span.start
    let last := Place.locate file.source label.span.stop
    .object [
      ("file", .string file.name),
      ("start_line", .int first.line),
      ("start_column", .int first.column),
      ("end_line", .int last.line),
      ("end_column", .int last.column),
      ("message", .string label.message),
      ("style", .string "primary")]

/-- The JSON form of a diagnostic. -/
def diagnosticJson (r : Report) (d : Diagnostic) : Json :=
  .object [
    ("code", match d.code? with
      | some code => .string code.text
      | none => .null),
    ("severity", .string d.severity.name),
    ("message", .string d.message),
    ("labels", .array (d.labels.filterMap r.labelJson?)),
    ("notes", .array (d.notes.map .string))]

/-- The JSON form of all diagnostics. -/
def json (r : Report) : Json := .array (r.diagnostics.map r.diagnosticJson)

end Report

end CallSig
