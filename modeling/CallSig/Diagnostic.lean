import CallSig.Lexicon.Modules
import CallSig.ParseError
import CallSig.Variant.Assembly

/-!
# `CallSig.Diagnostic` — what is reported about a block

A diagnostic has a severity, a message, labels that point into registered blocks, and notes. Those the library
raises itself also have a code, whose first two characters name its family.

## Contents
- **Codes.** `Family`, `Code`, `Code.text`.
- **Diagnostics.** `Severity`, `Label`, `Diagnostic`, `file?`.
- **Causes.** `ofParseError`, `ofAssemblyError`, `ofMiss`, `ofModuleError`.
-/

namespace CallSig

/-! ## Codes -/

/-- The families of codes. -/
inductive Family
  /-- Faults in the grammar of a line. -/
  | grammar
  /-- Faults in the structure of an argument list. -/
  | structural
  /-- Tokens and modules that could not be resolved. -/
  | resolution
  deriving Repr, DecidableEq

/-- The code of a diagnostic. -/
structure Code where
  family : Family
  number : Nat
  deriving Repr, DecidableEq

/-- The text of a code: the letter of its severity, the digit of its family, and a number of three digits. -/
def Code.text (c : Code) : String :=
  match c.family with
  | .grammar => s!"E{1000 + c.number}"
  | .structural => s!"E{2000 + c.number}"
  | .resolution => s!"W{3000 + c.number}"

/-! ## Diagnostics -/

/-- How bad something is. -/
inductive Severity
  | bug
  | error
  | warning
  | note
  | help
  deriving Repr, DecidableEq

namespace Severity

/-- The name of a severity. -/
def name : Severity → String
  | bug => "bug"
  | error => "error"
  | warning => "warning"
  | note => "note"
  | help => "help"

/-- Whether the severity is an error or worse. -/
def isError : Severity → Bool
  | bug => true
  | error => true
  | _ => false

end Severity

/-- A place in a registered block, with what is said about it. -/
structure Label where
  /-- The number under which the block is registered. -/
  file : Nat
  span : Span
  message : String
  deriving Repr, DecidableEq

/-- One finding. -/
structure Diagnostic where
  severity : Severity
  code? : Option Code
  message : String
  labels : List Label
  notes : List String
  deriving Repr, DecidableEq

namespace Diagnostic

/-- The block that the first label points into. -/
def file? (d : Diagnostic) : Option Nat := d.labels.head?.map Label.file

/-- The note that carries a suggestion. -/
def helpNote (text : String) : String := "help: " ++ text

/-! ## Causes -/

/-- The finding for a line that was skipped because of a fault in its grammar; the span is one of the block. -/
def ofParseError (e : ParseError) (file : Nat) (span : Span) : Diagnostic where
  severity := .error
  code? := some ⟨.grammar, e.fault.number⟩
  message := e.message
  labels := [⟨file, span, "line skipped"⟩]
  notes := (e.suggestion?.map helpNote).toList

/-- The finding for a line that was skipped because of its arguments; the span is one of the block. -/
def ofAssemblyError (e : AssemblyError) (file : Nat) (span : Span) : Diagnostic where
  severity := .error
  code? := some ⟨.structural, e.number⟩
  message := e.message
  labels := [⟨file, span, "overload skipped"⟩]
  notes := match e with
    | .kindRegression .. => [helpNote "Parameters after '*args' must follow a '*' marker"]
    | _ => []

/-- The number of a reason for giving up on a token. -/
def missNumber : MissReason → Nat
  | .unknownToken => 1
  | .notAContainer => 2
  | .badArguments => 3
  | .tooDeep => 4

/-- A miss in words. -/
def missMessage (m : Miss) : String :=
  match m.reason with
  | .unknownToken => s!"Cannot resolve native token '{m.token}'"
  | .notAContainer => s!"'{m.token}' applies arguments to a non-generic type"
  | .badArguments => s!"'{m.token}' has the wrong number of type arguments"
  | .tooDeep => s!"'{m.token}' nests too deeply to resolve"

/-- The finding for a token that was given up on: a warning, or an error where misses are not tolerated. -/
def ofMiss (m : Miss) (file : Nat) (span : Span) (strict : Bool) : Diagnostic where
  severity := if strict then .error else .warning
  code? := some ⟨.resolution, missNumber m.reason⟩
  message := missMessage m
  labels := [⟨file, span, "kept verbatim"⟩]
  notes := []

/-- The finding for a vocabulary that could not be installed. -/
def ofModuleError (e : ModuleError) : Diagnostic where
  severity := .warning
  code? := some ⟨.resolution, 101⟩
  message := e.message
  labels := []
  notes := [s!"tokens from '{e.name}' stay unresolved until it loads"]

end Diagnostic

end CallSig
