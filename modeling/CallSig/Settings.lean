import CallSig.Dict
import CallSig.Lexeme.Pieces
import CallSig.Text.Blank

/-!
# `CallSig.Settings` — how a catalog works

The settings say how deeply brackets may nest, which functions may return `None`, which tokens are aliases, and
whether a token that cannot be resolved is an error.

## Contents
- **Settings.** `Settings`, `Settings.standard`, `maxDepth`.
- **Checks.** `SettingsError`, `Settings.validate`.
-/

namespace CallSig

/-! ## Settings -/

/-- How a catalog works. -/
structure Settings where
  /-- How deeply brackets may nest in an argument list. -/
  bracketDepth : Nat
  /-- The full names of functions whose result may be `None`. -/
  optionalReturns : List String
  /-- Tokens that are resolved like others. -/
  aliases : Dict String
  /-- Whether a token that cannot be resolved is an error. -/
  strict : Bool

/-- The deepest nesting that settings may ask for. -/
def Settings.maxDepth : Nat := 16

/-- The settings where nothing else is asked for. -/
def Settings.standard : Settings := ⟨Lexeme.defaultDepth, [], .empty, false⟩

/-! ## Checks -/

/-- What is wrong with settings. -/
inductive SettingsError
  /-- The text of the settings cannot be read. -/
  | unreadable
  | depthOutOfRange (depth : Nat)
  | emptyReturn
  | emptyAlias (token target : String)
  | selfAlias (token : String)
  deriving Repr, DecidableEq

/-- The error in words; there are none for a text that cannot be read. -/
def SettingsError.message? : SettingsError → Option String
  | unreadable => none
  | depthOutOfRange depth =>
    some s!"Invalid config: bracket_depth must be between 1 and {Settings.maxDepth}, got {depth}"
  | emptyReturn => some "Invalid config: optional_returns entries cannot be empty"
  | emptyAlias token target => some s!"Invalid config: Alias '{token}' -> '{target}' has an empty side"
  | selfAlias token => some s!"Invalid config: Alias '{token}' points to itself"

namespace Settings

/-- Whether a string has nothing but blanks. -/
def isBlankString (s : String) : Bool := (Text.trim s.toList).isEmpty

/-- Checks an alias: neither side is blank, and it does not point to itself. -/
def checkAlias (token target : String) : Except SettingsError Unit :=
  if isBlankString token ∨ isBlankString target then .error (.emptyAlias token target)
  else if token = target then .error (.selfAlias token)
  else .ok ()

/-- Checks the depth, then the functions that may return `None`, then the aliases in the order of their
tokens. -/
def validate (s : Settings) : Except SettingsError Unit :=
  if s.bracketDepth = 0 ∨ maxDepth < s.bracketDepth then .error (.depthOutOfRange s.bracketDepth)
  else if s.optionalReturns.any isBlankString then .error .emptyReturn
  else s.aliases.entries.forM fun e => checkAlias e.1 e.2

end Settings

end CallSig
