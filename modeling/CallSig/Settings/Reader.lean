import CallSig.Settings
import CallSig.Toml

/-!
# `CallSig.Settings.Reader` — settings from their text

The text of settings is a TOML text with four known keys. Each may be set once and must have a value of its
type; aliases are set in a table of their own, by dotted keys, or as an inline table, and a date in place of
this table counts as a table with one entry. Anything else makes the text unreadable.

## Contents
- **Collecting.** `TableForm`, `dateTimeKey`, `Collected`, `Collected.addAlias`, `Collected.assign`, `Collected.add`.
- **Reading.** `Settings.ofToml?`, `Settings.read`.
-/

namespace CallSig.Settings

/-! ## Collecting -/

/-- How the table of aliases has been opened. -/
inductive TableForm
  | absent
  /-- By dotted keys, so that further ones may follow. -/
  | dotted
  /-- As a whole. -/
  | closed
  deriving DecidableEq

/-- The key under which a date or time, taken as a table, has its text. -/
def dateTimeKey : String := "$__toml_private_datetime"

/-- What the statements read so far have set. -/
structure Collected where
  depth? : Option Nat
  returns? : Option (List String)
  strict? : Option Bool
  aliases : Dict String
  form : TableForm
  /-- Whether the statements stand under the header of the aliases. -/
  inAliases : Bool

namespace Collected

/-- Nothing is set. -/
def start : Collected := ⟨none, none, none, .empty, .absent, false⟩

/-- Sets one alias, which must be new. -/
def addAlias (s : Collected) (path : List String) (value : Toml.Value) : Option Collected :=
  match path, value with
  | [token], .string target =>
    if s.aliases.contains token then none else some { s with aliases := s.aliases.insert token target }
  | _, _ => none

/-- The strings among values, if all are strings. -/
def strings? : List Toml.Value → Option (List String)
  | [] => some []
  | .string s :: rest => (strings? rest).map (s :: ·)
  | _ :: _ => none

/-- Sets a key outside the table of aliases. -/
def assign (s : Collected) (path : List String) (value : Toml.Value) : Option Collected :=
  match path, value with
  | ["bracket_depth"], .integer n =>
    if s.depth?.isSome ∨ n < 0 then none else some { s with depth? := some n.toNat }
  | ["optional_returns"], .array items =>
    if s.returns?.isSome then none else (strings? items).map fun names => { s with returns? := some names }
  | ["strict"], .boolean b => if s.strict?.isSome then none else some { s with strict? := some b }
  | ["aliases"], .table items =>
    if s.form = .absent then items.foldlM (fun s e => s.addAlias e.1 e.2) { s with form := .closed } else none
  | ["aliases"], .dateTime d =>
    if s.form = .absent then some { s with aliases := s.aliases.insert dateTimeKey d.text, form := .closed } else none
  | "aliases" :: rest, value =>
    if s.form = .closed ∨ rest.isEmpty then none else { s with form := .dotted }.addAlias rest value
  | _, _ => none

/-- Takes in one statement. -/
def add (s : Collected) : Toml.Statement → Option Collected
  | .header false ["aliases"] => if s.form = .absent then some { s with form := .closed, inAliases := true } else none
  | .header _ _ => none
  | .assign path value => if s.inAliases then s.addAlias path value else s.assign path value

end Collected

/-! ## Reading -/

/-- The settings that a text sets; what it does not set is standard. -/
def ofToml? (text : String) : Option Settings := do
  let statements ← Toml.read? text
  let s ← statements.foldlM Collected.add Collected.start
  return {
    bracketDepth := s.depth?.getD standard.bracketDepth
    optionalReturns := s.returns?.getD standard.optionalReturns
    aliases := s.aliases
    strict := s.strict?.getD standard.strict
  }

/-- The valid settings that a text sets. -/
def read (text : String) : Except SettingsError Settings :=
  match ofToml? text with
  | none => .error .unreadable
  | some s => s.validate.map fun _ => s

end CallSig.Settings
