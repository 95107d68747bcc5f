import CallSig.Dict
import CallSig.Expression
import CallSig.Vocabulary.Baseline

/-!
# `CallSig.Lexicon` — what is known about native tokens

The lexicon maps native tokens to values, dotted paths to host objects, and aliases to their targets. It keeps
the vocabularies of modules that are not loaded yet, the tokens it gave up on, and counters of its work. Entries
are added or replaced, never removed.

## Contents
- **Records.** `Stats`, `MissReason`, `Miss`.
- **Lexicons.** `Lexicon`, `blank`, `register`, `define`, `addAlias`.
- **Resolution results.** `lookup`, `cached`, `memoize`, `recordMiss`, `takeUnresolved`, `evaluate`,
  `countGuess`.
-/

namespace CallSig

/-! ## Records -/

/-- Counters of the work done. -/
structure Stats where
  /-- Look-ups of tokens. -/
  lookups : Nat := 0
  /-- Look-ups that found an entry. -/
  hits : Nat := 0
  /-- Evaluations of expressions. -/
  evaluations : Nat := 0
  /-- Guesses from the scope. -/
  guesses : Nat := 0
  /-- Entries added for results of resolution. -/
  memoized : Nat := 0
  /-- Tokens given up on. -/
  misses : Nat := 0
  deriving Repr, DecidableEq

/-- Why a token was given up on. -/
inductive MissReason
  | unknownToken
  | notAContainer
  | badArguments
  | tooDeep
  deriving Repr, DecidableEq

/-- A token that was given up on. -/
structure Miss where
  token : String
  reason : MissReason
  deriving Repr, DecidableEq

/-! ## Lexicons -/

/-- What is known about native tokens. -/
structure Lexicon where
  /-- The values of native tokens. -/
  tokens : Dict Value
  /-- Host objects by their paths. -/
  definitions : Dict Value
  /-- Tokens that are resolved like others. -/
  aliases : Dict String
  /-- Vocabularies whose modules are not loaded yet. -/
  pending : List Vocabulary
  /-- The modules whose vocabularies are installed. -/
  installed : List String
  /-- How many modules were loaded at the last refresh. -/
  seenCount? : Option Nat
  /-- The tokens given up on that nobody has asked for yet. -/
  unresolved : List Miss
  /-- The tokens given up on since the last installation. -/
  missed : List String
  /-- The tokens whose entries are to be resolved again. -/
  retry : List String
  stats : Stats

namespace Lexicon

/-- The lexicon that knows nothing. -/
def blank : Lexicon where
  tokens := .empty
  definitions := .empty
  aliases := .empty
  pending := []
  installed := []
  seenCount? := none
  unresolved := []
  missed := []
  retry := []
  stats := {}

/-- Gives a token this value, whatever it had, and no reason to resolve it again. -/
def register (l : Lexicon) (token : String) (value : Value) : Lexicon :=
  { l with tokens := l.tokens.insert token value, retry := l.retry.filter (· != token) }

/-- Gives a path this host object. -/
def define (l : Lexicon) (path : String) (value : Value) : Lexicon :=
  { l with definitions := l.definitions.insert path value }

/-- Makes a token resolve like another one. -/
def addAlias (l : Lexicon) (token target : String) : Lexicon :=
  { l with aliases := l.aliases.insert token target }

/-! ## Resolution results -/

/-- The value of a token; counted. -/
def lookup (l : Lexicon) (token : String) : Option Value × Lexicon :=
  let found := l.tokens.get? token
  let hits := if found.isSome then l.stats.hits + 1 else l.stats.hits
  (found, { l with stats := { l.stats with lookups := l.stats.lookups + 1, hits } })

/-- The value of a token unless it is to be resolved again; counted. -/
def cached (l : Lexicon) (token : String) : Option Value × Lexicon :=
  if l.retry.contains token then
    (none, { l with stats := { l.stats with lookups := l.stats.lookups + 1 } })
  else l.lookup token

/-- Keeps a result of resolution. An entry that is not to be resolved again stays as it is. -/
def memoize (l : Lexicon) (token : String) (value : Value) : Lexicon :=
  if l.retry.contains token then l.register token value
  else if l.tokens.contains token then l
  else
    { l with
      tokens := l.tokens.insert token value
      stats := { l.stats with memoized := l.stats.memoized + 1 } }

/-- Notes a token that was given up on. -/
def recordMiss (l : Lexicon) (miss : Miss) : Lexicon :=
  { l with
    missed := if l.missed.contains miss.token then l.missed else l.missed ++ [miss.token]
    unresolved := l.unresolved ++ [miss]
    stats := { l.stats with misses := l.stats.misses + 1 } }

/-- Hands out the tokens given up on since the last time. -/
def takeUnresolved (l : Lexicon) : List Miss × Lexicon := (l.unresolved, { l with unresolved := [] })

/-- The value of an expression over the defined host objects; counted. -/
def evaluate (l : Lexicon) (expr : String) : Option Value × Lexicon :=
  (Expression.evaluate l.definitions expr,
    { l with stats := { l.stats with evaluations := l.stats.evaluations + 1 } })

/-- Counts a guess. -/
def countGuess (l : Lexicon) : Lexicon := { l with stats := { l.stats with guesses := l.stats.guesses + 1 } }

end Lexicon

end CallSig
