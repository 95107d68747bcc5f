import CallSig.Value

/-!
# `CallSig.Vocabulary` — the entries of one host module

A vocabulary holds what one host module contributes: dotted paths with the host objects they name, native tokens
with the values they stand for, and aliases. It is built entry by entry.

## Contents
- **Entries.** `Vocabulary`, `define`, `addClass`, `addConstant`, `addToken`, `addMatrix`, `addAlias`.
-/

namespace CallSig

/-- The entries contributed by one host module, each kind in the order of its additions. -/
structure Vocabulary where
  name : String
  definitions : List (String × Value)
  tokens : List (String × Value)
  aliases : List (String × String)

namespace Vocabulary

/-- The vocabulary of a module without entries. -/
def empty (name : String) : Vocabulary := ⟨name, [], [], []⟩

/-- Adds a host object under its path. -/
def define (v : Vocabulary) (path : String) (value : Value) : Vocabulary :=
  { v with definitions := v.definitions ++ [(path, value)] }

/-- Adds a class under its path. -/
def addClass (v : Vocabulary) (path : String) : Vocabulary := v.define path (.type (.ofPath path))

/-- Adds a constant under its path. -/
def addConstant (v : Vocabulary) (path : String) : Vocabulary := v.define path (.constant path)

/-- Adds a native token. -/
def addToken (v : Vocabulary) (token : String) (value : Value) : Vocabulary :=
  { v with tokens := v.tokens ++ [(token, value)] }

/-- Adds a native token for a family of matrix classes. -/
def addMatrix (v : Vocabulary) (token stem : String) : Vocabulary := v.addToken token (.former (.matrix stem))

/-- Adds a native token that is resolved like another one. -/
def addAlias (v : Vocabulary) (token target : String) : Vocabulary :=
  { v with aliases := v.aliases ++ [(token, target)] }

end Vocabulary

end CallSig
