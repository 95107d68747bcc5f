import CallSig.Lexicon

/-!
# `CallSig.Lexicon.Modules` — installing vocabularies

A vocabulary waits until the host has loaded its module; then it is installed once. Tokens given up on before
that get a second chance: their entries are marked, and the next resolution writes them anew.

## Contents
- **Host.** `LoadedModules`.
- **Installation.** `ModuleError`, `install`, `baseline`, `addVocabulary`, `ensure`, `refresh`.
-/

namespace CallSig

/-! ## Host -/

/-- The names of the modules a host has loaded, each once. -/
structure LoadedModules where
  names : List String
  deriving Repr, DecidableEq

namespace LoadedModules

/-- A host without modules. -/
def empty : LoadedModules := ⟨[]⟩

/-- Whether a module is loaded. -/
def contains (host : LoadedModules) (name : String) : Bool := host.names.contains name

/-- Loads a module; the flag says whether it was new. -/
def load (host : LoadedModules) (name : String) : Bool × LoadedModules :=
  if host.contains name then (false, host) else (true, ⟨host.names ++ [name]⟩)

/-- The host with the listed modules. -/
def ofList (names : List String) : LoadedModules := names.foldl (fun host name => (host.load name).2) empty

/-- The number of modules. -/
def count (host : LoadedModules) : Nat := host.names.length

end LoadedModules

/-! ## Installation -/

/-- Why a vocabulary cannot be installed. -/
inductive ModuleError
  | unknown (name : String)
  | notLoaded (name : String)
  deriving Repr, DecidableEq

namespace ModuleError

/-- The module that was asked for. -/
def name : ModuleError → String
  | unknown name => name
  | notLoaded name => name

/-- The error in words. -/
def message : ModuleError → String
  | unknown name => s!"Unknown module vocabulary: {name}"
  | notLoaded name => s!"Module not loaded: {name}"

end ModuleError

namespace Lexicon

/-- Adds the entries of a vocabulary: definitions, tokens, aliases. -/
def addEntries (l : Lexicon) (v : Vocabulary) : Lexicon :=
  let l := v.definitions.foldl (fun l e => l.define e.1 e.2) l
  let l := v.tokens.foldl (fun l e => l.register e.1 e.2) l
  v.aliases.foldl (fun l e => l.addAlias e.1 e.2) l

/-- The lexicon with the baseline vocabulary only. -/
def baseline : Lexicon :=
  { blank.addEntries Vocabulary.baseline with installed := [Vocabulary.baselineName] }

/-- Whether the vocabulary of a module is installed. -/
def isInstalled (l : Lexicon) (name : String) : Bool := l.installed.contains name

/-- Lets a vocabulary wait for its module, unless one for this module waits or is installed. -/
def addVocabulary (l : Lexicon) (v : Vocabulary) : Lexicon :=
  if l.isInstalled v.name || l.pending.any (·.name == v.name) then l
  else { l with pending := l.pending ++ [v] }

/-- The baseline with vocabularies that wait for their modules. -/
def withVocabularies (vs : List Vocabulary) : Lexicon := vs.foldl addVocabulary baseline

/-- The modules whose vocabularies wait. -/
def pendingNames (l : Lexicon) : List String := l.pending.map Vocabulary.name

/-- Whether a token stands for itself, having been given up on. -/
def isPlaceholder (l : Lexicon) (token : String) : Bool :=
  match l.tokens.get? token with
  | some v => v.isUnmapped
  | none => false

/-- Marks the placeholders among the missed tokens, so that they are resolved again. -/
def retryMissed (l : Lexicon) : Lexicon :=
  let again := l.missed.filter fun token => l.isPlaceholder token && !l.retry.contains token
  { l with missed := [], retry := l.retry ++ again }

/-- Installs a vocabulary that was waiting. -/
def install (l : Lexicon) (v : Vocabulary) : Lexicon :=
  let l := { l with pending := l.pending.filter (·.name != v.name) }
  let l := l.addEntries v
  { l with installed := l.installed ++ [v.name] }.retryMissed

/-- Installs the vocabulary of a module that the host has loaded; the flag says whether this call did it. An
error leaves the lexicon as it is. -/
def ensure (l : Lexicon) (host : LoadedModules) (name : String) : Except ModuleError (Bool × Lexicon) :=
  if l.isInstalled name then .ok (false, l)
  else match l.pending.find? (·.name == name) with
    | none => .error (.unknown name)
    | some v => if host.contains name then .ok (true, l.install v) else .error (.notLoaded name)

/-- Installs the vocabularies of the listed modules, and counts those that this call installed. -/
def ensureAll (l : Lexicon) (host : LoadedModules) : List String → Nat × Lexicon
  | [] => (0, l)
  | name :: names =>
    match l.ensure host name with
    | .ok (true, l) => let (n, l) := l.ensureAll host names; (n + 1, l)
    | .ok (false, l) => l.ensureAll host names
    | .error _ => l.ensureAll host names

/-- Installs every waiting vocabulary whose module is loaded, and counts them. Nothing is done while the
number of loaded modules is as it was at the last call. -/
def refresh (l : Lexicon) (host : LoadedModules) : Nat × Lexicon :=
  if l.seenCount? = some host.count then (0, l)
  else
    let l := { l with seenCount? := some host.count }
    l.ensureAll host (l.pendingNames.filter host.contains)

end Lexicon

end CallSig
