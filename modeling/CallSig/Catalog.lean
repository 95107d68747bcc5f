import CallSig.Catalog.Block
import CallSig.Descriptor.Parser
import CallSig.Rendering
import CallSig.Report
import CallSig.Settings

/-!
# `CallSig.Catalog` — the signatures of many owners

A catalog keeps a block of descriptor lines for each owner and builds it when one of its members is first asked
for: the lines are merged, read and assembled over one lexicon, and the variants are kept. Adding lines to an
owner drops its variants, so that the next question builds the whole block again. Faulty lines are reported and
skipped.

## Contents
- **Catalogs.** `Catalog`, `Catalog.create`, `addDescriptors`, `hasOwner`.
- **Modules.** `addVocabulary`, `ensure`, `refresh`.
- **Building.** `Progress`, `Source`, `fileVariant`, `Progress.addLine`, `sources`, `survivesRebuild`, `build`.
- **Questions.** `members`, `variants`, `signature`.
-/

namespace CallSig

/-! ## Catalogs -/

/-- The signatures of many owners, built when they are asked for. -/
structure Catalog where
  lexicon : Lexicon
  settings : Settings
  /-- The raw lines of each owner. -/
  blocks : Dict (List String)
  /-- The owners whose lines changed since they were built. -/
  stale : List String
  /-- The members of each owner that is built, each with its variants in merged order. -/
  built : Dict (Dict (List Variant))
  /-- The number under which each owner's block was last registered. -/
  fileIds : Dict Nat
  report : Report

namespace Catalog

/-- A catalog over a lexicon, to which the aliases of the settings are added. -/
def create (lexicon : Lexicon) (settings : Settings) : Catalog where
  lexicon := settings.aliases.entries.foldl (fun l e => l.addAlias e.1 e.2) lexicon
  settings
  blocks := .empty
  stale := []
  built := .empty
  fileIds := .empty
  report := .empty

/-- Appends the lines of a text to the block of an owner. Nothing is built yet. -/
def addDescriptors (c : Catalog) (owner text : String) : Catalog :=
  let lines := (c.blocks.get? owner).getD [] ++ (Text.lines text.toList).map String.ofList
  let c := { c with blocks := c.blocks.insert owner lines }
  if c.stale.contains owner then c
  else { c with stale := c.stale ++ [owner], built := c.built.erase owner }

/-- Whether there is a block for an owner. -/
def hasOwner (c : Catalog) (owner : String) : Bool := c.blocks.contains owner

/-! ## Modules -/

/-- Lets a vocabulary wait for its module. -/
def addVocabulary (c : Catalog) (v : Vocabulary) : Catalog := { c with lexicon := c.lexicon.addVocabulary v }

/-- Installs the vocabulary of a module; a failure is also reported. -/
def ensure (c : Catalog) (host : LoadedModules) (name : String) : Except ModuleError Bool × Catalog :=
  match c.lexicon.ensure host name with
  | .ok (installed, lexicon) => (.ok installed, { c with lexicon })
  | .error e => (.error e, { c with report := c.report.push (.ofModuleError e) })

/-- Installs the vocabularies of modules loaded since the last time, and counts them. -/
def refresh (c : Catalog) (host : LoadedModules) : Nat × Catalog :=
  let (n, lexicon) := c.lexicon.refresh host
  (n, { c with lexicon })

/-! ## Building -/

/-- What a build has come to. -/
structure Progress where
  lexicon : Lexicon
  report : Report
  /-- The members so far, each with its variants. -/
  members : Dict (List Variant)

/-- A merged line on its way through a build: its text, and where its raw line lies. -/
structure Source where
  file : Nat
  start : Nat
  raw : List Char
  merged : String

namespace Source

/-- A span of the merged line as a span of the block. -/
def place (s : Source) (span : Span) : Span := toBlock s.start s.raw s.merged.toList span

end Source

/-- Files a variant under its name, behind those that are there. -/
def fileVariant (members : Dict (List Variant)) (v : Variant) : Dict (List Variant) :=
  members.insert v.shortName ((members.get? v.shortName).getD [] ++ [v])

namespace Progress

/-- Reports tokens that were given up on, each at its first occurrence in the raw line. -/
def addMisses (p : Progress) (s : Source) (strict : Bool) (misses : List Miss) : Progress :=
  let findings := misses.map fun m => Diagnostic.ofMiss m s.file (tokenSpan s.start s.raw m.token.toList) strict
  { p with report := { p.report with diagnostics := p.report.diagnostics ++ findings } }

/-- Reads and assembles one merged line of an owner's block. -/
def addLine (settings : Settings) (owner : String) (p : Progress) (s : Source) : Progress :=
  match Descriptor.parse settings.bracketDepth s.merged with
  | .error e => { p with report := p.report.push (.ofParseError e s.file (s.place e.span)) }
  | .ok descriptor =>
    let (outcome, lexicon) :=
      Variant.assemble settings.bracketDepth settings.optionalReturns (some owner) descriptor p.lexicon
    let (misses, lexicon) := lexicon.takeUnresolved
    let p := { p with lexicon }.addMisses s settings.strict misses
    match outcome with
    | .ok variant => { p with members := fileVariant p.members variant }
    | .error e => { p with report := p.report.push (.ofAssemblyError e s.file (s.place e.span)) }

end Progress

/-- The merged lines of a block that is registered under a number. -/
def sources (file : Nat) (lines : List String) : List Source :=
  (Overload.merge lines).map fun merged =>
    ⟨file, lineStart lines merged.origin, (lines[merged.origin]?.getD "").toList, merged.text⟩

/-- Whether a diagnostic survives when the block it may point into is built again: every line is read anew, but
tokens given up on are not resolved anew. -/
def survivesRebuild (file : Nat) (d : Diagnostic) : Bool :=
  d.file? != some file || d.code?.any fun code => code.family == .resolution

/-- The report before a block is built again under a new number. -/
def forgetOld (c : Catalog) (owner : String) (report : Report) : Report :=
  match c.fileIds.get? owner with
  | some old => report.retain (survivesRebuild old)
  | none => report

/-- The members of an owner as far as they are built. -/
def builtMembers (c : Catalog) (owner : String) : Dict (List Variant) := (c.built.get? owner).getD .empty

/-- Builds the block of an owner if its lines changed since it was built. -/
def build (c : Catalog) (owner : String) : Catalog :=
  if c.stale.contains owner then
    let c := { c with stale := c.stale.filter (· != owner) }
    match c.blocks.get? owner with
    | none => c
    | some lines =>
      let (file, report) := c.report.addFile owner (blockText lines)
      let start : Progress := ⟨c.lexicon, c.forgetOld owner report, c.builtMembers owner⟩
      let done := (sources file lines).foldl (Progress.addLine c.settings owner) start
      { c with
        lexicon := done.lexicon
        built := c.built.insert owner done.members
        fileIds := c.fileIds.insert owner file
        report := done.report }
  else c

/-! ## Questions -/

/-- The members of an owner with at least one variant, in ascending order. -/
def members (c : Catalog) (owner : String) : List String × Catalog :=
  let c := c.build owner
  ((c.builtMembers owner).keys, c)

/-- The variants of a member, if it has any. -/
def variants (c : Catalog) (owner member : String) : Option (List Variant) × Catalog :=
  let c := c.build owner
  ((c.builtMembers owner).get? member, c)

/-- The renderings of a member, if it has any. -/
def signature (c : Catalog) (owner member : String) (binding : Binding) (layout : Layout) :
    Option SignatureSet × Catalog :=
  let (found?, c) := c.variants owner member
  (found?.map fun found => .ofList (found.map fun v => v.render binding layout), c)

end Catalog

end CallSig
