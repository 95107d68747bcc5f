import CallSig.Proofs.Catalog.Sessions
import Mathlib.Data.List.Forall2

/-!
# `CallSig.Proofs.Catalog.Strictness` — what it means that misses are errors

Settings may ask for misses to be reported as errors. This is all they ask for: two catalogs whose settings differ in
nothing else give the same answers to the same calls, and their reports differ in the severities of misses. A build
keeps or drops a diagnostic for its code and its place, and resolution knows nothing of reports, so a severity decides
nothing.

The two catalogs are followed side by side. The relation between them is kept by every line of a build, by every call,
and so by every session.

## Contents
- **Calls.** `Answer`, `Call`, `Call.run`; `Catalog.answers`, `Catalog.afterCalls`.
- **Diagnostics.** `Diagnostic.isMiss`, `Diagnostic.Stricter`, `stricter_ofMiss`, `Report.Stricter`.
- **Builds.** `Progress.Twins`, `twins_addLine`; `Twins`, `twins_build`.
- **Sessions.** `twins_run`, `strict_only_severities`.
-/

namespace CallSig

open Lexicon

/-! ## Calls -/

/-- What a call returns. -/
inductive Answer
  | done
  | flag (b : Bool)
  | members (names : List String)
  | variants (found? : Option (List Variant))
  | signature (found? : Option SignatureSet)
  | count (n : Nat)
  | installed (outcome : Except ModuleError Bool)
  | value (found? : Option Value)
  | misses (misses : List Miss)
  | assembled (outcome : Except AssemblyError Variant)

namespace Catalog

/-- What an event returns. -/
def Event.answer : Event → Catalog → Answer
  | add _ _, _ => .done
  | members owner, c => .members (c.members owner).1
  | variants owner member, c => .variants (c.variants owner member).1
  | signature owner member binding layout, c => .signature (c.signature owner member binding layout).1
  | refresh host, c => .count (c.refresh host).1
  | ensure host name, c => .installed (c.ensure host name).1

/-- A call on a catalog, or one that is made directly on its lexicon, whatever it does there. -/
inductive Call
  | event (e : Event)
  | hasOwner (owner : String)
  | direct (run : LexiconM Answer)

/-- What a call returns, and the catalog after it. -/
def Call.run : Call → Catalog → Answer × Catalog
  | event e, c => (e.answer c, e.perform c)
  | hasOwner owner, c => (.flag (c.hasOwner owner), c)
  | direct run, c => ((run c.lexicon).1, { c with lexicon := (run c.lexicon).2 })

/-- What the calls of a session return, each with the statistics after it. -/
def answers (c : Catalog) : List Call → List (Answer × Stats)
  | [] => []
  | call :: calls => ((call.run c).1, (call.run c).2.lexicon.stats) :: answers (call.run c).2 calls

/-- The catalog after a session. -/
def afterCalls (c : Catalog) (calls : List Call) : Catalog := calls.foldl (fun c call => (call.run c).2) c

end Catalog

/-! ## Diagnostics -/

namespace Diagnostic

/-- Whether a diagnostic has the code of a miss: `W3001`, `W3002`, `W3003` or `W3004`. -/
def isMiss (d : Diagnostic) : Bool :=
  [MissReason.unknownToken, .notAContainer, .badArguments, .tooDeep].any fun reason =>
    d.code? = some ⟨.resolution, missNumber reason⟩

/-- The first diagnostic is the second one as it is reported where misses are errors: a miss is an error instead of a
warning, and everything else is the same. -/
inductive Stricter : Diagnostic → Diagnostic → Prop
  | miss {d d' : Diagnostic} (hd : d'.isMiss = true) (warning : d'.severity = .warning)
      (h : d = { d' with severity := .error }) : Stricter d d'
  | other {d : Diagnostic} (hd : d.isMiss = false) : Stricter d d

theorem Stricter.code? {d d' : Diagnostic} (h : Stricter d d') : d.code? = d'.code? := by
  cases h with
  | miss _ _ h => rw [h]
  | other => rfl

theorem Stricter.file? {d d' : Diagnostic} (h : Stricter d d') : d.file? = d'.file? := by
  cases h with
  | miss _ _ h =>
    rw [h]
    rfl
  | other => rfl

theorem stricter_ofMiss (m : Miss) (file : Nat) (span : Span) :
    Stricter (ofMiss m file span true) (ofMiss m file span false) := by
  refine .miss ?_ rfl rfl
  obtain ⟨token, reason⟩ := m
  cases reason <;> rfl

theorem stricter_ofParseError (e : ParseError) (file : Nat) (span : Span) :
    Stricter (ofParseError e file span) (ofParseError e file span) := .other rfl

theorem stricter_ofAssemblyError (e : AssemblyError) (file : Nat) (span : Span) :
    Stricter (ofAssemblyError e file span) (ofAssemblyError e file span) := .other rfl

theorem stricter_ofModuleError (e : ModuleError) : Stricter (ofModuleError e) (ofModuleError e) := .other rfl

end Diagnostic

/-- The first report is the second one where misses are errors: the blocks are the same, and so are the diagnostics,
one by one, up to the severities of misses. -/
structure Report.Stricter (r r' : Report) : Prop where
  files : r.files = r'.files
  diagnostics : List.Forall₂ Diagnostic.Stricter r.diagnostics r'.diagnostics

namespace Report.Stricter

variable {r r' : Report}

theorem push (h : r.Stricter r') {d d' : Diagnostic} (hd : d.Stricter d') : (r.push d).Stricter (r'.push d') :=
  ⟨h.files, List.rel_append h.diagnostics (.cons hd .nil)⟩

theorem addFile (h : r.Stricter r') (name source : String) :
    (r.addFile name source).1 = (r'.addFile name source).1 ∧
      (r.addFile name source).2.Stricter (r'.addFile name source).2 := by
  refine ⟨congrArg List.length h.files, ?_, h.diagnostics⟩
  show r.files ++ _ = r'.files ++ _
  rw [h.files]

/-- What is kept is decided by what severities do not change. -/
theorem retain (h : r.Stricter r') {keep : Diagnostic → Bool}
    (hkeep : ∀ d d', Diagnostic.Stricter d d' → keep d = keep d') : (r.retain keep).Stricter (r'.retain keep) where
  files := h.files
  diagnostics := List.rel_filter (fun d d' hd => Bool.eq_iff_iff.1 (hkeep d d' hd)) h.diagnostics

end Report.Stricter

namespace Catalog

/-! ## Builds -/

/-- The settings where misses are errors, or are not. -/
def withStrict (settings : Settings) (strict : Bool) : Settings := { settings with strict }

/-- Two builds side by side, the first one where misses are errors. -/
structure Progress.Twins (p p' : Progress) : Prop where
  lexicon : p.lexicon = p'.lexicon
  members : p.members = p'.members
  report : p.report.Stricter p'.report

theorem Progress.Twins.start (l : Lexicon) (members : Dict (List Variant)) {r r' : Report} (hr : r.Stricter r') :
    Progress.Twins ⟨l, r, members⟩ ⟨l, r', members⟩ := ⟨rfl, rfl, hr⟩

theorem Progress.Twins.addMisses {p p' : Progress} (h : p.Twins p') (s : Source) (misses : List Miss) :
    (p.addMisses s true misses).Twins (p'.addMisses s false misses) where
  lexicon := h.lexicon
  members := h.members
  report := by
    refine ⟨h.report.files, List.rel_append h.report.diagnostics ?_⟩
    rw [List.forall₂_map_left_iff, List.forall₂_map_right_iff]
    exact List.forall₂_same.2 fun m _ => Diagnostic.stricter_ofMiss m s.file _

/-- **One line** of a build. -/
theorem twins_addLine {p p' : Progress} (h : p.Twins p') (settings : Settings) (owner : String) (s : Source) :
    (p.addLine (withStrict settings true) owner s).Twins (p'.addLine (withStrict settings false) owner s) := by
  obtain ⟨l, report, members⟩ := p
  obtain ⟨l', report', members'⟩ := p'
  obtain ⟨rfl, rfl, hreport⟩ := h
  unfold Progress.addLine withStrict
  dsimp only
  cases Descriptor.parse settings.bracketDepth s.merged with
  | error e => exact ⟨rfl, rfl, hreport.push (Diagnostic.stricter_ofParseError e s.file _)⟩
  | ok descriptor =>
    dsimp only
    generalize Variant.assemble settings.bracketDepth settings.optionalReturns (some owner) descriptor l = run
    obtain ⟨outcome, l'⟩ := run
    have hmisses := (Progress.Twins.start l'.takeUnresolved.2 members hreport).addMisses s l'.takeUnresolved.1
    cases outcome with
    | ok variant => exact ⟨hmisses.lexicon, rfl, hmisses.report⟩
    | error e =>
      exact ⟨hmisses.lexicon, hmisses.members, hmisses.report.push (Diagnostic.stricter_ofAssemblyError e s.file _)⟩

theorem twins_foldl_addLine (settings : Settings) (owner : String) (sources : List Source) {p p' : Progress}
    (h : p.Twins p') :
    (sources.foldl (Progress.addLine (withStrict settings true) owner) p).Twins
      (sources.foldl (Progress.addLine (withStrict settings false) owner) p') := by
  induction sources generalizing p p' with
  | nil => exact h
  | cons s sources ih => exact ih (twins_addLine h settings owner s)

/-- Two catalogs side by side: they differ in whether misses are errors, and in the severities that come of it. -/
structure Twins (settings : Settings) (c c' : Catalog) : Prop where
  strict : c.settings = withStrict settings true
  lenient : c'.settings = withStrict settings false
  lexicon : c.lexicon = c'.lexicon
  blocks : c.blocks = c'.blocks
  stale : c.stale = c'.stale
  built : c.built = c'.built
  fileIds : c.fileIds = c'.fileIds
  report : c.report.Stricter c'.report

variable {settings : Settings} {c c' : Catalog}

/-- Severity does not decide what survives. -/
theorem survivesRebuild_eq {d d' : Diagnostic} (h : d.Stricter d') (file : Nat) :
    survivesRebuild file d = survivesRebuild file d' := by
  unfold survivesRebuild
  rw [h.file?, h.code?]

theorem Twins.forgetOld (h : Twins settings c c') (owner : String) (r r' : Report) (hr : r.Stricter r') :
    (c.forgetOld owner r).Stricter (c'.forgetOld owner r') := by
  unfold Catalog.forgetOld
  rw [h.fileIds]
  cases c'.fileIds.get? owner with
  | none => exact hr
  | some old => exact hr.retain fun d d' hd => survivesRebuild_eq hd old

/-- **A build** over both catalogs. -/
theorem twins_build (h : Twins settings c c') (owner : String) : Twins settings (c.build owner) (c'.build owner) := by
  have hforget := h.forgetOld owner
  obtain ⟨l, _, blocks, stale, built, ids, report⟩ := c
  obtain ⟨l', _, blocks', stale', built', ids', report'⟩ := c'
  obtain ⟨rfl, rfl, rfl, rfl, rfl, rfl, rfl, hreport⟩ := h
  unfold build
  dsimp only
  cases stale.contains owner with
  | false => exact ⟨rfl, rfl, rfl, rfl, rfl, rfl, rfl, hreport⟩
  | true =>
    cases blocks.get? owner with
    | none => exact ⟨rfl, rfl, rfl, rfl, rfl, rfl, rfl, hreport⟩
    | some lines =>
      obtain ⟨hfile, hadded⟩ := hreport.addFile owner (blockText lines)
      have hstart := Progress.Twins.start l ((built.get? owner).getD .empty) (hforget _ _ hadded)
      have hdone := twins_foldl_addLine settings owner (sources (report.addFile owner (blockText lines)).1 lines) hstart
      simp only [if_true]
      rw [← hfile]
      refine ⟨rfl, rfl, hdone.lexicon, rfl, rfl, ?_, rfl, hdone.report⟩
      exact congrArg (built.insert owner) hdone.members

/-! ## Sessions -/

theorem Twins.builtMembers (h : Twins settings c c') (owner : String) :
    c.builtMembers owner = c'.builtMembers owner := by
  unfold Catalog.builtMembers
  rw [h.built]

/-- **One event** over both catalogs: the same answer, and twins again. -/
theorem twins_event (h : Twins settings c c') (e : Event) :
    e.answer c = e.answer c' ∧ Twins settings (e.perform c) (e.perform c') := by
  have hbuild := twins_build h
  have hmembers (owner : String) := (hbuild owner).builtMembers owner
  cases e with
  | members owner =>
    exact ⟨congrArg (fun ms : Dict (List Variant) => Answer.members ms.keys) (hmembers owner), hbuild owner⟩
  | variants owner member =>
    exact ⟨congrArg (fun ms : Dict (List Variant) => Answer.variants (ms.get? member)) (hmembers owner), hbuild owner⟩
  | signature owner member binding layout =>
    refine ⟨?_, hbuild owner⟩
    exact congrArg (fun ms : Dict (List Variant) => Answer.signature ((ms.get? member).map fun found =>
      .ofList (found.map fun v => v.render binding layout))) (hmembers owner)
  | add owner text =>
    refine ⟨rfl, ?_⟩
    obtain ⟨l, _, blocks, stale, built, ids, report⟩ := c
    obtain ⟨l', _, blocks', stale', built', ids', report'⟩ := c'
    obtain ⟨rfl, rfl, rfl, rfl, rfl, rfl, rfl, hreport⟩ := h
    show Twins settings (addDescriptors _ owner text) (addDescriptors _ owner text)
    unfold addDescriptors
    dsimp only
    split <;> exact ⟨rfl, rfl, rfl, rfl, rfl, rfl, rfl, hreport⟩
  | refresh host =>
    have hrefresh := congrArg (fun l => Lexicon.refresh l host) h.lexicon
    exact ⟨congrArg (fun run : Nat × Lexicon => Answer.count run.1) hrefresh, { h with lexicon := congrArg Prod.snd hrefresh }⟩
  | ensure host name =>
    show Answer.installed (c.ensure host name).1 = .installed (c'.ensure host name).1 ∧
      Twins settings (c.ensure host name).2 (c'.ensure host name).2
    obtain ⟨l, _, blocks, stale, built, ids, report⟩ := c
    obtain ⟨l', _, blocks', stale', built', ids', report'⟩ := c'
    obtain ⟨rfl, rfl, rfl, rfl, rfl, rfl, rfl, hreport⟩ := h
    unfold Catalog.ensure
    dsimp only
    cases l.ensure host name with
    | ok found => exact ⟨rfl, rfl, rfl, rfl, rfl, rfl, rfl, rfl, hreport⟩
    | error e =>
      exact ⟨rfl, rfl, rfl, rfl, rfl, rfl, rfl, rfl, hreport.push (Diagnostic.stricter_ofModuleError e)⟩

/-- **One call** over both catalogs. -/
theorem twins_run (h : Twins settings c c') (call : Call) :
    (call.run c).1 = (call.run c').1 ∧ Twins settings (call.run c).2 (call.run c').2 := by
  cases call with
  | event e => exact twins_event h e
  | hasOwner owner => exact ⟨congrArg (fun blocks => Answer.flag (Dict.contains blocks owner)) h.blocks, h⟩
  | direct run =>
    have hrun := congrArg run h.lexicon
    exact ⟨congrArg (fun r => r.1) hrun, { h with lexicon := congrArg (fun r => r.2) hrun }⟩

theorem twins_session (h : Twins settings c c') (calls : List Call) :
    c.answers calls = c'.answers calls ∧ Twins settings (c.afterCalls calls) (c'.afterCalls calls) := by
  induction calls generalizing c c' with
  | nil => exact ⟨rfl, h⟩
  | cons call calls ih =>
    obtain ⟨hanswer, hnext⟩ := twins_run h call
    obtain ⟨hanswers, hafter⟩ := ih hnext
    refine ⟨?_, hafter⟩
    unfold answers
    rw [hanswer, hnext.lexicon, hanswers]

/-- **Strictness only changes severities.** Over one lexicon and under settings that differ in nothing else, the same
session gives the same answers with the same statistics, call by call; afterwards the lexicons are equal, and so is
everything else but the severities of misses in the report. -/
theorem strict_only_severities (l : Lexicon) (settings : Settings) (calls : List Call) :
    (create l (withStrict settings true)).answers calls = (create l (withStrict settings false)).answers calls ∧
      Twins settings ((create l (withStrict settings true)).afterCalls calls)
        ((create l (withStrict settings false)).afterCalls calls) :=
  have h : Twins settings (create l (withStrict settings true)) (create l (withStrict settings false)) :=
    ⟨rfl, rfl, rfl, rfl, rfl, rfl, rfl, rfl, .nil⟩
  twins_session h calls

end Catalog
end CallSig
