import CallSig.Proofs.Catalog.Building

/-!
# `CallSig.Proofs.Catalog.Findings` — what a build reports

A merged line that cannot be read, or whose arguments are refused, is skipped with one diagnostic. Failures are the
lines that a build skips, with the reasons; the diagnostics about faults that a build adds to the report are those
of its failures, one for each and in the same order. The other diagnostics that it adds are about tokens.

## Contents
- **Faults.** `Diagnostic.isFault`, and `Diagnostic.isUnresolved` for the others.
- **Failures.** `Failure`, `Failure.diagnostic`, `Failures`, `Failures.mem_lines`.
- **Lines.** `Adds`, `adds_of_unread`, `adds_of_read`.
- **Builds.** `sourceOf`, `finding`, `exists_findings`, `exists_findings_build`.
-/

namespace CallSig

/-! ## Faults -/

namespace Diagnostic

/-- Whether a diagnostic is about a line that was skipped, because of its grammar or because of its arguments. -/
def isFault (d : Diagnostic) : Bool :=
  d.code?.any fun code => code.family == .grammar || code.family == .structural

/-- Whether a diagnostic is about a token or a module that could not be resolved. -/
def isUnresolved (d : Diagnostic) : Bool := d.code?.any fun code => code.family == .resolution

theorem isUnresolved_eq_false {d : Diagnostic} (h : d.isFault = true) : d.isUnresolved = false := by
  unfold isFault at h
  unfold isUnresolved
  cases hc : d.code? with
  | none => rfl
  | some code =>
    rw [hc, Option.any_some] at h
    rw [Option.any_some]
    cases hf : code.family <;> rw [hf] at h <;> first | rfl | cases h

theorem isFault_eq_false {d : Diagnostic} (h : d.isUnresolved = true) : d.isFault = false := by
  cases hf : d.isFault with
  | false => rfl
  | true =>
    rw [isUnresolved_eq_false hf] at h
    cases h

end Diagnostic

namespace Catalog

open Overload

/-! ## Failures -/

/-- Why a merged line is skipped: it cannot be read, or its arguments are refused. -/
inductive Failure
  | unread (e : ParseError)
  | rejected (e : AssemblyError)

namespace Failure

/-- The offending part of the merged line. -/
def span : Failure → Span
  | unread e => e.span
  | rejected e => e.span

/-- What is reported, with a label at a span of the block. -/
def diagnostic (file : Nat) (span : Span) : Failure → Diagnostic
  | unread e => .ofParseError e file span
  | rejected e => .ofAssemblyError e file span

theorem isFault_diagnostic (f : Failure) (file : Nat) (span : Span) : (f.diagnostic file span).isFault = true := by
  cases f <;> rfl

theorem exists_labels_diagnostic (f : Failure) (file : Nat) (span : Span) :
    ∃ message, (f.diagnostic file span).labels = [⟨file, span, message⟩] := by
  cases f with
  | unread e => exact ⟨_, rfl⟩
  | rejected e => exact ⟨_, rfl⟩

end Failure

/-- The merged lines that a build from a lexicon skips, each with the reason. The lexicon goes on from line to
line. -/
inductive Failures (settings : Settings) (owner : String) : Lexicon → List Merged → List (Merged × Failure) → Prop
  | done (l : Lexicon) : Failures settings owner l [] []
  | unread {l : Lexicon} {line : Merged} {lines : List Merged} {found : List (Merged × Failure)} {e : ParseError} :
    Descriptor.parse settings.bracketDepth line.text = .error e → Failures settings owner l lines found →
      Failures settings owner l (line :: lines) ((line, .unread e) :: found)
  | rejected {l l' : Lexicon} {line : Merged} {lines : List Merged} {found : List (Merged × Failure)}
      {d : Descriptor} {e : AssemblyError} :
    Descriptor.parse settings.bracketDepth line.text = .ok d →
      Variant.assemble settings.bracketDepth settings.optionalReturns (some owner) d l = (.error e, l') →
      Failures settings owner l'.takeUnresolved.2 lines found →
      Failures settings owner l (line :: lines) ((line, .rejected e) :: found)
  | survives {l l' : Lexicon} {line : Merged} {lines : List Merged} {found : List (Merged × Failure)}
      {d : Descriptor} {v : Variant} :
    Descriptor.parse settings.bracketDepth line.text = .ok d →
      Variant.assemble settings.bracketDepth settings.optionalReturns (some owner) d l = (.ok v, l') →
      Failures settings owner l'.takeUnresolved.2 lines found → Failures settings owner l (line :: lines) found

theorem Failures.mem_lines {settings : Settings} {owner : String} {l : Lexicon} {lines : List Merged}
    {failures : List (Merged × Failure)} (h : Failures settings owner l lines failures) {m : Merged} {f : Failure}
    (hm : (m, f) ∈ failures) : m ∈ lines := by
  induction h with
  | done l => cases hm
  | unread _ _ ih | rejected _ _ _ ih =>
    rcases List.mem_cons.1 hm with heq | hm
    · cases heq
      exact List.mem_cons_self
    · exact List.mem_cons_of_mem _ (ih hm)
  | survives _ _ _ ih => exact List.mem_cons_of_mem _ (ih hm)

/-! ## Lines -/

variable {settings : Settings} {owner : String} {p : Progress} {s : Source}

/-- The second report has these diagnostics more than the first, and no other block. -/
structure Adds (r r' : Report) (new : List Diagnostic) : Prop where
  files : r'.files = r.files
  diagnostics : r'.diagnostics = r.diagnostics ++ new
  coded : ∀ d ∈ new, d.isFault = true ∨ d.isUnresolved = true

theorem Adds.refl (r : Report) : Adds r r [] := ⟨rfl, (List.append_nil _).symm, List.forall_mem_nil _⟩

theorem Adds.trans {r r' r'' : Report} {new more : List Diagnostic} (h : Adds r r' new) (h' : Adds r' r'' more) :
    Adds r r'' (new ++ more) where
  files := h'.files.trans h.files
  diagnostics := by rw [h'.diagnostics, h.diagnostics, List.append_assoc]
  coded := List.forall_mem_append.2 ⟨h.coded, h'.coded⟩

theorem adds_push (r : Report) {d : Diagnostic} (h : d.isFault = true) : Adds r (r.push d) [d] :=
  ⟨rfl, rfl, List.forall_mem_singleton.2 (Or.inl h)⟩

/-- A line that cannot be read is one failure, and leaves the lexicon alone. -/
theorem adds_of_unread (owner : String) (p : Progress) {e : ParseError}
    (h : Descriptor.parse settings.bracketDepth s.merged = .error e) :
    (p.addLine settings owner s).lexicon = p.lexicon ∧
      Adds p.report (p.addLine settings owner s).report [(Failure.unread e).diagnostic s.file (s.place e.span)] := by
  unfold Progress.addLine
  rw [h]
  exact ⟨rfl, adds_push _ rfl⟩

/-- A line that can be read: misses are reported, and then the error of its arguments if there is one. -/
theorem adds_of_read {d : Descriptor} {outcome : Except AssemblyError Variant} {l : Lexicon}
    (h : Descriptor.parse settings.bracketDepth s.merged = .ok d)
    (hrun : Variant.assemble settings.bracketDepth settings.optionalReturns (some owner) d p.lexicon = (outcome, l)) :
    (p.addLine settings owner s).lexicon = l.takeUnresolved.2 ∧
      ∃ misses : List Diagnostic, (∀ m ∈ misses, m.isUnresolved = true) ∧
        Adds p.report (p.addLine settings owner s).report (misses ++ match outcome with
          | .ok _ => []
          | .error e => [(Failure.rejected e).diagnostic s.file (s.place e.span)]) := by
  let findings := l.takeUnresolved.1.map fun m =>
    Diagnostic.ofMiss m s.file (tokenSpan s.start s.raw m.token.toList) settings.strict
  have hmisses : ∀ m ∈ findings, m.isUnresolved = true := by
    intro m hm
    obtain ⟨miss, -, rfl⟩ := List.mem_map.1 hm
    rfl
  have hadds : Adds p.report { p.report with diagnostics := p.report.diagnostics ++ findings } findings :=
    ⟨rfl, rfl, fun d hd => Or.inr (hmisses d hd)⟩
  unfold Progress.addLine
  simp only [h, hrun]
  cases outcome with
  | ok v => exact ⟨rfl, findings, hmisses, (List.append_nil findings).symm ▸ hadds⟩
  | error e => exact ⟨rfl, findings, hmisses, hadds.trans (adds_push _ rfl)⟩

/-! ## Builds -/

/-- A merged line of a block on its way through a build. -/
def sourceOf (file : Nat) (block : List String) (m : Merged) : Source :=
  ⟨file, lineStart block m.origin, (block[m.origin]?.getD "").toList, m.text⟩

/-- What is reported of a failure in a block. -/
def finding (file : Nat) (block : List String) (failure : Merged × Failure) : Diagnostic :=
  failure.2.diagnostic file ((sourceOf file block failure.1).place failure.2.span)

/-- **Reading lines reports their failures**, each once and in order, and besides only tokens. -/
theorem exists_findings (settings : Settings) (owner : String) (file : Nat) (block : List String)
    (lines : List Merged) (p : Progress) :
    ∃ failures new, Failures settings owner p.lexicon lines failures ∧
      Adds p.report ((lines.map (sourceOf file block)).foldl (Progress.addLine settings owner) p).report new ∧
      new.filter Diagnostic.isFault = failures.map (finding file block) := by
  induction lines generalizing p with
  | nil => exact ⟨[], [], .done _, .refl _, rfl⟩
  | cons m lines ih =>
    rw [List.map_cons, List.foldl_cons]
    obtain ⟨failures, new, hfailures, hadds, hfaults⟩ := ih (p.addLine settings owner (sourceOf file block m))
    cases hparse : Descriptor.parse settings.bracketDepth m.text with
    | error e =>
      obtain ⟨hlexicon, hline⟩ := adds_of_unread owner p (s := sourceOf file block m) hparse
      rw [hlexicon] at hfailures
      refine ⟨(m, .unread e) :: failures, _, .unread hparse hfailures, hline.trans hadds, ?_⟩
      rw [List.singleton_append, List.filter_cons_of_pos (Failure.isFault_diagnostic _ _ _), hfaults]
      rfl
    | ok d =>
      rcases hrun : Variant.assemble settings.bracketDepth settings.optionalReturns (some owner) d p.lexicon with
        ⟨outcome, l⟩
      obtain ⟨hlexicon, misses, hmisses, hline⟩ := adds_of_read (s := sourceOf file block m) hparse hrun
      rw [hlexicon] at hfailures
      have hnone : misses.filter Diagnostic.isFault = [] := by
        rw [List.filter_eq_nil_iff]
        intro d hd
        rw [Diagnostic.isFault_eq_false (hmisses d hd)]
        exact Bool.false_ne_true
      cases outcome with
      | error e =>
        refine ⟨(m, .rejected e) :: failures, _, .rejected hparse hrun hfailures, hline.trans hadds, ?_⟩
        rw [List.filter_append, List.filter_append, hnone, hfaults, List.nil_append,
          List.filter_cons_of_pos (Failure.isFault_diagnostic _ _ _)]
        rfl
      | ok v =>
        refine ⟨failures, _, .survives hparse hrun hfailures, hline.trans hadds, ?_⟩
        rw [List.filter_append, List.filter_append, hnone, hfaults]
        rfl

/-- **A build reports its failures**: the block of a waiting owner is registered, faults of its old block go, and
the failures of the new one come. -/
theorem exists_findings_build {c : Catalog} {lines : List String} (hs : c.stale.contains owner = true)
    (hb : c.blocks.get? owner = some lines) :
    ∃ failures new, Failures c.settings owner c.lexicon (merge lines) failures ∧
      Adds (c.forgetOld owner (c.report.addFile owner (blockText lines)).2) (c.build owner).report new ∧
      new.filter Diagnostic.isFault = failures.map (finding c.report.files.length lines) ∧
      (c.build owner).fileIds = c.fileIds.insert owner c.report.files.length := by
  obtain ⟨failures, new, hfailures, hadds, hfaults⟩ := exists_findings c.settings owner c.report.files.length lines
    (merge lines) ⟨c.lexicon, c.forgetOld owner (c.report.addFile owner (blockText lines)).2, c.builtMembers owner⟩
  unfold build
  rw [if_pos hs]
  dsimp only
  rw [hb]
  exact ⟨failures, new, hfailures, hadds, hfaults, rfl⟩

end Catalog
end CallSig
