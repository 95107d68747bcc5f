import CallSig.Proofs.Catalog.Blocks
import CallSig.Proofs.Catalog.Findings
import CallSig.Proofs.Catalog.Sessions

/-!
# `CallSig.Proofs.Catalog.Faults` — the faults in a report are those of the current blocks

Every build registers its block anew and reports all faulty lines of it again. That a report never shows a fault
twice rests on one invariant: a fault has one label, and this label points into the block that was registered last
for its owner. So what a build takes back is all that earlier builds of the owner said about faults, and nothing
else; and what it says instead is one diagnostic for each line that fails, on the number of this line.

## Contents
- **Faults of an owner.** `Report.isFaultOf`, `Report.faultsOf`.
- **The invariant.** `Filed`, `Filed.isFaultOf_iff`, `Filed.diagnostics_forgetOld`.
- **Builds.** `Rebuilt`, `Filed.exists_rebuilt`, `Rebuilt.filed`, `Rebuilt.faultsOf_self`, `Rebuilt.faultsOf_of_ne`,
  `sublist_diagnostics_build`.
- **Events.** `SameFaults`, `filed_perform`, `faultsOf_perform`, `getElem?_files_perform`.
- **Histories.** `Reported`, `reported_build`, `reported_perform`, `reported_after`.
- **Lines.** `not_mem_linesAdded`, `Within`, `place_within`, `exists_fields`.
- **Faults.** `faults_exact`.
-/

namespace CallSig

/-! ## Faults of an owner -/

namespace Report

/-- Whether a diagnostic is about a fault and has a label in a block that was registered under this name. -/
def isFaultOf (r : Report) (owner : String) (d : Diagnostic) : Bool :=
  d.isFault && d.labels.any fun label => r.files[label.file]?.any fun file => file.name = owner

/-- The diagnostics about faults in any block that was ever registered under this name. -/
def faultsOf (r : Report) (owner : String) : List Diagnostic := r.diagnostics.filter (r.isFaultOf owner)

end Report

namespace Catalog

open Overload

variable {c start : Catalog} {owner other : String} {es : List Event} {e : Event}

/-! ## The invariant -/

/-- What the report of a catalog is like: an owner that waits has a block, the numbers of blocks are those of their
owners, every diagnostic about a line or a token has a code that says so, and a fault is labelled once, in the
latest block of its owner. -/
structure Filed (c : Catalog) : Prop where
  waiting : ∀ o, c.stale.contains o = true → ∃ lines, c.blocks.get? o = some lines
  named : ∀ o f, c.fileIds.get? o = some f → ∃ source, c.report.files[f]? = some ⟨o, source⟩
  coded : ∀ d ∈ c.report.diagnostics, d.isFault = true ∨ d.isUnresolved = true
  latest : ∀ d ∈ c.report.diagnostics, d.isFault = true →
    ∃ o f span message, c.fileIds.get? o = some f ∧ d.labels = [⟨f, span, message⟩]

theorem file?_of_labels {d : Diagnostic} {f : Nat} {span : Span} {message : String}
    (h : d.labels = [⟨f, span, message⟩]) : d.file? = some f := by
  unfold Diagnostic.file?
  rw [h]
  rfl

theorem filed_create (l : Lexicon) (settings : Settings) : Filed (create l settings) where
  waiting := nofun
  named := nofun
  coded := nofun
  latest := nofun

/-- No two owners share a block. -/
theorem Filed.owner_eq (h : Filed c) {f : Nat} (ho : c.fileIds.get? other = some f)
    (howner : c.fileIds.get? owner = some f) : other = owner := by
  obtain ⟨source, hfile⟩ := h.named other f ho
  obtain ⟨source', hfile'⟩ := h.named owner f howner
  rw [hfile] at hfile'
  cases hfile'
  rfl

/-- A fault is one of the owner if it is labelled in the owner's latest block. -/
theorem Filed.isFaultOf_iff (h : Filed c) {d : Diagnostic} (hd : d ∈ c.report.diagnostics) :
    c.report.isFaultOf owner d = true ↔
      d.isFault = true ∧ ∃ f, c.fileIds.get? owner = some f ∧ d.file? = some f := by
  unfold Report.isFaultOf
  rw [Bool.and_eq_true]
  refine and_congr_right fun hfault => ?_
  obtain ⟨o, f, span, message, hid, hlabels⟩ := h.latest d hd hfault
  obtain ⟨source, hfile⟩ := h.named o f hid
  have hpoint : (d.labels.any fun label => c.report.files[label.file]?.any fun file => file.name = owner) =
      decide (o = owner) := by
    rw [hlabels]
    simp [hfile]
  rw [hpoint, decide_eq_true_eq, file?_of_labels hlabels]
  constructor
  · rintro rfl
    exact ⟨f, hid, rfl⟩
  · rintro ⟨f', hid', hf⟩
    cases hf
    exact h.owner_eq hid hid'

theorem Filed.not_isFaultOf (h : Filed c) {d : Diagnostic} (hd : d ∈ c.report.diagnostics) (hne : other ≠ owner)
    (ho : c.report.isFaultOf other d = true) : c.report.isFaultOf owner d = false := by
  rw [Bool.eq_false_iff]
  intro howner
  obtain ⟨-, f, hid, hfile⟩ := (h.isFaultOf_iff hd).1 ho
  obtain ⟨-, f', hid', hfile'⟩ := (h.isFaultOf_iff hd).1 howner
  rw [hfile] at hfile'
  cases hfile'
  exact hne (h.owner_eq hid hid')

/-- **What is taken back before a build** is all that was said about faults of the owner, and nothing else. -/
theorem Filed.diagnostics_forgetOld (h : Filed c) (owner : String) {r : Report}
    (hr : r.diagnostics = c.report.diagnostics) :
    (c.forgetOld owner r).diagnostics = c.report.diagnostics.filter fun d => !c.report.isFaultOf owner d := by
  unfold forgetOld
  cases hid : c.fileIds.get? owner with
  | none =>
    refine hr.trans (List.filter_eq_self.2 fun d hd => ?_).symm
    rw [Bool.not_eq_true', Bool.eq_false_iff]
    intro hfault
    obtain ⟨-, f, hf, -⟩ := (h.isFaultOf_iff hd).1 hfault
    rw [hid] at hf
    cases hf
  | some old =>
    show r.diagnostics.filter (survivesRebuild old) = _
    rw [hr]
    refine List.filter_congr fun d hd => ?_
    rw [Bool.eq_iff_iff, Bool.not_eq_true', Bool.eq_false_iff, Ne, h.isFaultOf_iff hd, hid]
    have hsurvives : survivesRebuild old d = (d.file? != some old || d.isUnresolved) := rfl
    rw [hsurvives, Bool.or_eq_true, bne_iff_ne]
    rcases h.coded d hd with hfault | hcoded
    · rw [Diagnostic.isUnresolved_eq_false hfault, hfault]
      simp [eq_comm]
    · rw [hcoded, Diagnostic.isFault_eq_false hcoded]
      simp

/-! ## Builds -/

theorem Filed.file?_ne_length (h : Filed c) {d : Diagnostic} (hd : d ∈ c.report.diagnostics) (hf : d.isFault = true) :
    d.file? ≠ some c.report.files.length := by
  obtain ⟨o, f, span, message, hid, hlabels⟩ := h.latest d hd hf
  obtain ⟨source, hfile⟩ := h.named o f hid
  have hlt : f < c.report.files.length := (List.getElem?_eq_some_iff.1 hfile).1
  rw [file?_of_labels hlabels]
  intro heq
  exact Nat.lt_irrefl _ (Option.some.inj heq ▸ hlt)

/-- What a build of a waiting owner does to the report: the faults of the owner are replaced. -/
structure Rebuilt (owner : String) (lines : List String) (c c' : Catalog) (failures : List (Merged × Failure))
    (new : List Diagnostic) : Prop where
  failed : Failures c.settings owner c.lexicon (merge lines) failures
  files : c'.report.files = c.report.files ++ [⟨owner, blockText lines⟩]
  fileIds : c'.fileIds = c.fileIds.insert owner c.report.files.length
  diagnostics : c'.report.diagnostics =
    c.report.diagnostics.filter (fun d => !c.report.isFaultOf owner d) ++ new
  coded : ∀ d ∈ new, d.isFault = true ∨ d.isUnresolved = true
  faults : new.filter Diagnostic.isFault = failures.map (finding c.report.files.length lines)

theorem Filed.exists_rebuilt (h : Filed c) (hs : c.stale.contains owner = true) :
    ∃ lines failures new, c.blocks.get? owner = some lines ∧ Rebuilt owner lines c (c.build owner) failures new := by
  obtain ⟨lines, hb⟩ := h.waiting owner hs
  obtain ⟨failures, new, hfailures, hadds, hfaults, hids⟩ := exists_findings_build hs hb
  refine ⟨lines, failures, new, hb, hfailures, ?_, hids, ?_, hadds.coded, hfaults⟩
  · rw [hadds.files]
    unfold forgetOld
    split <;> rfl
  · have hold := h.diagnostics_forgetOld owner (r := (c.report.addFile owner (blockText lines)).2) rfl
    rw [hadds.diagnostics, hold]

namespace Rebuilt

variable {lines : List String} {c' : Catalog} {failures : List (Merged × Failure)} {new : List Diagnostic}

theorem exists_labels (hr : Rebuilt owner lines c c' failures new) {d : Diagnostic} (hd : d ∈ new)
    (hf : d.isFault = true) : ∃ span message, d.labels = [⟨c.report.files.length, span, message⟩] := by
  have hmem : d ∈ failures.map (finding c.report.files.length lines) := hr.faults ▸ List.mem_filter.2 ⟨hd, hf⟩
  obtain ⟨⟨m, f⟩, -, rfl⟩ := List.mem_map.1 hmem
  obtain ⟨message, hlabels⟩ := f.exists_labels_diagnostic c.report.files.length _
  exact ⟨_, message, hlabels⟩

/-- A build keeps the invariant. -/
theorem filed (hr : Rebuilt owner lines c c' failures new) (h : Filed c)
    (hw : ∀ o, c'.stale.contains o = true → ∃ lines, c'.blocks.get? o = some lines) : Filed c' where
  waiting := hw
  named := by
    intro o f hid
    rw [hr.fileIds, Dict.get?_insert] at hid
    rw [hr.files]
    split at hid
    · next ho =>
      cases hid
      exact ⟨blockText lines, by rw [List.getElem?_append_right (Nat.le_refl _), Nat.sub_self, ho]; rfl⟩
    · obtain ⟨source, hfile⟩ := h.named o f hid
      exact ⟨source, by rw [List.getElem?_append_left (List.getElem?_eq_some_iff.1 hfile).1, hfile]⟩
  coded := by
    intro d hd
    rw [hr.diagnostics] at hd
    rcases List.mem_append.1 hd with hd | hd
    · exact h.coded d (List.mem_filter.1 hd).1
    · exact hr.coded d hd
  latest := by
    intro d hd hf
    rw [hr.diagnostics] at hd
    rw [hr.fileIds]
    rcases List.mem_append.1 hd with hd | hd
    · -- what is kept is no fault of the owner, so its block is still the latest one
      obtain ⟨hmem, hkept⟩ := List.mem_filter.1 hd
      obtain ⟨o, f, span, message, hid, hlabels⟩ := h.latest d hmem hf
      refine ⟨o, f, span, message, ?_, hlabels⟩
      rw [Dict.get?_insert, if_neg, hid]
      rintro rfl
      have hfault : c.report.isFaultOf owner d = true :=
        (h.isFaultOf_iff hmem).2 ⟨hf, f, hid, file?_of_labels hlabels⟩
      rw [hfault] at hkept
      cases hkept
    · obtain ⟨span, message, hlabels⟩ := hr.exists_labels hd hf
      exact ⟨owner, _, span, message, Dict.get?_insert_self _ _ _, hlabels⟩

theorem isFaultOf_kept (hr : Rebuilt owner lines c c' failures new) (h : Filed c) (h' : Filed c') {d : Diagnostic}
    (hd : d ∈ c.report.diagnostics) (hkept : c.report.isFaultOf owner d = false) (o : String) :
    c'.report.isFaultOf o d = c.report.isFaultOf o d := by
  have hd' : d ∈ c'.report.diagnostics := by
    rw [hr.diagnostics]
    exact List.mem_append_left _ (List.mem_filter.2 ⟨hd, by rw [hkept]; rfl⟩)
  rw [Bool.eq_iff_iff, h'.isFaultOf_iff hd', h.isFaultOf_iff hd]
  refine and_congr_right fun hf => ?_
  rw [hr.fileIds, Dict.get?_insert]
  split
  · next ho =>
    subst ho
    refine iff_of_false ?_ ?_
    · rintro ⟨f, hf', hfile⟩
      cases hf'
      exact h.file?_ne_length hd hf hfile
    · intro hlatest
      rw [(h.isFaultOf_iff hd).2 ⟨hf, hlatest⟩] at hkept
      cases hkept
  · exact Iff.rfl

theorem isFaultOf_new (hr : Rebuilt owner lines c c' failures new) (h' : Filed c') {d : Diagnostic} (hd : d ∈ new)
    (o : String) : c'.report.isFaultOf o d = (d.isFault && decide (o = owner)) := by
  have hd' : d ∈ c'.report.diagnostics := by
    rw [hr.diagnostics]
    exact List.mem_append_right _ hd
  rw [Bool.eq_iff_iff, h'.isFaultOf_iff hd', Bool.and_eq_true, decide_eq_true_eq]
  refine and_congr_right fun hf => ?_
  obtain ⟨span, message, hlabels⟩ := hr.exists_labels hd hf
  have hown : c'.fileIds.get? owner = some c.report.files.length := by
    rw [hr.fileIds, Dict.get?_insert_self]
  rw [file?_of_labels hlabels]
  constructor
  · rintro ⟨f, hid, hf'⟩
    cases hf'
    exact h'.owner_eq hid hown
  · rintro rfl
    exact ⟨_, hown, rfl⟩

/-- **After a build the faults of the owner are its failures.** -/
theorem faultsOf_self (hr : Rebuilt owner lines c c' failures new) (h : Filed c) (h' : Filed c') :
    c'.report.faultsOf owner = failures.map (finding c.report.files.length lines) := by
  unfold Report.faultsOf
  rw [hr.diagnostics, List.filter_append, List.filter_filter, ← hr.faults]
  have hold : c.report.diagnostics.filter
      (fun d => c'.report.isFaultOf owner d && !c.report.isFaultOf owner d) = [] := by
    rw [List.filter_eq_nil_iff]
    intro d hd
    cases hkept : c.report.isFaultOf owner d with
    | true => simp
    | false => rw [hr.isFaultOf_kept h h' hd hkept owner, hkept]; simp
  rw [hold, List.nil_append]
  refine List.filter_congr fun d hd => ?_
  rw [hr.isFaultOf_new h' hd owner, decide_eq_true rfl, Bool.and_true]

/-- The faults of other owners stay. -/
theorem faultsOf_of_ne (hr : Rebuilt owner lines c c' failures new) (h : Filed c) (h' : Filed c')
    (hne : other ≠ owner) : c'.report.faultsOf other = c.report.faultsOf other := by
  unfold Report.faultsOf
  rw [hr.diagnostics, List.filter_append, List.filter_filter]
  have hnew : new.filter (c'.report.isFaultOf other) = [] := by
    rw [List.filter_eq_nil_iff]
    intro d hd
    rw [hr.isFaultOf_new h' hd other, decide_eq_false hne, Bool.and_false]
    exact Bool.false_ne_true
  rw [hnew, List.append_nil]
  refine List.filter_congr fun d hd => ?_
  cases hkept : c.report.isFaultOf owner d with
  | false => rw [hr.isFaultOf_kept h h' hd hkept other, Bool.not_false, Bool.and_true]
  | true =>
    rw [Bool.not_true, Bool.and_false, eq_comm, Bool.eq_false_iff]
    intro hother
    rw [h.not_isFaultOf hd hne hother] at hkept
    cases hkept

end Rebuilt

theorem waiting_build (h : Filed c) (owner o : String) (hs : (c.build owner).stale.contains o = true) :
    ∃ lines, (c.build owner).blocks.get? o = some lines := by
  rw [blocks_build]
  by_cases ho : owner = o
  · rw [ho, fresh_build] at hs
    cases hs
  · rw [contains_stale_build ho] at hs
    exact h.waiting o hs

theorem filed_build (h : Filed c) (owner : String) : Filed (c.build owner) := by
  cases hs : c.stale.contains owner with
  | false =>
    rw [build_of_fresh hs]
    exact h
  | true =>
    obtain ⟨lines, failures, new, -, hr⟩ := h.exists_rebuilt hs
    exact hr.filed h (waiting_build h owner)

theorem faultsOf_build_of_ne (h : Filed c) (hne : other ≠ owner) :
    (c.build owner).report.faultsOf other = c.report.faultsOf other := by
  cases hs : c.stale.contains owner with
  | false => rw [build_of_fresh hs]
  | true =>
    obtain ⟨lines, failures, new, -, hr⟩ := h.exists_rebuilt hs
    exact hr.faultsOf_of_ne h (filed_build h owner) hne

/-- **A build takes back faults of its owner only.** -/
theorem sublist_diagnostics_build (h : Filed c) (owner : String) :
    (c.report.diagnostics.filter fun d => !c.report.isFaultOf owner d).Sublist (c.build owner).report.diagnostics := by
  cases hs : c.stale.contains owner with
  | false =>
    rw [build_of_fresh hs]
    exact List.filter_sublist
  | true =>
    obtain ⟨lines, failures, new, -, hr⟩ := h.exists_rebuilt hs
    rw [hr.diagnostics]
    exact List.sublist_append_left _ _

/-! ## Events -/

/-- The second catalog has the blocks and the report of the first one, with at most more diagnostics about tokens
and modules. -/
structure SameFaults (c c' : Catalog) : Prop where
  files : c'.report.files = c.report.files
  fileIds : c'.fileIds = c.fileIds
  diagnostics : ∃ new : List Diagnostic, c'.report.diagnostics = c.report.diagnostics ++ new ∧
    ∀ d ∈ new, d.isUnresolved = true

namespace SameFaults

variable {c' : Catalog}

theorem of_report (hr : c'.report = c.report) (hf : c'.fileIds = c.fileIds) : SameFaults c c' :=
  ⟨by rw [hr], hf, [], by rw [hr, List.append_nil], List.forall_mem_nil _⟩

theorem filed (hc : SameFaults c c') (h : Filed c)
    (hw : ∀ o, c'.stale.contains o = true → ∃ lines, c'.blocks.get? o = some lines) : Filed c' := by
  obtain ⟨hfiles, hids, new, hdiagnostics, hnew⟩ := hc
  refine ⟨hw, ?_, ?_, ?_⟩
  · rw [hids, hfiles]
    exact h.named
  · rw [hdiagnostics]
    exact List.forall_mem_append.2 ⟨h.coded, fun d hd => Or.inr (hnew d hd)⟩
  · rw [hdiagnostics, hids]
    intro d hd hf
    rcases List.mem_append.1 hd with hd | hd
    · exact h.latest d hd hf
    · rw [Diagnostic.isFault_eq_false (hnew d hd)] at hf
      cases hf

theorem faultsOf (hc : SameFaults c c') (owner : String) : c'.report.faultsOf owner = c.report.faultsOf owner := by
  obtain ⟨hfiles, -, new, hdiagnostics, hnew⟩ := hc
  have hsame : c'.report.isFaultOf owner = c.report.isFaultOf owner := by
    unfold Report.isFaultOf
    rw [hfiles]
  have hnone : new.filter (c.report.isFaultOf owner) = [] := by
    rw [List.filter_eq_nil_iff]
    intro d hd
    unfold Report.isFaultOf
    rw [Diagnostic.isFault_eq_false (hnew d hd)]
    exact Bool.false_ne_true
  unfold Report.faultsOf
  rw [hdiagnostics, hsame, List.filter_append, hnone, List.append_nil]

end SameFaults

theorem sameFaults_addDescriptors (c : Catalog) (owner text : String) :
    SameFaults c (c.addDescriptors owner text) := by
  unfold addDescriptors
  dsimp only
  split <;> exact .of_report rfl rfl

theorem sameFaults_ensure (c : Catalog) (host : LoadedModules) (name : String) :
    SameFaults c (c.ensure host name).2 := by
  unfold Catalog.ensure
  split
  · exact .of_report rfl rfl
  · exact ⟨rfl, rfl, [_], rfl, List.forall_mem_singleton.2 rfl⟩

/-- An event that is no question leaves all faults as they are. -/
theorem sameFaults_perform (hask : e.asked? = none) (c : Catalog) : SameFaults c (e.perform c) := by
  cases e with
  | members o | variants o m | signature o m b k => cases hask
  | add o text => exact sameFaults_addDescriptors c o text
  | refresh host => exact .of_report rfl rfl
  | ensure host name => exact sameFaults_ensure c host name

theorem exists_eq_add (h : e.addedTo? = some owner) : ∃ text, e = .add owner text := by
  cases e with
  | add o text =>
    cases h
    exact ⟨text, rfl⟩
  | members o | variants o m | signature o m b k | refresh host | ensure host name => cases h

theorem waiting_perform (h : Filed c) (e : Event) (o : String) (hs : (e.perform c).stale.contains o = true) :
    ∃ lines, (e.perform c).blocks.get? o = some lines := by
  by_cases hadd : e.addedTo? = some o
  · obtain ⟨text, rfl⟩ := exists_eq_add hadd
    refine ⟨(c.blocks.get? o).getD [] ++ (Text.lines text.toList).map String.ofList, ?_⟩
    show (c.addDescriptors o text).blocks.get? o = _
    unfold addDescriptors
    dsimp only
    split <;> exact Dict.get?_insert_self _ _ _
  · by_cases hask : e.asked? = some o
    · rw [perform_of_asked hask] at hs ⊢
      exact waiting_build h o o hs
    · have hsame := sameOwner_perform hask hadd c
      rw [hsame.blocks]
      rw [hsame.stale] at hs
      exact h.waiting o hs

/-- **Every event keeps the invariant.** -/
theorem filed_perform (h : Filed c) (e : Event) : Filed (e.perform c) := by
  cases hask : e.asked? with
  | some o =>
    rw [perform_of_asked hask]
    exact filed_build h o
  | none => exact (sameFaults_perform hask c).filed h (waiting_perform h e)

/-- An event that does not ask about an owner leaves the owner's faults as they are. -/
theorem faultsOf_perform (h : Filed c) (hask : e.asked? ≠ some owner) :
    (e.perform c).report.faultsOf owner = c.report.faultsOf owner := by
  cases ho : e.asked? with
  | some o =>
    rw [perform_of_asked ho]
    refine faultsOf_build_of_ne h ?_
    rintro rfl
    exact hask ho
  | none => exact (sameFaults_perform ho c).faultsOf owner

/-- Registered blocks stay. -/
theorem getElem?_files_perform (h : Filed c) (e : Event) {file : Nat} {block : SourceFile}
    (hf : c.report.files[file]? = some block) : (e.perform c).report.files[file]? = some block := by
  cases ho : e.asked? with
  | none => rw [(sameFaults_perform ho c).files, hf]
  | some o =>
    rw [perform_of_asked ho]
    cases hs : c.stale.contains o with
    | false => rw [build_of_fresh hs, hf]
    | true =>
      obtain ⟨lines, failures, new, -, hr⟩ := h.exists_rebuilt hs
      rw [hr.files, List.getElem?_append_left (List.getElem?_eq_some_iff.1 hf).1, hf]

/-! ## Histories -/

/-- What a history says about the faults of an owner in a report. -/
structure Reported (start : Catalog) (owner : String) (es : List Event) (c : Catalog) : Prop where
  filed : Filed c
  faults : c.stale.contains owner = false → ∃ l failures file, BuiltFrom start owner es l ∧
    Failures start.settings owner l (merge (linesAdded owner es)) failures ∧
    c.report.faultsOf owner = failures.map (finding file (linesAdded owner es)) ∧
    (failures ≠ [] → c.report.files[file]? = some ⟨owner, blockText (linesAdded owner es)⟩)

theorem reported_create (l : Lexicon) (settings : Settings) (owner : String) :
    Reported (create l settings) owner [] (create l settings) where
  filed := filed_create l settings
  faults := fun _ =>
    ⟨l, [], 0, Or.inr (List.forall_mem_nil _), .done l, rfl, fun hne => absurd rfl hne⟩

/-- A question about the owner replaces its faults if it waits, and otherwise changes nothing. -/
theorem reported_build (hc : Consistent start owner es (start.after es)) (h : Reported start owner es (start.after es))
    (hask : e.asked? = some owner) : Reported start owner (es ++ [e]) ((start.after es).build owner) := by
  have hadd := addedTo?_of_asked hask owner
  refine ⟨filed_build h.filed owner, fun _ => ?_⟩
  rw [linesAdded_of_not_added hadd]
  cases hs : (start.after es).stale.contains owner with
  | true =>
    obtain ⟨-, hwaits⟩ := hc.waits hs
    obtain ⟨lines, failures, new, hb, hr⟩ := h.filed.exists_rebuilt hs
    have hlines := hc.lines
    rw [hb, Option.getD_some] at hlines
    subst hlines
    refine ⟨_, failures, _, Or.inl ⟨es, ⟨hwaits, e, [], rfl, hask, List.forall_mem_nil _⟩, rfl⟩, ?_,
      hr.faultsOf_self h.filed (filed_build h.filed owner), fun _ => ?_⟩
    · rw [← hc.settings]
      exact hr.failed
    · rw [hr.files, List.getElem?_append_right (Nat.le_refl _), Nat.sub_self]
      rfl
  | false =>
    obtain ⟨l, failures, file, hfrom, hrest⟩ := h.faults hs
    rw [build_of_fresh hs]
    exact ⟨l, failures, file, hfrom.concat hadd, hrest⟩

theorem reported_perform (hc : Consistent start owner es (start.after es))
    (h : Reported start owner es (start.after es)) (e : Event) :
    Reported start owner (es ++ [e]) (e.perform (start.after es)) := by
  by_cases hask : e.asked? = some owner
  · rw [perform_of_asked hask]
    exact reported_build hc h hask
  · refine ⟨filed_perform h.filed e, fun hs => ?_⟩
    by_cases hadd : e.addedTo? = some owner
    · -- then the owner waits
      obtain ⟨text, rfl⟩ := exists_eq_add hadd
      have hstale := stale_addDescriptors (start.after es) owner text
      rw [show (start.after es).addDescriptors owner text = (Event.add owner text).perform _ from rfl, hs] at hstale
      cases hstale
    · rw [(sameOwner_perform hask hadd (start.after es)).stale] at hs
      obtain ⟨l, failures, file, hfrom, hfailures, hfaults, hfile⟩ := h.faults hs
      rw [linesAdded_of_not_added hadd, faultsOf_perform h.filed hask]
      exact ⟨l, failures, file, hfrom.concat hadd, hfailures, hfaults,
        fun hne => getElem?_files_perform h.filed e (hfile hne)⟩

/-- The invariant holds after every history. -/
theorem reported_after (l : Lexicon) (settings : Settings) (owner : String) (es : List Event) :
    Reported (create l settings) owner es ((create l settings).after es) :=
  after_induction (reported_create l settings owner)
    (fun es e h => reported_perform (consistent_after l settings owner es) h e) es

/-! ## Lines -/

theorem not_mem_linesAdded (owner : String) (es : List Event) : ∀ line ∈ linesAdded owner es, '\n' ∉ line.toList := by
  intro line hline
  obtain ⟨e, -, hline⟩ := List.mem_flatMap.1 hline
  split at hline
  · next hadd =>
    obtain ⟨text, rfl⟩ := exists_eq_add hadd
    obtain ⟨cs, hcs, rfl⟩ := List.mem_map.1 hline
    rw [String.toList_ofList]
    exact not_mem_of_mem_lines hcs
  · cases hline

/-- Both ends of the span are bytes of the line, or the one after its last. -/
structure Within (line span : Span) : Prop where
  start : line.start ≤ span.start ∧ span.start ≤ line.stop
  stop : line.start ≤ span.stop ∧ span.stop ≤ line.stop

/-- A label of a merged line lies in the raw line at its origin. -/
theorem place_within {lines : List String} {m : Merged} {raw : String} (hraw : lines[m.origin]? = some raw)
    (file : Nat) (span : Span) :
    Within (lineSpan (lineStart lines m.origin) raw.toList) ((sourceOf file lines m).place span) := by
  have hclamp : ∀ n, lineStart lines m.origin ≤
      min (n + (lineStart lines m.origin + bodyShift raw.toList m.text.toList))
        (lineStart lines m.origin + Text.width raw.toList) := by
    intro n
    omega
  unfold sourceOf
  rw [hraw]
  exact ⟨⟨hclamp span.start, Nat.min_le_right _ _⟩, hclamp span.stop, Nat.min_le_right _ _⟩

/-- A label in a line has the number of the line twice in its JSON form. -/
theorem exists_fields {r : Report} (label : Label) {lines : List String} {i : Nat} {raw : String}
    (hfile : r.files[label.file]? = some ⟨owner, blockText lines⟩) (hn : ∀ line ∈ lines, '\n' ∉ line.toList)
    (hraw : lines[i]? = some raw) (hw : Within (lineSpan (lineStart lines i) raw.toList) label.span) :
    ∃ fields, r.labelJson? label = some (.object fields) ∧ ("start_line", .int (i + 1 : Nat)) ∈ fields ∧
      ("end_line", .int (i + 1 : Nat)) ∈ fields := by
  have hstart := line_locate hraw hn hw.start.1 hw.start.2
  have hstop := line_locate hraw hn hw.stop.1 hw.stop.2
  unfold Report.labelJson?
  rw [hfile, Option.map_some]
  dsimp only
  rw [hstart, hstop]
  exact ⟨_, rfl, by simp, by simp⟩

/-! ## Faults -/

/-- **The faults in a report are those of the current blocks**, after any history. Right after a question about an
owner, what the report says about faults in any block ever registered for it is one diagnostic for each merged line
that failed in its latest build, in merged order; its label lies in the raw line at the origin of the merged line,
and both lines of its JSON form are the number of this line. All other diagnostics are still there. -/
theorem faults_exact (l : Lexicon) (settings : Settings) (es : List Event) {owner : String} {question : Event}
    (hask : question.asked? = some owner) :
    let start := create l settings
    let block := linesAdded owner es
    let before := (start.after es).report
    let r := (start.after (es ++ [question])).report
    (∃ l₀ failures file, BuiltFrom start owner (es ++ [question]) l₀ ∧
      Failures settings owner l₀ (merge block) failures ∧ r.faultsOf owner = failures.map (finding file block) ∧
      ∀ m f, (m, f) ∈ failures → ∃ raw label fields, block[m.origin]? = some raw ∧
        (finding file block (m, f)).labels = [label] ∧ r.files[label.file]? = some ⟨owner, blockText block⟩ ∧
        Within (lineSpan (lineStart block m.origin) raw.toList) label.span ∧
        r.labelJson? label = some (.object fields) ∧ ("start_line", .int (m.origin + 1 : Nat)) ∈ fields ∧
        ("end_line", .int (m.origin + 1 : Nat)) ∈ fields) ∧
    (before.diagnostics.filter fun d => !before.isFaultOf owner d).Sublist r.diagnostics := by
  intro start block before r
  have hc : Consistent start owner es (start.after es) := consistent_after l settings owner es
  have h : Reported start owner es (start.after es) := reported_after l settings owner es
  have hr : r = ((start.after es).build owner).report := by
    show (start.after (es ++ [question])).report = _
    rw [after_concat, perform_of_asked hask]
  rw [hr]
  refine ⟨?_, sublist_diagnostics_build h.filed owner⟩
  obtain ⟨l₀, failures, file, hfrom, hfailures, hfaults, hfile⟩ :=
    (reported_build hc h hask).faults (fresh_build _ owner)
  rw [linesAdded_of_not_added (addedTo?_of_asked hask owner)] at hfailures hfaults hfile
  refine ⟨l₀, failures, file, hfrom, hfailures, hfaults, fun m f hm => ?_⟩
  obtain ⟨raw, hraw, -⟩ := hasOrigin_of_mem_merge (hfailures.mem_lines hm)
  obtain ⟨message, hlabels⟩ := f.exists_labels_diagnostic file ((sourceOf file block m).place f.span)
  have hwithin := place_within hraw file f.span
  have hregistered := hfile (List.ne_nil_of_mem hm)
  obtain ⟨fields, hfields⟩ := exists_fields ⟨file, _, message⟩ hregistered
    (not_mem_linesAdded owner es) hraw hwithin
  exact ⟨raw, _, fields, hraw, hlabels, hregistered, hwithin, hfields⟩

/-- Two owners are built, and one of them gets more lines. -/
def rebuiltBetween : List Event :=
  [.add "a" "f(x\ng(y:Widget)", .members "a", .add "b" "f(x", .members "b", .refresh .empty,
    .add "a" "\n  7: k(y:int=1,x:int)\n0: h()"]

theorem faults_exact_rebuilt :
    let start := create .blank .standard
    let block := linesAdded "a" rebuiltBetween
    let r := (start.after (rebuiltBetween ++ [.variants "a" "h"])).report
    (Event.variants "a" "h").asked? = some "a" ∧
      ∃ l₀ failures file, BuiltFrom start "a" (rebuiltBetween ++ [.variants "a" "h"]) l₀ ∧
        Failures .standard "a" l₀ (merge block) failures ∧ r.faultsOf "a" = failures.map (finding file block) ∧
        failures.length = 2 := by
  intro start block r
  have hask : (Event.variants "a" "h").asked? = some "a" := rfl
  obtain ⟨⟨l₀, failures, file, hfrom, hfailures, hfaults, -⟩, -⟩ :=
    faults_exact .blank .standard rebuiltBetween hask
  have htwo : (r.faultsOf "a").length = 2 := by decide +kernel
  refine ⟨hask, l₀, failures, file, hfrom, hfailures, hfaults, ?_⟩
  rw [← htwo, ← List.length_map (finding file block)]
  exact (congrArg List.length hfaults).symm

end Catalog
end CallSig
