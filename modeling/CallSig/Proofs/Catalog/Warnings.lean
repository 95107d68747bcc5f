import CallSig.Proofs.Catalog.Sessions
import CallSig.Proofs.Resolution.Installation
import CallSig.Proofs.Resolution.Misses

/-!
# `CallSig.Proofs.Catalog.Warnings` — how often a miss is diagnosed

A token that is given up on gets an entry, which later builds find, so it is reported once. Only an installation
takes such an entry away: it marks the placeholder, the token is resolved anew, and if it is missed again there is
another diagnostic beside the first. What a report says of a token and the lexicon's budget of misses go up together
only there, by one for each time that an event reopens the token.

## Contents
- **Diagnostics of misses.** `Diagnostic.isMissOf`, `isMissOf_ofMiss`, `Report.missesOf`.
- **Builds.** `owed_addLine`, `owed_build`: a build keeps what is said and what can still be said within bounds.
- **Events.** `Event.Reopens`, `unresolved_refresh`, `owed_perform`.
- **Histories.** `reopenings`, `missesOf_after_le`.
- **Twice.** `diagnosed_twice`: an installation that has nothing to do with a token reopens it.
-/

namespace CallSig

open Lexicon

/-! ## Diagnostics of misses -/

namespace Diagnostic

/-- The reasons for giving up on a token. -/
def reasons : List MissReason := [.unknownToken, .notAContainer, .badArguments, .tooDeep]

/-- Whether a diagnostic says that this token was given up on, for whatever reason. -/
def isMissOf (token : String) (d : Diagnostic) : Bool :=
  reasons.any fun reason =>
    d.code? = some ⟨.resolution, missNumber reason⟩ && d.message = missMessage ⟨token, reason⟩

theorem missMessage_inj {t t' : String} {reason : MissReason} :
    missMessage ⟨t, reason⟩ = missMessage ⟨t', reason⟩ ↔ t = t' := by
  cases reason <;> simp [missMessage, toString]

/-- The diagnostic of a miss is about the token of the miss. -/
theorem isMissOf_ofMiss (m : Miss) (file : Nat) (span : Span) (strict : Bool) (t : String) :
    (ofMiss m file span strict).isMissOf t = decide (m.token = t) := by
  obtain ⟨token, reason⟩ := m
  cases reason <;> simp [isMissOf, reasons, ofMiss, missNumber, missMessage_inj]

theorem isMissOf_ofParseError (e : ParseError) (file : Nat) (span : Span) (t : String) :
    (ofParseError e file span).isMissOf t = false := by
  simp [isMissOf, reasons, ofParseError]

theorem isMissOf_ofAssemblyError (e : AssemblyError) (file : Nat) (span : Span) (t : String) :
    (ofAssemblyError e file span).isMissOf t = false := by
  simp [isMissOf, reasons, ofAssemblyError]

theorem isMissOf_ofModuleError (e : ModuleError) (t : String) : (ofModuleError e).isMissOf t = false := by
  simp [isMissOf, reasons, ofModuleError, missNumber]

end Diagnostic

namespace Report

/-- How many diagnostics say that a token was given up on. -/
def missesOf (r : Report) (t : String) : Nat := r.diagnostics.countP (Diagnostic.isMissOf t)

theorem missesOf_push (r : Report) (d : Diagnostic) (t : String) :
    (r.push d).missesOf t = r.missesOf t + if d.isMissOf t then 1 else 0 := by
  unfold missesOf push
  rw [List.countP_append, List.countP_singleton]

theorem missesOf_retain_le (r : Report) (keep : Diagnostic → Bool) (t : String) :
    (r.retain keep).missesOf t ≤ r.missesOf t :=
  List.filter_sublist.countP_le

end Report

namespace Catalog

variable {c : Catalog} {owner t : String} {l₀ : Lexicon} {settings : Settings} {p : Progress} {e : Event}

/-! ## Builds -/

/-- What the report says of a token, and what can be said of it without reopening it. -/
def Progress.owed (p : Progress) (t : String) : Nat := p.report.missesOf t + p.lexicon.missBudget t

theorem missesOf_addMisses (p : Progress) (s : Source) (strict : Bool) (misses : List Miss) (t : String) :
    (p.addMisses s strict misses).report.missesOf t =
      p.report.missesOf t + misses.countP fun m => m.token = t := by
  unfold Progress.addMisses Report.missesOf
  rw [List.countP_append, List.countP_map]
  congr 2
  funext m
  exact Diagnostic.isMissOf_ofMiss m s.file _ strict t

/-- Reading a line: the misses it hands out have been in the budget. -/
theorem owed_addLine (ht : IsComposite settings.bracketDepth t → ¬l₀.Recurs settings.bracketDepth t)
    (hg : Grows l₀ p.lexicon) (s : Source) :
    Grows l₀ (p.addLine settings owner s).lexicon ∧ (p.addLine settings owner s).owed t ≤ p.owed t := by
  unfold Progress.addLine
  cases Descriptor.parse settings.bracketDepth s.merged with
  | error e =>
    refine ⟨hg, Nat.add_le_add_right (Nat.le_of_eq ?_) _⟩
    rw [Report.missesOf_push, Diagnostic.isMissOf_ofParseError]
    rfl
  | ok descriptor =>
    obtain ⟨hgrows, hbudget⟩ := (runProperty_thrifty ht).assemble settings.optionalReturns (some owner) descriptor
      p.lexicon hg
    dsimp only
    revert hgrows hbudget
    generalize Variant.assemble settings.bracketDepth settings.optionalReturns (some owner) descriptor p.lexicon = run
    obtain ⟨outcome, l⟩ := run
    intro hgrows hbudget
    -- the misses move from the lexicon to the report
    have howed : ({ p with lexicon := l.takeUnresolved.2 }.addMisses s settings.strict l.takeUnresolved.1).owed t ≤
        p.owed t := by
      unfold Progress.owed
      rw [missesOf_addMisses, Nat.add_assoc]
      refine Nat.add_le_add_left (Nat.le_trans (Nat.le_of_eq ?_) hbudget) _
      show _ + (0 + _) = l.unreported t + _
      rw [Nat.zero_add]
      rfl
    have hgrows' := hgrows.trans (grows_takeUnresolved l)
    cases outcome with
    | ok variant => exact ⟨hgrows', howed⟩
    | error e =>
      refine ⟨hgrows', Nat.le_trans (Nat.add_le_add_right (Nat.le_of_eq ?_) _) howed⟩
      rw [Report.missesOf_push, Diagnostic.isMissOf_ofAssemblyError]
      rfl

theorem owed_foldl_addLine (ht : IsComposite settings.bracketDepth t → ¬l₀.Recurs settings.bracketDepth t)
    (hg : Grows l₀ p.lexicon) (sources : List Source) :
    (sources.foldl (Progress.addLine settings owner) p).owed t ≤ p.owed t := by
  induction sources generalizing p with
  | nil => exact Nat.le_refl _
  | cons s rest ih =>
    obtain ⟨hgrows, howed⟩ := owed_addLine ht hg s
    exact Nat.le_trans (ih hgrows) howed

/-- What is said of a token in a catalog, and what can be said of it without reopening it. -/
def owed (c : Catalog) (t : String) : Nat := c.report.missesOf t + c.lexicon.missBudget t

theorem missesOf_forgetOld_le (c : Catalog) (owner : String) (r : Report) (t : String) :
    (c.forgetOld owner r).missesOf t ≤ r.missesOf t := by
  unfold forgetOld
  cases c.fileIds.get? owner with
  | none => exact Nat.le_refl _
  | some old => exact Report.missesOf_retain_le r _ t

/-- **A build says no more of a token** than could be said of it before. -/
theorem owed_build
    (ht : IsComposite c.settings.bracketDepth t → ¬c.lexicon.Recurs c.settings.bracketDepth t) (owner : String) :
    (c.build owner).owed t ≤ c.owed t := by
  unfold build
  split
  · dsimp only
    cases c.blocks.get? owner with
    | none => exact Nat.le_refl _
    | some lines =>
      refine Nat.le_trans (owed_foldl_addLine (p := ⟨c.lexicon, c.forgetOld owner _, c.builtMembers owner⟩) ht
        (.of_counted (.refl c.lexicon)) _) ?_
      exact Nat.add_le_add_right (missesOf_forgetOld_le c owner _ t) _
  · exact Nat.le_refl _

/-! ## Events -/

/-- The event takes the entry of a token away. -/
def Event.Reopens (e : Event) (c : Catalog) (t : String) : Prop :=
  c.lexicon.known? t ≠ none ∧ (e.perform c).lexicon.known? t = none

instance (e : Event) (c : Catalog) (t : String) : Decidable (e.Reopens c t) :=
  inferInstanceAs (Decidable (¬_ ∧ _))

theorem unresolved_ensure {l l' : Lexicon} {host : LoadedModules} {name : String} {new : Bool}
    (h : l.ensure host name = .ok (new, l')) : l'.unresolved = l.unresolved := by
  unfold Lexicon.ensure at h
  split at h
  · cases h
    rfl
  · cases hv : l.pending.find? (·.name == name) with
    | none =>
      rw [hv] at h
      cases h
    | some v =>
      rw [hv] at h
      dsimp only at h
      split at h
      · cases h
        exact unresolved_install l v
      · cases h

theorem unresolved_ensureAll (host : LoadedModules) (names : List String) (l : Lexicon) :
    (l.ensureAll host names).2.unresolved = l.unresolved := by
  induction names generalizing l with
  | nil => rfl
  | cons name names ih =>
    unfold ensureAll
    cases h : l.ensure host name with
    | error e => exact ih l
    | ok found =>
      obtain ⟨new, l'⟩ := found
      cases new <;> exact (ih l').trans (unresolved_ensure h)

theorem unresolved_refresh (host : LoadedModules) (l : Lexicon) :
    (l.refresh host).2.unresolved = l.unresolved := by
  unfold Lexicon.refresh
  split
  · rfl
  · exact unresolved_ensureAll host _ _

/-- Where nothing is reported or handed out, only reopening a token adds to what can be said of it. -/
theorem owed_le_of_unresolved {c' : Catalog} (hm : c'.report.missesOf t = c.report.missesOf t)
    (hu : c'.lexicon.unresolved = c.lexicon.unresolved) :
    c'.owed t ≤ c.owed t + if c.lexicon.known? t ≠ none ∧ c'.lexicon.known? t = none then 1 else 0 := by
  unfold owed missBudget unreported
  rw [hm, hu]
  by_cases h : c.lexicon.known? t = none <;> by_cases h' : c'.lexicon.known? t = none <;>
    simp [h, h', Nat.add_assoc]

/-- **An event adds to what can be said of a token only by reopening it.** -/
theorem owed_perform (ht : IsComposite c.settings.bracketDepth t → ¬c.lexicon.Recurs c.settings.bracketDepth t)
    (e : Event) : (e.perform c).owed t ≤ c.owed t + if e.Reopens c t then 1 else 0 := by
  cases e with
  | members o | variants o m | signature o m b k =>
    exact Nat.le_trans (owed_build ht o) (Nat.le_add_right _ _)
  | add o text =>
    refine owed_le_of_unresolved ?_ (congrArg Lexicon.unresolved (lexicon_addDescriptors c o text))
    show (c.addDescriptors o text).report.missesOf t = _
    unfold addDescriptors
    dsimp only
    split <;> rfl
  | refresh host => exact owed_le_of_unresolved rfl (unresolved_refresh host c.lexicon)
  | ensure host name =>
    refine owed_le_of_unresolved ?_ ?_
    · show (c.ensure host name).2.report.missesOf t = _
      unfold Catalog.ensure
      split
      · rfl
      · rw [Report.missesOf_push, Diagnostic.isMissOf_ofModuleError]
        rfl
    · show (c.ensure host name).2.lexicon.unresolved = _
      unfold Catalog.ensure
      split
      · next h => exact unresolved_ensure h
      · rfl

/-! ## Histories -/

/-- How often the events of a history reopen a token. -/
def reopenings (t : String) (c : Catalog) : List Event → Nat
  | [] => 0
  | e :: es => (if e.Reopens c t then 1 else 0) + reopenings t (e.perform c) es

theorem owed_after {es : List Event}
    (ht : ∀ n, IsComposite c.settings.bracketDepth t →
      ¬(c.after (es.take n)).lexicon.Recurs c.settings.bracketDepth t) :
    (c.after es).owed t ≤ c.owed t + reopenings t c es := by
  induction es generalizing c with
  | nil => exact Nat.le_refl _
  | cons e es ih =>
    show ((e.perform c).after es).owed t ≤ c.owed t + (_ + reopenings t (e.perform c) es)
    have hrest := ih (c := e.perform c) fun n => by
      rw [settings_perform]
      exact ht (n + 1)
    have hstep := owed_perform (ht 0) e
    omega

/-- **A miss is diagnosed once**, and once more each time that an event reopens the token. The token is none that
comes back to itself by way of a composite one, and before the history it was not both reported and reopened. -/
theorem missesOf_after_le {l : Lexicon} {es : List Event} (hl : l.missBudget t ≤ 1)
    (ht : ∀ n, IsComposite settings.bracketDepth t →
      ¬((create l settings).after (es.take n)).lexicon.Recurs settings.bracketDepth t) :
    ((create l settings).after es).report.missesOf t ≤ 1 + reopenings t (create l settings) es := by
  have howed := owed_after (c := create l settings) ht
  have hbudget : (create l settings).lexicon.missBudget t = l.missBudget t := by
    show (settings.aliases.entries.foldl (fun l e => l.addAlias e.1 e.2) l).missBudget t = _
    rw [foldl_addAlias]
    rfl
  have hsaid : (create l settings).report.missesOf t = 0 := rfl
  unfold owed at howed
  omega

/-- A lexicon where a module `core` with a class `Foo` waits for the host. -/
def coreWaits (l : Lexicon) : Lexicon := l.addVocabulary ((Vocabulary.empty "core").addClass "core.Foo")

/-- An owner is built, the module comes in, and another owner is built. -/
def moduleBetween (args : String) : List Event :=
  [.add "a" s!"f({args})", .members "a", .ensure (.ofList ["core"]) "core", .add "b" s!"g({args})", .members "b"]

/-- A catalog with an alias, over the waiting module only. -/
def aliasedWidget : Catalog := create (coreWaits .blank) { Settings.standard with aliases := .ofList [("W", "Widget")] }

theorem missesOf_after_le_moduleBetween :
    let es := moduleBetween "x:core.Foo<W>,y:W"
    (coreWaits .blank).missBudget "core.Foo<W>" ≤ 1 ∧
      (∀ n, IsComposite 3 "core.Foo<W>" → ¬(aliasedWidget.after (es.take n)).lexicon.Recurs 3 "core.Foo<W>") ∧
      reopenings "core.Foo<W>" aliasedWidget es = 1 ∧
      (aliasedWidget.after es).report.missesOf "core.Foo<W>" ≤ 1 + 1 := by
  intro es
  have hbudget : (coreWaits .blank).missBudget "core.Foo<W>" ≤ 1 := by decide
  have hasked : ∀ n ≤ 5, ∀ s ∈ ["core.Foo<W>", "core.Foo", "W", "Widget"],
      ∀ p ∈ (aliasedWidget.after (es.take n)).lexicon.asksFor 3 s,
        p ∈ ["core.Foo<W>", "core.Foo", "W", "Widget"] ∧ p ≠ "core.Foo<W>" := by decide +kernel
  have hrecurs : ∀ n, IsComposite 3 "core.Foo<W>" →
      ¬(aliasedWidget.after (es.take n)).lexicon.Recurs 3 "core.Foo<W>" := by
    intro n _
    have htake : es.take n = es.take (min n 5) := by
      rw [List.take_eq_take_min]
      rfl
    rw [htake]
    exact not_recurs_of_not_asked _ List.mem_cons_self (hasked _ (Nat.min_le_right n 5))
  have hreopened : reopenings "core.Foo<W>" aliasedWidget es = 1 := by decide +kernel
  refine ⟨hbudget, hrecurs, hreopened, ?_⟩
  have hle : (aliasedWidget.after es).report.missesOf "core.Foo<W>" ≤ 1 + reopenings "core.Foo<W>" aliasedWidget es :=
    missesOf_after_le hbudget hrecurs
  rw [hreopened] at hle
  exact hle

/-! ## Twice -/

/-- Installing a vocabulary that has nothing to do with a token reopens it, and the next build reports it a second
time. -/
theorem diagnosed_twice :
    ((create (coreWaits .baseline) .standard).after (moduleBetween "x:Widget")).report.missesOf "Widget" = 2 := by
  decide +kernel

end Catalog
end CallSig
