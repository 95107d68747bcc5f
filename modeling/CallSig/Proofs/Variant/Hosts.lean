import CallSig.Proofs.Rendering.Pieces
import CallSig.Proofs.Resolution.Histories
import CallSig.Proofs.Variant.Values

/-!
# `CallSig.Proofs.Variant.Hosts` — lexicons that know classes and constants by dotted paths

A lexicon begins with the baseline, and modules add classes and constants to it. While no family of matrix classes is
registered and all paths are dotted, every value in it is tidy, before and after any resolution. So everything that a
variant is made of is tidy.

## Contents
- **Tidy values.** `Tidy.hint`, `Tidy.elementType`, `preserved_tidy`, `tidy_of_hintOf`.
- **Entries.** `Holds.addEntries`, `Holds.install`, `holds_baseline`.
- **Histories.** `IsHostObject`, `Event.Hosts`; `Hosted`, `hosted_perform`, `hosted_after`.
-/

namespace CallSig

/-! ## Tidy values -/

namespace TypeExpr

theorem Tidy.widen {t : TypeExpr} (h : t.Tidy) (position : Position) : (t.widen position).Tidy := by
  unfold TypeExpr.widen
  split
  · cases h with
    | generic _ hargs => exact .generic .sequence hargs
  · exact h

theorem Tidy.orNone {t : TypeExpr} (h : t.Tidy) : t.orNone.Tidy := by
  unfold TypeExpr.orNone
  split
  · exact h
  · exact .optional h

end TypeExpr

namespace Value

theorem Tidy.hint {v : Value} (h : v.Tidy) (position : Position) : (v.hint position).Tidy := by
  have hlist {kind : GenericKind} {t : TypeExpr} (ht : t.Tidy) : (TypeExpr.generic kind [t]).Tidy :=
    .generic kind (List.forall_mem_singleton.2 ht)
  cases v with
  | type t => exact TypeExpr.Tidy.widen h position
  | former f =>
    cases f with
    | container kind => exact (TypeExpr.Tidy.generic kind (List.forall_mem_nil _)).widen position
    | arrayLike | matrix => exact .unmapped _
  | output t =>
    cases position with
    | argument => exact h
    | result => exact hlist h
  | arrayLike t => cases position <;> exact hlist h
  | literal x =>
    cases x with
    | null => exact .builtin .noneType
    | _ => exact .unmapped _
  | constant | sentinel | unmapped => exact .unmapped _

theorem Tidy.elementType {v : Value} (h : v.Tidy) : v.elementType.Tidy := by
  cases v with
  | output t => exact h
  | _ => exact h.hint .result

end Value

namespace Lexicon

/-- **Resolution makes tidy values from tidy ones.** -/
theorem preserved_tidy : Preserved Value.Tidy where
  literal _ := trivial
  sentinel _ := trivial
  unmapped _ := trivial
  array := by
    intro v hv length?
    unfold arrayOf
    split
    · split
      · refine TypeExpr.Tidy.generic .tuple fun t ht => ?_
        rw [List.eq_of_mem_replicate ht]
        exact hv.elementType
      · exact hv.elementType
    · exact hv.elementType
  generic kind values hvalues := by
    refine TypeExpr.Tidy.generic kind fun t ht => ?_
    obtain ⟨v, hv, rfl⟩ := List.mem_map.1 ht
    exact (hvalues v hv).elementType
  named := by
    intro path values hpath hvalues
    cases hpath with
    | named hdotted _ =>
      refine TypeExpr.Tidy.named hdotted fun t ht => ?_
      obtain ⟨v, hv, rfl⟩ := List.mem_map.1 ht
      exact (hvalues v hv).elementType

end Lexicon

/-- The type of a parameter is tidy if it comes from a tidy value. -/
theorem tidy_of_hintOf {t : TypeExpr} (h : Variant.HintOf Value.Tidy t) : t.Tidy := by
  obtain ⟨v, hv, rfl | rfl⟩ := h
  · exact hv.hint .argument
  · exact (hv.hint .argument).orNone

namespace Lexicon

variable {P : Value → Prop} {l : Lexicon}

/-! ## Entries -/

namespace Holds

theorem define (h : Holds P l) (path : String) {v : Value} (hv : P v) : Holds P (l.define path v) where
  tokens := h.tokens
  definitions := by
    intro path' v' hv'
    rw [Lexicon.define, Dict.get?_insert] at hv'
    split at hv'
    · exact Option.some.inj hv' ▸ hv
    · exact h.definitions path' v' hv'

theorem register (h : Holds P l) (token : String) {v : Value} (hv : P v) : Holds P (l.register token v) where
  tokens := by
    intro token' v' hv'
    rw [Lexicon.register, Dict.get?_insert] at hv'
    split at hv'
    · exact Option.some.inj hv' ▸ hv
    · exact h.tokens token' v' hv'
  definitions := h.definitions

/-- Adding entries that have the property. -/
theorem addEntries (h : Holds P l) {v : Vocabulary} (hdefinitions : ∀ e ∈ v.definitions, P e.2)
    (htokens : ∀ e ∈ v.tokens, P e.2) : Holds P (l.addEntries v) := by
  refine addEntries_induction (fun l hl e he => ?_) (fun l hl e he => ?_) (fun l hl e _ => ?_) h
  · exact hl.define e.1 (hdefinitions e he)
  · exact hl.register e.1 (htokens e he)
  · exact ⟨hl.tokens, hl.definitions⟩

theorem installed (h : Holds P l) (names : List String) : Holds P { l with installed := names } :=
  ⟨h.tokens, h.definitions⟩

theorem install (h : Holds P l) {v : Vocabulary} (hdefinitions : ∀ e ∈ v.definitions, P e.2)
    (htokens : ∀ e ∈ v.tokens, P e.2) : Holds P (l.install v) := by
  have hwaiting : Holds P { l with pending := l.pending.filter (·.name != v.name) } := ⟨h.tokens, h.definitions⟩
  have hadded := hwaiting.addEntries hdefinitions htokens
  exact ⟨hadded.tokens, hadded.definitions⟩

end Holds

theorem tidy_definitions_baseline : ∀ e ∈ Vocabulary.baseline.definitions, e.2.Tidy := by
  unfold Vocabulary.baseline
  simp only [List.forall_mem_append, List.forall_mem_map]
  refine ⟨fun e _ => .builtin e.2, ?_⟩
  simp [Value.Tidy]

theorem tidy_tokens_baseline : ∀ e ∈ Vocabulary.baseline.tokens, e.2.Tidy := by
  have hbuiltin (b : Builtin) : (TypeExpr.builtin b).Tidy := .builtin b
  unfold Vocabulary.baseline
  simp only [List.forall_mem_append, List.forall_mem_map]
  simp [Value.Tidy, hbuiltin, Value.builtin]

/-- The values of the baseline are tidy. -/
theorem holds_baseline : Holds Value.Tidy baseline := by
  have hblank : Holds Value.Tidy blank := ⟨nofun, nofun⟩
  have hadded : Holds Value.Tidy (blank.addEntries Vocabulary.baseline) :=
    hblank.addEntries tidy_definitions_baseline tidy_tokens_baseline
  exact hadded.installed _

/-! ## Histories -/

/-- The entry is a class or a constant under its own path, which is dotted. -/
def IsHostObject (e : String × Value) : Prop := Dotted e.1 ∧ (e.2 = .type (.ofPath e.1) ∨ e.2 = .constant e.1)

theorem IsHostObject.tidy {e : String × Value} (h : IsHostObject e) : e.2.Tidy := by
  obtain ⟨hdotted, heq | heq⟩ := h
  · rw [heq]
    exact TypeExpr.Tidy.named hdotted (List.forall_mem_nil _)
  · rw [heq]
    exact hdotted

/-- All entries of the vocabulary are classes and constants under dotted paths. -/
def OnlyHostObjects (v : Vocabulary) : Prop := v.tokens = [] ∧ ∀ e ∈ v.definitions, IsHostObject e

/-- The event adds nothing but classes and constants under dotted paths. -/
def Event.Hosts : Event → Prop
  | register _ _ => False
  | define path value => IsHostObject (path, value)
  | addVocabulary v => OnlyHostObjects v
  | addAlias _ _ | ensure _ _ | refresh _ | resolveType _ _ _ | resolveValue _ _ _ | lookup _ | evaluate _ |
    takeUnresolved => True

/-- All values of the lexicon are tidy, and the vocabularies that wait add only tidy ones. -/
structure Hosted (l : Lexicon) : Prop where
  holds : Holds Value.Tidy l
  pending : ∀ v ∈ l.pending, OnlyHostObjects v

theorem hosted_install {l : Lexicon} (h : Hosted l) {v : Vocabulary} (hv : OnlyHostObjects v) :
    Hosted (l.install v) where
  holds := by
    refine h.holds.install (fun e he => (hv.2 e he).tidy) ?_
    rw [hv.1]
    exact List.forall_mem_nil _
  pending := by
    rw [pending_install]
    exact fun w hw => h.pending w (List.mem_filter.1 hw).1

/-- **One event** that adds only classes and constants under dotted paths leaves all values tidy. -/
theorem hosted_perform {l : Lexicon} (h : Hosted l) {e : Event} (he : e.Hosts) : Hosted (e.perform l) := by
  cases e with
  | register => exact he.elim
  | define path value => exact ⟨h.holds.define path he.tidy, h.pending⟩
  | addAlias | lookup | evaluate | takeUnresolved => exact ⟨⟨h.holds.tokens, h.holds.definitions⟩, h.pending⟩
  | addVocabulary v =>
    show Hosted (l.addVocabulary v)
    unfold addVocabulary
    split
    · exact h
    · refine ⟨⟨h.holds.tokens, h.holds.definitions⟩, fun w hw => ?_⟩
      rcases List.mem_append.1 hw with hw | hw
      · exact h.pending w hw
      · rw [List.mem_singleton.1 hw]
        exact he
  | ensure | refresh =>
    refine install_induction (fun l' v hl' hv => hosted_install hl' (hl'.pending v hv)) (fun l' n hl' => ?_) trivial h
    exact ⟨⟨hl'.holds.tokens, hl'.holds.definitions⟩, hl'.pending⟩
  | resolveType depth scope? token =>
    refine ⟨(keeps_resolveType preserved_tidy depth scope? token l h.holds).2, ?_⟩
    have hsame := ((runProperty_resolved depth).resolveType scope? token l).pending
    exact fun v hv => h.pending v (hsame ▸ hv)
  | resolveValue depth type? token =>
    refine ⟨(keeps_resolveValue preserved_tidy depth type? token l h.holds).2, ?_⟩
    have hsame := ((runProperty_resolved depth).resolveValue type? token l).pending
    exact fun v hv => h.pending v (hsame ▸ hv)

/-- **Any history** of such events over the baseline leaves all values tidy. -/
theorem hosted_after {es : List Event} (h : ∀ e ∈ es, e.Hosts) : Hosted (baseline.after es) := by
  have hbaseline : Hosted baseline := ⟨holds_baseline, List.forall_mem_nil _⟩
  exact after_induction (fun l hl e he => hosted_perform hl (h e he)) hbaseline

end Lexicon
end CallSig
