import CallSig.Proofs.Catalog.Repetition
import CallSig.Proofs.Catalog.Sessions
import CallSig.Proofs.Overload.Merging

/-!
# `CallSig.Proofs.Catalog.Rebuilding` — building a block again after more lines

An owner that is asked about between two additions is built twice, the second time over the lexicon that the first
build has left. The chunks are merged one by one, so the second build begins with the very lines of the first: these
give their answers again, and the rest starts where it would have started without the question. What questions came
in between does not matter, as long as the lines do not give a zero of a builtin type its first entry.

## Contents
- **Cold builds.** `coldBuild`, `advances_coldBuild`, `coldBuild_append`.
- **The invariant.** `Warm`, `warm_add`, `warm_build`, `warm_after`.
- **Transparency.** `builtMembers_build`, `rebuilding_transparent`.
- **Zeros.** `rebuilding_shows`: a placeholder under the token of a zero is taken for the zero.
-/

namespace CallSig
namespace Catalog

open Lexicon Overload

variable {start : Catalog} {owner : String} {es : List Event} {e : Event}

/-! ## Cold builds -/

/-- Reading merged texts of an owner of which nothing is built, over the lexicon that a catalog starts with. -/
def coldBuild (start : Catalog) (owner : String) (texts : List String) : Dict (List Variant) × Lexicon :=
  texts.foldlM (readLine start.settings owner) (.empty : Dict (List Variant)) start.lexicon

theorem coldBuild_append (start : Catalog) (owner : String) (texts more : List String) :
    coldBuild start owner (texts ++ more) =
      more.foldlM (readLine start.settings owner) (coldBuild start owner texts).1 (coldBuild start owner texts).2 := by
  unfold coldBuild
  rw [List.foldlM_append]
  rfl

theorem advances_coldBuild (start : Catalog) (owner : String) (texts : List String) :
    Advances start.lexicon (coldBuild start owner texts).2 :=
  (repeatable_readTexts start.settings owner texts .empty).advances start.lexicon

/-- If more lines leave the zeros as they were, so do the first ones. -/
theorem sameZeros_of_append {texts more : List String}
    (hz : SameZeros start.lexicon (coldBuild start owner (texts ++ more)).2) :
    SameZeros start.lexicon (coldBuild start owner texts).2 := by
  rw [coldBuild_append] at hz
  exact hz.between (advances_coldBuild start owner texts) ((repeatable_readTexts _ owner more _).advances _)

/-! ## The invariant -/

/-- The lexicon is as after a cold build of the first merged lines of the owner, and of all of them unless the owner
waits; then its members are those of the cold build. -/
def Warm (start : Catalog) (owner : String) (es : List Event) (c : Catalog) : Prop :=
  ∃ texts more, mergedTexts (linesAdded owner es) = texts ++ more ∧ Alike (coldBuild start owner texts).2 c.lexicon ∧
    (c.stale.contains owner = false → more = [] ∧ c.builtMembers owner = (coldBuild start owner texts).1)

theorem closesGroups_linesAdded (hclosed : ∀ e ∈ es, ClosesGroups e.lines) (owner : String) :
    ClosesGroups (linesAdded owner es) := by
  induction es with
  | nil => exact closesGroups_nil
  | cons e es ih =>
    obtain ⟨he, hes⟩ := List.forall_mem_cons.1 hclosed
    unfold linesAdded
    rw [List.flatMap_cons]
    refine ClosesGroups.append ?_ (ih hes)
    split
    · exact he
    · exact closesGroups_nil

theorem mergedTexts_linesAdded (hclosed : ∀ e ∈ es, ClosesGroups e.lines) (hadd : e.addedTo? = some owner) :
    mergedTexts (linesAdded owner (es ++ [e])) = mergedTexts (linesAdded owner es) ++ mergedTexts e.lines := by
  rw [linesAdded_concat, if_pos hadd]
  exact mergedTexts_append (closesGroups_linesAdded hclosed owner) e.lines

/-- Adding lines only makes the rest longer. -/
theorem warm_add {c : Catalog} (h : Warm start owner es c) (hclosed : ∀ e ∈ es, ClosesGroups e.lines)
    (text : String) : Warm start owner (es ++ [.add owner text]) (c.addDescriptors owner text) := by
  obtain ⟨texts, more, hsplit, halike, -⟩ := h
  refine ⟨texts, more ++ mergedTexts (Event.add owner text).lines, ?_, ?_, ?_⟩
  · rw [mergedTexts_linesAdded hclosed rfl, hsplit, List.append_assoc]
  · rw [lexicon_addDescriptors]
    exact halike
  · intro hfresh
    rw [stale_addDescriptors] at hfresh
    cases hfresh

/-- **A build over a lexicon that other builds have warmed** gives the members of the cold build. -/
theorem warm_build {c : Catalog} (hno : ∀ t, start.lexicon.aliases.get? t = none) (h : Warm start owner es c)
    (hc : Consistent start owner es c)
    (hz : SameZeros start.lexicon (coldBuild start owner (mergedTexts (linesAdded owner es))).2) :
    (c.build owner).builtMembers owner = (coldBuild start owner (mergedTexts (linesAdded owner es))).1 ∧
      Alike (coldBuild start owner (mergedTexts (linesAdded owner es))).2 (c.build owner).lexicon := by
  obtain ⟨texts, more, hsplit, halike, hfresh⟩ := h
  rw [hsplit] at hz ⊢
  cases hs : c.stale.contains owner with
  | false =>
    obtain ⟨rfl, hmembers⟩ := hfresh hs
    rw [build_of_fresh hs, List.append_nil]
    exact ⟨hmembers, halike⟩
  | true =>
    obtain ⟨hlexicon, hmembers, -⟩ := build_of_stale hs
    have hempty : c.builtMembers owner = .empty := by
      rw [builtMembers, (hc.waits hs).1]
      rfl
    rw [hempty, hc.lines, hc.settings] at hlexicon hmembers
    -- the lines of the last build come first and find their own entries, and the rest goes on from there
    have hread := repeatable_readTexts start.settings owner (texts ++ more) .empty
    obtain ⟨hagain, halikeAgain⟩ := (repeatable_readTexts start.settings owner texts .empty).again_bind
      (repeatable_readTexts start.settings owner more) hno (by rw [← List.foldlM_append]; exact hz)
    rw [← List.foldlM_append] at hagain halikeAgain
    have hno' : ∀ t, (coldBuild start owner texts).2.aliases.get? t = none := by
      rw [(advances_coldBuild start owner texts).aliases]
      exact hno
    obtain ⟨hvalue, halikeWarm⟩ := hread.alike hno' halike
    rw [← hsplit] at hvalue halikeWarm hagain halikeAgain ⊢
    rw [hmembers, hlexicon]
    exact ⟨hvalue.trans hagain, halikeAgain.trans halikeWarm⟩

/-- The event is about the owner. -/
def Event.IsAbout (owner : String) (e : Event) : Prop := e.asked? = some owner ∨ e.addedTo? = some owner

instance (owner : String) (e : Event) : Decidable (e.IsAbout owner) := inferInstanceAs (Decidable (_ ∨ _))

variable {l : Lexicon} {settings : Settings}

/-- The invariant holds after every history of the one owner whose cold build leaves the zeros. -/
theorem warm_after (hno : ∀ t, (create l settings).lexicon.aliases.get? t = none)
    (habout : ∀ e ∈ es, e.IsAbout owner) (hclosed : ∀ e ∈ es, ClosesGroups e.lines)
    (hz : SameZeros (create l settings).lexicon
      (coldBuild (create l settings) owner (mergedTexts (linesAdded owner es))).2) :
    Warm (create l settings) owner es ((create l settings).after es) := by
  revert habout hclosed hz
  refine after_induction (P := fun es c => (∀ e ∈ es, e.IsAbout owner) → (∀ e ∈ es, ClosesGroups e.lines) →
    SameZeros (create l settings).lexicon
      (coldBuild (create l settings) owner (mergedTexts (linesAdded owner es))).2 →
    Warm (create l settings) owner es c) ?_ ?_ es
  · intro _ _ _
    exact ⟨[], [], rfl, .refl _, fun _ => ⟨rfl, rfl⟩⟩
  · intro es e ih habout hclosed hz
    have habout' : ∀ e' ∈ es, e'.IsAbout owner := fun e' he => habout e' (List.mem_append_left _ he)
    have hclosed' : ∀ e' ∈ es, ClosesGroups e'.lines := fun e' he => hclosed e' (List.mem_append_left _ he)
    rcases habout e (List.mem_append_right _ (List.mem_singleton_self e)) with hask | hadd
    · have hlines : linesAdded owner (es ++ [e]) = linesAdded owner es :=
        linesAdded_of_not_added (addedTo?_of_asked hask owner)
      rw [hlines] at hz
      rw [perform_of_asked hask]
      obtain ⟨hmembers, halike⟩ :=
        warm_build hno (ih habout' hclosed' hz) (consistent_after l settings owner es) hz
      exact ⟨_, [], by rw [hlines, List.append_nil], halike, fun _ => ⟨rfl, hmembers⟩⟩
    · rw [mergedTexts_linesAdded hclosed' hadd] at hz
      have hwarm := ih habout' hclosed' (sameZeros_of_append hz)
      cases e with
      | add o text =>
        cases hadd
        exact warm_add hwarm hclosed' text
      | members o | variants o m | signature o m b k | refresh host | ensure host name => cases hadd

/-! ## Transparency -/

/-- After every history of the one owner, asking about it gives the members of the cold build. -/
theorem builtMembers_build (hno : ∀ t, (create l settings).lexicon.aliases.get? t = none)
    (habout : ∀ e ∈ es, e.IsAbout owner) (hclosed : ∀ e ∈ es, ClosesGroups e.lines)
    (hz : SameZeros (create l settings).lexicon
      (coldBuild (create l settings) owner (mergedTexts (linesAdded owner es))).2) :
    (((create l settings).after es).build owner).builtMembers owner =
      (coldBuild (create l settings) owner (mergedTexts (linesAdded owner es))).1 :=
  (warm_build hno (warm_after hno habout hclosed hz) (consistent_after l settings owner es) hz).1

/-- The additions of a history. -/
def additions (es : List Event) : List Event := es.filter fun e => e.addedTo?.isSome

theorem linesAdded_additions (owner : String) (es : List Event) :
    linesAdded owner (additions es) = linesAdded owner es := by
  unfold additions linesAdded
  induction es with
  | nil => rfl
  | cons e es ih =>
    rw [List.filter_cons, List.flatMap_cons, ← ih]
    split
    · rw [List.flatMap_cons]
    · next hnone =>
      rw [if_neg, List.nil_append]
      intro hadd
      exact hnone (by rw [hadd]; rfl)

/-- Additions do not resolve anything. -/
theorem lexicon_after_additions (start : Catalog) (es : List Event) :
    (start.after (additions es)).lexicon = start.lexicon := by
  unfold additions
  induction es generalizing start with
  | nil => rfl
  | cons e es ih =>
    rw [List.filter_cons]
    split
    · show ((e.perform start).after _).lexicon = _
      rw [ih]
      cases e with
      | add o text => exact lexicon_addDescriptors start o text
      | members o | variants o m | signature o m b k | refresh host | ensure host name => contradiction
    · exact ih start

theorem linesAdded_eq_nil (h : ∀ e ∈ es, e.addedTo? ≠ some owner) : linesAdded owner es = [] := by
  unfold linesAdded
  rw [List.flatMap_eq_nil_iff]
  intro e he
  rw [if_neg (h e he)]

/-- Asking for the first time after the additions is the cold build. -/
theorem lexicon_build_additions (l : Lexicon) (settings : Settings) (owner : String) (es : List Event) :
    (((create l settings).after (additions es)).build owner).lexicon =
      (coldBuild (create l settings) owner (mergedTexts (linesAdded owner es))).2 := by
  have hc := consistent_after l settings owner (additions es)
  have hlines := hc.lines.trans (linesAdded_additions owner es)
  cases hs : ((create l settings).after (additions es)).stale.contains owner with
  | true =>
    obtain ⟨hlexicon, -, -⟩ := build_of_stale hs
    have hempty : ((create l settings).after (additions es)).builtMembers owner = .empty := by
      rw [builtMembers, (hc.waits hs).1]
      rfl
    rw [hlexicon, hempty, hlines, hc.settings, lexicon_after_additions]
    rfl
  | false =>
    -- nobody has asked, so there never were lines
    obtain ⟨_, _, hfrom, -⟩ := hc.built hs
    have hnever : ∀ e ∈ additions es, e.addedTo? ≠ some owner := by
      refine hfrom.resolve_left ?_
      rintro ⟨before, ⟨-, question, rest, hsplit, hask, -⟩, -⟩
      have hmem : question ∈ additions es := by
        rw [hsplit]
        exact List.mem_append_right _ List.mem_cons_self
      obtain ⟨owner', hadd⟩ := Option.isSome_iff_exists.1 (List.mem_filter.1 hmem).2
      exact addedTo?_of_asked hask owner' hadd
    rw [build_of_fresh hs, lexicon_after_additions, ← linesAdded_additions, linesAdded_eq_nil hnever]
    rfl

/-- **Rebuilding is transparent** for a run on one owner whose chunks close their groups, if building all its lines
at once leaves the zeros of the builtin types: at the end every member has the variants that it has when all lines
are added before the first question. -/
theorem rebuilding_transparent (hno : ∀ t, (create l settings).lexicon.aliases.get? t = none)
    (habout : ∀ e ∈ es, e.IsAbout owner) (hclosed : ∀ e ∈ es, ClosesGroups e.lines)
    (hz : SameZeros (create l settings).lexicon
      (((create l settings).after (additions es)).build owner).lexicon) (member : String) :
    (((create l settings).after es).variants owner member).1 =
      (((create l settings).after (additions es)).variants owner member).1 := by
  rw [lexicon_build_additions] at hz
  have hwarm := builtMembers_build hno habout hclosed hz
  have hcold : (((create l settings).after (additions es)).build owner).builtMembers owner =
      (coldBuild (create l settings) owner (mergedTexts (linesAdded owner es))).1 := by
    rw [← linesAdded_additions] at hz ⊢
    exact builtMembers_build hno (fun e he => habout e ((List.mem_filter.1 he).1))
      (fun e he => hclosed e ((List.mem_filter.1 he).1)) hz
  show ((((create l settings).after es).build owner).builtMembers owner).get? member =
    ((((create l settings).after (additions es)).build owner).builtMembers owner).get? member
  rw [hwarm, hcold]

/-- A lexicon with one class. -/
def oneClass : Lexicon := Lexicon.blank.define "A" (.type (.ofPath "A"))

/-- Two chunks of one owner, the first with a numbered group, and a question after each. -/
def interleaved : List Event :=
  [.add "o" "1:f(x:A)\n0:f(x:A=0)", .variants "o" "f", .add "o" "g(y:A=0)", .members "o"]

theorem rebuilding_transparent_interleaved :
    let start := create oneClass .standard
    (∀ t, start.lexicon.aliases.get? t = none) ∧ (∀ e ∈ interleaved, e.IsAbout "o") ∧
      (∀ e ∈ interleaved, ClosesGroups e.lines) ∧
      SameZeros start.lexicon ((start.after (additions interleaved)).build "o").lexicon ∧
      ((start.after interleaved).variants "o" "f").1 =
        ((start.after (additions interleaved)).variants "o" "f").1 := by
  have hno : ∀ t, (create oneClass .standard).lexicon.aliases.get? t = none := fun _ => rfl
  have habout : ∀ e ∈ interleaved, e.IsAbout "o" := by decide
  have hclosed : ∀ e ∈ interleaved, ClosesGroups e.lines := by decide +kernel
  have hkeys : (((create oneClass .standard).after (additions interleaved)).build "o").lexicon.tokens.keys =
      ["A"] := by decide +kernel
  have hz : SameZeros (create oneClass .standard).lexicon
      (((create oneClass .standard).after (additions interleaved)).build "o").lexicon := by
    intro b
    refine Option.eq_none_iff_forall_ne_some.2 fun v hv => ?_
    have hkey := Dict.mem_keys_of_get? hv
    rw [hkeys] at hkey
    exact absurd hkey (by cases b <;> decide)
  exact ⟨hno, habout, hclosed, hz, rebuilding_transparent hno habout hclosed hz "f"⟩

/-! ## Zeros -/

/-- A lexicon with a builtin type that has no zero. -/
def noZero : Lexicon := Lexicon.blank.register "B" (.type (.builtin .byteArray))

/-- The second default is given up on, and its placeholder stands under the token of the zero that the first default
asks for. -/
def zeroAfterwards : List Event :=
  [.add "o" "f(a:B=0,b:B=zero(bytearray))", .variants "o" "f", .add "o" "g()"]

/-- A build in between shows: the second one takes the placeholder for the zero of the type. -/
theorem rebuilding_shows :
    let start := create noZero .standard
    (∀ t, start.lexicon.aliases.get? t = none) ∧ (∀ e ∈ zeroAfterwards, e.IsAbout "o") ∧
      (∀ e ∈ zeroAfterwards, ClosesGroups e.lines) ∧
      ((start.after zeroAfterwards).variants "o" "f").1 ≠
        ((start.after (additions zeroAfterwards)).variants "o" "f").1 := by
  refine ⟨fun _ => rfl, by decide, by decide +kernel, ?_⟩
  intro h
  have hdefaults := congrArg (Option.map (List.map fun v => v.defaults.map Value.text)) h
  revert hdefaults
  decide +kernel

end Catalog
end CallSig
