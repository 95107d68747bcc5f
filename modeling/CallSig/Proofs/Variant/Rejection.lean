import CallSig.Proofs.Variant.Alignment

/-!
# `CallSig.Proofs.Variant.Rejection` — which lines are rejected, and where

Assembly makes two passes over the arguments. The first looks at names and kinds and touches nothing. The second asks
the lexicon about the arguments, so that which of them are outputs depends on what the lexicon has made of the earlier
ones; it stops where a default is missing. Both stop at the shortest prefix of the list that is not in order, and this
is what the error names.

## Contents
- **Defaults.** `ByPosition`, `DefaultsLast`, `addReading_verdict`, `addReadings_verdict`.
- **Lines.** `Rejected`, `assemble_verdict`, `assemble_rejects_exactly`.
-/

namespace CallSig
namespace Variant

/-! ## Defaults -/

/-- The argument becomes a parameter that can be passed by position. -/
def ByPosition (x : Argument × Reading) : Prop := x.1.kind.isPositional = true ∧ x.2.isParam = true

/-- Of the parameters that can be passed by position, none without a default stands after one with a default. -/
def DefaultsLast (rs : List (Argument × Reading)) : Prop :=
  rs.Pairwise fun x y => ByPosition x → x.1.default? ≠ none → ByPosition y → y.1.default? ≠ none

theorem DefaultsLast.of_prefix {rs more : List (Argument × Reading)} (hsub : rs <+: more) (h : DefaultsLast more) :
    DefaultsLast rs :=
  h.sublist hsub.sublist

theorem defaultsLast_concat_iff {front : List (Argument × Reading)} {x : Argument × Reading}
    (hfront : DefaultsLast front) :
    DefaultsLast (front ++ [x]) ↔
      ((∃ y ∈ front, ByPosition y ∧ y.1.default? ≠ none) → ByPosition x → x.1.default? ≠ none) := by
  unfold DefaultsLast at hfront ⊢
  rw [List.pairwise_append]
  constructor
  · rintro ⟨-, -, hlast⟩ ⟨y, hy, hpos, hdefault⟩
    exact hlast y hy x (List.mem_singleton_self x) hpos hdefault
  · intro h
    refine ⟨hfront, List.pairwise_singleton _ _, fun y hy z hz hpos hdefault => ?_⟩
    obtain rfl := List.mem_singleton.1 hz
    exact h ⟨y, hy, hpos, hdefault⟩

/-- A default is resolved for the parameters that have one. -/
theorem Reading.Of.default?_ne_none_iff {x : Argument × Reading} (h : Reading.Of x.1 x.2) (hpos : ByPosition x) :
    x.2.default? ≠ none ↔ x.1.default? ≠ none := by
  obtain ⟨arg, r⟩ := x
  cases h with
  | variadic hv =>
    have hnot := Draft.isPositional_of_isVariadic hv
    rw [ByPosition, hnot] at hpos
    cases hpos.1
  | output t => cases hpos.2
  | typed value default? _ hd =>
    rw [← Option.isSome_iff_ne_none, ← Option.isSome_iff_ne_none, ← hd]
    rfl

namespace Draft

variable {front : List (Argument × Reading)} {d : Draft}

/-- A draft has a default exactly if an earlier parameter that can be passed by position has one. -/
theorem Gathers.defaults_ne_nil_iff (hd : d.Gathers front) (hof : ∀ x ∈ front, Reading.Of x.1 x.2) :
    d.defaults ≠ [] ↔ ∃ x ∈ front, ByPosition x ∧ x.1.default? ≠ none := by
  obtain ⟨n, hn⟩ := hd.defaults
  have hmem : ∀ value, value ∈ d.defaults ↔ some value ∈ positionalDefaults (kept front) := by
    intro value
    rw [hn]
    simp [List.mem_replicate]
  constructor
  · intro hne
    obtain ⟨value, hvalue⟩ := List.exists_mem_of_ne_nil _ hne
    obtain ⟨x, hx, hdefault⟩ := List.mem_map.1 ((hmem value).1 hvalue)
    obtain ⟨hx, hpositional⟩ := List.mem_filter.1 hx
    obtain ⟨hx, hparam⟩ := List.mem_filter.1 hx
    have hpos : ByPosition x := ⟨hpositional, hparam⟩
    refine ⟨x, hx, hpos, ((hof x hx).default?_ne_none_iff hpos).1 ?_⟩
    rw [hdefault]
    exact Option.some_ne_none value
  · rintro ⟨x, hx, hpos, hdefault⟩ hnil
    obtain ⟨value, hvalue⟩ := Option.ne_none_iff_exists'.1 (((hof x hx).default?_ne_none_iff hpos).2 hdefault)
    have hkept : x ∈ kept front := List.mem_filter.2 ⟨hx, hpos.2⟩
    have hfound : value ∈ d.defaults :=
      (hmem value).2 (List.mem_map.2 ⟨x, List.mem_filter.2 ⟨hkept, hpos.1⟩, hvalue⟩)
    rw [hnil] at hfound
    cases hfound

/-- **One step of the second pass**: a reading is added, or the default that its argument lacks is the first one
missing. -/
theorem addReading_verdict (hd : d.Gathers front) (hof : ∀ x ∈ front, Reading.Of x.1 x.2)
    (hfront : DefaultsLast front) {x : Argument × Reading} (hx : Reading.Of x.1 x.2) :
    match d.addReading x.1 x.2 with
    | .ok _ => DefaultsLast (front ++ [x])
    | .error e => ¬DefaultsLast (front ++ [x]) ∧ e = .requiredAfterDefault x.1.name x.1.span := by
  obtain ⟨arg, r⟩ := x
  simp only [defaultsLast_concat_iff hfront, ← hd.defaults_ne_nil_iff hof]
  cases hx with
  | variadic hv =>
    rintro - ⟨hpositional, -⟩
    have hnot := isPositional_of_isVariadic hv
    rw [hnot] at hpositional
    cases hpositional
  | output t =>
    rintro - ⟨-, hparam⟩
    cases hparam
  | typed value default? _ hsome =>
    cases default? with
    | some default =>
      have hdefault : arg.default? ≠ none := Option.isSome_iff_ne_none.1 hsome.symm
      unfold addReading addTyped
      by_cases hp : arg.kind.isPositional = true
      · simp only [hp, if_true]
        exact fun _ _ => hdefault
      · simp only [hp]
        exact fun _ _ => hdefault
    | none =>
      have hdefault : arg.default? = none := by
        rw [← Option.not_isSome_iff_eq_none, ← hsome]
        exact Bool.false_ne_true
      unfold addReading addTyped
      by_cases hmissing : arg.kind.isPositional = true ∧ d.defaults ≠ []
      · have hguard : arg.kind.isPositional = true ∧ (!d.defaults.isEmpty) = true := by simpa using hmissing
        simp only [hguard]
        refine ⟨fun h => ?_, rfl⟩
        exact h hmissing.2 ⟨hmissing.1, rfl⟩ hdefault
      · have hguard : ¬(arg.kind.isPositional = true ∧ (!d.defaults.isEmpty) = true) := by simpa using hmissing
        simp only [hguard, if_false]
        exact fun hne hpos => absurd ⟨hpos.1, hne⟩ hmissing

/-- **What the second pass comes to** after readings with their defaults last: so do all readings, or the first argument
that lacks its default is refused. -/
theorem addReadings_verdict {rs : List (Argument × Reading)} :
    ∀ {front : List (Argument × Reading)} {d : Draft}, d.Gathers front → (∀ x ∈ front, Reading.Of x.1 x.2) →
      (∀ x ∈ rs, Reading.Of x.1 x.2) → DefaultsLast front → match d.addReadings rs with
      | .ok d' => d'.Gathers (front ++ rs) ∧ DefaultsLast (front ++ rs)
      | .error e => ∃ before x, BreaksAt DefaultsLast (front ++ rs) before x ∧
          e = .requiredAfterDefault x.1.name x.1.span := by
  induction rs with
  | nil =>
    intro front d hd _ _ hfront
    rw [addReadings, List.append_nil]
    exact ⟨hd, hfront⟩
  | cons x rs ih =>
    intro front d hd hof hmore hfront
    obtain ⟨hx, hrs⟩ := List.forall_mem_cons.1 hmore
    have hstep := addReading_verdict hd hof hfront hx
    rw [List.append_cons, addReadings]
    cases hadd : d.addReading x.1 x.2 with
    | error e =>
      rw [hadd] at hstep
      exact ⟨front, x, ⟨List.prefix_append _ _, hfront, hstep.1⟩, hstep.2⟩
    | ok d₁ =>
      rw [hadd] at hstep
      refine ih (hd.addReading hx hadd) ?_ hrs hstep
      exact List.forall_mem_append.2 ⟨hof, List.forall_mem_singleton.2 hx⟩

end Draft

/-! ## Lines -/

/-- Why a line is rejected, given its arguments and their readings: the first argument whose name is taken or whose kind
may not follow, if there is one; else the first argument that lacks a default. -/
inductive Rejected (args : List Argument) (rs : List (Argument × Reading)) : AssemblyError → Prop
  | misplaced {front : List Argument} {arg : Argument} {e : AssemblyError} (hbreak : BreaksAt Orderly args front arg)
      (h : Misplaced front arg e) : Rejected args rs e
  | required {front : List (Argument × Reading)} {x : Argument × Reading} (hargs : Orderly args)
      (hbreak : BreaksAt DefaultsLast rs front x) : Rejected args rs (.requiredAfterDefault x.1.name x.1.span)

theorem Rejected.not {args : List Argument} {rs : List (Argument × Reading)} {e : AssemblyError}
    (h : Rejected args rs e) : ¬(Orderly args ∧ DefaultsLast rs) := by
  rintro ⟨hargs, hrs⟩
  cases h with
  | misplaced hbreak => exact hbreak.not Orderly.of_prefix hargs
  | required _ hbreak => exact hbreak.not DefaultsLast.of_prefix hrs

/-- **What assembly comes to.** -/
theorem assemble_verdict (depth : Nat) (optionalReturns : List String) (scope? : Option String)
    (descriptor : Descriptor) (l : Lexicon) :
    match assemble depth optionalReturns scope? descriptor l with
    | (.ok v, _) => Orderly descriptor.arguments ∧ DefaultsLast (readings depth scope? descriptor l).1 ∧
        v.promoted = ((readings depth scope? descriptor l).1.filterMap output?).map Prod.fst
    | (.error e, l') => Rejected descriptor.arguments (readings depth scope? descriptor l).1 e ∧
        ((∃ name span, e = .requiredAfterDefault name span) ∨ l' = l) := by
  have hcheck := checkStructure_verdict descriptor.arguments
  have hreadings := returns_readAll depth (descriptor.owner?.or scope?) descriptor.arguments l
  have hadd := Draft.addReadings_verdict Draft.gathers_empty (List.forall_mem_nil _) hreadings.2 .nil
  rw [← Draft.addAll_fst] at hadd
  unfold assemble
  cases hstructure : checkStructure descriptor.arguments with
  | error e =>
    rw [hstructure] at hcheck
    obtain ⟨before, arg, hbreak, he⟩ := hcheck
    exact ⟨.misplaced hbreak he, .inr rfl⟩
  | ok =>
    rw [hstructure] at hcheck
    simp only [bind, StateT.bind]
    generalize Draft.empty.addAll depth (descriptor.owner?.or scope?) descriptor.arguments l = run at hadd ⊢
    obtain ⟨added, l'⟩ := run
    cases added with
    | error e =>
      obtain ⟨before, x, hbreak, rfl⟩ := hadd
      exact ⟨.required hcheck hbreak, .inl ⟨_, _, rfl⟩⟩
    | ok d =>
      refine ⟨hcheck, hadd.2, ?_⟩
      exact congrArg (List.map Prod.fst) hadd.1.outputs

/-- **Assembly rejects exactly the lines that are out of order.** Whatever the lexicon holds, a line is accepted if and
only if its names are distinct, its kinds in order, and, of its parameters that are passed by position and not promoted,
none lacks a default after one that has it. The error otherwise is that of the first offending argument, names and
kinds before defaults; and while only names and kinds have been looked at, the lexicon is as it was. -/
theorem assemble_rejects_exactly (depth : Nat) (optionalReturns : List String) (scope? : Option String)
    (descriptor : Descriptor) (l : Lexicon) :
    ((∃ v, (assemble depth optionalReturns scope? descriptor l).1 = .ok v) ↔
        Orderly descriptor.arguments ∧ DefaultsLast (readings depth scope? descriptor l).1) ∧
      (∀ v, (assemble depth optionalReturns scope? descriptor l).1 = .ok v →
        v.promoted = ((readings depth scope? descriptor l).1.filterMap output?).map Prod.fst) ∧
      ∀ e, (assemble depth optionalReturns scope? descriptor l).1 = .error e →
        Rejected descriptor.arguments (readings depth scope? descriptor l).1 e ∧
          ((∃ name span, e = .requiredAfterDefault name span) ∨
            (assemble depth optionalReturns scope? descriptor l).2 = l) := by
  have hverdict := assemble_verdict depth optionalReturns scope? descriptor l
  generalize assemble depth optionalReturns scope? descriptor l = run at hverdict ⊢
  obtain ⟨verdict, l'⟩ := run
  cases verdict with
  | ok v =>
    obtain ⟨hargs, hrs, hpromoted⟩ := hverdict
    refine ⟨⟨fun _ => ⟨hargs, hrs⟩, fun _ => ⟨v, rfl⟩⟩, ?_, nofun⟩
    rintro _ ⟨⟩
    exact hpromoted
  | error e =>
    obtain ⟨hrejected, htable⟩ := hverdict
    refine ⟨⟨nofun, fun h => absurd h hrejected.not⟩, nofun, ?_⟩
    rintro _ ⟨⟩
    exact ⟨hrejected, htable⟩

end Variant
end CallSig
