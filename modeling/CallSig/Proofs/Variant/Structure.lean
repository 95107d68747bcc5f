import CallSig.Variant.Assembly

/-!
# `CallSig.Proofs.Variant.Structure` — the order of an argument list

Before anything is resolved, the names and kinds of the arguments are checked. The check compares each argument with the
names before it and with the kind of the one before it. This is enough for the whole list to be in order: what may
follow the last kind may follow all kinds before it. Where a list is not in order, the check stops at its shortest
prefix that is not.

## Contents
- **Kinds.** `ParamKind.Before`, `before_iff_not_regression`, `pairwise_before_iff`.
- **Prefixes.** `BreaksAt`.
- **Structure.** `Orderly`, `orderly_iff`, `Misplaced`, `checkFrom_cons`, `checkFrom_verdict`, `checkStructure_verdict`.
-/

namespace CallSig

/-! ## Kinds -/

/-- Whether a parameter of the first kind may stand before one of the second. -/
def ParamKind.Before (a b : ParamKind) : Prop := a.rank < b.rank ∨ (a = b ∧ a.isVariadic = false)

namespace ParamKind

theorem rank_le_of_before {a b : ParamKind} (h : Before a b) : a.rank ≤ b.rank := by
  rcases h with h | ⟨rfl, -⟩
  · exact Nat.le_of_lt h
  · exact Nat.le_refl _

theorem Before.trans {a b c : ParamKind} (hab : Before a b) (hbc : Before b c) : Before a c := by
  rcases hab with hab | ⟨rfl, ha⟩
  · exact .inl (Nat.lt_of_lt_of_le hab (rank_le_of_before hbc))
  · exact hbc

theorem eq_of_rank_eq {a b : ParamKind} (h : a.rank = b.rank) : a = b := by
  cases a <;> cases b <;> first | rfl | cases h

/-- The check of two neighbours lets through what may stand so. -/
theorem before_iff_not_regression {a b : ParamKind} :
    Before a b ↔ ¬(b.rank < a.rank ∨ (b.isVariadic = true ∧ b = a)) := by
  constructor
  · rintro hbefore (hlt | ⟨hv, rfl⟩)
    · exact Nat.not_lt_of_le (rank_le_of_before hbefore) hlt
    · rcases hbefore with hlt | ⟨-, hfalse⟩
      · exact Nat.lt_irrefl _ hlt
      · rw [hv] at hfalse
        cases hfalse
  · intro h
    have hle : a.rank ≤ b.rank := Nat.le_of_not_lt fun hlt => h (.inl hlt)
    rcases Nat.lt_or_eq_of_le hle with hlt | heq
    · exact .inl hlt
    · obtain rfl := eq_of_rank_eq heq
      refine .inr ⟨rfl, ?_⟩
      rw [← Bool.not_eq_true]
      exact fun hv => h (.inr ⟨hv, rfl⟩)

/-- **Kinds in order**: any two of them may stand so exactly if they do not decrease and no variadic one is repeated,
wherever the repetition stands. -/
theorem pairwise_before_iff {kinds : List ParamKind} :
    kinds.Pairwise Before ↔ kinds.Pairwise (fun a b => a.rank ≤ b.rank) ∧
      ∀ kind : ParamKind, kind.isVariadic = true → kinds.count kind ≤ 1 := by
  induction kinds with
  | nil => simp
  | cons a kinds ih =>
    simp only [List.pairwise_cons, ih]
    constructor
    · rintro ⟨ha, hranks, hcounts⟩
      refine ⟨⟨fun b hb => rank_le_of_before (ha b hb), hranks⟩, fun kind hv => ?_⟩
      by_cases hkind : a = kind
      · -- nothing of this kind may follow
        have hnone : kinds.count kind = 0 := by
          rw [List.count_eq_zero]
          intro hmem
          rcases ha kind hmem with hlt | ⟨-, hfalse⟩
          · rw [hkind] at hlt
            exact Nat.lt_irrefl _ hlt
          · rw [hkind, hv] at hfalse
            cases hfalse
        have hone : (a :: kinds).count kind = 1 := by rw [hkind, List.count_cons_self, hnone]
        exact Nat.le_of_eq hone
      · rw [List.count_cons_of_ne hkind]
        exact hcounts kind hv
    · rintro ⟨⟨ha, hranks⟩, hcounts⟩
      refine ⟨fun b hb => before_iff_not_regression.2 ?_, hranks, fun kind hv => ?_⟩
      · rintro (hlt | ⟨hv, rfl⟩)
        · exact Nat.not_lt_of_le (ha b hb) hlt
        · have htwice : 0 < kinds.count b := List.count_pos_iff.2 hb
          have hone := hcounts b hv
          rw [List.count_cons_self] at hone
          omega
      · exact Nat.le_trans (List.count_le_count_cons) (hcounts kind hv)

end ParamKind

namespace Variant

/-! ## Prefixes -/

/-- The list has the property up to an element, and no longer with it. -/
structure BreaksAt {α : Type} (P : List α → Prop) (xs front : List α) (x : α) : Prop where
  inside : front ++ [x] <+: xs
  before : P front
  after : ¬P (front ++ [x])

/-- A property that goes over to prefixes does not hold of a list that breaks it. -/
theorem BreaksAt.not {α : Type} {P : List α → Prop} (hP : ∀ {xs ys : List α}, xs <+: ys → P ys → P xs)
    {xs front : List α} {x : α} (h : BreaksAt P xs front x) : ¬P xs :=
  fun hxs => h.after (hP h.inside hxs)

/-! ## Structure -/

/-- An argument list is in order: names are distinct, kinds do not decrease, and no variadic kind is repeated. -/
structure Orderly (args : List Argument) : Prop where
  names : (args.map Argument.name).Nodup
  kinds : (args.map Argument.kind).Pairwise fun a b => a.rank ≤ b.rank
  variadic : ∀ kind : ParamKind, kind.isVariadic = true → (args.map Argument.kind).count kind ≤ 1

theorem orderly_iff {args : List Argument} :
    Orderly args ↔ (args.map Argument.name).Nodup ∧ (args.map Argument.kind).Pairwise ParamKind.Before := by
  rw [ParamKind.pairwise_before_iff]
  exact ⟨fun ⟨hnames, hkinds, hvariadic⟩ => ⟨hnames, hkinds, hvariadic⟩,
    fun ⟨hnames, hkinds, hvariadic⟩ => ⟨hnames, hkinds, hvariadic⟩⟩

theorem orderly_nil : Orderly [] := orderly_iff.2 ⟨.nil, .nil⟩

theorem Orderly.of_prefix {args more : List Argument} (hsub : args <+: more) (h : Orderly more) : Orderly args := by
  obtain ⟨hnames, hkinds⟩ := orderly_iff.1 h
  exact orderly_iff.2 ⟨hnames.sublist (hsub.sublist.map _), hkinds.sublist (hsub.sublist.map _)⟩

/-- The error for an argument that may not follow others: its name is taken, or else its kind may not follow that of
the last one. -/
inductive Misplaced (front : List Argument) (arg : Argument) : AssemblyError → Prop
  | name (h : arg.name ∈ front.map Argument.name) : Misplaced front arg (.duplicateParameter arg.name arg.span)
  | kind {last : Argument} (hname : arg.name ∉ front.map Argument.name) (hlast : front.getLast? = some last)
      (h : ¬last.kind.Before arg.kind) : Misplaced front arg (.kindRegression arg.name arg.kind last.kind arg.span)

/-- An argument that is not misplaced goes to the end of those in order. The last of them speaks for all, since what
may follow the last kind may follow all kinds before it. -/
theorem orderly_concat_iff {front : List Argument} {arg : Argument} (hfront : Orderly front) :
    Orderly (front ++ [arg]) ↔
      arg.name ∉ front.map Argument.name ∧ ∀ last, front.getLast? = some last → last.kind.Before arg.kind := by
  obtain ⟨hnames, hkinds⟩ := orderly_iff.1 hfront
  simp only [orderly_iff, List.map_append, List.map_cons, List.map_nil, List.nodup_append, List.pairwise_append,
    List.mem_singleton]
  constructor
  · rintro ⟨⟨-, -, hnew⟩, -, -, hbefore⟩
    constructor
    · intro hmem
      exact hnew _ hmem _ rfl rfl
    · intro last hlast
      exact hbefore _ (List.mem_map_of_mem (List.mem_of_getLast? hlast)) _ rfl
  · rintro ⟨hnew, hlast⟩
    refine ⟨⟨hnames, List.pairwise_singleton _ _, ?_⟩, hkinds, List.pairwise_singleton _ _, ?_⟩
    · rintro name hmem _ rfl rfl
      exact hnew hmem
    · rintro kind hmem _ rfl
      obtain ⟨x, hx, rfl⟩ := List.mem_map.1 hmem
      rcases List.eq_nil_or_concat front with rfl | ⟨init, last, rfl⟩
      · cases hx
      · rw [List.concat_eq_append] at hx hkinds hlast
        have hbefore : last.kind.Before arg.kind := hlast last (by simp)
        rcases List.mem_append.1 hx with hinit | hx
        · rw [List.map_append, List.pairwise_append] at hkinds
          exact (hkinds.2.2 _ (List.mem_map_of_mem hinit) _ (by simp)).trans hbefore
        · rw [List.mem_singleton] at hx
          rw [hx]
          exact hbefore

/-- **One step of the check**: an argument that may follow those before it is passed over, and any other one is
refused with its error. -/
theorem checkFrom_cons (arg : Argument) (args : List Argument) {front : List Argument} {names : List String}
    (hnames : ∀ name, name ∈ names ↔ name ∈ front.map Argument.name) (hfront : Orderly front) :
    (Orderly (front ++ [arg]) ∧ checkFrom names (front.getLast?.map Argument.kind) (arg :: args) =
        checkFrom (arg.name :: names) (some arg.kind) args) ∨
      ∃ e, ¬Orderly (front ++ [arg]) ∧ Misplaced front arg e ∧
        checkFrom names (front.getLast?.map Argument.kind) (arg :: args) = .error e := by
  rw [orderly_concat_iff hfront, checkFrom]
  by_cases htaken : arg.name ∈ front.map Argument.name
  · rw [if_pos (by simpa [hnames] using htaken)]
    exact .inr ⟨_, fun h => h.1 htaken, .name htaken, rfl⟩
  · rw [if_neg (by simpa [hnames] using htaken)]
    cases hlast : front.getLast? with
    | none => exact .inl ⟨⟨htaken, nofun⟩, rfl⟩
    | some last =>
      dsimp only [Option.map_some]
      by_cases hbefore : last.kind.Before arg.kind
      · rw [if_neg (ParamKind.before_iff_not_regression.1 hbefore)]
        refine .inl ⟨⟨htaken, ?_⟩, rfl⟩
        rintro _ ⟨⟩
        exact hbefore
      · rw [if_pos (Classical.not_not.1 fun h => hbefore (ParamKind.before_iff_not_regression.2 h))]
        exact .inr ⟨_, fun h => hbefore (h.2 last rfl), .kind htaken hlast hbefore, rfl⟩

/-- **What the check comes to** after arguments in order: all arguments are in order, or the first one that is not is
refused. -/
theorem checkFrom_verdict {args : List Argument} :
    ∀ {front : List Argument} {names : List String}, (∀ name, name ∈ names ↔ name ∈ front.map Argument.name) →
      Orderly front → match checkFrom names (front.getLast?.map Argument.kind) args with
      | .ok () => Orderly (front ++ args)
      | .error e => ∃ before arg, BreaksAt Orderly (front ++ args) before arg ∧ Misplaced before arg e := by
  induction args with
  | nil =>
    intro front names _ hfront
    rw [checkFrom, List.append_nil]
    exact hfront
  | cons arg args ih =>
    intro front names hnames hfront
    rw [List.append_cons]
    rcases checkFrom_cons arg args hnames hfront with ⟨hnext, hcheck⟩ | ⟨e, hnext, he, hcheck⟩
    · have hkind : some arg.kind = (front ++ [arg]).getLast?.map Argument.kind := by simp
      rw [hcheck, hkind]
      refine ih ?_ hnext
      intro name
      simp [hnames, or_comm]
    · rw [hcheck]
      exact ⟨front, arg, ⟨List.prefix_append _ _, hfront, hnext⟩, he⟩

/-- **What the check of an argument list comes to.** -/
theorem checkStructure_verdict (args : List Argument) :
    match checkStructure args with
    | .ok () => Orderly args
    | .error e => ∃ before arg, BreaksAt Orderly args before arg ∧ Misplaced before arg e :=
  @checkFrom_verdict args [] [] (by simp) orderly_nil

theorem orderly_of_checkStructure {args : List Argument} (h : checkStructure args = .ok ()) : Orderly args := by
  have hverdict := checkStructure_verdict args
  rwa [h] at hverdict

/-- Any two arguments of a list in order may stand so. -/
theorem Orderly.before {args : List Argument} (h : Orderly args) : args.Pairwise fun a b => a.kind.Before b.kind :=
  List.pairwise_map.1 (orderly_iff.1 h).2

end Variant
end CallSig
