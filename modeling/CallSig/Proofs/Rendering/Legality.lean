import CallSig.Proofs.Variant.Alignment
import CallSig.Rendering

/-!
# `CallSig.Proofs.Rendering.Legality` — what is shown is a parameter list of the host

The host accepts a parameter list if the kinds do not step back, no variadic kind comes twice, no positional
parameter without a default follows one with a default, and the names are distinct. Assembly checks this for the
arguments of a line, and leaving arguments out keeps it. A binding then puts a parameter in front. Its kind is chosen
by the parameter after it, and it has no default, so the order stays; but nobody looks at its name.

## Contents
- **Order.** `ShownParam.InOrder`, `inOrder_cons`.
- **Defaults.** `lt_positionalCount`, `isSome_defaultAt`: the positional parameters with a default are the last ones.
- **Shown parameters.** `inOrder_shown`, `addedName?`, `implicitParams_eq`, `map_name_render`.
- **Renderings.** `nodup_of_assemble`, `render_legal`; `named_self`, a method with two parameters of one name.
-/

namespace CallSig

/-! ## Order -/

/-- The parameters stand in an order that the host accepts. A parameter may be left out in a call if it has a default,
whether the default is shown or not. -/
structure ShownParam.InOrder (ps : List ShownParam) : Prop where
  kinds : ps.Pairwise fun p q => p.kind.rank ≤ q.kind.rank
  variadic : ∀ kind : ParamKind, kind.isVariadic = true → ps.countP (fun p => p.kind = kind) ≤ 1
  /-- No positional parameter must be passed after one that may be left out. -/
  optional : ps.Pairwise fun p q => p.kind.isPositional = true → q.kind.isPositional = true →
    p.optional = true → q.optional = true
  /-- No positional parameter is shown without a default after one with a default. -/
  default : ps.Pairwise fun p q => p.kind.isPositional = true → q.kind.isPositional = true →
    p.default?.isSome = true → q.default?.isSome = true

namespace ShownParam

/-- A positional parameter that must be passed, before others that do not step back behind it. -/
theorem inOrder_cons {p : ShownParam} {ps : List ShownParam} (h : InOrder ps)
    (hrank : ∀ q ∈ ps, p.kind.rank ≤ q.kind.rank) (hkind : p.kind.isVariadic = false) (hoptional : p.optional = false)
    (hdefault : p.default? = none) : InOrder (p :: ps) where
  kinds := .cons hrank h.kinds
  variadic := by
    intro kind hv
    have hne : p.kind ≠ kind := by
      rintro rfl
      rw [hkind] at hv
      cases hv
    rw [List.countP_cons_of_neg (by simpa using hne)]
    exact h.variadic kind hv
  optional := by
    refine .cons (fun q _ _ _ hp => ?_) h.optional
    rw [hoptional] at hp
    cases hp
  default := by
    refine .cons (fun q _ _ _ hp => ?_) h.default
    rw [hdefault] at hp
    cases hp

end ShownParam

namespace Variant

variable {v : Variant} {binding : Binding} {layout : Layout}

/-! ## Defaults -/

theorem isPositional_of_rank_le {a b : ParamKind} (h : a.rank ≤ b.rank) (hb : b.isPositional = true) :
    a.isPositional = true := by
  cases a <;> cases b <;> simp_all [ParamKind.rank, ParamKind.isPositional]

/-- The positional parameters come first, so the place of one of them is below their number. -/
theorem lt_positionalCount (hkinds : v.params.Pairwise fun p q => p.kind.rank ≤ q.kind.rank) {i : Nat}
    (hi : i < v.params.length) (hp : v.params[i].kind.isPositional = true) : i < v.positionalCount := by
  have hfirst : ∀ p ∈ v.params.take (i + 1), p.kind.isPositional = true := by
    intro p hmem
    obtain ⟨j, hj, rfl⟩ := List.mem_take_iff_getElem.1 hmem
    rcases Nat.lt_or_eq_of_le (Nat.le_of_lt_succ (Nat.lt_of_lt_of_le hj (Nat.min_le_left _ _))) with hlt | rfl
    · exact isPositional_of_rank_le (List.pairwise_iff_getElem.1 hkinds j i _ hi hlt) hp
    · exact hp
  have hcount : (v.params.take (i + 1)).countP (fun p => p.kind.isPositional) = i + 1 := by
    rw [List.countP_eq_length.2 hfirst, List.length_take]
    omega
  have hle := (List.take_sublist (i + 1) v.params).countP_le (p := fun p => p.kind.isPositional)
  rw [hcount] at hle
  exact hle

/-- **Defaults come last**: a positional parameter after one with a default has one too. -/
theorem isSome_defaultAt (hkinds : v.params.Pairwise fun p q => p.kind.rank ≤ q.kind.rank) {i j : Nat} (hij : i < j)
    (hj : j < v.params.length) (hp : v.params[i].kind.isPositional = true)
    (hq : v.params[j].kind.isPositional = true) (h : (v.defaultAt i).isSome = true) :
    (v.defaultAt j).isSome = true := by
  have hlast := lt_positionalCount hkinds hj hq
  unfold defaultAt at h ⊢
  rw [List.getElem?_eq_getElem (Nat.lt_trans hij hj), Option.bind_some, if_pos hp] at h
  rw [List.getElem?_eq_getElem hj, Option.bind_some, if_pos hq]
  dsimp only at h ⊢
  split at h
  · cases h
  · next hfits =>
    rw [if_neg (by omega), List.getElem?_eq_getElem (by omega)]
    rfl

/-! ## Shown parameters -/

/-- **The parameters of a variant are shown in order**, under any layout. -/
theorem inOrder_shown (hkinds : v.params.Pairwise fun p q => p.kind.rank ≤ q.kind.rank)
    (hvariadic : ∀ kind : ParamKind, kind.isVariadic = true → v.params.countP (fun p => p.kind = kind) ≤ 1)
    (layout : Layout) :
    ShownParam.InOrder (v.params.mapIdx fun i p => shownParam layout p (v.defaultAt i)) where
  kinds := by
    refine List.pairwise_iff_getElem.2 fun i j hi hj hij => ?_
    rw [List.length_mapIdx] at hi hj
    rw [List.getElem_mapIdx, List.getElem_mapIdx]
    exact List.pairwise_iff_getElem.1 hkinds i j hi hj hij
  variadic := by
    intro kind hv
    have hmap : (v.params.mapIdx fun i p => shownParam layout p (v.defaultAt i)).map ShownParam.kind =
        v.params.map Parameter.kind := by
      apply List.ext_getElem?
      intro i
      simp only [List.getElem?_map, List.getElem?_mapIdx, Option.map_map]
      rfl
    have hcount := congrArg (List.countP fun k => k = kind) hmap
    rw [List.countP_map, List.countP_map] at hcount
    exact Nat.le_trans (Nat.le_of_eq hcount) (hvariadic kind hv)
  optional := by
    refine List.pairwise_iff_getElem.2 fun i j hi hj hij => ?_
    rw [List.length_mapIdx] at hi hj
    rw [List.getElem_mapIdx, List.getElem_mapIdx]
    exact isSome_defaultAt hkinds hij hj
  default := by
    refine List.pairwise_iff_getElem.2 fun i j hi hj hij => ?_
    rw [List.length_mapIdx] at hi hj
    rw [List.getElem_mapIdx, List.getElem_mapIdx]
    intro hp hq h
    -- a layout shows all defaults or none of them
    unfold shownParam shownDefault at h ⊢
    dsimp only at h ⊢
    split at h
    · next hshows =>
      rw [Option.isSome_map] at h
      rw [if_pos hshows, Option.isSome_map]
      exact isSome_defaultAt hkinds hij hj hp hq h
    · cases h

/-- The name of the parameter that a binding adds under a layout. -/
def addedName? (binding : Binding) (layout : Layout) : Option String :=
  if layout.definition then binding.implicitName? else none

/-- The kind of the added parameter: positional-only before a positional-only one, else an ordinary one. -/
def addedKind (v : Variant) : ParamKind :=
  match v.params with
  | first :: _ => if first.kind = .positionalOnly then .positionalOnly else .positionalOrKeyword
  | [] => .positionalOrKeyword

theorem implicitParams_eq (v : Variant) (binding : Binding) (layout : Layout) :
    v.implicitParams binding layout =
      ((addedName? binding layout).map fun name =>
        ⟨if layout.names then some name else none, v.addedKind, none, none, false⟩).toList := by
  unfold implicitParams addedName? addedKind
  cases layout.definition <;> cases binding.implicitName? <;> rfl

/-- The added parameter does not step ahead of the others. -/
theorem rank_addedKind_le (hkinds : v.params.Pairwise fun p q => p.kind.rank ≤ q.kind.rank) :
    ∀ p ∈ v.params, v.addedKind.rank ≤ p.kind.rank := by
  unfold addedKind
  cases hparams : v.params with
  | nil => exact List.forall_mem_nil _
  | cons first rest =>
    rw [hparams] at hkinds
    -- it is enough to compare with the first one
    have hfirst : (if first.kind = .positionalOnly then ParamKind.positionalOnly else .positionalOrKeyword).rank ≤
        first.kind.rank := by
      cases first.kind <;> decide
    rw [List.forall_mem_cons]
    exact ⟨hfirst, fun p hp => Nat.le_trans hfirst ((List.pairwise_cons.1 hkinds).1 p hp)⟩

theorem isVariadic_addedKind (v : Variant) : v.addedKind.isVariadic = false := by
  unfold addedKind
  split
  · split <;> rfl
  · rfl

/-- A layout that shows names shows them all, the added one first. -/
theorem map_name_render (v : Variant) (binding : Binding) (hnames : layout.names = true) :
    (v.render binding layout).params.map ShownParam.name? =
      ((addedName? binding layout).toList ++ v.params.map Parameter.name).map some := by
  have hshown : (v.params.mapIdx fun i p => shownParam layout p (v.defaultAt i)).map ShownParam.name? =
      (v.params.map Parameter.name).map some := by
    apply List.ext_getElem?
    intro i
    simp only [List.getElem?_map, List.getElem?_mapIdx, Option.map_map]
    cases v.params[i]? with
    | none => rfl
    | some p => simp [shownParam, hnames]
  unfold render
  rw [implicitParams_eq, List.map_append, List.map_append, hshown, hnames]
  cases addedName? binding layout <;> rfl

/-! ## Renderings -/

/-- Only a checked argument list is assembled. -/
theorem checkStructure_of_assemble {depth : Nat} {optionalReturns : List String} {scope? : Option String}
    {descriptor : Descriptor} {l : Lexicon}
    (h : (assemble depth optionalReturns scope? descriptor l).1 = .ok v) :
    checkStructure descriptor.arguments = .ok () := by
  unfold assemble at h
  cases hcheck : checkStructure descriptor.arguments with
  | error e =>
    rw [hcheck] at h
    cases h
  | ok u => rfl

/-- **The parameters of a variant have distinct names.** -/
theorem nodup_of_assemble {depth : Nat} {optionalReturns : List String} {scope? : Option String}
    {descriptor : Descriptor} {l : Lexicon}
    (h : (assemble depth optionalReturns scope? descriptor l).1 = .ok v) :
    (v.params.map Parameter.name).Nodup := by
  have hnames := ((comesFrom_of_assemble h).params.map Prod.fst).nodup
  rw [List.map_map, List.map_map] at hnames
  exact hnames (orderly_of_checkStructure (checkStructure_of_assemble h)).names

/-- **What is shown of a variant is a legal parameter list**, under every binding and every layout that shows names:
kinds and defaults are in order, and the parameter that the binding adds comes first. The names are distinct exactly
if no parameter of the variant has the name of the added one. -/
theorem render_legal {depth : Nat} {optionalReturns : List String} {scope? : Option String}
    {descriptor : Descriptor} {l : Lexicon}
    (hassemble : (assemble depth optionalReturns scope? descriptor l).1 = .ok v)
    (binding : Binding) {layout : Layout} (hnames : layout.names = true) :
    ShownParam.InOrder (v.render binding layout).params ∧
      (v.render binding layout).params.map ShownParam.name? =
        ((addedName? binding layout).toList ++ v.params.map Parameter.name).map some ∧
      ((v.render binding layout).names.Nodup ↔
        ∀ name, addedName? binding layout = some name → name ∉ v.params.map Parameter.name) := by
  have horder := (comesFrom_of_assemble hassemble).order
  have hkinds := horder.imp ParamKind.rank_le_of_before
  have hmap := map_name_render v binding hnames
  refine ⟨?_, hmap, ?_⟩
  · have hshown := inOrder_shown hkinds (fun kind => countP_le_one horder) layout
    unfold render
    rw [implicitParams_eq]
    cases addedName? binding layout with
    | none => exact hshown
    | some name =>
      refine ShownParam.inOrder_cons hshown ?_ v.isVariadic_addedKind rfl rfl
      intro shown hmem
      obtain ⟨i, hi, rfl⟩ := List.mem_mapIdx.1 hmem
      exact rank_addedKind_le hkinds _ (List.getElem_mem hi)
  · have hdistinct := nodup_of_assemble hassemble
    have hshown : (v.render binding layout).names =
        (addedName? binding layout).toList ++ v.params.map Parameter.name :=
      calc (v.render binding layout).names
          = ((v.render binding layout).params.map ShownParam.name?).filterMap id := by rw [List.filterMap_map]; rfl
        _ = _ := by rw [hmap, List.filterMap_map]; simp
    rw [hshown]
    cases addedName? binding layout with
    | none => simpa using hdistinct
    | some name => simp [hdistinct]

theorem render_legal_outputLine :
    Descriptor.parse 3 "m.f(a:int,out:int*,b:int=1,*,k:str=nullptr)->int" = .ok outputLine ∧
      ∃ v, (assemble 3 [] none outputLine fewTokens).1 = .ok v ∧ Layout.hintingStub.names = true ∧
        v.params.map Parameter.name = ["a", "b", "k"] ∧
        ShownParam.InOrder (v.render .method .hintingStub).params ∧
        (v.render .method .hintingStub).params.map ShownParam.name? = ["self", "a", "b", "k"].map some ∧
        ((v.render .method .hintingStub).names.Nodup ↔
          ∀ name, addedName? .method .hintingStub = some name → name ∉ v.params.map Parameter.name) := by
  have hparse : Descriptor.parse 3 "m.f(a:int,out:int*,b:int=1,*,k:str=nullptr)->int" = .ok outputLine :=
    eq_ok_of_toOption (by decide +kernel)
  have hvariant : ((assemble 3 [] none outputLine fewTokens).1.toOption.map fun v =>
      v.params.map Parameter.name) = some ["a", "b", "k"] := by decide +kernel
  obtain ⟨v, hv, hparams⟩ := Option.map_eq_some_iff.1 hvariant
  have hassemble := eq_ok_of_toOption hv
  have hnames : Layout.hintingStub.names = true := rfl
  obtain ⟨horder, hshown, hdistinct⟩ := render_legal hassemble .method hnames
  refine ⟨hparse, v, hassemble, hnames, hparams, horder, ?_, hdistinct⟩
  rw [hshown, hparams]
  rfl

/-- What the line `f(self:int)` says. -/
def selfLine : Descriptor where
  index? := none
  scope := []
  name := "f"
  arguments := [⟨"self", "int", none, .positionalOrKeyword, ⟨2, 10⟩⟩]
  result? := none
  nameSpan := ⟨0, 1⟩

/-- **Two parameters of one name**: the line `f(self:int)` can be assembled, and bound as a method it is shown with
the parameters `self` and `self`. -/
theorem named_self :
    Descriptor.parse 3 "f(self:int)" = .ok selfLine ∧
      ∃ v, (assemble 3 [] none selfLine fewTokens).1 = .ok v ∧ Layout.full.names = true ∧
        (v.render .method .full).names = ["self", "self"] ∧ ¬(v.render .method .full).names.Nodup := by
  have hvariant : ((assemble 3 [] none selfLine fewTokens).1.toOption.map fun v =>
      (v.render .method .full).names) = some ["self", "self"] := by decide +kernel
  obtain ⟨v, hv, hnames⟩ := Option.map_eq_some_iff.1 hvariant
  refine ⟨eq_ok_of_toOption (by decide +kernel), v, eq_ok_of_toOption hv, rfl, hnames, ?_⟩
  rw [hnames]
  decide

end Variant
end CallSig
