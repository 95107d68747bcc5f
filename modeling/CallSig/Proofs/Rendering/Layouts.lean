import CallSig.Proofs.Rendering.Legality

/-!
# `CallSig.Proofs.Rendering.Layouts` — what layouts have in common and what they hide

A layout decides what is shown of the parameters of a variant, never which there are. Kinds, types and whether a
parameter may be left out are the same under every layout; names and defaults are shown or hidden. So the arities of a
rendering depend on the layout only by the parameter that the binding adds.

The required arity is counted twice: a variant subtracts the number of its defaults, a rendering counts the parameters
without one. For an assembled variant both come to the same, since its defaults are those of the last positional
parameters.

## Contents
- **Shapes.** `ParamShape`, `ShownParam.shape`, `Variant.shapes`; `shownOwn`, `map_shape_shownOwn`.
- **Arities.** `requiredArity_render`, `maxArity?_render`: both are counted among shapes.
- **Hiding.** `Shows`, `shows_render`.
- **Required arity.** `exists_gathers_of_assemble`, `countP_isRequired`, `countP_isRequired_of_assemble`.
- **Layouts.** `layouts_agree`.
-/

namespace CallSig

/-! ## Shapes -/

/-- What no layout changes of a parameter. -/
structure ParamShape where
  kind : ParamKind
  hint? : Option TypeExpr
  /-- Whether the parameter has a default. -/
  optional : Bool

/-- Whether a call must pass the parameter by position. -/
def ParamShape.isRequired (s : ParamShape) : Bool := s.kind.isPositional && !s.optional

/-- The shape of a parameter that is shown. -/
def ShownParam.shape (p : ShownParam) : ParamShape := ⟨p.kind, p.hint?, p.optional⟩

namespace Variant

variable {v : Variant} {binding : Binding} {layout layout' : Layout}

/-- The shapes of the parameters of a variant, in order. -/
def shapes (v : Variant) : List ParamShape := v.params.mapIdx fun i p => ⟨p.kind, p.hint?, (v.defaultAt i).isSome⟩

/-- The parameters of a rendering without the one that the binding adds. -/
def shownOwn (v : Variant) (binding : Binding) (layout : Layout) : List ShownParam :=
  (v.render binding layout).params.drop (addedName? binding layout).toList.length

theorem shownOwn_eq (v : Variant) (binding : Binding) (layout : Layout) :
    v.shownOwn binding layout = v.params.mapIdx fun i p => shownParam layout p (v.defaultAt i) := by
  unfold shownOwn render
  rw [implicitParams_eq]
  cases addedName? binding layout <;> rfl

theorem params_render_append (v : Variant) (binding : Binding) (layout : Layout) :
    (v.render binding layout).params = v.implicitParams binding layout ++ v.shownOwn binding layout := by
  rw [shownOwn_eq]
  rfl

/-- **No layout changes a shape**, and none drops or reorders parameters. -/
theorem map_shape_shownOwn (v : Variant) (binding : Binding) (layout : Layout) :
    (v.shownOwn binding layout).map ShownParam.shape = v.shapes := by
  rw [shownOwn_eq, shapes]
  apply List.ext_getElem?
  intro i
  simp only [List.getElem?_map, List.getElem?_mapIdx, Option.map_map]
  rfl

/-- The shapes of all parameters that are shown. -/
theorem map_shape_render (v : Variant) (binding : Binding) (layout : Layout) :
    (v.render binding layout).params.map ShownParam.shape =
      (addedName? binding layout).toList.map (fun _ => ⟨v.addedKind, none, false⟩) ++ v.shapes := by
  rw [params_render_append, List.map_append, map_shape_shownOwn, implicitParams_eq]
  cases addedName? binding layout <;> rfl

/-! ## Arities -/

theorem requiredArity_eq (v : Variant) (binding : Binding) (layout : Layout) :
    (v.render binding layout).requiredArity =
      ((v.render binding layout).params.map ShownParam.shape).countP ParamShape.isRequired := by
  rw [List.countP_map]
  rfl

theorem maxArity?_eq (v : Variant) (binding : Binding) (layout : Layout) :
    (v.render binding layout).maxArity? =
      if ((v.render binding layout).params.map ShownParam.shape).any fun s => s.kind == .varPositional then none
      else some (((v.render binding layout).params.map ShownParam.shape).countP fun s => s.kind.isPositional) := by
  rw [List.any_map, List.countP_map]
  rfl

/-- Layouts that both show the added parameter, or both do not, show the same shapes. -/
theorem map_shape_render_eq (h : layout.definition = layout'.definition) (v : Variant) (binding : Binding) :
    (v.render binding layout).params.map ShownParam.shape =
      (v.render binding layout').params.map ShownParam.shape := by
  have hadded : addedName? binding layout = addedName? binding layout' := by
    unfold addedName?
    rw [h]
  rw [map_shape_render, map_shape_render, hadded]

theorem isPositional_addedKind (v : Variant) : v.addedKind.isPositional = true := by
  unfold addedKind
  split
  · split <;> rfl
  · rfl

/-- The added parameter must be passed, and the others as their shapes say. -/
theorem requiredArity_render (v : Variant) (binding : Binding) (layout : Layout) :
    (v.render binding layout).requiredArity =
      v.shapes.countP ParamShape.isRequired + if (addedName? binding layout).isSome then 1 else 0 := by
  rw [requiredArity_eq, map_shape_render, List.countP_append, Nat.add_comm]
  cases addedName? binding layout with
  | none => rfl
  | some name => simp [ParamShape.isRequired, isPositional_addedKind]

/-! ## Hiding -/

/-- What a layout lets through of the names and the defaults of a variant. -/
structure Shows (v : Variant) (binding : Binding) (layout : Layout) : Prop where
  /-- The names of a layout that shows them are those of the variant, in order. -/
  names : layout.names = true → (v.shownOwn binding layout).map ShownParam.name? = v.params.map (some ·.name)
  /-- A layout without names shows no name and no default. -/
  nameless : layout.names = false → ∀ p ∈ (v.render binding layout).params, p.name? = none ∧ p.default? = none
  /-- A layout with three dots for defaults shows no value. -/
  ellipsis : layout.ellipsis = true → ∀ p ∈ (v.render binding layout).params, ∀ value, p.default? ≠ some (.value value)
  /-- A value that is shown is the default of the parameter at its place. -/
  value : ∀ i p value, (v.shownOwn binding layout)[i]? = some p → p.default? = some (.value value) →
    v.defaultAt i = some value
  /-- The added parameter shows no default. -/
  added : ∀ p ∈ (v.render binding layout).params.take (addedName? binding layout).toList.length, p.default? = none

theorem shownDefault_of_nameless (h : layout.names = false) (default? : Option Value) :
    shownDefault layout default? = none := by
  unfold shownDefault Layout.showsDefaults
  rw [h, Bool.and_false]
  rfl

/-- A value is shown of a default only where the layout writes no dots. -/
theorem eq_of_shownDefault {default? : Option Value} {value : Value}
    (h : shownDefault layout default? = some (.value value)) : layout.ellipsis = false ∧ default? = some value := by
  unfold shownDefault at h
  split at h
  · obtain ⟨found, rfl, hfound⟩ := Option.map_eq_some_iff.1 h
    split at hfound
    · cases hfound
    · next hdots =>
      cases hfound
      exact ⟨by simpa using hdots, rfl⟩
  · cases h

/-- A parameter that is shown is the added one, or one of the variant with its default. -/
theorem mem_params_render {p : ShownParam} (h : p ∈ (v.render binding layout).params) :
    p ∈ v.implicitParams binding layout ∨ ∃ param default?, p = shownParam layout param default? := by
  rw [params_render_append, shownOwn_eq] at h
  rcases List.mem_append.1 h with h | h
  · exact .inl h
  · obtain ⟨i, hi, rfl⟩ := List.mem_mapIdx.1 h
    exact .inr ⟨_, _, rfl⟩

theorem implicitParams_hidden {p : ShownParam} (h : p ∈ v.implicitParams binding layout) :
    p.default? = none ∧ (layout.names = false → p.name? = none) := by
  rw [implicitParams_eq, Option.mem_toList] at h
  obtain ⟨name, -, rfl⟩ := Option.map_eq_some_iff.1 h
  refine ⟨rfl, fun hnames => ?_⟩
  rw [hnames]
  rfl

/-- **What is shown** follows the switches of the layout. -/
theorem shows_render (v : Variant) (binding : Binding) (layout : Layout) : Shows v binding layout where
  names := by
    intro hnames
    rw [shownOwn_eq]
    apply List.ext_getElem?
    intro i
    simp only [List.getElem?_map, List.getElem?_mapIdx, Option.map_map]
    congr 1
    funext p
    simp [shownParam, hnames]
  nameless := by
    intro hnames p hp
    rcases mem_params_render hp with hadded | ⟨param, default?, rfl⟩
    · obtain ⟨hdefault, hname⟩ := implicitParams_hidden hadded
      exact ⟨hname hnames, hdefault⟩
    · refine ⟨?_, shownDefault_of_nameless hnames default?⟩
      simp [shownParam, hnames]
  ellipsis := by
    intro hdots p hp value hvalue
    rcases mem_params_render hp with hadded | ⟨param, default?, rfl⟩
    · rw [(implicitParams_hidden hadded).1] at hvalue
      cases hvalue
    · have hplain := (eq_of_shownDefault hvalue).1
      rw [hdots] at hplain
      cases hplain
  value := by
    intro i p value hp hvalue
    rw [shownOwn_eq, List.getElem?_mapIdx] at hp
    obtain ⟨param, -, rfl⟩ := Option.map_eq_some_iff.1 hp
    exact (eq_of_shownDefault hvalue).2
  added := by
    intro p hp
    have hlength : (v.implicitParams binding layout).length = (addedName? binding layout).toList.length := by
      rw [implicitParams_eq]
      cases addedName? binding layout <;> rfl
    rw [params_render_append, ← hlength, List.take_left] at hp
    exact (implicitParams_hidden hp).1

/-! ## Required arity -/

/-- What an assembled variant holds has been gathered from readings. -/
theorem exists_gathers_of_assemble {depth : Nat} {optionalReturns : List String} {scope? : Option String}
    {descriptor : Descriptor} {l : Lexicon}
    (h : (assemble depth optionalReturns scope? descriptor l).1 = .ok v) :
    ∃ (rs : List (Argument × Reading)) (d : Draft), d.Gathers rs ∧ v.params = d.params ∧
      v.defaults = d.defaults ∧ v.keywordDefaults = d.keywordDefaults := by
  have hreadings := returns_readAll depth (descriptor.owner?.or scope?) descriptor.arguments l
  have hcheck := checkStructure_of_assemble h
  unfold assemble at h
  rw [hcheck] at h
  simp only [bind, StateT.bind] at h
  generalize hrun : Draft.empty.addAll depth (descriptor.owner?.or scope?) descriptor.arguments l = run at h
  obtain ⟨added, l'⟩ := run
  cases added with
  | error e => cases h
  | ok d =>
    have hadd := Draft.addAll_fst.symm.trans (congrArg Prod.fst hrun)
    have hd := Draft.gathers_of_addReadings Draft.gathers_empty hreadings.2 hadd
    cases h
    exact ⟨_, d, hd, rfl, rfl, rfl⟩

section Readings

variable {ks : List (Argument × Reading)} (hslots : v.params.map Parameter.slot = ks.map fun x => x.1.slot)
include hslots

/-- Where the parameters have the defaults of these arguments, shapes and readings agree in kinds and in having a
default. -/
theorem map_shapes_eq (hdefaults : ∀ i, v.defaultAt i = ks[i]?.bind fun x => x.2.default?) :
    v.shapes.map (fun s => (s.kind, s.optional)) = ks.map fun x => (x.1.kind, x.2.default?.isSome) := by
  apply List.ext_getElem?
  intro i
  have hslot : v.params[i]?.map Parameter.slot = ks[i]?.map fun x => x.1.slot := by
    rw [← List.getElem?_map, hslots, List.getElem?_map]
  simp only [shapes, List.getElem?_map, List.getElem?_mapIdx, Option.map_map, hdefaults]
  cases hx : ks[i]? with
  | none =>
    rw [hx] at hslot
    rw [Option.map_eq_none_iff.1 hslot]
    rfl
  | some x =>
    rw [hx] at hslot
    obtain ⟨p, hp, hpx⟩ := Option.map_eq_some_iff.1 hslot
    have hkind : p.kind = x.1.kind := congrArg Prod.snd hpx
    rw [hp]
    simp [hkind]

/-- The parameters that a call must pass are the positional places without a default. -/
theorem countP_isRequired (hdefaults : ∀ i, v.defaultAt i = ks[i]?.bind fun x => x.2.default?) :
    v.shapes.countP ParamShape.isRequired = (positionalDefaults ks).countP Option.isNone := by
  have hcount := congrArg (List.countP fun s : ParamKind × Bool => s.1.isPositional && !s.2)
    (map_shapes_eq hslots hdefaults)
  rw [List.countP_map, List.countP_map] at hcount
  unfold positionalDefaults
  rw [List.countP_map, List.countP_filter]
  refine hcount.trans (congrArg (List.countP · ks) (funext fun x => ?_))
  simp only [Function.comp_apply]
  cases x.1.kind.isPositional <;> cases x.2.default? <;> rfl

theorem positionalCount_eq : v.positionalCount = (positionalDefaults ks).length := by
  have hcount := congrArg (List.countP fun slot : String × ParamKind => slot.2.isPositional) hslots
  rw [List.countP_map, List.countP_map] at hcount
  unfold positionalDefaults
  rw [List.length_map, ← List.countP_eq_length_filter]
  exact hcount

end Readings

/-- **Both counts agree** for an assembled variant: its positional places without a default are as many as it has more
positional parameters than defaults. -/
theorem countP_isRequired_of_assemble {depth : Nat} {optionalReturns : List String} {scope? : Option String}
    {descriptor : Descriptor} {l : Lexicon} (h : (assemble depth optionalReturns scope? descriptor l).1 = .ok v) :
    v.shapes.countP ParamShape.isRequired = v.requiredArity := by
  obtain ⟨rs, d, hd, hparams, hdefaults, hkeywords⟩ := exists_gathers_of_assemble h
  have hslots : v.params.map Parameter.slot = (kept rs).map fun x => x.1.slot := by rw [hparams, hd.params]
  have hrank : (kept rs).Pairwise fun x y => x.1.kind.rank ≤ y.1.kind.rank := by
    have horder : (v.params.map Parameter.slot).Pairwise fun a b => a.2.Before b.2 :=
      List.pairwise_map.2 (comesFrom_of_assemble h).order
    rw [hslots, List.pairwise_map] at horder
    exact horder.imp ParamKind.rank_le_of_before
  have hnames : ((kept rs).map fun x => x.1.name).Nodup := by
    have hsame := congrArg (List.map Prod.fst) hslots
    rw [List.map_map, List.map_map] at hsame
    exact hsame ▸ nodup_of_assemble h
  obtain ⟨n, hn⟩ : ∃ n, positionalDefaults (kept rs) = List.replicate n none ++ v.defaults.map some := by
    rw [hdefaults]
    exact hd.defaults
  have hdefaultAt := defaultAt_eq hslots ⟨n, hn⟩ (by rw [hkeywords, hd.keywords]) hrank hnames
  -- the places without a default are the first ones
  have hnone : (v.defaults.map some).countP Option.isNone = 0 := by simp [List.countP_eq_zero]
  have hfirst : (List.replicate n (none : Option Value)).countP Option.isNone = n := by
    rw [List.countP_replicate, if_pos Option.isNone_none]
  unfold requiredArity
  rw [countP_isRequired hslots hdefaultAt, positionalCount_eq hslots, hn, List.countP_append, hnone, hfirst]
  simp

/-! ## Layouts -/

/-- **Layouts agree on shapes and hide what they must.** Under any two layouts the parameters of a variant have the
same number, order, kinds and types, and the same ones may be left out; if both layouts show the added parameter or
both do not, the arities are the same. Names and defaults are shown as the switches say. And a rendering of an
assembled variant requires as many arguments as the variant does, and one more if a parameter is added. -/
theorem layouts_agree (v : Variant) (binding : Binding) (layout layout' : Layout) :
    (v.shownOwn binding layout).map ShownParam.shape = (v.shownOwn binding layout').map ShownParam.shape ∧
      (v.shownOwn binding layout).map ShownParam.shape = v.shapes ∧
      (layout.definition = layout'.definition →
        (v.render binding layout).requiredArity = (v.render binding layout').requiredArity ∧
          (v.render binding layout).maxArity? = (v.render binding layout').maxArity?) ∧
      Shows v binding layout ∧
      ∀ depth optionalReturns scope? descriptor l,
        (assemble depth optionalReturns scope? descriptor l).1 = .ok v →
          (v.render binding layout).requiredArity =
            v.requiredArity + if (addedName? binding layout).isSome then 1 else 0 := by
  have hshapes := map_shape_shownOwn v binding
  refine ⟨(hshapes layout).trans (hshapes layout').symm, hshapes layout, fun hdefinition => ?_,
    shows_render v binding layout, fun depth optionalReturns scope? descriptor l hassemble => ?_⟩
  · have hsame := map_shape_render_eq hdefinition v binding
    rw [requiredArity_eq, requiredArity_eq, maxArity?_eq, maxArity?_eq, hsame]
    exact ⟨rfl, rfl⟩
  · rw [requiredArity_render, countP_isRequired_of_assemble hassemble]

theorem layouts_agree_outputLine :
    ∃ v, (assemble 3 [] none outputLine fewTokens).1 = .ok v ∧ v.requiredArity = 1 ∧
      Layout.existence.definition = Layout.errorMessage.definition ∧
      (v.render .method .existence).requiredArity = (v.render .method .errorMessage).requiredArity ∧
      (v.render .method .full).requiredArity = v.requiredArity + 1 := by
  have hvariant : ((assemble 3 [] none outputLine fewTokens).1.toOption.map requiredArity) = some 1 := by
    decide +kernel
  obtain ⟨v, hv, hrequired⟩ := Option.map_eq_some_iff.1 hvariant
  have hassemble := eq_ok_of_toOption hv
  obtain ⟨-, -, harity, -, -⟩ := layouts_agree v .method .existence .errorMessage
  obtain ⟨-, -, -, -, hcount⟩ := layouts_agree v .method .full .existence
  exact ⟨v, hassemble, hrequired, rfl, (harity rfl).1, hcount _ _ _ _ _ hassemble⟩

end Variant
end CallSig
