import CallSig.Proofs.Descriptor.Names
import CallSig.Proofs.Variant.Structure

/-!
# `CallSig.Proofs.Variant.Origin` — where the parameters of a variant come from

Whatever the lexicon holds, assembly only leaves arguments out: the parameters of a variant are arguments of its
descriptor with their names and kinds, in their order. Since the argument list is checked first, the kinds of the
parameters never step back, and no variadic kind comes twice.

## Contents
- **Runs.** `Returns`, `returns_bind`.
- **Assembly.** `Draft.Kept`, `returns_add`, `returns_addAll`, `ComesFrom`, `comesFrom_of_assemble`.
-/

namespace CallSig

/-- The name and the kind of a parameter. -/
def Parameter.slot (p : Parameter) : String × ParamKind := (p.name, p.kind)

namespace Variant

/-! ## Runs -/

/-- Over every lexicon, what the run returns has the property. -/
def Returns {α : Type} (m : LexiconM α) (P : α → Prop) : Prop := ∀ l, P (m l).1

theorem returns_pure {α : Type} {P : α → Prop} {a : α} (h : P a) : Returns (pure a) P := fun _ => h

theorem returns_bind {α β : Type} {m : LexiconM α} {f : α → LexiconM β} {P : α → Prop} {Q : β → Prop}
    (hm : Returns m P) (hf : ∀ a, P a → Returns (f a) Q) : Returns (m >>= f) Q := fun l => hf _ (hm l) _

theorem returns_true {α : Type} (m : LexiconM α) : Returns m fun _ => True := fun _ => trivial

/-! ## Assembly -/

namespace Draft

/-- The second draft has the parameters of the first and some of the arguments, in their order. -/
def Kept (d : Draft) (args : List Argument) (d' : Draft) : Prop :=
  ∃ kept, kept.Sublist (args.map Argument.slot) ∧ d'.params.map Parameter.slot = d.params.map Parameter.slot ++ kept

theorem Kept.refl (d : Draft) (args : List Argument) : d.Kept args d :=
  ⟨[], List.nil_sublist _, (List.append_nil _).symm⟩

theorem Kept.trans {d d' d'' : Draft} {arg : Argument} {args : List Argument} (h : d.Kept [arg] d')
    (h' : d'.Kept args d'') : d.Kept (arg :: args) d'' := by
  obtain ⟨kept, hsub, heq⟩ := h
  obtain ⟨kept', hsub', heq'⟩ := h'
  refine ⟨kept ++ kept', ?_, by rw [heq', heq, List.append_assoc]⟩
  rw [List.map_cons, ← List.singleton_append]
  exact hsub.append hsub'

theorem kept_push (d : Draft) (arg : Argument) (hint? : Option TypeExpr) (defaults : List Value)
    (keywordDefaults : List (String × Value)) (outputs : List (String × TypeExpr)) :
    d.Kept [arg] ⟨d.params ++ [⟨arg.name, arg.kind, hint?⟩], defaults, keywordDefaults, outputs⟩ :=
  ⟨[arg.slot], List.Sublist.refl _, by rw [List.map_append]; rfl⟩

theorem kept_addTyped {d d' : Draft} {arg : Argument} {value : Value} {default? : Option Value}
    (h : d.addTyped arg value default? = .ok d') : d.Kept [arg] d' := by
  unfold addTyped at h
  cases default? with
  | some default =>
    dsimp only at h
    split at h
    · cases h
      exact kept_push d arg _ _ _ _
    · cases h
      exact kept_push d arg _ _ _ _
  | none =>
    dsimp only at h
    split at h
    · cases h
    · cases h
      exact kept_push d arg _ _ _ _

theorem returns_add (depth : Nat) (declaring? : Option String) (d : Draft) (arg : Argument) :
    Returns (d.add depth declaring? arg) fun r => ∀ d', r = .ok d' → d.Kept [arg] d' := by
  -- variadic arguments need no type, outputs become no parameter, all others are kept with their type
  unfold add
  split
  · refine returns_pure ?_
    rintro d' ⟨⟩
    exact kept_push d arg _ _ _ _
  · refine returns_bind (returns_true _) fun value _ => ?_
    cases value with
    | output t =>
      refine returns_pure ?_
      rintro d' ⟨⟩
      exact Kept.refl d [arg]
    | type | former | arrayLike | literal | constant | sentinel | unmapped =>
      exact returns_bind (returns_true _) fun default? _ => returns_pure fun d' h => kept_addTyped h

theorem returns_addAll (depth : Nat) (declaring? : Option String) (args : List Argument) :
    ∀ d : Draft, Returns (d.addAll depth declaring? args) fun r => ∀ d', r = .ok d' → d.Kept args d' := by
  induction args with
  | nil =>
    intro d
    refine returns_pure ?_
    rintro d' ⟨⟩
    exact Kept.refl d []
  | cons arg args ih =>
    intro d
    refine returns_bind (returns_add depth declaring? d arg) fun added hadded => ?_
    cases added with
    | error e => exact returns_pure nofun
    | ok d₁ => exact fun l d' h => (hadded d₁ rfl).trans (ih d₁ l d' h)

end Draft

/-- Where a variant comes from: its name and index are the descriptor's, and its parameters are arguments of it. -/
structure ComesFrom (descriptor : Descriptor) (v : Variant) : Prop where
  name : v.shortName = descriptor.name
  index : v.index? = descriptor.index?
  params : (v.params.map Parameter.slot).Sublist (descriptor.arguments.map Argument.slot)
  order : v.params.Pairwise fun p q => p.kind.Before q.kind

/-- Leaving arguments out keeps the order of the kinds. -/
theorem pairwise_params {args : List Argument} {params : List Parameter}
    (horder : args.Pairwise fun a b => a.kind.Before b.kind)
    (hsub : (params.map Parameter.slot).Sublist (args.map Argument.slot)) :
    params.Pairwise fun p q => p.kind.Before q.kind := by
  have hargs : (args.map Argument.slot).Pairwise fun a b => a.2.Before b.2 := List.pairwise_map.2 horder
  have hparams : (params.map Parameter.slot).Pairwise fun a b => a.2.Before b.2 := hargs.sublist hsub
  rwa [List.pairwise_map] at hparams

/-- **Assembly only leaves arguments out.** -/
theorem comesFrom_of_assemble {depth : Nat} {optionalReturns : List String} {scope? : Option String}
    {descriptor : Descriptor} {l : Lexicon} {v : Variant}
    (h : (assemble depth optionalReturns scope? descriptor l).1 = .ok v) : ComesFrom descriptor v := by
  revert h
  suffices hr : Returns (assemble depth optionalReturns scope? descriptor) fun r =>
      ∀ v, r = .ok v → ComesFrom descriptor v from fun h => hr l v h
  unfold assemble
  cases hcheck : checkStructure descriptor.arguments with
  | error e => exact returns_pure nofun
  | ok u =>
    refine returns_bind (Draft.returns_addAll depth _ descriptor.arguments Draft.empty) fun added hadded => ?_
    cases added with
    | error e => exact returns_pure nofun
    | ok d =>
      refine returns_bind (returns_true _) fun natural? _ => returns_pure ?_
      rintro v ⟨⟩
      obtain ⟨kept, hsub, hparams⟩ := hadded d rfl
      have hslots : (d.params.map Parameter.slot).Sublist (descriptor.arguments.map Argument.slot) := by
        rw [hparams]
        exact hsub
      exact ⟨rfl, rfl, hslots, pairwise_params (orderly_of_checkStructure hcheck).before hslots⟩

end Variant
end CallSig
