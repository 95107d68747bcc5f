import CallSig.Proofs.Catalog.Walk

/-!
# `CallSig.Proofs.Catalog.Independence` — one owner's questions and another owner's answers

All owners of a catalog share one lexicon, and a token keeps the value of the scope it is first met in. Building
one owner can therefore change the signatures of another one. It cannot if the two builds are compatible: a token
that both resolve, because it has no entry or one that is marked to be resolved again, gets one value, the parts that
lead to it included.

## Contents
- **Blocks.** `follows_readBlock`, `shadows_build`.
- **Owners.** `signature_independent`.
- **A shared name.** `signature_depends`: owners with classes of one name do see each other.
-/

namespace CallSig

open Lexicon

variable {start first second : Lexicon}

/-! ## Blocks -/

namespace Catalog

/-- Reading a block gives the same members over a lexicon and over its shadow. -/
theorem follows_readBlock {settings : Settings} (hno : ∀ t, start.aliases.get? t = none)
    (hc : Compatible settings.bracketDepth start first second) (owner : String) (members : Dict (List Variant))
    (lines : List String) : Follows start first second (readBlock settings owner members lines) :=
  (runProperty_follows hno hc).readBlock owner members lines

variable {c : Catalog} {a b : String}

/-- What building one owner leaves shadows the lexicon it started from. -/
theorem shadows_build (hno : ∀ t, c.lexicon.aliases.get? t = none)
    (hc : Compatible c.settings.bracketDepth c.lexicon (c.build a).lexicon second) :
    Shadows c.lexicon (c.build a).lexicon c.lexicon (c.build a).lexicon := by
  have hgrows : Grows c.lexicon (c.build a).lexicon := by
    cases hs : c.stale.contains a with
    | false =>
      rw [build_of_fresh hs]
      exact .of_counted (.refl c.lexicon)
    | true =>
      rw [(build_of_stale hs).1]
      exact (follows_readBlock hno hc a _ _).grows c.lexicon
  exact ⟨hgrows.definitions, hgrows.aliases, rfl, fun _ _ hk => hk, hgrows.keeps, fun _ _ hk => hk, Or.inr,
    fun builtin => (hc.zeros builtin).symm⟩

/-! ## Owners -/

/-- **Owners whose builds are compatible are independent**: questions about the one do not change the signatures
of the other. -/
theorem signature_independent (hab : a ≠ b) (hno : ∀ t, c.lexicon.aliases.get? t = none)
    (hc : Compatible c.settings.bracketDepth c.lexicon (c.build a).lexicon (c.build b).lexicon)
    (queries : List (String × Binding × Layout)) (member : String) (binding : Binding) (layout : Layout) :
    ((c.queried a queries).signature b member binding layout).1 = (c.signature b member binding layout).1 := by
  -- building `a` first is a run over the shadow of the lexicon that `b` starts from
  have hbuilt : ((c.build a).build b).builtMembers b = (c.build b).builtMembers b := by
    cases hb : c.stale.contains b with
    | false =>
      rw [build_of_fresh hb, build_of_fresh ((contains_stale_build hab).trans hb), builtMembers_build_of_ne hab]
    | true =>
      obtain ⟨hlexicon, hvariants, _⟩ := build_of_stale hb
      obtain ⟨_, hvariants', _⟩ := build_of_stale ((contains_stale_build hab).trans hb)
      have hsame :=
        (follows_readBlock hno hc b (c.builtMembers b) ((c.blocks.get? b).getD [])).same (shadows_build hno hc)
        (by rw [hlexicon]; exact fun _ _ hk => hk)
      rw [hvariants, hvariants', settings_build, blocks_build, builtMembers_build_of_ne hab, hsame.1]
  rw [queried_eq]
  split
  · rfl
  · unfold signature variants
    dsimp only
    rw [hbuilt]

/-- Two owners over a class of the one, a class of the other, and one that both may name. -/
def twoOwners (aText bText : String) : Catalog :=
  let l := ["a.A.Kind", "b.B.Kind", "core.Foo"].foldl (fun l path => l.define path (.type (.ofPath path))) .blank
  ((create l .standard).addDescriptors "a.A" aText).addDescriptors "b.B" bText

theorem twoOwners_noAliases (aText bText t : String) : (twoOwners aText bText).lexicon.aliases.get? t = none := rfl

theorem signature_independent_twoOwners :
    let c := twoOwners "f(x:Kind)" "g(x:core.Foo)"
    "a.A" ≠ "b.B" ∧ (∀ t, c.lexicon.aliases.get? t = none) ∧
      Compatible c.settings.bracketDepth c.lexicon (c.build "a.A").lexicon (c.build "b.B").lexicon ∧
      ((c.queried "a.A" [("f", .function, .full)]).signature "b.B" "g" .function .full).1 =
        (c.signature "b.B" "g" .function .full).1 := by
  have hno := twoOwners_noAliases "f(x:Kind)" "g(x:core.Foo)"
  have ha : ((twoOwners "f(x:Kind)" "g(x:core.Foo)").build "a.A").lexicon.tokens.keys = ["Kind"] := by decide +kernel
  have hb : ((twoOwners "f(x:Kind)" "g(x:core.Foo)").build "b.B").lexicon.tokens.keys = ["core.Foo"] := by
    decide +kernel
  have hc : Compatible 3 (twoOwners "f(x:Kind)" "g(x:core.Foo)").lexicon
      ((twoOwners "f(x:Kind)" "g(x:core.Foo)").build "a.A").lexicon
      ((twoOwners "f(x:Kind)" "g(x:core.Foo)").build "b.B").lexicon := by
    refine compatible_of_disjoint ?_ ?_
    · rw [ha, hb]
      intro t ht _
      rw [List.mem_singleton.1 ht]
      decide
    · intro builtin
      refine Option.eq_none_iff_forall_ne_some.2 fun v hz => ?_
      have hkey := Dict.mem_keys_of_get? hz
      rw [ha] at hkey
      exact absurd hkey (by cases builtin <;> decide)
  exact ⟨by decide, hno, hc, signature_independent (by decide) hno hc _ _ _ _⟩

/-! ## A shared name -/

/-- A bare name that both owners use means the class of the owner that is asked first. -/
theorem signature_depends :
    let c := twoOwners "f(x:Kind)" "g(x:Kind)"
    (∀ t, c.lexicon.aliases.get? t = none) ∧
      ((c.queried "a.A" [("f", .function, .full)]).signature "b.B" "g" .function .full).1 ≠
        (c.signature "b.B" "g" .function .full).1 := by
  refine ⟨twoOwners_noAliases _ _, ?_⟩
  intro h
  have htext := congrArg (Option.map SignatureSet.text) h
  revert htext
  decide +kernel

end Catalog
end CallSig
