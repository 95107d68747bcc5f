import CallSig.Lexicon.Modules
import CallSig.Proofs.Resolution.Likeness
import CallSig.Proofs.Resolution.Meaning

/-!
# `CallSig.Proofs.Resolution.Aliases` — what an alias makes of its token

Resolution asks for the shape of a token first, and for its alias only if the token is taken as a whole. Such a token
means what its target means, one hop further away. A composite token is taken apart before its alias could be found,
so the alias is as good as none.

## Contents
- **Aliased atoms.** `ofToken_of_alias`, `meaning?_of_alias`.
- **Aliased composites.** `ofToken_eq_of_isComposite`, `resolveType_eq_of_isComposite`.
- **Aliases.** `resolveType_alias`; `array_alias_ignored`, an alias that does nothing.
-/

namespace CallSig
namespace Lexicon

open Text

variable {l : Lexicon} {token target t : String} {depth : Nat} {scope? : Option String}

/-! ## Aliased atoms -/

/-- An aliased atom is resolved by asking for its target. -/
theorem ofToken_of_alias {aliases : Dict String} (ha : aliases.get? token = some target) (ht : trimmed token = token)
    (hatom : ¬IsComposite depth token) :
    Plan.ofToken aliases depth scope? token = .ask (trimmed target) Plan.keep := by
  obtain ⟨text, htext⟩ := Classical.not_forall.1 hatom
  rw [Classical.not_not] at htext
  unfold Plan.ofToken Plan.atom
  rw [htext]
  dsimp only
  rw [TypeShape.text_of_ofToken_atom htext ht, ha]

/-- **An aliased atom means what its target means**, one hop further away. -/
theorem meaning?_of_alias (hk : l.known? token = none) (ha : l.aliases.get? token = some target)
    (ht : trimmed token = token) (hatom : ¬IsComposite depth token) (hops : Nat) :
    meaning? l depth scope? (hops + 1) token = meaning? l depth scope? hops (trimmed target) := by
  rw [meaning?_succ hk, ofToken_of_alias ha ht hatom]
  exact Option.bind_fun_some _

/-! ## Aliased composites -/

/-- The alias of a composite token is in no plan. -/
theorem ofToken_eq_of_isComposite {aliases aliases' : Dict String} (hc : IsComposite depth token)
    (hsame : ∀ t, t ≠ token → aliases'.get? t = aliases.get? t) (ht : trimmed t = t) :
    Plan.ofToken aliases' depth scope? t = Plan.ofToken aliases depth scope? t := by
  unfold Plan.ofToken
  cases hs : TypeShape.ofToken depth t with
  | atom text =>
    have hne : text ≠ token := by
      rintro rfl
      obtain rfl := TypeShape.text_of_ofToken_atom hs ht
      exact hc _ hs
    dsimp only
    rw [Plan.atom, Plan.atom, hsame text hne]
  | array element length? => rfl
  | generic container args => rfl

/-- **The alias of a composite token does nothing**, whatever its target is, or if it has none: no type token has
another value. -/
theorem resolveType_eq_of_isComposite (hc : IsComposite depth token) {aliases : Dict String}
    (hsame : ∀ t, t ≠ token → aliases.get? t = l.aliases.get? t) (scope? : Option String) (t : String) :
    (resolveType depth scope? t { l with aliases }).1 = (resolveType depth scope? t l).1 := by
  have hparallel : Parallel (fun t => trimmed t = t) l { l with aliases } l { l with aliases } :=
    ⟨⟨rfl, fun _ _ => rfl⟩, .of_counted (.refl l), .of_counted (.refl _)⟩
  exact (alike_typeAt (fun _ ht => ht) (fun t ht _ => (closed_trimmed l.aliases depth t ht).2 scope?)
    (fun _ ht => ofToken_eq_of_isComposite hc hsame ht) maxHops (trimmed_trimmed t) hparallel).1

/-! ## Aliases -/

/-- **An alias resolves to what its target resolves to** if its token is taken as a whole: asked for alone, and one
after the other in either order. This is for targets with a meaning one hop below the limit, which therefore do not
lead back to the token. If the token is composite, all types are what they are without the alias. -/
theorem resolveType_alias (l : Lexicon) (depth : Nat) (scope? : Option String) {token target : String}
    (ht : trimmed token = token) (hk : l.known? token = none) (ha : l.aliases.get? token = some target)
    (hmeaning : (meaning? l depth scope? (maxHops - 1) (trimmed target)).isSome) :
    (¬IsComposite depth token →
        (resolveType depth scope? token l).1 = (resolveType depth scope? target l).1 ∧
          (resolveType depth scope? target (resolveType depth scope? token l).2).1 =
            (resolveType depth scope? token l).1 ∧
          (resolveType depth scope? token (resolveType depth scope? target l).2).1 =
            (resolveType depth scope? target l).1) ∧
      (IsComposite depth token → ∀ aliases : Dict String, (∀ t, t ≠ token → aliases.get? t = l.aliases.get? t) →
        ∀ t, (resolveType depth scope? t { l with aliases }).1 = (resolveType depth scope? t l).1) := by
  refine ⟨fun hatom => ?_, fun hc aliases hsame t => resolveType_eq_of_isComposite hc hsame scope? t⟩
  obtain ⟨value, hvalue⟩ := Option.isSome_iff_exists.1 hmeaning
  have htarget : meaning? l depth scope? maxHops (trimmed target) = some value :=
    meaning?_mono (Nat.sub_le maxHops 1) hvalue
  have htoken : meaning? l depth scope? maxHops (trimmed token) = some value := by
    rw [ht]
    exact (meaning?_of_alias hk ha ht hatom (maxHops - 1)).trans hvalue
  have hwithin : Within l depth scope? token := Option.isSome_iff_exists.2 ⟨value, htoken⟩
  have hwithin' : Within l depth scope? target := Option.isSome_iff_exists.2 ⟨value, htarget⟩
  obtain ⟨hval, hagree⟩ := resolveType_meaning hwithin (.refl depth scope? l)
  obtain ⟨hval', hagree'⟩ := resolveType_meaning hwithin' (.refl depth scope? l)
  have hsame : (resolveType depth scope? token l).1 = (resolveType depth scope? target l).1 :=
    Option.some.inj ((hval.trans (htoken.trans htarget.symm)).trans hval'.symm)
  refine ⟨hsame, ?_, ?_⟩
  · rw [resolveType_eq_of_agrees hwithin' hagree, hsame]
  · rw [resolveType_eq_of_agrees hwithin hagree', hsame]

/-- A lexicon with a chain of aliases that goes through a container. -/
def chained : Lexicon :=
  (((blank.register "List" (.former (.container .list))).register "double" (.builtin .float)).addAlias "Real"
    " double").addAlias "Reals" "List[Real[], Real]"

theorem resolveType_alias_chained :
    trimmed "Reals" = "Reals" ∧ chained.known? "Reals" = none ∧
      chained.aliases.get? "Reals" = some "List[Real[], Real]" ∧
      (meaning? chained 3 (some "core.Object") (maxHops - 1) (trimmed "List[Real[], Real]")).isSome ∧
      (resolveType 3 (some "core.Object") "Reals" chained).1 =
        (resolveType 3 (some "core.Object") "List[Real[], Real]" chained).1 := by
  have ht : trimmed "Reals" = "Reals" := by decide +kernel
  have hk : chained.known? "Reals" = none := by rfl
  have ha : chained.aliases.get? "Reals" = some "List[Real[], Real]" := by decide +kernel
  have hmeaning : (meaning? chained 3 (some "core.Object") (maxHops - 1) (trimmed "List[Real[], Real]")).isSome := by
    decide +kernel
  have hatom : ¬IsComposite 3 "Reals" := fun hc => hc "Reals" (by decide +kernel)
  exact ⟨ht, hk, ha, hmeaning, ((resolveType_alias chained 3 (some "core.Object") ht hk ha hmeaning).1 hatom).1⟩

/-- The alias of `Real[]` for `double` is not followed: the token is still an array. -/
theorem array_alias_ignored :
    let l := baseline.addAlias "Real[]" "double"
    trimmed "Real[]" = "Real[]" ∧ l.known? "Real[]" = none ∧ l.aliases.get? "Real[]" = some "double" ∧
      (meaning? l 3 none (maxHops - 1) (trimmed "double")).isSome ∧
      (resolveType 3 none "Real[]" l).1 ≠ (resolveType 3 none "double" l).1 := by
  refine ⟨by decide +kernel, ?_, by decide +kernel, by decide +kernel, fun h => ?_⟩
  · rw [← Option.isNone_iff_eq_none]
    decide +kernel
  · have hzero := congrArg Value.zeroName? h
    revert hzero
    decide +kernel

end Lexicon
end CallSig
