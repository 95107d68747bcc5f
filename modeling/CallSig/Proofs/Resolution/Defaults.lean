import CallSig.Proofs.Expression
import CallSig.Proofs.Resolution.Installation
import CallSig.Proofs.Resolution.Likeness
import CallSig.Proofs.Resolution.Meaning

/-!
# `CallSig.Proofs.Resolution.Defaults` — what default tokens leave behind for type tokens

A default token without a type is resolved like a type token that is taken as a whole, whatever brackets it ends with,
and what comes out is kept under it. For an atom this is what the type token means. A composite token is no expression,
so it is given up on, and the type token of the same text then finds the placeholder.

## Contents
- **Composite tokens.** `getLast?_of_isComposite`, `value?_ofToken_of_isComposite`.
- **Default tokens.** `resolveValue_of_known`, `resolveValue_of_unknown`, `agrees_resolveValue`.
- **Transparency.** `Blocks`, `resolveType_after_resolveValue`; `blocks_array`, a default token that blocks a type.
-/

namespace CallSig
namespace Lexicon

open Text

variable {l : Lexicon} {token u t : String} {depth : Nat}

/-! ## Composite tokens -/

theorem isForeign_closer {b : Bracket} (hb : b ≠ .round) : Expression.IsForeign b.closer := by
  cases b with
  | round => exact absurd rfl hb
  | square | angle => constructor <;> decide +kernel

/-- A composite token ends with a bracket, which ends no expression. -/
theorem getLast?_of_isComposite (h : IsComposite depth token) :
    ∃ c, Expression.IsForeign c ∧ (trim token.toList).getLast? = some c := by
  unfold IsComposite at h
  rw [TypeShape.ofToken_eq_cut] at h
  cases hcut : TypeShape.cut? token with
  | none =>
    rw [hcut] at h
    exact absurd rfl (h _)
  | some found =>
    obtain ⟨head, bracket, inner⟩ := found
    obtain ⟨hround, hwhole⟩ := TypeShape.trim_of_cut? hcut
    refine ⟨bracket.closer, isForeign_closer hround, ?_⟩
    rw [hwhole, ← List.cons_append, ← List.append_assoc]
    exact List.getLast?_concat

/-- A composite token is neither a default construction nor an expression. -/
theorem value?_ofToken_of_isComposite (h : IsComposite depth token) (ht : trimmed token = token)
    (definitions : Dict Value) : (Search.ofToken none token).value? definitions = none := by
  obtain ⟨c, hforeign, hlast⟩ := getLast?_of_isComposite h
  have hconstructed : defaultConstructed? token = none := by
    have htext : trim token.toList = token.toList := by
      rw [← String.toList_ofList (l := trim token.toList)]
      exact congrArg String.toList ht
    rw [htext, ← List.head?_reverse] at hlast
    unfold defaultConstructed?
    split
    · next heq =>
      rw [heq] at hlast
      exact absurd (Option.some.inj hlast).symm (hforeign.ne (by decide))
    · rfl
  show ((Search.expression token).value? definitions).or none = none
  unfold Search.expression
  dsimp only
  rw [hconstructed, Option.or_none]
  exact Expression.evaluate_eq_none hforeign hlast definitions

/-! ## Default tokens -/

theorem resolveValue_of_known {v : Value} (h : l.known? (trimmed u) = some v) :
    resolveValue depth none u l = (v, (l.cached (trimmed u)).2) := orCached_hit h _

/-- A default token without a type and without an entry is settled by one search. -/
theorem resolveValue_of_unknown (hno : ∀ t, l.aliases.get? t = none) (h : l.known? (trimmed u) = none) :
    resolveValue depth none u l =
      settle (trimmed u) (Search.ofToken none (trimmed u)) .unknownToken (l.cached (trimmed u)).2 := by
  have hplan : Plan.atom (l.cached (trimmed u)).2.aliases none (trimmed u) =
      .finish (.ofToken none (trimmed u)) .unknownToken := by
    unfold Plan.atom
    rw [(counted_cached l _).aliases, hno]
  show orCached (trimmed u) (atom (typeAt depth none (maxHops - 1)) none (trimmed u)) l = _
  rw [orCached_miss h, atom_eq_perform, hplan]
  rfl

/-- Without aliases, the meaning of an atom is what one search finds. -/
theorem meaning?_of_atom (hno : ∀ t, l.aliases.get? t = none) (h : l.known? token = none) (ht : trimmed token = token)
    (hatom : ¬IsComposite depth token) (hops : Nat) :
    meaning? l depth none (hops + 1) token =
      some (((Search.ofToken none token).value? l.definitions).getD (.unmapped token)) := by
  obtain ⟨text, htext⟩ := Classical.not_forall.1 hatom
  rw [Classical.not_not] at htext
  have hplan : Plan.ofToken l.aliases depth none token = .finish (.ofToken none token) .unknownToken := by
    unfold Plan.ofToken Plan.atom
    rw [htext]
    dsimp only
    rw [TypeShape.text_of_ofToken_atom htext ht, hno]
  rw [meaning?_succ h, hplan]
  rfl

/-- The default token is given up on, but a type token of the same text is taken apart and has another value. -/
def Blocks (l : Lexicon) (depth : Nat) (u : String) : Prop :=
  l.known? (trimmed u) = none ∧ IsComposite depth (trimmed u) ∧
    (resolveType depth none u l).1 ≠ .unmapped (trimmed u)

/-- What a default token leaves behind is what type tokens mean, unless it blocks one. -/
theorem agrees_resolveValue (hno : ∀ t, l.aliases.get? t = none)
    (hblocks : ¬(l.Blocks depth u ∧ Within l depth none u)) :
    Agrees depth none l (resolveValue depth none u l).2 := by
  have ht := trimmed_trimmed u
  have hcounted : Agrees depth none l (l.cached (trimmed u)).2 :=
    (Agrees.refl depth none l).counted (counted_cached l (trimmed u))
  cases hk : l.known? (trimmed u) with
  | some v =>
    rw [resolveValue_of_known hk]
    exact hcounted
  | none =>
    have hdefinitions := (counted_cached l (trimmed u)).definitions
    rw [resolveValue_of_unknown hno hk, settle_eq, hdefinitions]
    have hsearched := hcounted.counted (Search.counted (Search.ofToken none (trimmed u)) (l.cached (trimmed u)).2)
    dsimp only
    apply hsearched.settled_of
    intro w hw
    by_cases hc : IsComposite depth (trimmed u)
    · -- the token has a meaning, and it is the placeholder since the token blocks nothing
      rw [value?_ofToken_of_isComposite hc ht]
      have hwithin : Within l depth none u := Option.isSome_iff_exists.2 ⟨w, hw⟩
      have hvalue := (resolveType_meaning hwithin (.refl depth none l)).1
      rw [hw] at hvalue
      rw [← Option.some.inj hvalue]
      exact Classical.not_not.1 fun hne => hblocks ⟨⟨hk, hc, Ne.symm hne⟩, hwithin⟩
    · exact Option.some.inj ((meaning?_of_atom hno hk ht hc (maxHops - 1)).symm.trans hw)

/-! ## Transparency -/

theorem known?_resolveValue_of_ne (hno : ∀ t, l.aliases.get? t = none) (hne : t ≠ trimmed u) :
    (resolveValue depth none u l).2.known? t = l.known? t := by
  cases hk : l.known? (trimmed u) with
  | some v => rw [resolveValue_of_known hk, (counted_cached l _).known?]
  | none =>
    rw [resolveValue_of_unknown hno hk, settle_eq, known?_settled, if_neg (Ne.symm hne),
      (Search.counted _ _).known?, (counted_cached l _).known?]

theorem grows_resolveValue (depth : Nat) (u : String) (l : Lexicon) : Grows l (resolveValue depth none u l).2 :=
  (evolution_grows fun t => trimmed t = t).whole (closed_trimmed _ _) trimmed_trimmed none (maxHops - 1)
    (trimmed_trimmed u)

/-- **Resolving a default does not disturb types**, if and only if it does not give up on a composite token that has a
value as a type. This is about all types whose recursion stays within the hops, and about all others that cannot come
to the default token. -/
theorem resolveType_after_resolveValue (l : Lexicon) (hno : ∀ t, l.aliases.get? t = none) (depth : Nat) (u : String) :
    (∀ t, Within l depth none t ∨ ¬l.Reaches depth (trimmed t) (trimmed u) →
        (resolveType depth none t (resolveValue depth none u l).2).1 = (resolveType depth none t l).1) ↔
      ¬(l.Blocks depth u ∧ Within l depth none u) := by
  constructor
  · rintro hsame ⟨⟨hk, hc, hvalue⟩, hwithin⟩
    have hentry : (resolveValue depth none u l).2.known? (trimmed u) = some (.unmapped (trimmed u)) := by
      rw [resolveValue_of_unknown hno hk, settle_eq, known?_settled, if_pos rfl, (Search.counted _ _).known?,
        (counted_cached l _).known?, hk, value?_ofToken_of_isComposite hc (trimmed_trimmed u)]
      rfl
    apply hvalue
    rw [← hsame u (Or.inl hwithin)]
    exact congrArg Prod.fst (typeAt_hit hentry depth none maxHops)
  · rintro hblocks t (hwithin | hreach)
    · exact resolveType_eq_of_agrees hwithin (agrees_resolveValue hno hblocks)
    · exact resolveType_eq_of_not_reaches (grows_resolveValue depth u l)
        (fun t hne => known?_resolveValue_of_ne hno hne) hreach

/-- A lexicon with one container, in which a class is defined. -/
def listsOfFoo : Lexicon :=
  (blank.register "List" (.former (.container .list))).define "core.Foo" (.type (.ofPath "core.Foo"))

theorem resolveType_after_resolveValue_foo :
    (∀ t, listsOfFoo.aliases.get? t = none) ∧
      ∀ t, Within listsOfFoo 3 none t ∨ ¬listsOfFoo.Reaches 3 (trimmed t) (trimmed " core.Foo") →
        (resolveType 3 none t (resolveValue 3 none " core.Foo" listsOfFoo).2).1 =
          (resolveType 3 none t listsOfFoo).1 := by
  have hno : ∀ t, listsOfFoo.aliases.get? t = none := fun _ => rfl
  have hatom : ¬IsComposite 3 (trimmed " core.Foo") := fun hc => hc "core.Foo" (by decide +kernel)
  exact ⟨hno, (resolveType_after_resolveValue listsOfFoo hno 3 " core.Foo").2 fun h => hatom h.1.2.1⟩

/-- The default token `int[]` is given up on, and then the type `int[]` is not an array any more. -/
theorem blocks_array :
    (∀ t, baseline.aliases.get? t = none) ∧
      (resolveType 3 none "int[]" (resolveValue 3 none "int[]" baseline).2).1 ≠
        (resolveType 3 none "int[]" baseline).1 := by
  refine ⟨get?_aliases_baseline, fun h => ?_⟩
  have hunmapped := congrArg Value.isUnmapped h
  revert hunmapped
  decide +kernel

end Lexicon
end CallSig
