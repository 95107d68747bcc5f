import CallSig.Proofs.Resolution.Recursion

/-!
# `CallSig.Proofs.Resolution.Likeness` — what a resolution does not depend on

A resolution reads the entries of the tokens it can come to, the plans of these tokens and the host objects, and
nothing else. Two lexicons that are alike in this give the same answers, and are alike again afterwards.

## Contents
- **Likeness.** `AlikeOn`: two lexicons have the same host objects, and the same entries for tokens with a property.
- **Runs.** `Parallel` (two lexicons grown from two others, and alike), `alike_perform`, `alike_typeAt`.
- **Out of reach.** `resolveType_eq_of_not_reaches`: an entry that a token cannot come to does not matter.
-/

namespace CallSig
namespace Lexicon

open Text

variable {l l' l₀ l₀' : Lexicon} {T : String → Prop} {token : String} {depth : Nat} {scope? : Option String}

/-! ## Likeness -/

/-- Two lexicons with the same host objects, and the same entries for the tokens that have the property. -/
structure AlikeOn (T : String → Prop) (l l' : Lexicon) : Prop where
  definitions : l'.definitions = l.definitions
  known : ∀ t, T t → l'.known? t = l.known? t

namespace AlikeOn

theorem counted {k k' : Lexicon} (h : AlikeOn T l l') (hc : Counted l k) (hc' : Counted l' k') : AlikeOn T k k' where
  definitions := by rw [hc.definitions, hc'.definitions, h.definitions]
  known := fun t ht => by rw [hc.known?, hc'.known?, h.known t ht]

/-- Settling a token in both with the same outcome. -/
theorem settled (h : AlikeOn T l l') (token : String) (reason : MissReason) (found : Option Value) :
    AlikeOn T (l.settled token reason found) (l'.settled token reason found) where
  definitions := by rw [definitions_settled, definitions_settled, h.definitions]
  known := by
    intro t ht
    rw [known?_settled, known?_settled, h.known t ht]
    split
    · next he => rw [h.known token (he ▸ ht)]
    · rfl

end AlikeOn

/-! ## Runs -/

/-- Two lexicons that have grown out of two others, and are alike. -/
structure Parallel (T : String → Prop) (l₀ l₀' l l' : Lexicon) : Prop extends AlikeOn T l l' where
  grows : Grows l₀ l
  grows' : Grows l₀' l'

/-- Performing one plan over both: the same value, and likeness is kept. -/
theorem alike_perform {resolve : String → LexiconM Value} {plan : Plan} (hp : plan.Asks T)
    (hr : ∀ part l l', T part → Parallel T l₀ l₀' l l' →
      (resolve part l').1 = (resolve part l).1 ∧ Parallel T l₀ l₀' (resolve part l).2 (resolve part l').2)
    (h : Parallel T l₀ l₀' l l') :
    (plan.perform resolve token l').1 = (plan.perform resolve token l).1 ∧
      AlikeOn T (plan.perform resolve token l).2 (plan.perform resolve token l').2 := by
  induction plan generalizing l l' with
  | finish search reason =>
    show (settle token search reason l').1 = (settle token search reason l).1 ∧
      AlikeOn T (settle token search reason l).2 (settle token search reason l').2
    rw [settle_eq, settle_eq, h.definitions]
    exact ⟨rfl, (h.toAlikeOn.counted (search.counted l) (search.counted l')).settled token reason _⟩
  | ask part next ih =>
    obtain ⟨hvalue, hpart⟩ := hr part l l' hp.1 h
    show ((next (resolve part l').1).perform resolve token (resolve part l').2).1 =
        ((next (resolve part l).1).perform resolve token (resolve part l).2).1 ∧
      AlikeOn T ((next (resolve part l).1).perform resolve token (resolve part l).2).2
        ((next (resolve part l').1).perform resolve token (resolve part l').2).2
    rw [hvalue]
    exact ih _ (hp.2 _) hpart

/-- **Likeness is kept by resolution, and gives the same answers**, if the tokens with the property have the same plans
in both lexicons and ask for tokens with the property only. -/
theorem alike_typeAt (htrim : ∀ t, T t → trimmed t = t)
    (hasks : ∀ t, T t → l₀.known? t = none → (Plan.ofToken l₀.aliases depth scope? t).Asks T)
    (hplans : ∀ t, T t → Plan.ofToken l₀'.aliases depth scope? t = Plan.ofToken l₀.aliases depth scope? t)
    (hops : Nat) (ht : T token) (h : Parallel T l₀ l₀' l l') :
    (typeAt depth scope? hops token l').1 = (typeAt depth scope? hops token l).1 ∧
      AlikeOn T (typeAt depth scope? hops token l).2 (typeAt depth scope? hops token l').2 := by
  induction hops generalizing l l' token with
  | zero =>
    have hcounted := h.toAlikeOn.counted (counted_cached l token) (counted_cached l' token)
    cases hk : l.known? token with
    | some v =>
      rw [typeAt_hit hk, typeAt_hit ((h.known token ht).trans hk)]
      exact ⟨rfl, hcounted⟩
    | none =>
      rw [typeAt_zero_miss hk, typeAt_zero_miss ((h.known token ht).trans hk)]
      exact ⟨rfl, hcounted.settled token .tooDeep none⟩
  | succ hops ih =>
    have hcounted := h.toAlikeOn.counted (counted_cached l token) (counted_cached l' token)
    cases hk : l.known? token with
    | some v =>
      rw [typeAt_hit hk, typeAt_hit ((h.known token ht).trans hk)]
      exact ⟨rfl, hcounted⟩
    | none =>
      -- one plan is performed over both, and it asks for tokens with the property
      rw [typeAt_succ_miss hk (htrim token ht), typeAt_succ_miss ((h.known token ht).trans hk) (htrim token ht),
        h.grows.aliases, h.grows'.aliases, hplans token ht]
      refine alike_perform (hasks token ht (h.grows.unknown hk)) (fun part l l' hpart h => ?_)
        ⟨hcounted, h.grows.trans (.of_counted (counted_cached l token)),
          h.grows'.trans (.of_counted (counted_cached l' token))⟩
      obtain ⟨hvalue, halike⟩ := ih hpart h
      exact ⟨hvalue, halike, h.grows.trans (grows_typeAt depth scope? hops (htrim part hpart) l),
        h.grows'.trans (grows_typeAt depth scope? hops (htrim part hpart) l')⟩

/-! ## Out of reach -/

/-- The tokens that cannot come to `u`. -/
def Avoids (l : Lexicon) (depth : Nat) (u t : String) : Prop := trimmed t = t ∧ ¬l.Reaches depth t u

/-- **An entry that a token cannot come to does not matter** to the token. -/
theorem resolveType_eq_of_not_reaches {u : String} (hgrows : Grows l l')
    (hknown : ∀ t, t ≠ u → l'.known? t = l.known? t) (hr : ¬l.Reaches depth (trimmed token) u) :
    (resolveType depth scope? token l').1 = (resolveType depth scope? token l).1 := by
  have hasks : ∀ t, l.Avoids depth u t → l.known? t = none →
      (Plan.ofToken l.aliases depth scope? t).Asks (l.Avoids depth u) := fun t ht hn =>
    (asks_leads hn scope?).mono fun p hp => ⟨trimmed_of_leads hp, fun hreach => ht.2 (.head hp hreach)⟩
  have hparallel : Parallel (l.Avoids depth u) l l' l l' :=
    ⟨⟨hgrows.definitions, fun t ht => hknown t (ne_of_not_reaches ht.2)⟩, .of_counted (.refl l), .of_counted (.refl l')⟩
  exact (alike_typeAt (fun t ht => ht.1) hasks (fun t _ => by rw [hgrows.aliases]) maxHops
    ⟨trimmed_trimmed token, hr⟩ hparallel).1

end Lexicon
end CallSig
