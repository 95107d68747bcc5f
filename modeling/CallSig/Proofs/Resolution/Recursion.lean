import CallSig.Proofs.Resolution.Evolution
import Mathlib.Logic.Relation

/-!
# `CallSig.Proofs.Resolution.Recursion` — which tokens a resolution can come to

Resolving a token without an entry asks for its parts, or for the target of its alias, and these ask for others.
Aliases can lead back to a token that is still being resolved. What a resolution cannot come to, it leaves alone; so
a token that its own parts do not lead back to is still open when it is settled.

## Contents
- **Steps.** `asksFor`, `Leads`, `Reaches`, `IsComposite`, `Recurs` (a token comes back through a composite one).
- **Plans.** `asks_leads`, `Plan.exists_settle`: performing a plan is asking first and settling last.
- **Frames.** `unreported`, `Untouched`, `untouched_typeAt`.
- **Coming back.** `not_recurs_of_not_asked`, `not_reaches_of_not_recurs`.
-/

namespace CallSig
namespace Lexicon

open Text

variable {l l₀ : Lexicon} {s t p token : String} {depth : Nat} {scope? : Option String}

/-! ## Steps -/

/-- The tokens that resolving a token may ask for: none if it has an entry, else its parts or the target of its
alias. -/
def asksFor (l : Lexicon) (depth : Nat) (token : String) : List String :=
  if (l.known? token).isSome then []
  else match TypeShape.ofToken depth token with
    | .atom text => ((l.aliases.get? text).map trimmed).toList
    | shape => shape.parts

/-- Resolving the first token may ask for the second. -/
def Leads (l : Lexicon) (depth : Nat) (s p : String) : Prop := p ∈ l.asksFor depth s

/-- Resolving the first token may come to the second, or they are the same. -/
def Reaches (l : Lexicon) (depth : Nat) : String → String → Prop := Relation.ReflTransGen (l.Leads depth)

/-- The token is taken apart when it is resolved. -/
def IsComposite (depth : Nat) (token : String) : Prop := ∀ text, TypeShape.ofToken depth token ≠ .atom text

/-- Resolving the token may come back to it by way of a composite token. -/
def Recurs (l : Lexicon) (depth : Nat) (t : String) : Prop :=
  ∃ c, IsComposite depth c ∧ l.Reaches depth t c ∧ Relation.TransGen (l.Leads depth) c t

theorem trimmed_of_leads (h : l.Leads depth s p) : trimmed p = p := by
  unfold Leads asksFor at h
  split at h
  · cases h
  · split at h
    · obtain ⟨target, -, rfl⟩ := Option.map_eq_some_iff.1 (Option.mem_toList.1 h)
      exact trimmed_trimmed target
    · exact (TypeShape.mem_parts_ofToken h).1

theorem ne_of_not_reaches (h : ¬l.Reaches depth s t) : s ≠ t := by
  rintro rfl
  exact h .refl

/-- An atom leads to at most one token. -/
theorem eq_of_leads_of_not_composite {p' : String} (hs : ¬IsComposite depth s) (h : l.Leads depth s p)
    (h' : l.Leads depth s p') : p = p' := by
  obtain ⟨text, hs⟩ := Classical.not_forall.1 hs
  rw [Classical.not_not] at hs
  unfold Leads asksFor at h h'
  split at h
  · cases h
  · next hk =>
    rw [if_neg hk] at h'
    rw [hs] at h h'
    exact Option.some.inj ((Option.mem_toList.1 h).symm.trans (Option.mem_toList.1 h'))

/-! ## Plans -/

/-- The plan of a token asks for what the token leads to. -/
theorem asks_leads (hn : l.known? token = none) (scope? : Option String) :
    (Plan.ofToken l.aliases depth scope? token).Asks (l.Leads depth token) := by
  have hasks : l.asksFor depth token = match TypeShape.ofToken depth token with
      | .atom text => ((l.aliases.get? text).map trimmed).toList
      | shape => shape.parts := by
    unfold asksFor
    rw [hn]
    rfl
  unfold Leads Plan.ofToken
  rw [hasks]
  cases TypeShape.ofToken depth token with
  | atom text =>
    refine Plan.asks_atom fun target ht => ?_
    show trimmed target ∈ ((l.aliases.get? text).map trimmed).toList
    rw [ht]
    exact List.mem_singleton_self _
  | array element length? => exact ⟨List.mem_singleton_self element, fun _ => trivial⟩
  | generic container args =>
    refine ⟨List.mem_cons_self, Plan.asks_ofFormer fun a ha => ?_⟩
    exact List.mem_cons_of_mem _ (List.mem_map_of_mem ha)

/-- **Performing a plan is asking first and settling last**: what asking keeps holds when the token is settled. -/
theorem Plan.exists_settle (I : Lexicon → Prop) (resolve : String → LexiconM Value) (token : String)
    {T : String → Prop} {plan : Plan} (hp : plan.Asks T) (hask : ∀ part l₁, T part → I l₁ → I (resolve part l₁).2)
    (h : I l) :
    ∃ search reason l₁, I l₁ ∧ plan.perform resolve token l = settle token search reason l₁ := by
  induction plan generalizing l with
  | finish search reason => exact ⟨search, reason, l, h, rfl⟩
  | ask part next ih => exact ih _ (hp.2 _) (hask part l hp.1 h)

/-! ## Frames -/

/-- How many misses of a token wait to be handed out. -/
def unreported (l : Lexicon) (t : String) : Nat := l.unresolved.countP fun miss => miss.token = t

theorem Counted.unreported {l' : Lexicon} (h : Counted l l') (t : String) : l'.unreported t = l.unreported t := by
  rw [h]
  rfl

theorem unresolved_memoize (l : Lexicon) (token : String) (v : Value) :
    (l.memoize token v).unresolved = l.unresolved := by
  obtain ⟨tokens, retry, stats, hm⟩ := memoize_eq l token v
  rw [hm]

/-- Settling a token adds a miss of it if nothing was found. -/
theorem unreported_settled (l : Lexicon) (token : String) (reason : MissReason) (found : Option Value) (t : String) :
    (l.settled token reason found).unreported t = l.unreported t + if token = t ∧ found = none then 1 else 0 := by
  unfold unreported
  cases found with
  | some value =>
    show List.countP _ (l.memoize token value).unresolved = _
    rw [unresolved_memoize]
    simp
  | none =>
    show List.countP _ ((l.recordMiss ⟨token, reason⟩).memoize token (.unmapped token)).unresolved = _
    rw [unresolved_memoize]
    show List.countP _ (l.unresolved ++ [⟨token, reason⟩]) = _
    rw [List.countP_append, List.countP_singleton]
    simp

/-- The second lexicon has the entry of the token that the first one has, and as many misses of it wait. -/
structure Untouched (t : String) (l l' : Lexicon) : Prop where
  known : l'.known? t = l.known? t
  unreported : l'.unreported t = l.unreported t

namespace Untouched

variable {l' l'' : Lexicon}

theorem trans (h : Untouched t l l') (h' : Untouched t l' l'') : Untouched t l l'' :=
  ⟨h'.known.trans h.known, h'.unreported.trans h.unreported⟩

theorem of_counted (h : Counted l l') : Untouched t l l' := ⟨by rw [h.known?], h.unreported t⟩

/-- Settling another token. -/
theorem settled (h : Untouched t l l') (hne : token ≠ t) (reason : MissReason) (found : Option Value) :
    Untouched t l (l'.settled token reason found) where
  known := by
    rw [known?_settled, if_neg hne]
    exact h.known
  unreported := by
    rw [unreported_settled, if_neg fun he => hne he.1]
    exact h.unreported

end Untouched

/-- A token without an entry had none before. -/
theorem Grows.unknown {l' : Lexicon} (h : Grows l l') (hn : l'.known? t = none) : l.known? t = none := by
  cases hk : l.known? t with
  | none => rfl
  | some v =>
    rw [h.kept hk] at hn
    cases hn

/-- **A resolution leaves alone what it cannot come to.** -/
theorem untouched_typeAt (hs : trimmed s = s) (hg : Grows l₀ l) (hr : ¬l₀.Reaches depth s t)
    (scope? : Option String) (hops : Nat) : Untouched t l (typeAt depth scope? hops s l).2 := by
  induction hops generalizing l s with
  | zero =>
    cases hk : l.known? s with
    | some v =>
      rw [typeAt_hit hk]
      exact .of_counted (counted_cached l s)
    | none =>
      rw [typeAt_zero_miss hk]
      exact (Untouched.of_counted (counted_cached l s)).settled (ne_of_not_reaches hr) .tooDeep none
  | succ hops ih =>
    cases hk : l.known? s with
    | some v =>
      rw [typeAt_hit hk]
      exact .of_counted (counted_cached l s)
    | none =>
      -- the parts are asked one after the other, each over what the others have added
      have hask : ∀ part l₁, l₀.Leads depth s part → Grows l₀ l₁ ∧ Untouched t l l₁ →
          Grows l₀ (typeAt depth scope? hops part l₁).2 ∧ Untouched t l (typeAt depth scope? hops part l₁).2 := by
        rintro part l₁ hpart ⟨hg₁, h₁⟩
        have htrim := trimmed_of_leads hpart
        refine ⟨hg₁.trans (grows_typeAt depth scope? hops htrim l₁), h₁.trans (ih htrim hg₁ fun hreach => ?_)⟩
        exact hr (.head hpart hreach)
      rw [typeAt_succ_miss hk hs, hg.aliases]
      obtain ⟨search, reason, l₁, ⟨-, h₁⟩, hrun⟩ := Plan.exists_settle _ (typeAt depth scope? hops) s
        (asks_leads (hg.unknown hk) scope?) hask
        ⟨hg.trans (.of_counted (counted_cached l s)), .of_counted (counted_cached l s)⟩
      rw [hrun, settle_eq]
      exact (h₁.trans (.of_counted (search.counted l₁))).settled (ne_of_not_reaches hr) reason _

/-! ## Coming back -/

/-- A token that no token on its way asks for does not recur. -/
theorem not_recurs_of_not_asked (tokens : List String) (ht : t ∈ tokens)
    (hclosed : ∀ s ∈ tokens, ∀ p ∈ l.asksFor depth s, p ∈ tokens ∧ p ≠ t) : ¬l.Recurs depth t := by
  rintro ⟨c, -, hreach, hback⟩
  have hmem {s : String} (h : l.Reaches depth t s) : s ∈ tokens := by
    induction h with
    | refl => exact ht
    | tail _ hstep ih => exact (hclosed _ ih _ hstep).1
  obtain ⟨last, hlast, hstep⟩ := Relation.TransGen.tail'_iff.1 hback
  exact (hclosed last (hmem (hreach.trans hlast)) t hstep).2 rfl

/-- The parts of a composite token that does not recur do not lead back to it. -/
theorem not_reaches_of_not_recurs (ht : IsComposite depth t) (hr : ¬l.Recurs depth t) (hp : l.Leads depth t p) :
    ¬l.Reaches depth p t := fun hback => hr ⟨t, ht, .refl, .head' hp hback⟩

end Lexicon
end CallSig
