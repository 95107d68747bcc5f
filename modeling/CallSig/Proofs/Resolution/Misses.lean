import CallSig.Proofs.Catalog.Walk
import CallSig.Proofs.Resolution.Recursion

/-!
# `CallSig.Proofs.Resolution.Misses` — how often a token is given up on

A token is given up on only while it has no entry, and then it has one. So the misses of a token that wait to be
handed out, and one more if the token is open, form a budget that no resolution raises: noting a miss closes the
token. The one exception is a composite token that comes back to itself. It is noted on every turn.

## Contents
- **Budgets.** `missBudget`, `missBudget_settled`.
- **Resolutions.** `missBudget_atom`, `missBudget_composite`, `missBudget_typeAt`, `missBudget_whole`.
- **Runs.** `Thrifty`, `runProperty_thrifty`: assembly keeps within the budget.
-/

namespace CallSig
namespace Lexicon

open Text

variable {l l₀ : Lexicon} {s t token : String} {depth : Nat} {scope? : Option String}

/-! ## Budgets -/

/-- The misses of a token that wait to be handed out, and one more if the token has no entry. -/
def missBudget (l : Lexicon) (t : String) : Nat := l.unreported t + if l.known? t = none then 1 else 0

theorem Counted.missBudget {l' : Lexicon} (h : Counted l l') (t : String) : l'.missBudget t = l.missBudget t := by
  unfold Lexicon.missBudget
  rw [h.unreported, h.known?]

/-- Settling a token keeps within its budget if the token is open, or something was found. -/
theorem missBudget_settled {found : Option Value} (h : token = t → l.known? token = none ∨ found ≠ none)
    (reason : MissReason) : (l.settled token reason found).missBudget t ≤ l.missBudget t := by
  unfold missBudget
  rw [unreported_settled, known?_settled]
  by_cases ht : token = t
  · subst ht
    rcases h rfl with hopen | hfound
    · rw [hopen]
      by_cases hf : found = none <;> simp [hf]
    · simp [hfound]
  · simp [ht]

/-! ## Resolutions -/

/-- Resolving an open token as a whole: only one that is no alias can be given up on, and it asks for nothing. -/
theorem missBudget_atom {resolve : String → LexiconM Value} (hk : l.known? s = none)
    (hask : ∀ target, l.aliases.get? s = some target →
      (resolve (trimmed target) l).2.missBudget t ≤ l.missBudget t) (scope? : Option String) :
    ((Plan.atom l.aliases scope? s).perform resolve s l).2.missBudget t ≤ l.missBudget t := by
  unfold Plan.atom
  cases ha : l.aliases.get? s with
  | none =>
    show (settle s (Search.ofToken scope? s) .unknownToken l).2.missBudget t ≤ _
    rw [settle_eq]
    have hcounted := (Search.ofToken scope? s).counted l
    rw [← hcounted.missBudget t]
    exact missBudget_settled (fun _ => Or.inl (by rw [hcounted.known?, hk])) _
  | some target =>
    show (settle s (.always (some (resolve (trimmed target) l).1)) .unknownToken
      (resolve (trimmed target) l).2).2.missBudget t ≤ _
    rw [settle_eq]
    exact Nat.le_trans (missBudget_settled (fun _ => Or.inr (Option.some_ne_none _)) .unknownToken) (hask target ha)

/-- Resolving an open composite token, whose parts keep within the budget. -/
theorem missBudget_composite {hops : Nat} (ht : IsComposite depth t → ¬l₀.Recurs depth t) (hs : IsComposite depth s)
    (hg : Grows l₀ l) (hk : l.known? s = none)
    (hparts : ∀ p l₁, trimmed p = p → Grows l₀ l₁ →
      (typeAt depth scope? hops p l₁).2.missBudget t ≤ l₁.missBudget t) :
    ((Plan.ofToken l₀.aliases depth scope? s).perform (typeAt depth scope? hops) s l).2.missBudget t ≤
      l.missBudget t := by
  let I (l₁ : Lexicon) := Grows l₀ l₁ ∧ l₁.missBudget t ≤ l.missBudget t ∧ (s = t → l₁.known? s = none)
  -- the parts of `t` itself do not come back to it, so it is still open when it is settled
  have hask : ∀ part l₁, l₀.Leads depth s part → I l₁ → I (typeAt depth scope? hops part l₁).2 := by
    rintro part l₁ hpart ⟨hg₁, hbudget, hopen⟩
    have htrim := trimmed_of_leads hpart
    refine ⟨hg₁.trans (grows_typeAt depth scope? hops htrim l₁), Nat.le_trans (hparts part l₁ htrim hg₁) hbudget, ?_⟩
    rintro rfl
    have hframe := untouched_typeAt htrim hg₁ (not_reaches_of_not_recurs hs (ht hs) hpart) scope? hops
    exact hframe.known.trans (hopen rfl)
  obtain ⟨search, reason, l₁, ⟨-, hbudget, hopen⟩, hrun⟩ := Plan.exists_settle I (typeAt depth scope? hops) s
    (asks_leads (hg.unknown hk) scope?) hask ⟨hg, Nat.le_refl _, fun _ => hk⟩
  have hcounted := search.counted l₁
  rw [hrun, settle_eq]
  refine Nat.le_trans (missBudget_settled (fun he => Or.inl ?_) reason) ?_
  · rw [hcounted.known?, hopen he]
  · rw [hcounted.missBudget]
    exact hbudget

/-- **A resolution keeps within the budget of a token**, unless this is a composite token that comes back to
itself. -/
theorem missBudget_typeAt (ht : IsComposite depth t → ¬l₀.Recurs depth t) (hs : trimmed s = s) (hg : Grows l₀ l)
    (scope? : Option String) (hops : Nat) : (typeAt depth scope? hops s l).2.missBudget t ≤ l.missBudget t := by
  have hcounted := counted_cached l s
  induction hops generalizing l s with
  | zero =>
    rw [← hcounted.missBudget t]
    cases hk : l.known? s with
    | some v => exact Nat.le_of_eq (by rw [typeAt_hit hk])
    | none =>
      rw [typeAt_zero_miss hk]
      exact missBudget_settled (fun _ => Or.inl (by rw [hcounted.known?, hk])) _
  | succ hops ih =>
    have hg' : Grows l₀ (l.cached s).2 := hg.trans (.of_counted hcounted)
    rw [← hcounted.missBudget t]
    cases hk : l.known? s with
    | some v => exact Nat.le_of_eq (by rw [typeAt_hit hk])
    | none =>
      have hk' : (l.cached s).2.known? s = none := by rw [hcounted.known?, hk]
      rw [typeAt_succ_miss hk hs, hg.aliases]
      by_cases hcomposite : IsComposite depth s
      · exact missBudget_composite ht hcomposite hg' hk' fun p l₁ hp hg₁ => ih hp hg₁ (counted_cached l₁ p)
      · obtain ⟨text, htext⟩ := Classical.not_forall.1 hcomposite
        rw [Classical.not_not] at htext
        have hplan : Plan.ofToken l₀.aliases depth scope? s = Plan.atom (l.cached s).2.aliases scope? s := by
          unfold Plan.ofToken
          rw [htext, TypeShape.text_of_ofToken_atom htext hs, hg'.aliases]
        rw [hplan]
        exact missBudget_atom hk' (fun target _ => ih (trimmed_trimmed target) hg' (counted_cached _ _)) scope?

/-- The same for a token that is taken as a whole. -/
theorem missBudget_whole (ht : IsComposite depth t → ¬l₀.Recurs depth t) (hg : Grows l₀ l) (scope? : Option String)
    (hops : Nat) (s : String) :
    (orCached s (atom (typeAt depth scope? hops) scope? s) l).2.missBudget t ≤ l.missBudget t := by
  have hcounted := counted_cached l s
  rw [← hcounted.missBudget t]
  cases hk : l.known? s with
  | some v => exact Nat.le_of_eq (by rw [orCached_hit hk])
  | none =>
    rw [orCached_miss hk, atom_eq_perform]
    refine missBudget_atom (by rw [hcounted.known?, hk]) (fun target _ => ?_) scope?
    exact missBudget_typeAt ht (trimmed_trimmed target) (hg.trans (.of_counted hcounted)) scope? hops

/-! ## Runs -/

/-- The run only grows a lexicon that has grown out of `l₀`, and keeps within the budget of the token. -/
def Thrifty (l₀ : Lexicon) (t : String) {α : Type} (m : LexiconM α) : Prop :=
  ∀ l, Grows l₀ l → Grows l₀ (m l).2 ∧ (m l).2.missBudget t ≤ l.missBudget t

/-- Every step of a build keeps within the budget. -/
theorem runProperty_thrifty (ht : IsComposite depth t → ¬l₀.Recurs depth t) : RunProperty depth (Thrifty l₀ t) where
  pure := fun _ _ hg => ⟨hg, Nat.le_refl _⟩
  bind := fun {_ _ m _} hm hk l hg =>
    have ⟨hg₁, h₁⟩ := hm l hg
    have ⟨hg₂, h₂⟩ := hk (m l).1 (m l).2 hg₁
    ⟨hg₂, Nat.le_trans h₂ h₁⟩
  resolveType := fun scope? token l hg =>
    ⟨hg.trans (grows_resolveType depth scope? token l),
      missBudget_typeAt ht (trimmed_trimmed token) hg scope? maxHops⟩
  zero := fun b l hg =>
    have hcounted : Counted l (l.lookup (Vocabulary.zeroToken b.name)).2 := rfl
    ⟨hg.trans (.of_counted hcounted), Nat.le_of_eq (hcounted.missBudget t)⟩
  whole := fun scope? hops {token} htrim l hg =>
    ⟨hg.trans ((runProperty_grows depth).whole scope? hops htrim l),
      missBudget_whole ht hg scope? hops token⟩
  handOut := fun l hg => by
    refine ⟨hg.trans (grows_takeUnresolved l), ?_⟩
    exact Nat.add_le_add (Nat.zero_le _) (Nat.le_refl _)

end Lexicon
end CallSig
