import CallSig.Proofs.Resolution.Plan

/-!
# `CallSig.Proofs.Resolution.Evolution` — what a resolution leaves true

A resolution changes the lexicon by counting and by settling tokens that had no entry when they were met. A
transitive relation that survives these two kinds of steps therefore relates the lexicon before any resolution
to the lexicon after it. The induction over hops and plans is made here once.

## Contents
- **Evolutions.** `Evolution`, `Closed` (sets of tokens that resolution does not leave).
- **Runs.** `Evolution.perform`, `Evolution.typeAt`, `Evolution.whole`.
- **Closed sets.** `closed_trimmed`, `closed_shorter`.
- **Growth.** `Grows`, `evolution_grows`, `grows_typeAt`: entries are only added, and only tokens without an
  entry are given up on.
-/

namespace CallSig
namespace Lexicon

open Text

variable {l l' : Lexicon} {token : String} {depth : Nat} {scope? : Option String}

/-! ## Evolutions -/

/-- A relation between the lexicon before and after resolving tokens that have a property. -/
structure Evolution (T : String → Prop) (R : Lexicon → Lexicon → Prop) : Prop where
  trans : ∀ {l l' l''}, R l l' → R l' l'' → R l l''
  counted : ∀ {l l'}, Counted l l' → R l l'
  aliases : ∀ {l l'}, R l l' → l'.aliases = l.aliases
  settled : ∀ {l l' token}, T token → l.known? token = none → R l l' →
    ∀ reason found, R l (l'.settled token reason found)

/-- Resolving a token that has the property asks for such tokens only. -/
def Closed (aliases : Dict String) (depth : Nat) (T : String → Prop) : Prop :=
  ∀ token, T token → trimmed token = token ∧ ∀ scope?, (Plan.ofToken aliases depth scope? token).Asks T

/-! ## Runs -/

namespace Evolution

variable {T : String → Prop} {R : Lexicon → Lexicon → Prop}

theorem perform (h : Evolution T R) {resolve : String → LexiconM Value} {plan : Plan}
    (hr : ∀ part l₁, T part → R l l₁ → R l₁ (resolve part l₁).2) (hp : plan.Asks T) (ht : T token)
    (hn : l.known? token = none) (hl : R l l') : R l (plan.perform resolve token l').2 := by
  -- `hn` is about the lexicon before the plan: the parts may have added anything since
  induction plan generalizing l' with
  | finish search reason =>
    show R l (settle token search reason l').2
    rw [settle_eq]
    exact h.settled ht hn (h.trans hl (h.counted (search.counted l'))) _ _
  | ask part next ih =>
    obtain ⟨hpart, hnext⟩ := hp
    show R l ((next (resolve part l').1).perform resolve token (resolve part l').2).2
    exact ih _ (hnext _) (h.trans hl (hr part l' hpart hl))

theorem typeAt (h : Evolution T R) (hc : Closed l.aliases depth T) (scope? : Option String) (hops : Nat)
    (ht : T token) : R l (typeAt depth scope? hops token l).2 := by
  induction hops generalizing l token with
  | zero =>
    cases hk : l.known? token with
    | some value =>
      rw [typeAt_hit hk]
      exact h.counted (counted_cached l token)
    | none =>
      rw [typeAt_zero_miss hk]
      exact h.settled ht hk (h.counted (counted_cached l token)) .tooDeep none
  | succ hops ih =>
    cases hk : l.known? token with
    | some value =>
      rw [typeAt_hit hk]
      exact h.counted (counted_cached l token)
    | none =>
      obtain ⟨htrim, hasks⟩ := hc token ht
      rw [typeAt_succ_miss hk htrim]
      -- the set stays closed, since the aliases that it is closed under do not change
      refine h.perform (fun part l₁ hpart hl₁ => ih ?_ hpart) (hasks scope?) ht hk (h.counted (counted_cached l token))
      rw [h.aliases hl₁]
      exact hc

/-- The same for a token that is taken as a whole. -/
theorem whole (h : Evolution T R) (hc : Closed l.aliases depth T) (ha : ∀ target, T (trimmed target))
    (scope? : Option String) (hops : Nat) (ht : T token) :
    R l (orCached token (atom (Lexicon.typeAt depth scope? hops) scope? token) l).2 := by
  cases hk : l.known? token with
  | some value =>
    rw [orCached_hit hk]
    exact h.counted (counted_cached l token)
  | none =>
    rw [orCached_miss hk, atom_eq_perform]
    refine h.perform (fun part l₁ hpart hl₁ => h.typeAt ?_ scope? hops hpart) (Plan.asks_atom fun target _ => ha target)
      ht hk (h.counted (counted_cached l token))
    rw [h.aliases hl₁]
    exact hc

end Evolution

/-! ## Closed sets -/

theorem closed_trimmed (aliases : Dict String) (depth : Nat) : Closed aliases depth fun t => trimmed t = t := by
  intro token ht
  refine ⟨ht, fun scope? => Plan.asks_ofToken ?_ ?_⟩
  · intro p hp
    exact (TypeShape.mem_parts_ofToken hp).1
  · intro text target _
    exact trimmed_trimmed target

/-- Without aliases, resolution goes to shorter tokens only. -/
theorem closed_shorter {aliases : Dict String} (h : ∀ t, aliases.get? t = none) (depth bound : Nat) :
    Closed aliases depth fun t => trimmed t = t ∧ t.length < bound := by
  intro token ht
  refine ⟨ht.1, fun scope? => Plan.asks_ofToken ?_ ?_⟩
  · intro p hp
    obtain ⟨htrim, hlen⟩ := TypeShape.mem_parts_ofToken hp
    exact ⟨htrim, by omega⟩
  · intro text target ht
    rw [h text] at ht
    cases ht

/-! ## Growth -/

/-- A lexicon that has grown out of another one by resolutions. -/
structure Grows (l l' : Lexicon) : Prop where
  definitions : l'.definitions = l.definitions
  aliases : l'.aliases = l.aliases
  pending : l'.pending = l.pending
  installed : l'.installed = l.installed
  /-- Entries stay. -/
  kept : ∀ {t v}, l.known? t = some v → l'.known? t = some v
  missed : ∀ {t}, t ∈ l.missed → t ∈ l'.missed
  /-- Only a token without an entry is given up on. -/
  newlyMissed : ∀ {t}, t ∈ l'.missed → t ∈ l.missed ∨ l.known? t = none

theorem Grows.trans {l'' : Lexicon} (h : Grows l l') (h' : Grows l' l'') : Grows l l'' where
  definitions := h'.definitions.trans h.definitions
  aliases := h'.aliases.trans h.aliases
  pending := h'.pending.trans h.pending
  installed := h'.installed.trans h.installed
  kept := fun hk => h'.kept (h.kept hk)
  missed := fun hm => h'.missed (h.missed hm)
  newlyMissed := by
    intro t ht
    rcases h'.newlyMissed ht with hm | hn
    · exact h.newlyMissed hm
    · cases hk : l.known? t with
      | none => exact Or.inr rfl
      | some v => rw [h.kept hk] at hn; cases hn

theorem Grows.of_counted (h : Counted l l') : Grows l l' where
  definitions := h.definitions
  aliases := h.aliases
  pending := by rw [h]
  installed := by rw [h]
  kept := fun hk => by rwa [h.known?]
  missed := fun hm => by rwa [h]
  newlyMissed := fun hm => Or.inl (by rwa [h] at hm)

theorem Grows.memoize (l : Lexicon) (token : String) (v : Value) : Grows l (l.memoize token v) := by
  obtain ⟨tokens, retry, stats, hm⟩ := memoize_eq l token v
  have hknown : ∀ {t w}, l.known? t = some w → (l.memoize token v).known? t = some w := by
    intro t w hk
    rw [known?_memoize]
    split
    · next he => rw [he, hk]; rfl
    · exact hk
  exact ⟨by rw [hm], by rw [hm], by rw [hm], by rw [hm], hknown, fun ht => by rwa [hm],
    fun ht => Or.inl (by rwa [hm] at ht)⟩

theorem mem_missed_recordMiss {miss : Miss} {t : String} :
    t ∈ (l.recordMiss miss).missed ↔ t ∈ l.missed ∨ t = miss.token := by
  show t ∈ (if l.missed.contains miss.token then l.missed else l.missed ++ [miss.token]) ↔ _
  split
  · next hc =>
    rw [List.contains_iff_mem] at hc
    exact ⟨Or.inl, fun h => h.elim id fun he => he ▸ hc⟩
  · rw [List.mem_append, List.mem_singleton]

theorem Grows.recordMiss {l' : Lexicon} (h : Grows l l') (miss : Miss) (hn : l.known? miss.token = none) :
    Grows l (l'.recordMiss miss) where
  definitions := h.definitions
  aliases := h.aliases
  pending := h.pending
  installed := h.installed
  kept := h.kept
  missed := fun hm => mem_missed_recordMiss.2 (Or.inl (h.missed hm))
  newlyMissed := by
    intro t ht
    rcases mem_missed_recordMiss.1 ht with hm | rfl
    · exact h.newlyMissed hm
    · exact Or.inr hn

/-- **Resolution makes a lexicon grow.** -/
theorem evolution_grows (T : String → Prop) : Evolution T Grows where
  trans := Grows.trans
  counted := Grows.of_counted
  aliases := Grows.aliases
  settled := by
    intro l l' token _ hn h reason found
    -- a miss is recorded before its placeholder is kept, so the token is still open then
    cases found with
    | some value => exact h.trans (Grows.memoize l' token value)
    | none => exact (h.recordMiss ⟨token, reason⟩ hn).trans (Grows.memoize _ token _)

theorem grows_typeAt (depth : Nat) (scope? : Option String) (hops : Nat) (ht : trimmed token = token) (l : Lexicon) :
    Grows l (typeAt depth scope? hops token l).2 :=
  (evolution_grows fun t => trimmed t = t).typeAt (closed_trimmed _ _) scope? hops ht

theorem grows_resolveType (depth : Nat) (scope? : Option String) (token : String) (l : Lexicon) :
    Grows l (resolveType depth scope? token l).2 :=
  grows_typeAt depth scope? maxHops (trimmed_trimmed token) l

end Lexicon
end CallSig
