import CallSig.Lexicon.Modules
import CallSig.Proofs.Resolution.Steps

/-!
# `CallSig.Proofs.Resolution.Installation` — what installing a vocabulary changes

Installation adds definitions, entries and aliases, and then marks the placeholders among the missed tokens. What
is added does not depend on the lexicon, so two lexicons that share definitions and aliases still share them
afterwards; an entry of the vocabulary replaces what was there, and a marked placeholder is no entry any more.

## Contents
- **Adding entries.** `lastOf?`, `addEntries_eq`, `known?_addEntries`, `addEntries_induction`.
- **The baseline.** `baseline_eq`, `known?_baseline`, `get?_aliases_baseline`.
- **Installing.** `install_eq`, with one lemma for each part of the lexicon that it settles; `known?_retryMissed`,
  `known?_install`, `known?_install_eq_some`.
- **By name.** `ensure_of_pending`, `eq_install_of_ensure`.
-/

namespace CallSig

/-- The value that a list of entries gives to a token: the last one counts. -/
def lastOf? (token : String) : List (String × Value) → Option Value
  | [] => none
  | e :: es => (lastOf? token es).or (if e.1 = token then some e.2 else none)

theorem mem_of_lastOf? {token : String} {entries : List (String × Value)} {v : Value}
    (h : lastOf? token entries = some v) : (token, v) ∈ entries := by
  induction entries with
  | nil => cases h
  | cons e es ih =>
    rw [lastOf?, Option.or_eq_some_iff] at h
    rcases h with h | ⟨-, h⟩
    · exact List.mem_cons_of_mem _ (ih h)
    · split at h
      · next he =>
        cases h
        rw [← he]
        exact List.mem_cons_self
      · cases h

namespace Lexicon

variable {l : Lexicon} {v : Vocabulary} {token : String}

/-! ## Adding entries -/

theorem foldl_define (es : List (String × Value)) (l : Lexicon) :
    es.foldl (fun l e => l.define e.1 e.2) l =
      { l with definitions := es.foldl (fun d e => d.insert e.1 e.2) l.definitions } := by
  induction es generalizing l with
  | nil => rfl
  | cons e es ih => exact ih (l.define e.1 e.2)

theorem foldl_addAlias (es : List (String × String)) (l : Lexicon) :
    es.foldl (fun l e => l.addAlias e.1 e.2) l =
      { l with aliases := es.foldl (fun d e => d.insert e.1 e.2) l.aliases } := by
  induction es generalizing l with
  | nil => rfl
  | cons e es ih => exact ih (l.addAlias e.1 e.2)

/-- The tokens once entries are registered, and the marks that are left. -/
theorem foldl_register (es : List (String × Value)) (l : Lexicon) :
    ∃ tokens retry, es.foldl (fun l e => l.register e.1 e.2) l = { l with tokens, retry } := by
  induction es generalizing l with
  | nil => exact ⟨l.tokens, l.retry, rfl⟩
  | cons e es ih =>
    obtain ⟨tokens, retry, h⟩ := ih (l.register e.1 e.2)
    exact ⟨tokens, retry, h⟩

theorem known?_foldl_register (es : List (String × Value)) (l : Lexicon) (t : String) :
    (es.foldl (fun l e => l.register e.1 e.2) l).known? t = (lastOf? t es).or (l.known? t) := by
  induction es generalizing l with
  | nil => rfl
  | cons e es ih =>
    rw [List.foldl_cons, ih, known?_register, lastOf?, Option.or_assoc]
    split <;> rfl

/-- Adding the entries of a vocabulary changes definitions, tokens, aliases and marks. -/
theorem addEntries_eq (l : Lexicon) (v : Vocabulary) :
    ∃ tokens retry, l.addEntries v =
      { l with
        definitions := v.definitions.foldl (fun d e => d.insert e.1 e.2) l.definitions
        aliases := v.aliases.foldl (fun d e => d.insert e.1 e.2) l.aliases
        tokens
        retry } := by
  unfold addEntries
  dsimp only
  rw [foldl_addAlias, foldl_define]
  obtain ⟨tokens, retry, h⟩ := foldl_register v.tokens
    { l with definitions := v.definitions.foldl (fun d e => d.insert e.1 e.2) l.definitions }
  rw [h]
  exact ⟨tokens, retry, rfl⟩

theorem known?_addEntries (l : Lexicon) (v : Vocabulary) (t : String) :
    (l.addEntries v).known? t = (lastOf? t v.tokens).or (l.known? t) := by
  unfold addEntries
  dsimp only
  rw [foldl_addAlias, foldl_define]
  exact known?_foldl_register v.tokens _ t

/-- What outlives every definition, every registration and every alias of a vocabulary outlives adding it. -/
theorem addEntries_induction {Q : Lexicon → Prop} (hdefine : ∀ l, Q l → ∀ e ∈ v.definitions, Q (l.define e.1 e.2))
    (hregister : ∀ l, Q l → ∀ e ∈ v.tokens, Q (l.register e.1 e.2))
    (halias : ∀ l, Q l → ∀ e ∈ v.aliases, Q (l.addAlias e.1 e.2)) (h : Q l) : Q (l.addEntries v) := by
  have hdefined := List.foldlRecOn v.definitions (fun l e => l.define e.1 e.2) h hdefine
  have hregistered := List.foldlRecOn v.tokens (fun l e => l.register e.1 e.2) hdefined hregister
  exact List.foldlRecOn v.aliases (fun l e => l.addAlias e.1 e.2) hregistered halias

/-! ## The baseline -/

/-- The baseline has definitions and entries, and it has installed its own vocabulary. -/
theorem baseline_eq :
    ∃ definitions tokens retry,
      baseline = { blank with definitions, tokens, retry, installed := [Vocabulary.baselineName] } := by
  obtain ⟨tokens, retry, h⟩ := addEntries_eq blank .baseline
  unfold baseline
  rw [h]
  exact ⟨_, tokens, retry, rfl⟩

theorem known?_baseline (t : String) : baseline.known? t = lastOf? t Vocabulary.baseline.tokens := by
  have hinstalled (l : Lexicon) (names : List String) : known? { l with installed := names } t = l.known? t := rfl
  rw [baseline, hinstalled, known?_addEntries]
  exact Option.or_none

theorem get?_aliases_baseline (t : String) : baseline.aliases.get? t = none := by
  obtain ⟨definitions, tokens, retry, h⟩ := baseline_eq
  rw [h]
  rfl

/-! ## Installing -/

/-- Installing a vocabulary adds its entries, moves its name to the installed ones and forgets the misses. -/
theorem install_eq (l : Lexicon) (v : Vocabulary) :
    ∃ tokens retry, l.install v =
      { l with
        definitions := v.definitions.foldl (fun d e => d.insert e.1 e.2) l.definitions
        aliases := v.aliases.foldl (fun d e => d.insert e.1 e.2) l.aliases
        tokens
        retry
        pending := l.pending.filter (·.name != v.name)
        installed := l.installed ++ [v.name]
        missed := [] } := by
  obtain ⟨tokens, retry, h⟩ := addEntries_eq { l with pending := l.pending.filter (·.name != v.name) } v
  unfold install retryMissed
  dsimp only
  rw [h]
  exact ⟨tokens, _, rfl⟩

theorem definitions_install (l : Lexicon) (v : Vocabulary) :
    (l.install v).definitions = v.definitions.foldl (fun d e => d.insert e.1 e.2) l.definitions := by
  obtain ⟨tokens, retry, h⟩ := install_eq l v
  rw [h]

theorem aliases_install (l : Lexicon) (v : Vocabulary) :
    (l.install v).aliases = v.aliases.foldl (fun d e => d.insert e.1 e.2) l.aliases := by
  obtain ⟨tokens, retry, h⟩ := install_eq l v
  rw [h]

theorem pending_install (l : Lexicon) (v : Vocabulary) :
    (l.install v).pending = l.pending.filter (·.name != v.name) := by
  obtain ⟨tokens, retry, h⟩ := install_eq l v
  rw [h]

@[simp]
theorem installed_install (l : Lexicon) (v : Vocabulary) : (l.install v).installed = l.installed ++ [v.name] := by
  obtain ⟨tokens, retry, h⟩ := install_eq l v
  rw [h]

theorem seenCount?_install (l : Lexicon) (v : Vocabulary) : (l.install v).seenCount? = l.seenCount? := by
  obtain ⟨tokens, retry, h⟩ := install_eq l v
  rw [h]

theorem unresolved_install (l : Lexicon) (v : Vocabulary) : (l.install v).unresolved = l.unresolved := by
  obtain ⟨tokens, retry, h⟩ := install_eq l v
  rw [h]

/-- Reopening the missed placeholders takes their entries away. -/
theorem known?_retryMissed (l : Lexicon) (t : String) :
    l.retryMissed.known? t = (l.known? t).filter fun x => !(l.missed.contains t && x.isUnmapped) := by
  have hmarked : l.retryMissed.retry.contains t =
      (l.retry.contains t || (l.missed.contains t && l.isPlaceholder t)) := by
    unfold retryMissed
    simp only [List.contains_eq_mem, List.mem_append, List.mem_filter, Bool.and_eq_true, Bool.not_eq_true']
    by_cases hr : t ∈ l.retry
    · simp [hr]
    · simp [hr]
  -- a token that was open stays open, one that was not is marked only as a placeholder
  cases hk : l.known? t with
  | none =>
    rw [Option.filter_none]
    unfold known? at hk ⊢
    rw [hmarked]
    split at hk
    · next hr => rw [hr]; rfl
    · next hr =>
      show (if _ then none else l.tokens.get? t) = none
      rw [hk]
      split <;> rfl
  | some x =>
    have hget := get?_of_known? hk
    have hplace : l.isPlaceholder t = x.isUnmapped := by
      unfold isPlaceholder
      rw [hget]
    have hr : l.retry.contains t = false := by
      cases hr : l.retry.contains t with
      | false => rfl
      | true =>
        unfold known? at hk
        rw [if_pos hr] at hk
        cases hk
    unfold known?
    rw [hmarked, hplace, hr, Bool.false_or, show l.retryMissed.tokens = l.tokens from rfl, hget, Option.filter_some]
    cases l.missed.contains t && x.isUnmapped <;> rfl

theorem missed_addEntries (l : Lexicon) (v : Vocabulary) : (l.addEntries v).missed = l.missed := by
  obtain ⟨tokens, retry, h⟩ := addEntries_eq l v
  rw [h]

/-- **The entry of a token after installation**: none for a missed placeholder. -/
theorem known?_install (l : Lexicon) (v : Vocabulary) (t : String) :
    (l.install v).known? t =
      ((lastOf? t v.tokens).or (l.known? t)).filter fun x => !(l.missed.contains t && x.isUnmapped) := by
  unfold install
  dsimp only
  rw [known?_retryMissed]
  show ((addEntries _ v).known? t).filter (fun x => !((addEntries _ v).missed.contains t && x.isUnmapped)) = _
  rw [known?_addEntries, missed_addEntries]
  rfl

theorem known?_install_eq_some {t : String} {x : Value} :
    (l.install v).known? t = some x ↔
      (lastOf? t v.tokens).or (l.known? t) = some x ∧ ¬(t ∈ l.missed ∧ x.isUnmapped) := by
  rw [known?_install, Option.filter_eq_some_iff]
  simp only [List.contains_eq_mem, Bool.not_eq_true', Bool.and_eq_false_imp, decide_eq_true_eq, not_and,
    Bool.not_eq_true]

/-! ## By name -/

/-- A vocabulary that waits is installed once the host has loaded its module. -/
theorem ensure_of_pending {host : LoadedModules} {name : String} (hi : l.isInstalled name = false)
    (hv : l.pending.find? (·.name == name) = some v) (hh : host.contains name = true) :
    l.ensure host name = .ok (true, l.install v) := by
  unfold ensure
  rw [hi, hv, hh]
  rfl

theorem eq_install_of_ensure {host : LoadedModules} {name : String} {l' : Lexicon}
    (hv : l.pending.find? (·.name == name) = some v) (h : l.ensure host name = .ok (true, l')) :
    l' = l.install v := by
  unfold ensure at h
  split at h
  · cases h
  · rw [hv] at h
    dsimp only at h
    split at h
    · cases h
      rfl
    · cases h

end Lexicon
end CallSig
