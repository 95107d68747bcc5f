import CallSig.Proofs.Resolution.Vocabularies

/-!
# `CallSig.Proofs.Resolution.Refreshing` — what a refresh leaves behind

A refresh does nothing while the host has as many modules as at the last refresh. On a host that only gains modules the
number stands for the modules, so nothing is missed among the vocabularies that were waiting at the last refresh. But a
vocabulary may be handed over after it: if its module was loaded before, no later refresh looks at it until the host
gains another module. These vocabularies, and no others, are left behind.

## Contents
- **Modules.** `OnlyGains`; `same_names`.
- **Counts.** `seenCount?_perform`, `seenCount?_after`, `seenCount?_of_refreshed`.
- **Refreshing.** `pending_refresh`, `addedLate_of_waits`.
- **Laws.** `leftBehind_iff`, `not_refreshed`.
-/

namespace CallSig
namespace Lexicon

variable {l l' : Lexicon} {v : Vocabulary} {host host₀ : LoadedModules} {es : List Event}

/-! ## Modules -/

/-- A host over time: it lists every module once, and only gains modules. -/
structure OnlyGains (hosts : List LoadedModules) : Prop where
  nodup : ∀ host ∈ hosts, host.names.Nodup
  gains : hosts.Pairwise fun earlier later => earlier.names ⊆ later.names

/-- A host that gained modules has at least as many. -/
theorem count_le (hnodup : host₀.names.Nodup) (hgains : host₀.names ⊆ host.names) : host₀.count ≤ host.count :=
  (List.subperm_of_subset hnodup hgains).length_le

/-- The hosts that a history looks at. -/
def hosts (es : List Event) : List LoadedModules := es.filterMap Event.host?

theorem mem_hosts_of_refresh (h : .refresh host ∈ es) : host ∈ hosts es := List.mem_filterMap.2 ⟨_, h, rfl⟩

theorem OnlyGains.earlier {e : Event} (h : OnlyGains (hosts (es ++ [e]) ++ [host])) :
    OnlyGains (hosts es ++ [host]) := by
  have hsub : (hosts es ++ [host]).Sublist (hosts (es ++ [e]) ++ [host]) :=
    ((List.sublist_append_left es [e]).filterMap _).append (List.Sublist.refl _)
  exact ⟨fun host hmem => h.nodup host (hsub.subset hmem), h.gains.sublist hsub⟩

/-- The host of the last refresh lies between those before and the one after. -/
theorem OnlyGains.last {last : LoadedModules} (h : OnlyGains (hosts (es ++ [.refresh last]) ++ [host])) :
    last.names.Nodup ∧ last.names ⊆ host.names ∧
      ∀ host₀, .refresh host₀ ∈ es → host₀.names.Nodup ∧ host₀.names ⊆ last.names := by
  have hhosts : hosts (es ++ [.refresh last]) ++ [host] = hosts es ++ [last, host] := by simp [hosts, Event.host?]
  obtain ⟨hnodup, hgains⟩ := h
  rw [hhosts] at hnodup hgains
  obtain ⟨-, hlast, hbefore⟩ := List.pairwise_append.1 hgains
  refine ⟨hnodup last (by simp), List.rel_of_pairwise_cons hlast (by simp), fun host₀ hmem => ⟨?_, ?_⟩⟩
  · exact hnodup host₀ (by simp [mem_hosts_of_refresh hmem])
  · exact hbefore host₀ (mem_hosts_of_refresh hmem) last (by simp)

/-- A host that gained modules and has as many as before has the same modules. -/
theorem same_names (hnodup : host₀.names.Nodup) (hgains : host₀.names ⊆ host.names) (hcount : host₀.count = host.count)
    (name : String) : host₀.contains name = host.contains name := by
  have hperm : host₀.names.Perm host.names :=
    (List.subperm_of_subset hnodup hgains).perm_of_length_le (Nat.le_of_eq hcount.symm)
  rw [Bool.eq_iff_iff]
  unfold LoadedModules.contains
  rw [List.contains_iff_mem, List.contains_iff_mem]
  exact hperm.mem_iff

/-! ## Counts -/

theorem seenCount?_foldl_install (l : Lexicon) (vs : List Vocabulary) :
    (vs.foldl install l).seenCount? = l.seenCount? := by
  induction vs generalizing l with
  | nil => rfl
  | cons v vs ih => exact (ih (l.install v)).trans (seenCount?_install l v)

theorem memoize_keeps (l : Lexicon) (token : String) (value : Value) :
    (l.memoize token value).aliases = l.aliases ∧ (l.memoize token value).seenCount? = l.seenCount? := by
  obtain ⟨tokens, retry, stats, h⟩ := memoize_eq l token value
  rw [h]
  exact ⟨rfl, rfl⟩

/-- Resolutions do not change the number of modules that was seen. -/
theorem evolution_seenCount? (T : String → Prop) :
    Evolution T fun l l' => l'.aliases = l.aliases ∧ l'.seenCount? = l.seenCount? where
  trans h h' := ⟨h'.1.trans h.1, h'.2.trans h.2⟩
  counted h := by
    rw [h]
    exact ⟨rfl, rfl⟩
  aliases h := h.1
  settled := by
    intro l l' token _ _ h reason found
    cases found with
    | some value =>
      obtain ⟨haliases, hseen⟩ := memoize_keeps l' token value
      exact ⟨haliases.trans h.1, hseen.trans h.2⟩
    | none =>
      obtain ⟨haliases, hseen⟩ := memoize_keeps (l'.recordMiss ⟨token, reason⟩) token (.unmapped token)
      exact ⟨haliases.trans h.1, hseen.trans h.2⟩

theorem runProperty_seenCount? (depth : Nat) :
    RunProperty depth fun m => ∀ l, (m l).2.aliases = l.aliases ∧ (m l).2.seenCount? = l.seenCount? :=
  (evolution_seenCount? fun t => Text.trimmed t = t).runProperty (fun _ => ⟨rfl, rfl⟩) depth

/-- A refresh notes the number of modules. -/
theorem seenCount?_refresh (h : l.DistinctNames) : ((Event.refresh host).perform l).seenCount? = some host.count := by
  rw [perform_refresh h, seenCount?_foldl_install]

/-- Only a refresh does. -/
theorem seenCount?_perform {e : Event} (he : ∀ host, e ≠ .refresh host) (h : l.DistinctNames) :
    (e.perform l).seenCount? = l.seenCount? := by
  cases e with
  | refresh host => exact absurd rfl (he host)
  | ensure host name => rw [perform_ensure h, seenCount?_foldl_install]
  | resolveType depth scope? token => exact ((runProperty_seenCount? depth).resolveType scope? token l).2
  | resolveValue depth type? token => exact ((runProperty_seenCount? depth).resolveValue type? token l).2
  | addVocabulary v =>
    show (l.addVocabulary v).seenCount? = _
    unfold Lexicon.addVocabulary
    split
    · rfl
    · rfl
  | register | define | addAlias | lookup | evaluate | takeUnresolved => rfl

theorem distinctNames_of_baseline (es : List Event) : (baseline.after es).DistinctNames :=
  distinctNames_after es distinctNames_baseline

/-- The number that has been seen is that of a refresh. -/
theorem refreshed_of_seenCount? {n : Nat} (h : (baseline.after es).seenCount? = some n) :
    ∃ host, .refresh host ∈ es ∧ host.count = n := by
  induction es using List.reverseRecOn with
  | nil =>
    have hnone : baseline.seenCount? = none := by decide +kernel
    cases hnone.symm.trans h
  | append_singleton es e ih =>
    rw [after_concat] at h
    by_cases he : ∃ host, e = .refresh host
    · obtain ⟨host, rfl⟩ := he
      rw [seenCount?_refresh (distinctNames_of_baseline es)] at h
      cases h
      exact ⟨host, by simp, rfl⟩
    · rw [seenCount?_perform (not_exists.1 he) (distinctNames_of_baseline es)] at h
      obtain ⟨host, hmem, hcount⟩ := ih h
      exact ⟨host, List.mem_append_left _ hmem, hcount⟩

/-- While a host gains nothing after a refresh, the number stays. -/
theorem seenCount?_of_refreshed (hgains : OnlyGains (hosts es ++ [host])) (hmem : .refresh host₀ ∈ es)
    (hcount : host₀.count = host.count) : (baseline.after es).seenCount? = some host.count := by
  induction es using List.reverseRecOn with
  | nil => cases hmem
  | append_singleton es e ih =>
    rw [after_concat]
    by_cases he : ∃ host, e = .refresh host
    · obtain ⟨last, rfl⟩ := he
      rw [seenCount?_refresh (distinctNames_of_baseline es)]
      obtain ⟨hnodup, hafter, hbefore⟩ := hgains.last
      rcases List.mem_append.1 hmem with hearlier | hlast
      · obtain ⟨hnodup₀, hbetween⟩ := hbefore host₀ hearlier
        have hlow := count_le hnodup₀ hbetween
        have hhigh := count_le hnodup hafter
        have hsame : last.count = host.count := by omega
        rw [hsame]
      · cases List.mem_singleton.1 hlast
        rw [hcount]
    · rw [seenCount?_perform (not_exists.1 he) (distinctNames_of_baseline es)]
      refine ih (hgains.earlier) ((List.mem_append.1 hmem).resolve_right fun hlast => ?_)
      exact he ⟨host₀, (List.mem_singleton.1 hlast).symm⟩

/-! ## Refreshing -/

theorem notMem_pending_foldl_install {vs : List Vocabulary} (h : v ∈ vs) : v ∉ (vs.foldl install l).pending := by
  induction vs generalizing l with
  | nil => cases h
  | cons w vs ih =>
    rcases List.mem_cons.1 h with rfl | h
    · intro hv
      have hv : v ∈ (l.install v).pending := mem_pending_of_foldl_install hv
      rw [pending_install] at hv
      simp at hv
    · exact ih h

/-- A refresh leaves a vocabulary of a loaded module behind exactly when it does nothing. -/
theorem pending_refresh (h : l.DistinctNames) (hh : host.contains v.name = true) :
    v ∈ ((Event.refresh host).perform l).pending ↔ v ∈ l.pending ∧ l.seenCount? = some host.count := by
  rw [perform_refresh h, Event.installations]
  by_cases hseen : l.seenCount? = some host.count
  · rw [if_pos hseen]
    exact (and_iff_left hseen).symm
  · rw [if_neg hseen]
    refine iff_of_false (fun hv => ?_) fun hboth => hseen hboth.2
    have hwaits : v ∈ l.pending := mem_pending_of_foldl_install (l := { l with seenCount? := some host.count }) hv
    exact notMem_pending_foldl_install (List.mem_filter.2 ⟨hwaits, hh⟩) hv

/-- The vocabulary is handed over after a refresh at which the host had as many modules. -/
def AddedLate (es : List Event) (host : LoadedModules) (v : Vocabulary) : Prop :=
  ∃ before later, es = before ++ .addVocabulary v :: later ∧ ∃ host₀, .refresh host₀ ∈ before ∧ host₀.count = host.count

theorem AddedLate.concat (h : AddedLate es host v) (e : Event) : AddedLate (es ++ [e]) host v := by
  obtain ⟨before, later, rfl, hearlier⟩ := h
  exact ⟨before, later ++ [e], by simp, hearlier⟩

/-- A vocabulary of a loaded module still waits while a refresh would do nothing: then it was handed over late. -/
theorem addedLate_of_waits (hgains : OnlyGains (hosts es ++ [host])) (hh : host.contains v.name = true)
    (hseen : (baseline.after es).seenCount? = some host.count) (hv : v ∈ (baseline.after es).pending) :
    AddedLate es host v := by
  induction es using List.reverseRecOn with
  | nil =>
    have hv : v ∈ baseline.pending := hv
    rw [pending_baseline] at hv
    cases hv
  | append_singleton es e ih =>
    have hdistinct := distinctNames_of_baseline es
    rw [after_concat] at hseen hv
    by_cases he : ∃ host, e = .refresh host
    · obtain ⟨last, rfl⟩ := he
      obtain ⟨hnodup, hafter, -⟩ := hgains.last
      have hcount : last.count = host.count := by
        rw [seenCount?_refresh hdistinct] at hseen
        exact Option.some.inj hseen
      have hloaded : last.contains v.name = true := by rw [same_names hnodup hafter hcount, hh]
      -- the last refresh did nothing either
      obtain ⟨hwaits, hseen₀⟩ := (pending_refresh hdistinct hloaded).1 hv
      exact (ih hgains.earlier (hcount ▸ hseen₀) hwaits).concat (.refresh last)
    · have hseen₀ : (baseline.after es).seenCount? = some host.count := by
        rw [← seenCount?_perform (not_exists.1 he) hdistinct, hseen]
      rcases mem_pending_perform hdistinct hv with hwaits | rfl
      · exact (ih (hgains.earlier) hseen₀ hwaits).concat e
      · exact ⟨es, [], rfl, refreshed_of_seenCount? hseen₀⟩

/-! ## Laws -/

/-- **What a refresh leaves behind.** On a host that only gains modules, a vocabulary of a loaded module still waits
after a refresh exactly when it waited before and was handed over after an earlier refresh that saw as many modules. -/
theorem leftBehind_iff (es : List Event) (host : LoadedModules) (hgains : OnlyGains (hosts es ++ [host]))
    (v : Vocabulary) :
    v ∈ (baseline.after (es ++ [.refresh host])).pending ∧ host.contains v.name = true ↔
      v ∈ (baseline.after es).pending ∧ host.contains v.name = true ∧ AddedLate es host v := by
  have hdistinct := distinctNames_of_baseline es
  rw [after_concat]
  constructor
  · rintro ⟨hv, hh⟩
    obtain ⟨hwaits, hseen⟩ := (pending_refresh hdistinct hh).1 hv
    exact ⟨hwaits, hh, addedLate_of_waits hgains hh hseen hwaits⟩
  · rintro ⟨hwaits, hh, before, later, hsplit, host₀, hearlier, hcount⟩
    have hmem : .refresh host₀ ∈ es := hsplit ▸ List.mem_append_left _ hearlier
    exact ⟨(pending_refresh hdistinct hh).2 ⟨hwaits, seenCount?_of_refreshed hgains hmem hcount⟩, hh⟩

/-- A host that has loaded one module. -/
def coreLoaded : LoadedModules := ⟨["core"]⟩

/-- Its vocabulary. -/
def coreVocabulary : Vocabulary := (Vocabulary.empty "core").addClass "core.Foo"

/-- The vocabulary of a loaded module, handed over after a refresh. -/
def lateHistory : List Event := [.refresh coreLoaded, .addVocabulary coreVocabulary]

theorem onlyGains_lateHistory : OnlyGains (hosts lateHistory ++ [coreLoaded]) := by
  have hhosts : hosts lateHistory = [coreLoaded] := rfl
  rw [hhosts]
  refine ⟨?_, ?_⟩
  · decide
  · exact List.pairwise_pair.2 (List.Subset.refl _)

theorem leftBehind_iff_late :
    coreVocabulary ∈ (baseline.after (lateHistory ++ [.refresh coreLoaded])).pending ∧
      coreLoaded.contains "core" = true := by
  refine (leftBehind_iff lateHistory coreLoaded onlyGains_lateHistory coreVocabulary).2 ⟨?_, by decide, ?_⟩
  · have hpending : (baseline.after lateHistory).pending = [coreVocabulary] := rfl
    rw [hpending]
    exact List.mem_singleton_self _
  · exact ⟨[.refresh coreLoaded], [], rfl, coreLoaded, List.mem_singleton_self _, rfl⟩

/-- Not every waiting module that is loaded is installed by a refresh. -/
theorem not_refreshed : ¬∀ (es : List Event) (host : LoadedModules), OnlyGains (hosts es ++ [host]) →
    ∀ name ∈ (baseline.after (es ++ [.refresh host])).pendingNames, host.contains name = false := by
  intro h
  have hwaits : "core" ∈ (baseline.after (lateHistory ++ [.refresh coreLoaded])).pendingNames := by decide +kernel
  have hunloaded := h lateHistory coreLoaded onlyGains_lateHistory "core" hwaits
  have hloaded : coreLoaded.contains "core" = true := by decide
  rw [hloaded] at hunloaded
  cases hunloaded

end Lexicon
end CallSig
