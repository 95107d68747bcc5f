import CallSig.Proofs.Resolution.Histories

/-!
# `CallSig.Proofs.Resolution.Vocabularies` — every vocabulary is installed once

A vocabulary waits under the name of its module until the host has loaded the module, and then its name moves to the
installed ones. The names that wait and the names that are installed are all different, and every event keeps them so.
This is why a search by name finds the one vocabulary of a module, and why a refresh, which installs one module after
the other, installs exactly those that waited for a loaded module when it began.

## Contents
- **Names.** `DistinctNames`; `pendingNames_install`, `DistinctNames.install`, `DistinctNames.foldl_install`.
- **Installing by name.** `ensure_loaded`, `ensure_idle`, `ensureAll_loaded`.
- **Installations.** `Event.installations`; `mem_installations`, `ensure_cases`, `perform_ensure`, `perform_refresh`.
- **Events.** `installed_perform`, `distinctNames_perform`, `mem_pending_perform`.
- **Histories.** `installations`; `distinctNames_after`, `installed_after`, `handedOver_of_mem_installations`.
- **Laws.** `Moves`, `InstalledOnce`, `installedOnce`.
-/

namespace CallSig
namespace Lexicon

variable {l l' : Lexicon} {v : Vocabulary} {host : LoadedModules} {name : String}

/-! ## Names -/

/-- No module waits twice, none is installed twice, and none that is installed still waits. -/
def DistinctNames (l : Lexicon) : Prop := (l.pendingNames ++ l.installed).Nodup

theorem pendingNames_install (l : Lexicon) (v : Vocabulary) :
    (l.install v).pendingNames = l.pendingNames.filter (· != v.name) := by
  unfold pendingNames
  rw [pending_install, List.filter_map]
  rfl

namespace DistinctNames

theorem pending (h : l.DistinctNames) : l.pendingNames.Nodup := (List.nodup_append.1 h).1

theorem not_installed (h : l.DistinctNames) (hv : v ∈ l.pending) : v.name ∉ l.installed := by
  intro hi
  have hname : v.name ∈ l.pendingNames := List.mem_map_of_mem hv
  exact (List.nodup_append.1 h).2.2 v.name hname v.name hi rfl

/-- Installing a vocabulary moves its name. -/
theorem install (h : l.DistinctNames) (hv : v ∈ l.pending) : (l.install v).DistinctNames := by
  obtain ⟨hpending, hinstalled, hdisjoint⟩ := List.nodup_append.1 h
  unfold DistinctNames
  rw [pendingNames_install, installed_install, List.nodup_append]
  refine ⟨hpending.filter _, ?_, ?_⟩
  · rw [List.nodup_append]
    refine ⟨hinstalled, List.nodup_singleton _, ?_⟩
    intro n hn m hm
    rw [List.mem_singleton.1 hm]
    rintro rfl
    exact h.not_installed hv hn
  · intro n hn m hm
    obtain ⟨hn, hne⟩ := List.mem_filter.1 hn
    rcases List.mem_append.1 hm with hm | hm
    · exact hdisjoint n hn m hm
    · rw [List.mem_singleton.1 hm]
      exact bne_iff_ne.1 hne

/-- What else waits still waits after an installation. -/
theorem mem_pending_install {vs : List Vocabulary} (hvs : ∀ w ∈ vs, w ∈ l.pending)
    (hnames : ((v :: vs).map Vocabulary.name).Nodup) {w : Vocabulary} (hw : w ∈ vs) : w ∈ (l.install v).pending := by
  have hfresh : v.name ∉ vs.map Vocabulary.name := (List.nodup_cons.1 hnames).1
  rw [pending_install, List.mem_filter, bne_iff_ne]
  refine ⟨hvs w hw, fun he => hfresh ?_⟩
  rw [← he]
  exact List.mem_map_of_mem hw

/-- So do several installations of vocabularies that wait. -/
theorem foldl_install {vs : List Vocabulary} (h : l.DistinctNames) (hvs : ∀ v ∈ vs, v ∈ l.pending)
    (hnames : (vs.map Vocabulary.name).Nodup) : (vs.foldl Lexicon.install l).DistinctNames := by
  induction vs generalizing l with
  | nil => exact h
  | cons v vs ih =>
    obtain ⟨hv, hvs⟩ := List.forall_mem_cons.1 hvs
    exact ih (h.install hv) (fun w hw => mem_pending_install hvs hnames hw) (List.nodup_cons.1 hnames).2

end DistinctNames

theorem installed_foldl_install (l : Lexicon) (vs : List Vocabulary) :
    (vs.foldl install l).installed = l.installed ++ vs.map Vocabulary.name := by
  induction vs generalizing l with
  | nil => exact (List.append_nil _).symm
  | cons v vs ih => simp [ih]

theorem mem_pending_of_foldl_install {vs : List Vocabulary} (h : v ∈ (vs.foldl install l).pending) : v ∈ l.pending := by
  induction vs generalizing l with
  | nil => exact h
  | cons w vs ih =>
    have hw : v ∈ (l.install w).pending := ih h
    rw [pending_install] at hw
    exact (List.mem_filter.1 hw).1

/-! ## Installing by name -/

theorem isInstalled_eq_false : l.isInstalled name = false ↔ name ∉ l.installed := by
  unfold isInstalled
  rw [← Bool.not_eq_true, List.contains_iff_mem]

/-- A search by name finds the vocabulary that waits. -/
theorem DistinctNames.find? (h : l.DistinctNames) (hv : v ∈ l.pending) :
    l.pending.find? (·.name == v.name) = some v := by
  have hsome : (l.pending.find? (·.name == v.name)).isSome := List.find?_isSome.2 ⟨v, hv, by simp⟩
  obtain ⟨w, hw⟩ := Option.isSome_iff_exists.1 hsome
  have hname : w.name = v.name := by simpa using List.find?_some hw
  rw [hw, List.inj_on_of_nodup_map h.pending (List.mem_of_find?_eq_some hw) hv hname]

/-- A vocabulary that waits for a loaded module is installed. -/
theorem ensure_loaded (h : l.DistinctNames) (hv : v ∈ l.pending) (hh : host.contains v.name = true) :
    l.ensure host v.name = .ok (true, l.install v) :=
  ensure_of_pending (isInstalled_eq_false.2 (h.not_installed hv)) (h.find? hv) hh

/-- Nothing changes unless a vocabulary waits for the module and the host has loaded it. -/
theorem ensure_idle (h : ∀ v ∈ l.pending, v.name = name → host.contains name = false) :
    l.ensure host name = .ok (false, l) ∨ ∃ e, l.ensure host name = .error e := by
  unfold ensure
  split
  · exact Or.inl rfl
  · split
    · exact Or.inr ⟨_, rfl⟩
    · next v hfind =>
      have hname : v.name = name := by simpa using List.find?_some hfind
      rw [h v (List.mem_of_find?_eq_some hfind) hname]
      exact Or.inr ⟨_, rfl⟩

/-- Vocabularies that wait for loaded modules are installed one after the other. -/
theorem ensureAll_loaded {vs : List Vocabulary} (h : l.DistinctNames) (hvs : ∀ v ∈ vs, v ∈ l.pending)
    (hnames : (vs.map Vocabulary.name).Nodup) (hh : ∀ v ∈ vs, host.contains v.name = true) :
    l.ensureAll host (vs.map Vocabulary.name) = (vs.length, vs.foldl install l) := by
  induction vs generalizing l with
  | nil => rfl
  | cons v vs ih =>
    obtain ⟨hv, hvs⟩ := List.forall_mem_cons.1 hvs
    obtain ⟨hhv, hh⟩ := List.forall_mem_cons.1 hh
    have hstill : ∀ w ∈ vs, w ∈ (l.install v).pending := fun w hw => DistinctNames.mem_pending_install hvs hnames hw
    rw [List.map_cons, ensureAll, ensure_loaded h hv hhv]
    dsimp only
    rw [ih (h.install hv) hstill (List.nodup_cons.1 hnames).2 hh]
    rfl

/-! ## Installations -/

namespace Event

/-- The host that an event looks at. -/
def host? : Event → Option LoadedModules
  | ensure host _ | refresh host => some host
  | register _ _ | define _ _ | addAlias _ _ | addVocabulary _ | resolveType _ _ _ | resolveValue _ _ _ | lookup _ |
    evaluate _ | takeUnresolved => none

/-- The vocabularies that an event finds to install: those that wait for a loaded module, the one it names or, if the
number of modules has changed, any. -/
def installations : Event → Lexicon → List Vocabulary
  | ensure host name, l => l.pending.filter fun v => v.name == name && host.contains v.name
  | refresh host, l => if l.seenCount? = some host.count then [] else l.pending.filter fun v => host.contains v.name
  | register _ _, _ | define _ _, _ | addAlias _ _, _ | addVocabulary _, _ | resolveType _ _ _, _ |
    resolveValue _ _ _, _ | lookup _, _ | evaluate _, _ | takeUnresolved, _ => []

/-- Only vocabularies that wait for a module of the host are installed. -/
theorem mem_installations {e : Event} (h : v ∈ e.installations l) :
    v ∈ l.pending ∧ ∃ host, e.host? = some host ∧ host.contains v.name = true := by
  cases e with
  | ensure host name =>
    obtain ⟨hv, hloaded⟩ := List.mem_filter.1 h
    rw [Bool.and_eq_true] at hloaded
    exact ⟨hv, host, rfl, hloaded.2⟩
  | refresh host =>
    have h : v ∈ (if l.seenCount? = some host.count then [] else l.pending.filter fun v => host.contains v.name) := h
    split at h
    · cases h
    · obtain ⟨hv, hloaded⟩ := List.mem_filter.1 h
      exact ⟨hv, host, rfl, hloaded⟩
  | register | define | addAlias | addVocabulary | resolveType | resolveValue | lookup | evaluate | takeUnresolved =>
    cases h

theorem nodup_installations (e : Event) (h : l.DistinctNames) : ((e.installations l).map Vocabulary.name).Nodup := by
  have hfilter (p : Vocabulary → Bool) : ((l.pending.filter p).map Vocabulary.name).Nodup :=
    (List.filter_sublist.map _).nodup h.pending
  cases e with
  | ensure host name => exact hfilter _
  | refresh host =>
    by_cases hseen : l.seenCount? = some host.count
    · rw [installations, if_pos hseen]
      exact List.nodup_nil
    · rw [installations, if_neg hseen]
      exact hfilter _
  | register | define | addAlias | addVocabulary | resolveType | resolveValue | lookup | evaluate | takeUnresolved =>
    exact List.nodup_nil

end Event

/-- At most one vocabulary waits under a name. -/
theorem filter_name_eq (h : l.DistinctNames) (hv : v ∈ l.pending) (hh : host.contains v.name = true) :
    (Event.ensure host v.name).installations l = [v] := by
  have hmem : v ∈ (Event.ensure host v.name).installations l := List.mem_filter.2 ⟨hv, by simp [hh]⟩
  have hall : ∀ w ∈ (Event.ensure host v.name).installations l, w.name = v.name := by
    intro w hw
    have := (List.mem_filter.1 hw).2
    rw [Bool.and_eq_true, beq_iff_eq] at this
    exact this.1
  have hnodup := (Event.ensure host v.name).nodup_installations h
  generalize (Event.ensure host v.name).installations l = found at *
  match found with
  | [w] => rw [List.mem_singleton.1 hmem]
  | w :: w' :: _ => simp [hall w, hall w'] at hnodup

/-- Asking for one module installs the vocabulary that waits for it, or leaves everything as it is. -/
theorem ensure_cases (h : l.DistinctNames) (host : LoadedModules) (name : String) :
    (∃ v ∈ l.pending, v.name = name ∧ l.ensure host name = .ok (true, l.install v) ∧
      (Event.ensure host name).installations l = [v]) ∨
    ((∀ l', l.ensure host name ≠ .ok (true, l')) ∧ (Event.ensure host name).perform l = l ∧
      (Event.ensure host name).installations l = []) := by
  by_cases hv : ∃ v ∈ l.pending, v.name = name ∧ host.contains name = true
  · obtain ⟨v, hv, rfl, hh⟩ := hv
    exact Or.inl ⟨v, hv, rfl, ensure_loaded h hv hh, filter_name_eq h hv hh⟩
  · have hunloaded : ∀ v ∈ l.pending, v.name = name → host.contains name = false := by
      intro v hv' hname
      rw [← Bool.not_eq_true]
      exact fun hh => hv ⟨v, hv', hname, hh⟩
    have hnone : (Event.ensure host name).installations l = [] := by
      refine List.filter_eq_nil_iff.2 fun v hv' hboth => ?_
      rw [Bool.and_eq_true, beq_iff_eq] at hboth
      have hloaded : host.contains name = true := hboth.1 ▸ hboth.2
      rw [hunloaded v hv' hboth.1] at hloaded
      cases hloaded
    refine Or.inr ⟨fun l' hl' => ?_, ?_, hnone⟩
    · rcases ensure_idle hunloaded with hok | ⟨e, herr⟩
      · cases hok.symm.trans hl'
      · cases herr.symm.trans hl'
    · rw [Event.perform]
      rcases ensure_idle hunloaded with hok | ⟨e, herr⟩
      · rw [hok]
      · rw [herr]

/-- **Asking for one module** installs its vocabulary if that waits and the module is loaded, and does nothing else. -/
theorem perform_ensure (h : l.DistinctNames) :
    (Event.ensure host name).perform l = ((Event.ensure host name).installations l).foldl install l := by
  rcases ensure_cases h host name with ⟨v, -, -, hok, hone⟩ | ⟨-, hsame, hnone⟩
  · rw [hone, Event.perform, hok]
    rfl
  · rw [hnone, hsame]
    rfl

/-- **A refresh** installs the vocabularies that wait for loaded modules, if the number of modules has changed, and
notes the number. -/
theorem perform_refresh (h : l.DistinctNames) :
    (Event.refresh host).perform l =
      ((Event.refresh host).installations l).foldl install { l with seenCount? := some host.count } := by
  show (l.refresh host).2 = _
  unfold refresh
  by_cases hseen : l.seenCount? = some host.count
  · rw [if_pos hseen, Event.installations, if_pos hseen, List.foldl_nil, ← hseen]
  · rw [if_neg hseen, Event.installations, if_neg hseen]
    have hready : l.pendingNames.filter host.contains =
        (l.pending.filter fun v => host.contains v.name).map Vocabulary.name := by
      unfold pendingNames
      rw [List.filter_map]
      rfl
    have hnodup : ((l.pending.filter fun v => host.contains v.name).map Vocabulary.name).Nodup :=
      hready ▸ h.pending.filter _
    show ({ l with seenCount? := some host.count }.ensureAll host (l.pendingNames.filter host.contains)).2 = _
    rw [hready, ensureAll_loaded (l := { l with seenCount? := some host.count }) h _ hnodup]
    · exact fun v hv => (List.mem_filter.1 hv).2
    · exact fun v hv => (List.mem_filter.1 hv).1

/-! ## Events -/

/-- What an event that looks at no host does to the vocabularies that wait: a new one waits after the others, if no
vocabulary of its name waits or is installed. -/
theorem perform_without_host {e : Event} (h : e.host? = none) (l : Lexicon) :
    e.installations l = [] ∧ (e.perform l).installed = l.installed ∧ ((e.perform l).pending = l.pending ∨
      ∃ v, e = .addVocabulary v ∧ v.name ∉ l.pendingNames ∧ v.name ∉ l.installed ∧
        (e.perform l).pending = l.pending ++ [v]) := by
  cases e with
  | ensure | refresh => cases h
  | register | define | addAlias | lookup | evaluate | takeUnresolved => exact ⟨rfl, rfl, Or.inl rfl⟩
  | resolveType depth scope? token =>
    have hg := (runProperty_resolved depth).resolveType scope? token l
    exact ⟨rfl, ((runProperty_grows depth).resolveType scope? token l).installed, Or.inl hg.pending⟩
  | resolveValue depth type? token =>
    have hg := (runProperty_resolved depth).resolveValue type? token l
    exact ⟨rfl, ((runProperty_grows depth).resolveValue type? token l).installed, Or.inl hg.pending⟩
  | addVocabulary v =>
    refine ⟨rfl, ?_⟩
    show (l.addVocabulary v).installed = _ ∧ ((l.addVocabulary v).pending = _ ∨ ∃ w, _ ∧ _ ∧ _ ∧
      (l.addVocabulary v).pending = _)
    unfold Lexicon.addVocabulary
    split
    · exact ⟨rfl, Or.inl rfl⟩
    · next hnew =>
      rw [Bool.or_eq_true, not_or, Bool.not_eq_true, isInstalled_eq_false] at hnew
      refine ⟨rfl, Or.inr ⟨v, rfl, fun hmem => hnew.2 ?_, hnew.1, rfl⟩⟩
      obtain ⟨w, hw, hname⟩ := List.mem_map.1 hmem
      exact List.any_eq_true.2 ⟨w, hw, beq_iff_eq.2 hname⟩

/-- An event that looks at a host installs what it finds to install. -/
theorem perform_with_host {e : Event} (he : e.host? = some host) (h : l.DistinctNames) :
    ∃ n, e.perform l = (e.installations l).foldl install { l with seenCount? := n } := by
  cases e with
  | ensure host name => exact ⟨l.seenCount?, perform_ensure h⟩
  | refresh host => exact ⟨some host.count, perform_refresh h⟩
  | register | define | addAlias | addVocabulary | resolveType | resolveValue | lookup | evaluate | takeUnresolved =>
    cases he

/-- An event adds the names of what it finds to install. -/
theorem installed_perform (e : Event) (h : l.DistinctNames) :
    (e.perform l).installed = l.installed ++ (e.installations l).map Vocabulary.name := by
  cases he : e.host? with
  | none =>
    obtain ⟨hnone, hsame, -⟩ := perform_without_host he l
    rw [hsame, hnone, List.map_nil, List.append_nil]
  | some host =>
    obtain ⟨n, hperform⟩ := perform_with_host he h
    rw [hperform, installed_foldl_install]

/-- **Every event keeps the names distinct.** -/
theorem distinctNames_perform (e : Event) (h : l.DistinctNames) : (e.perform l).DistinctNames := by
  cases he : e.host? with
  | none =>
    obtain ⟨-, hinstalled, hpending | ⟨v, -, hwaits, hnew, hpending⟩⟩ := perform_without_host he l
    · unfold DistinctNames pendingNames
      rw [hpending, hinstalled]
      exact h
    · unfold DistinctNames pendingNames
      rw [hpending, hinstalled, List.map_append, List.append_assoc]
      have hperm : (l.pendingNames ++ v.name :: l.installed).Perm (v.name :: (l.pendingNames ++ l.installed)) :=
        List.perm_middle
      refine hperm.nodup_iff.2 (List.nodup_cons.2 ⟨?_, h⟩)
      rw [List.mem_append]
      exact not_or.2 ⟨hwaits, hnew⟩
  | some host =>
    obtain ⟨n, hperform⟩ := perform_with_host he h
    rw [hperform]
    exact DistinctNames.foldl_install (l := { l with seenCount? := n }) h (fun v hv => (Event.mem_installations hv).1)
      (e.nodup_installations h)

/-- What waits after an event waited before it, or was handed over by it. -/
theorem mem_pending_perform {e : Event} (h : l.DistinctNames) (hv : v ∈ (e.perform l).pending) :
    v ∈ l.pending ∨ e = .addVocabulary v := by
  cases he : e.host? with
  | none =>
    obtain ⟨-, -, hpending | ⟨w, rfl, -, -, hpending⟩⟩ := perform_without_host he l
    · exact Or.inl (hpending ▸ hv)
    · rw [hpending, List.mem_append, List.mem_singleton] at hv
      exact hv.imp_right fun hvw => by rw [hvw]
  | some host =>
    obtain ⟨n, hperform⟩ := perform_with_host he h
    rw [hperform] at hv
    exact Or.inl (mem_pending_of_foldl_install (l := { l with seenCount? := n }) hv)

/-! ## Histories -/

/-- The vocabularies that the events of a history install, in this order. -/
def installations (l : Lexicon) : List Event → List Vocabulary
  | [] => []
  | e :: es => e.installations l ++ installations (e.perform l) es

theorem distinctNames_after (es : List Event) (h : l.DistinctNames) : (l.after es).DistinctNames := by
  induction es generalizing l with
  | nil => exact h
  | cons e es ih => exact ih (distinctNames_perform e h)

/-- The installed names are those of the installations. -/
theorem installed_after (es : List Event) (h : l.DistinctNames) :
    (l.after es).installed = l.installed ++ (l.installations es).map Vocabulary.name := by
  induction es generalizing l with
  | nil => exact (List.append_nil _).symm
  | cons e es ih =>
    show ((e.perform l).after es).installed = _
    rw [ih (distinctNames_perform e h), installed_perform e h, installations, List.map_append, List.append_assoc]

/-- What a history installs waited before it, or was handed over. -/
theorem handedOver_of_mem_installations {es : List Event} (h : l.DistinctNames) (hv : v ∈ l.installations es) :
    v ∈ l.pending ∨ .addVocabulary v ∈ es := by
  induction es generalizing l with
  | nil => cases hv
  | cons e es ih =>
    rcases List.mem_append.1 hv with hv | hv
    · exact Or.inl (Event.mem_installations hv).1
    · rcases ih (distinctNames_perform e h) hv with hwaits | hadded
      · exact (mem_pending_perform h hwaits).imp_right fun he => by simp [he]
      · exact Or.inr (List.mem_cons_of_mem e hadded)

theorem distinctNames_baseline : baseline.DistinctNames := by
  unfold DistinctNames pendingNames
  rw [pending_baseline]
  decide +kernel

/-! ## Laws -/

/-- The name, and no other one, moves from those that wait to the installed ones. -/
structure Moves (name : String) (l l' : Lexicon) : Prop where
  waits : name ∈ l.pendingNames
  pending : l'.pendingNames = l.pendingNames.erase name
  installed : l'.installed = l.installed ++ [name]

/-- An installation moves the name of the vocabulary. -/
theorem moves_install (h : l.DistinctNames) (hv : v ∈ l.pending) : Moves v.name l (l.install v) where
  waits := List.mem_map_of_mem hv
  pending := by rw [pendingNames_install, h.pending.erase_eq_filter]
  installed := installed_install l v

/-- **Asking for one module says that it installed exactly when it moved the name**, and changes nothing otherwise. -/
theorem ensure_moves (h : l.DistinctNames) (host : LoadedModules) (name : String) :
    ((∃ l', l.ensure host name = .ok (true, l')) ↔ Moves name l ((Event.ensure host name).perform l)) ∧
      ((∀ l', l.ensure host name ≠ .ok (true, l')) → (Event.ensure host name).perform l = l) := by
  rcases ensure_cases h host name with ⟨v, hv, rfl, hok, hone⟩ | ⟨hnot, hsame, -⟩
  · rw [perform_ensure h, hone]
    exact ⟨iff_of_true ⟨l.install v, hok⟩ (moves_install h hv), fun hnot => absurd hok (hnot (l.install v))⟩
  · rw [hsame]
    refine ⟨iff_of_false (not_exists.2 hnot) fun hmoves => ?_, fun _ => rfl⟩
    have hlength := congrArg List.length hmoves.installed
    simp at hlength

/-- The laws of the vocabularies after a history. -/
structure InstalledOnce (es : List Event) : Prop where
  /-- The names that wait and the installed names are all different. -/
  distinct : (baseline.after es).DistinctNames
  /-- The names of the baseline and of all that has been installed, each as often as it has been installed. -/
  installed : (baseline.after es).installed =
    Vocabulary.baselineName :: (baseline.installations es).map Vocabulary.name
  /-- No vocabulary is installed twice. -/
  once : ((baseline.installations es).map Vocabulary.name).Nodup
  /-- What is installed has been handed over. -/
  handedOver : ∀ v ∈ baseline.installations es, .addVocabulary v ∈ es
  /-- Installed names are never lost, whatever follows. -/
  kept : ∀ later, (baseline.after es).installed <+: (baseline.after (es ++ later)).installed
  /-- What the next event installs waited for a module that its host has loaded. -/
  loaded : ∀ e : Event, ∀ v ∈ e.installations (baseline.after es),
    v ∈ (baseline.after es).pending ∧ ∃ host, e.host? = some host ∧ host.contains v.name = true
  /-- An event with a host installs its vocabularies and notes, if anything, the number of modules. -/
  installs : ∀ (e : Event) (host : LoadedModules), e.host? = some host → ∃ n, e.perform (baseline.after es) =
    (e.installations (baseline.after es)).foldl install { baseline.after es with seenCount? := n }
  /-- Any other event leaves the installed names as they are. -/
  others : ∀ e : Event, e.host? = none → (e.perform (baseline.after es)).installed = (baseline.after es).installed
  /-- Asking for a module says that it installed exactly when it moved this one name. -/
  moves : ∀ host name, (∃ l', (baseline.after es).ensure host name = .ok (true, l')) ↔
    Moves name (baseline.after es) (baseline.after (es ++ [.ensure host name]))
  /-- When it says anything else, nothing changes. -/
  unchanged : ∀ host name, (∀ l', (baseline.after es).ensure host name ≠ .ok (true, l')) →
    baseline.after (es ++ [.ensure host name]) = baseline.after es

/-- **Every vocabulary is installed once**, after every history. -/
theorem installedOnce (es : List Event) : InstalledOnce es := by
  have hdistinct : (baseline.after es).DistinctNames := distinctNames_after es distinctNames_baseline
  have hinstalled : (baseline.after es).installed =
      Vocabulary.baselineName :: (baseline.installations es).map Vocabulary.name :=
    installed_after es distinctNames_baseline
  refine
    { distinct := hdistinct
      installed := hinstalled
      once := ?once
      handedOver := ?handedOver
      kept := ?kept
      loaded := fun e v hv => Event.mem_installations hv
      installs := fun e host he => perform_with_host he hdistinct
      others := fun e he => (perform_without_host he _).2.1
      moves := ?moves
      unchanged := ?unchanged }
  case once =>
    have hnodup : (baseline.after es).installed.Nodup := (List.nodup_append.1 hdistinct).2.1
    rw [hinstalled] at hnodup
    exact (List.nodup_cons.1 hnodup).2
  case handedOver =>
    intro v hv
    refine (handedOver_of_mem_installations distinctNames_baseline hv).resolve_left fun hwaits => ?_
    rw [pending_baseline] at hwaits
    cases hwaits
  case kept =>
    intro later
    rw [after_append, installed_after later hdistinct]
    exact List.prefix_append ..
  case moves =>
    intro host name
    rw [after_concat]
    exact (ensure_moves hdistinct host name).1
  case unchanged =>
    intro host name hnot
    rw [after_concat]
    exact (ensure_moves hdistinct host name).2 hnot

end Lexicon
end CallSig
