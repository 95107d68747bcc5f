import CallSig.Proofs.Catalog.Walk
import CallSig.Proofs.Resolution.Installation
import Mathlib.Data.Set.Card

/-!
# `CallSig.Proofs.Resolution.Histories` — the entries of a lexicon after any history

What can be done with a lexicon falls into two kinds. A resolution writes the entries of open tokens only: those that
have none, and those that are marked to be resolved again. Everything else enters values under the tokens it was told,
or leaves the tokens alone. So entries are never lost, the marks stay on placeholders, and every entry is counted once,
by the kind of the event that added it.

## Contents
- **Histories.** `Event`, `perform`, `after`, `after_induction`; `Event.Resolves`, `Event.Installs`, `Event.Registers`.
- **Keys.** `ncard_keys`, `size_insert`.
- **Resolutions.** `SoundMarks`, `Resolved`, `runProperty_resolved`.
- **Registrations.** `Enters`, `loads_induction`, `enters_of_loads`.
- **Events.** `resolved_or_enters`, `loads_of_installs`, `registers_or_reopened`.
- **Counting.** `FirstRegistered`, `size_after`.
- **Laws.** `Lawful`, `history_lawful`.
-/

namespace CallSig
namespace Lexicon

open Text

/-! ## Histories -/

/-- What can be done with a lexicon. -/
inductive Event
  | register (token : String) (value : Value)
  | define (path : String) (value : Value)
  | addAlias (token target : String)
  | addVocabulary (v : Vocabulary)
  | ensure (host : LoadedModules) (name : String)
  | refresh (host : LoadedModules)
  | resolveType (depth : Nat) (scope? : Option String) (token : String)
  | resolveValue (depth : Nat) (type? : Option String) (token : String)
  | lookup (token : String)
  | evaluate (expr : String)
  | takeUnresolved

namespace Event

/-- The lexicon after an event. An installation that fails leaves it as it is. -/
def perform : Event → Lexicon → Lexicon
  | register token value, l => l.register token value
  | define path value, l => l.define path value
  | addAlias token target, l => l.addAlias token target
  | addVocabulary v, l => l.addVocabulary v
  | ensure host name, l =>
    match l.ensure host name with
    | .ok (_, l') => l'
    | .error _ => l
  | refresh host, l => (l.refresh host).2
  | resolveType depth scope? token, l => (Lexicon.resolveType depth scope? token l).2
  | resolveValue depth type? token, l => (Lexicon.resolveValue depth type? token l).2
  | lookup token, l => (l.lookup token).2
  | evaluate expr, l => (l.evaluate expr).2
  | takeUnresolved, l => l.takeUnresolved.2

/-- The event resolves a token. -/
def Resolves : Event → Prop
  | resolveType _ _ _ | resolveValue _ _ _ => True
  | register _ _ | define _ _ | addAlias _ _ | addVocabulary _ | ensure _ _ | refresh _ | lookup _ | evaluate _ |
    takeUnresolved => False

/-- The event installs a vocabulary: it waits before the event, and no longer after it. -/
def Installs (e : Event) (l : Lexicon) (v : Vocabulary) : Prop :=
  v ∈ l.pending ∧ v.name ∉ (e.perform l).pendingNames

/-- The event registers a token: directly, or with a vocabulary that it installs. -/
def Registers (e : Event) (l : Lexicon) (t : String) : Prop :=
  (∃ value, e = register t value) ∨ ∃ v, e.Installs l v ∧ t ∈ v.tokens.map Prod.fst

end Event

/-- The lexicon after a history. -/
def after (l : Lexicon) (es : List Event) : Lexicon := es.foldl (fun l e => e.perform l) l

theorem after_append (l : Lexicon) (es es' : List Event) : l.after (es ++ es') = (l.after es).after es' :=
  List.foldl_append

theorem after_concat (l : Lexicon) (es : List Event) (e : Event) : l.after (es ++ [e]) = e.perform (l.after es) :=
  after_append l es [e]

/-- What outlives every event of a history outlives the history. -/
theorem after_induction {P : Lexicon → Prop} {l : Lexicon} {es : List Event}
    (hperform : ∀ l, P l → ∀ e ∈ es, P (e.perform l)) (h : P l) : P (l.after es) :=
  List.foldlRecOn es (fun l e => e.perform l) h hperform

variable {l l' : Lexicon} {token t : String}

/-! ## Keys -/

theorem ncard_keys {β : Type} (d : Dict β) : {t | t ∈ d.keys}.ncard = d.size := by
  have hnodup : d.keys.Nodup := by
    refine List.Pairwise.imp (fun hlt => ?_) d.pairwise_keys
    rintro rfl
    exact String.lt_irrefl _ hlt
  have hfinset : {t | t ∈ d.keys} = (d.keys.toFinset : Set String) := by
    ext t
    simp
  rw [hfinset, Set.ncard_coe_finset, List.toFinset_card_of_nodup hnodup]
  exact List.length_map ..

theorem finite_keys {β : Type} (d : Dict β) : {t | t ∈ d.keys}.Finite := List.finite_toSet d.keys

/-- A dictionary with more keys has as many more entries. -/
theorem size_eq_add_ncard {β : Type} {d d' : Dict β} (h : ∀ t ∈ d.keys, t ∈ d'.keys) :
    d'.size = ({t | t ∈ d'.keys} \ {t | t ∈ d.keys}).ncard + d.size := by
  have hsubset : {t | t ∈ d.keys} ⊆ {t | t ∈ d'.keys} := h
  rw [← ncard_keys d, ← ncard_keys d', Set.ncard_sdiff_add_ncard_of_subset hsubset (finite_keys d')]

/-- A value under a new key is one more entry. -/
theorem size_insert {β : Type} (d : Dict β) (k : String) (w : β) :
    (d.insert k w).size = if k ∈ d.keys then d.size else d.size + 1 := by
  have hset : {t | t ∈ (d.insert k w).keys} = insert k {t | t ∈ d.keys} := Set.ext fun _ => Dict.mem_keys_insert
  rw [← ncard_keys, hset]
  split
  · next hk =>
    have hk : k ∈ {t | t ∈ d.keys} := hk
    rw [Set.insert_eq_of_mem hk, ncard_keys]
  · next hk =>
    have hk : k ∉ {t | t ∈ d.keys} := hk
    rw [Set.ncard_insert_of_notMem hk (finite_keys d), ncard_keys]

/-! ## Resolutions -/

/-- Every token that is to be resolved again has an entry, and stands for itself. -/
def SoundMarks (l : Lexicon) : Prop := ∀ t ∈ l.retry, ∃ s, l.tokens.get? t = some (.unmapped s)

/-- The entry of the token and its mark are the same in both lexicons. -/
def SameEntry (t : String) (l l' : Lexicon) : Prop :=
  l'.tokens.get? t = l.tokens.get? t ∧ (t ∈ l'.retry ↔ t ∈ l.retry)

theorem SameEntry.known? (h : SameEntry t l l') : l'.known? t = l.known? t := by
  unfold Lexicon.known?
  simp only [List.contains_iff_mem, h.1, h.2]

/-- What resolutions do to the tokens: an entry and its mark stay, or an open token gets an entry without a mark. As
many entries are new as results are counted. -/
structure Resolved (l l' : Lexicon) : Prop where
  aliases : l'.aliases = l.aliases
  pending : l'.pending = l.pending
  entry : ∀ t, SameEntry t l l' ∨ l.known? t = none ∧ (l'.known? t).isSome
  count : SoundMarks l → l'.tokens.size + l.stats.memoized = l.tokens.size + l'.stats.memoized

namespace Resolved

theorem sound (h : Resolved l l') (hs : SoundMarks l) : SoundMarks l' := by
  intro t ht
  rcases h.entry t with ⟨hget, hmark⟩ | ⟨-, hknown⟩
  · rw [hget]
    exact hs t (hmark.1 ht)
  · rw [known?, if_pos (List.contains_iff_mem.2 ht)] at hknown
    cases hknown

theorem mem_keys (h : Resolved l l') (ht : t ∈ l.tokens.keys) : t ∈ l'.tokens.keys := by
  rcases h.entry t with ⟨hget, -⟩ | ⟨-, hknown⟩
  · rw [← Dict.isSome_get?_iff, hget]
    exact Dict.isSome_get?_iff.2 ht
  · obtain ⟨w, hw⟩ := Option.isSome_iff_exists.1 hknown
    exact Dict.mem_keys_of_get? (get?_of_known? hw)

theorem trans {l'' : Lexicon} (h : Resolved l l') (h' : Resolved l' l'') : Resolved l l'' where
  aliases := h'.aliases.trans h.aliases
  pending := h'.pending.trans h.pending
  entry := by
    intro t
    rcases h.entry t with hsame | ⟨hopen, hknown⟩
    · rcases h'.entry t with hsame' | ⟨hopen', hknown'⟩
      · exact Or.inl ⟨hsame'.1.trans hsame.1, hsame'.2.trans hsame.2⟩
      · exact Or.inr ⟨by rw [← hsame.known?, hopen'], hknown'⟩
    · rcases h'.entry t with hsame' | ⟨hopen', -⟩
      · exact Or.inr ⟨hopen, by rw [hsame'.known?]; exact hknown⟩
      · rw [hopen'] at hknown
        cases hknown
  count := fun hs => by
    have h₁ := h.count hs
    have h₂ := h'.count (h.sound hs)
    omega

theorem of_counted (h : Counted l l') : Resolved l l' where
  aliases := by rw [h]
  pending := by rw [h]
  entry := fun t => Or.inl ⟨by rw [h], by rw [h]⟩
  count := fun _ => by rw [h]

end Resolved

theorem Resolved.recordMiss (l : Lexicon) (miss : Miss) : Resolved l (l.recordMiss miss) :=
  ⟨rfl, rfl, fun _ => Or.inl ⟨rfl, Iff.rfl⟩, fun _ => rfl⟩

/-- Keeping a result writes the entry of an open token. -/
theorem Resolved.memoize (l : Lexicon) (token : String) (v : Value) : Resolved l (l.memoize token v) := by
  cases hk : l.known? token with
  | some w =>
    rw [memoize_of_known hk]
    exact .of_counted (.refl l)
  | none =>
    obtain ⟨tokens, retry, stats, hm⟩ := memoize_eq l token v
    refine ⟨by rw [hm], by rw [hm], fun t => ?_, fun hs => ?_⟩
    · by_cases ht : token = t
      · subst ht
        exact Or.inr ⟨hk, by rw [known?_memoize, if_pos rfl]; rfl⟩
      · obtain ⟨stats, hm⟩ := memoize_of_unknown hk v
        refine Or.inl ⟨by rw [get?_memoize, if_neg ht], ?_⟩
        rw [hm]
        show t ∈ l.retry.filter (· != token) ↔ _
        simp [Ne.symm ht]
    · unfold Lexicon.memoize
      split
      · next hr =>
        -- a marked token has an entry already
        obtain ⟨s, hs⟩ := hs token (List.contains_iff_mem.1 hr)
        show (l.tokens.insert token v).size + _ = _
        rw [size_insert, if_pos (Dict.mem_keys_of_get? hs)]
        rfl
      · split
        · rfl
        · next hc =>
          rw [Dict.contains_eq, List.contains_iff_mem] at hc
          show (l.tokens.insert token v).size + _ = l.tokens.size + (l.stats.memoized + 1)
          rw [size_insert, if_neg hc, Nat.add_right_comm, Nat.add_assoc]

theorem evolution_resolved (T : String → Prop) : Evolution T Resolved where
  trans := Resolved.trans
  counted := Resolved.of_counted
  aliases := Resolved.aliases
  settled := by
    intro l l' token _ _ h reason found
    cases found with
    | some value => exact h.trans (Resolved.memoize l' token value)
    | none => exact (h.trans (Resolved.recordMiss l' _)).trans (Resolved.memoize _ token _)

theorem runProperty_resolved (depth : Nat) : RunProperty depth fun m => ∀ l, Resolved l (m l).2 :=
  (evolution_resolved fun t => trimmed t = t).runProperty
    (fun _ => ⟨rfl, rfl, fun _ => Or.inl ⟨rfl, Iff.rfl⟩, fun _ => rfl⟩) depth

/-! ## Registrations -/

/-- Values are entered under these tokens only, and the other entries stay. -/
structure Enters (T : String → Prop) (l l' : Lexicon) : Prop where
  mem_keys : ∀ {t}, t ∈ l.tokens.keys → t ∈ l'.tokens.keys
  other : ∀ {t}, ¬T t → l'.tokens.get? t = l.tokens.get? t
  sound : SoundMarks l → SoundMarks l'
  memoized : l'.stats.memoized = l.stats.memoized

namespace Enters

variable {T T' : String → Prop}

theorem of_same (ht : l'.tokens = l.tokens) (hr : l'.retry = l.retry) (hm : l'.stats.memoized = l.stats.memoized) :
    Enters T l l' where
  mem_keys := fun h => by rwa [ht]
  other := fun _ => by rw [ht]
  sound := fun hs t h => by
    rw [ht]
    exact hs t (by rwa [hr] at h)
  memoized := hm

theorem mono (h : Enters T l l') (hT : ∀ {t}, T t → T' t) : Enters T' l l' where
  mem_keys := h.mem_keys
  other := fun ht => h.other fun h => ht (hT h)
  sound := h.sound
  memoized := h.memoized

theorem trans {l'' : Lexicon} (h : Enters T l l') (h' : Enters T l' l'') : Enters T l l'' where
  mem_keys := fun ht => h'.mem_keys (h.mem_keys ht)
  other := fun ht => (h'.other ht).trans (h.other ht)
  sound := fun hs => h'.sound (h.sound hs)
  memoized := h'.memoized.trans h.memoized

theorem register (l : Lexicon) (token : String) (v : Value) : Enters (token = ·) l (l.register token v) where
  mem_keys := fun ht => Dict.mem_keys_insert.2 (Or.inr ht)
  other := fun ht => by rw [get?_register, if_neg ht]
  sound := by
    intro hs t ht
    obtain ⟨hmem, hne⟩ := List.mem_filter.1 ht
    rw [get?_register, if_neg fun he => by simp [he] at hne]
    exact hs t hmem
  memoized := rfl

theorem foldl_register (es : List (String × Value)) (l : Lexicon) :
    Enters (· ∈ es.map Prod.fst) l (es.foldl (fun l e => l.register e.1 e.2) l) := by
  induction es generalizing l with
  | nil => exact of_same rfl rfl rfl
  | cons e es ih =>
    have hfirst : Enters (· ∈ (e :: es).map Prod.fst) l (l.register e.1 e.2) :=
      (register l e.1 e.2).mono fun he => he ▸ List.mem_cons_self
    exact hfirst.trans ((ih (l.register e.1 e.2)).mono fun ht => List.mem_cons_of_mem _ ht)

/-- Only placeholders are marked. -/
theorem retryMissed (l : Lexicon) : Enters T l l.retryMissed where
  mem_keys := id
  other := fun _ => rfl
  sound := by
    intro hs t ht
    rcases List.mem_append.1 ht with ht | ht
    · exact hs t ht
    · have hplace : l.isPlaceholder t = true := by
        have hboth := (List.mem_filter.1 ht).2
        rw [Bool.and_eq_true] at hboth
        exact hboth.1
      unfold isPlaceholder at hplace
      cases hget : l.tokens.get? t with
      | none =>
        rw [hget] at hplace
        cases hplace
      | some w =>
        rw [hget] at hplace
        cases w with
        | unmapped s => exact ⟨s, hget⟩
        | type | former | output | arrayLike | literal | constant | sentinel => cases hplace
  memoized := rfl

theorem addEntries (l : Lexicon) (v : Vocabulary) : Enters (· ∈ v.tokens.map Prod.fst) l (l.addEntries v) := by
  let defined := v.definitions.foldl (fun l e => l.define e.1 e.2) l
  let entered := v.tokens.foldl (fun l e => l.register e.1 e.2) defined
  have hdefined : Enters (· ∈ v.tokens.map Prod.fst) l defined := by
    show Enters _ l (v.definitions.foldl (fun l e => l.define e.1 e.2) l)
    rw [foldl_define]
    exact of_same rfl rfl rfl
  have haliases : Enters (· ∈ v.tokens.map Prod.fst) entered
      (v.aliases.foldl (fun l e => l.addAlias e.1 e.2) entered) := by
    rw [foldl_addAlias]
    exact of_same rfl rfl rfl
  exact (hdefined.trans (foldl_register v.tokens defined)).trans haliases

/-- A vocabulary enters its tokens. -/
theorem install (l : Lexicon) (v : Vocabulary) : Enters (· ∈ v.tokens.map Prod.fst) l (l.install v) := by
  let waiting := { l with pending := l.pending.filter (·.name != v.name) }
  let named := { waiting.addEntries v with installed := (waiting.addEntries v).installed ++ [v.name] }
  have hwaiting : Enters (· ∈ v.tokens.map Prod.fst) l waiting := of_same rfl rfl rfl
  have hnamed : Enters (· ∈ v.tokens.map Prod.fst) (waiting.addEntries v) named := of_same rfl rfl rfl
  exact ((hwaiting.trans (addEntries waiting v)).trans hnamed).trans (retryMissed named)

end Enters

/-- The event installs vocabularies if their modules are loaded. -/
def Event.Loads : Event → Prop
  | ensure _ _ | refresh _ => True
  | register _ _ | define _ _ | addAlias _ _ | addVocabulary _ | resolveType _ _ _ | resolveValue _ _ _ | lookup _ |
    evaluate _ | takeUnresolved => False

theorem ensure_induction {P : Lexicon → Prop} (hinstall : ∀ l v, P l → v ∈ l.pending → P (l.install v)) (h : P l)
    {host : LoadedModules} {name : String} {found : Bool × Lexicon} (he : l.ensure host name = .ok found) :
    P found.2 := by
  unfold ensure at he
  split at he
  · cases he
    exact h
  · split at he
    · cases he
    · next v hv =>
      split at he
      · cases he
        exact hinstall l v h (List.mem_of_find?_eq_some hv)
      · cases he

/-- What single installations keep, loading modules keeps. -/
theorem install_induction {P : Lexicon → Prop} (hinstall : ∀ l v, P l → v ∈ l.pending → P (l.install v))
    (hseen : ∀ l n, P l → P { l with seenCount? := n }) {e : Event} (he : e.Loads) (h : P l) : P (e.perform l) := by
  have hall (host : LoadedModules) (names : List String) : ∀ l, P l → P (l.ensureAll host names).2 := by
    induction names with
    | nil => exact fun _ h => h
    | cons name names ih =>
      intro l h
      unfold ensureAll
      split
      · next l' hl => exact ih l' (ensure_induction hinstall h hl)
      · next l' hl => exact ih l' (ensure_induction hinstall h hl)
      · exact ih l h
  cases e with
  | ensure host name =>
    show P (match l.ensure host name with
      | .ok (_, l') => l'
      | .error _ => l)
    split
    · next l' hl => exact ensure_induction hinstall h hl
    · exact h
  | refresh host =>
    show P (l.refresh host).2
    unfold Lexicon.refresh
    split
    · exact h
    · exact hall host _ _ (hseen l _ h)
  | register | define | addAlias | addVocabulary | resolveType | resolveValue | lookup | evaluate | takeUnresolved =>
    exact he.elim

theorem mem_pendingNames_install {v : Vocabulary} {name : String} :
    name ∈ (l.install v).pendingNames ↔ name ∈ l.pendingNames ∧ name ≠ v.name := by
  unfold pendingNames
  rw [pending_install]
  simp only [List.mem_map, List.mem_filter, bne_iff_ne]
  constructor
  · rintro ⟨w, ⟨hw, hne⟩, rfl⟩
    exact ⟨⟨w, hw, rfl⟩, hne⟩
  · rintro ⟨⟨w, hw, rfl⟩, hne⟩
    exact ⟨w, ⟨hw, hne⟩, rfl⟩

/-- **What the installations of an event keep, the event keeps.** -/
theorem loads_induction {P : Lexicon → Prop} {e : Event} (he : e.Loads)
    (hinstall : ∀ l' v, P l' → e.Installs l v → P (l'.install v))
    (hseen : ∀ l' n, P l' → P { l' with seenCount? := n }) (h : P l) : P (e.perform l) := by
  -- what waits no longer on the way does not wait at the end
  let Gone (l' : Lexicon) := ∀ v ∈ l.pending, v.name ∉ l'.pendingNames → v.name ∉ (e.perform l).pendingNames
  let Q (l' : Lexicon) := l'.pending ⊆ l.pending ∧ (Gone l' → P l')
  have hstep (l' : Lexicon) (v : Vocabulary) (hl' : Q l') (hv : v ∈ l'.pending) : Q (l'.install v) := by
    refine ⟨?_, fun hgone => ?_⟩
    · rw [pending_install]
      exact fun w hw => hl'.1 (List.mem_filter.1 hw).1
    · refine hinstall l' v (hl'.2 fun w hw hname => hgone w hw ?_) ⟨hl'.1 hv, hgone v (hl'.1 hv) ?_⟩
      · exact fun hmem => hname (mem_pendingNames_install.1 hmem).1
      · exact fun hmem => (mem_pendingNames_install.1 hmem).2 rfl
  have hcount (l' : Lexicon) (n : Option Nat) (hl' : Q l') : Q { l' with seenCount? := n } :=
    ⟨hl'.1, fun hgone => hseen l' n (hl'.2 hgone)⟩
  have hend : Q (e.perform l) := install_induction hstep hcount he ⟨List.Subset.refl _, fun _ => h⟩
  exact hend.2 fun _ _ hname => hname

/-- Loading modules enters the tokens of the vocabularies that are installed. -/
theorem enters_of_loads (e : Event) (he : e.Loads) (l : Lexicon) : Enters (e.Registers l) l (e.perform l) :=
  loads_induction he (fun l' v h hv => h.trans ((Enters.install l' v).mono fun ht => Or.inr ⟨v, hv, ht⟩))
    (fun _ _ h => h.trans (.of_same rfl rfl rfl)) (.of_same rfl rfl rfl)

/-! ## Events -/

/-- **Every event is of one of two kinds.** -/
theorem resolved_or_enters (e : Event) (l : Lexicon) :
    e.Resolves ∧ Resolved l (e.perform l) ∨ ¬e.Resolves ∧ Enters (e.Registers l) l (e.perform l) := by
  cases e with
  | resolveType depth scope? token => exact Or.inl ⟨trivial, (runProperty_resolved depth).resolveType scope? token l⟩
  | resolveValue depth type? token => exact Or.inl ⟨trivial, (runProperty_resolved depth).resolveValue type? token l⟩
  | register token value =>
    refine Or.inr ⟨id, (Enters.register l token value).mono ?_⟩
    rintro t rfl
    exact Or.inl ⟨value, rfl⟩
  | ensure host name => exact Or.inr ⟨id, enters_of_loads (.ensure host name) trivial l⟩
  | refresh host => exact Or.inr ⟨id, enters_of_loads (.refresh host) trivial l⟩
  | addVocabulary v =>
    refine Or.inr ⟨id, ?_⟩
    show Enters _ l (l.addVocabulary v)
    unfold Lexicon.addVocabulary
    split
    · exact .of_same rfl rfl rfl
    · exact .of_same rfl rfl rfl
  | define | addAlias | lookup | evaluate | takeUnresolved => exact Or.inr ⟨id, .of_same rfl rfl rfl⟩

/-- Only loading modules takes vocabularies away from those that wait. -/
theorem pending_subset_perform {e : Event} (he : ¬e.Loads) (l : Lexicon) : l.pending ⊆ (e.perform l).pending := by
  cases e with
  | ensure | refresh => exact absurd trivial he
  | resolveType depth scope? token =>
    have hsame := ((runProperty_resolved depth).resolveType scope? token l).pending
    exact fun w hw => hsame.symm ▸ hw
  | resolveValue depth type? token =>
    have hsame := ((runProperty_resolved depth).resolveValue type? token l).pending
    exact fun w hw => hsame.symm ▸ hw
  | addVocabulary v =>
    show l.pending ⊆ (l.addVocabulary v).pending
    unfold Lexicon.addVocabulary
    split
    · exact List.Subset.refl _
    · exact List.subset_append_left ..
  | register | define | addAlias | lookup | evaluate | takeUnresolved => exact List.Subset.refl _

theorem loads_of_installs {e : Event} {v : Vocabulary} (h : e.Installs l v) : e.Loads :=
  Classical.byContradiction fun hnot => h.2 (List.mem_map_of_mem (pending_subset_perform hnot l h.1))

/-- A resolution registers nothing. -/
theorem not_registers_of_resolves {e : Event} (he : e.Resolves) : ¬e.Registers l t := by
  rintro (⟨value, rfl⟩ | ⟨v, hv, -⟩)
  · exact he
  · have hloads := loads_of_installs hv
    cases e with
    | ensure | refresh => exact he
    | register | define | addAlias | addVocabulary | resolveType | resolveValue | lookup | evaluate | takeUnresolved =>
      exact hloads

theorem sound_perform (e : Event) (h : SoundMarks l) : SoundMarks (e.perform l) := by
  rcases resolved_or_enters e l with ⟨-, hr⟩ | ⟨-, he⟩
  · exact hr.sound h
  · exact he.sound h

theorem mem_keys_perform (e : Event) (h : t ∈ l.tokens.keys) : t ∈ (e.perform l).tokens.keys := by
  rcases resolved_or_enters e l with ⟨-, hr⟩ | ⟨-, he⟩
  · exact hr.mem_keys h
  · exact he.mem_keys h

/-- Entries are never lost. -/
theorem mem_keys_after (es : List Event) (h : t ∈ l.tokens.keys) : t ∈ (l.after es).tokens.keys := by
  induction es generalizing l with
  | nil => exact h
  | cons e es ih => exact ih (mem_keys_perform e h)

/-- The marks stay on placeholders. -/
theorem sound_after (es : List Event) (h : SoundMarks l) : SoundMarks (l.after es) := by
  induction es generalizing l with
  | nil => exact h
  | cons e es ih => exact ih (sound_perform e h)

/-- An entry changes by a registration, or by a resolution that takes its mark away. -/
theorem registers_or_reopened {v : Value} (e : Event) (ht : l.tokens.get? t = some v)
    (hne : (e.perform l).tokens.get? t ≠ some v) :
    e.Registers l t ∨ e.Resolves ∧ t ∈ l.retry ∧ t ∉ (e.perform l).retry := by
  rcases resolved_or_enters e l with ⟨hresolves, hr⟩ | ⟨-, he⟩
  · rcases hr.entry t with ⟨hget, -⟩ | ⟨hopen, hknown⟩
    · exact absurd (hget.trans ht) hne
    · refine Or.inr ⟨hresolves, ?_, fun hmark => ?_⟩
      · unfold known? at hopen
        split at hopen
        · next hmark => exact List.contains_iff_mem.1 hmark
        · rw [ht] at hopen
          cases hopen
      · rw [known?, if_pos (List.contains_iff_mem.2 hmark)] at hknown
        cases hknown
  · refine Or.inl (Classical.byContradiction fun hnot => hne ?_)
    rw [he.other hnot, ht]

/-! ## Counting -/

/-- The token has been added by a registration: by the baseline, or by the first event after which it has an entry. -/
def FirstRegistered (es : List Event) (t : String) : Prop :=
  t ∈ baseline.tokens.keys ∨ ∃ before e later, es = before ++ e :: later ∧
    t ∉ (baseline.after before).tokens.keys ∧ t ∈ (e.perform (baseline.after before)).tokens.keys ∧
    e.Registers (baseline.after before) t

theorem firstRegistered_concat (es : List Event) (e : Event) (t : String) :
    FirstRegistered (es ++ [e]) t ↔ FirstRegistered es t ∨ t ∉ (baseline.after es).tokens.keys ∧
      t ∈ (e.perform (baseline.after es)).tokens.keys ∧ e.Registers (baseline.after es) t := by
  constructor
  · rintro (hbase | ⟨before, e', later, hsplit, hadded⟩)
    · exact Or.inl (Or.inl hbase)
    · rcases List.eq_nil_or_concat later with rfl | ⟨later, last, rfl⟩
      · obtain ⟨rfl, he⟩ := List.append_inj' hsplit rfl
        cases he
        exact Or.inr hadded
      · have hsplit : es ++ [e] = (before ++ e' :: later) ++ [last] := by rw [hsplit]; simp
        obtain ⟨rfl, -⟩ := List.append_inj' hsplit rfl
        exact Or.inl (Or.inr ⟨before, e', later, rfl, hadded⟩)
  · rintro ((hbase | ⟨before, e', later, rfl, hadded⟩) | hadded)
    · exact Or.inl hbase
    · exact Or.inr ⟨before, e', later ++ [e], by simp, hadded⟩
    · exact Or.inr ⟨es, e, [], rfl, hadded⟩

theorem mem_keys_of_firstRegistered {es : List Event} (h : FirstRegistered es t) :
    t ∈ (baseline.after es).tokens.keys := by
  rcases h with hbase | ⟨before, e, later, rfl, -, hadded, -⟩
  · exact mem_keys_after es hbase
  · rw [after_append]
    exact mem_keys_after later hadded

theorem pending_baseline : baseline.pending = [] := by
  obtain ⟨definitions, tokens, retry, h⟩ := baseline_eq
  rw [h]
  rfl

theorem soundMarks_baseline : SoundMarks baseline := by
  have hretry : baseline.retry = [] := by decide +kernel
  intro t ht
  rw [hretry] at ht
  cases ht

/-- **Every entry is counted once**: as the first registration of its token, or as a kept result. -/
theorem size_after (es : List Event) :
    (baseline.after es).tokens.size = {t | FirstRegistered es t}.ncard + (baseline.after es).stats.memoized := by
  induction es using List.reverseRecOn with
  | nil =>
    have hbase : {t | FirstRegistered [] t} = {t | t ∈ baseline.tokens.keys} := by
      ext t
      refine ⟨mem_keys_of_firstRegistered, Or.inl⟩
    have hmemoized : baseline.stats.memoized = 0 := by decide +kernel
    show baseline.tokens.size = _ + baseline.stats.memoized
    rw [hbase, ncard_keys, hmemoized, Nat.add_zero]
  | append_singleton es e ih =>
    rw [after_concat]
    rcases resolved_or_enters e (baseline.after es) with ⟨hresolves, hr⟩ | ⟨-, he⟩
    · have hsame : {t | FirstRegistered (es ++ [e]) t} = {t | FirstRegistered es t} := by
        ext t
        show FirstRegistered (es ++ [e]) t ↔ FirstRegistered es t
        rw [firstRegistered_concat]
        exact or_iff_left fun h => not_registers_of_resolves hresolves h.2.2
      have hcount := hr.count (sound_after es soundMarks_baseline)
      rw [hsame]
      omega
    · let old := {t | t ∈ (baseline.after es).tokens.keys}
      let added := {t | t ∈ (e.perform (baseline.after es)).tokens.keys} \ old
      -- every new entry comes from a registration
      have hregisters {t : String} (h : t ∈ added) : e.Registers (baseline.after es) t := by
        refine Classical.byContradiction fun hnot => h.2 ?_
        show t ∈ (baseline.after es).tokens.keys
        rw [← Dict.isSome_get?_iff, ← he.other hnot]
        exact Dict.isSome_get?_iff.2 h.1
      have hfirst : {t | FirstRegistered (es ++ [e]) t} = {t | FirstRegistered es t} ∪ added := by
        ext t
        show FirstRegistered (es ++ [e]) t ↔ FirstRegistered es t ∨ t ∈ added
        rw [firstRegistered_concat]
        exact or_congr_right ⟨fun h => ⟨h.2.1, h.1⟩, fun h => ⟨h.2, h.1, hregisters h⟩⟩
      have hsubset : {t | FirstRegistered es t} ⊆ old := fun t => mem_keys_of_firstRegistered
      have hdisjoint : Disjoint {t | FirstRegistered es t} added :=
        Set.disjoint_left.2 fun t hold hadded => hadded.2 (hsubset hold)
      have hsize : (e.perform (baseline.after es)).tokens.size = added.ncard + (baseline.after es).tokens.size :=
        size_eq_add_ncard fun t ht => he.mem_keys ht
      rw [hfirst, Set.ncard_union_eq hdisjoint ((finite_keys _).subset hsubset) (finite_keys _).sdiff, he.memoized]
      omega

/-! ## Laws -/

/-- The laws of the entries after a history. -/
structure Lawful (es : List Event) : Prop where
  /-- No entry is removed, whatever follows. -/
  kept : ∀ later t, t ∈ (baseline.after es).tokens.keys → t ∈ (baseline.after (es ++ later)).tokens.keys
  /-- A token that is to be resolved again has an entry, and stands for itself. -/
  marked : ∀ t ∈ (baseline.after es).retry, ∃ s, (baseline.after es).tokens.get? t = some (.unmapped s)
  /-- The next event changes an entry by registering its token, or by a resolution that takes its mark away. -/
  changed : ∀ e t v, (baseline.after es).tokens.get? t = some v →
    (baseline.after (es ++ [e])).tokens.get? t ≠ some v →
    e.Registers (baseline.after es) t ∨
      e.Resolves ∧ t ∈ (baseline.after es).retry ∧ t ∉ (baseline.after (es ++ [e])).retry
  /-- The entries are the tokens first added by a registration, and the results kept. -/
  counted : (baseline.after es).tokens.size = {t | FirstRegistered es t}.ncard + (baseline.after es).stats.memoized

/-- **The entries of a lexicon only grow, and its marks are sound**, after every history. -/
theorem history_lawful (es : List Event) : Lawful es where
  kept := by
    intro later t ht
    rw [after_append]
    exact mem_keys_after later ht
  marked := sound_after es soundMarks_baseline
  changed := by
    intro e t v ht hne
    rw [after_concat] at hne ⊢
    exact registers_or_reopened e ht hne
  counted := size_after es

end Lexicon
end CallSig
