import CallSig.Proofs.Resolution.Evolution

/-!
# `CallSig.Proofs.Resolution.Shadowing` — one run over two lexicons

The same questions are asked twice: over a lexicon, and over that lexicon with entries that other questions left
in it. The second run finds some tokens where the first has to resolve them, because they have no entry or one that is
marked to be resolved again. It gives the same answers if the other entries are compatible: a token that both sides
resolve has one value, and whatever its resolution would have left behind is there as well.

## Contents
- **Keeping.** `Kept`, `kept_perform`, `known?_typeAt`: a token's entry is the value that was returned.
- **Compatible entries.** `Plan.asked`, `Compatible`, `compatible_of_disjoint`.
- **Shadows.** `Shadows`, `Shadows.settled_both`, `Shadows.settled_covered`.
- **Runs.** `Follows`, `follows_bind`, `typeAt_covered`, `follows_typeAt`, `follows_resolveType`,
  `follows_whole`.
-/

namespace CallSig
namespace Lexicon

open Text

variable {l l' : Lexicon} {token : String} {depth : Nat} {scope? : Option String}

/-! ## Keeping -/

/-- The entries of a lexicon are entries of another one. -/
def Kept (l l' : Lexicon) : Prop := ∀ t v, l.known? t = some v → l'.known? t = some v

theorem Kept.trans {l'' : Lexicon} (h : Kept l l') (h' : Kept l' l'') : Kept l l'' := fun t v hk => h' t v (h t v hk)

theorem Kept.of_counted (h : Counted l l') : Kept l l' := fun t v hk => by rwa [h.known?]

/-- What the later lexicon has no entry for, the earlier one has none for. -/
theorem Kept.unknown (h : Kept l l') (hn : l'.known? token = none) : l.known? token = none := by
  cases hk : l.known? token with
  | none => rfl
  | some v =>
    rw [h token v hk] at hn
    cases hn

theorem Grows.keeps (h : Grows l l') : Kept l l' := fun _ _ hk => h.kept hk

theorem kept_perform {plan : Plan} (hp : plan.Asks fun p => trimmed p = p) (hops : Nat) (l : Lexicon) :
    Kept l (plan.perform (typeAt depth scope? hops) token l).2 := by
  induction plan generalizing l with
  | finish search reason =>
    show Kept l (settle token search reason l).2
    rw [settle_eq]
    intro t v hk
    exact known?_settled_of_known (Kept.of_counted (search.counted l) t v hk) token reason _
  | ask part next ih =>
    exact (grows_typeAt depth scope? hops hp.1 l).keeps.trans (ih _ (hp.2 _) _)

/-- Resolving shorter tokens does not touch a token's entry. -/
theorem evolution_frame (token : String) : Evolution (fun t => trimmed t = t ∧ t.length < token.length)
    fun l l' => l'.aliases = l.aliases ∧ l'.known? token = l.known? token where
  trans := fun h h' => ⟨h'.1.trans h.1, h'.2.trans h.2⟩
  counted := fun h => ⟨h.aliases, by rw [h.known?]⟩
  aliases := fun h => h.1
  settled := by
    intro l l' t ht _ h reason found
    refine ⟨(aliases_settled _ _ reason found).trans h.1, ?_⟩
    -- the token that is settled is shorter, so it is another one
    rw [known?_settled, if_neg]
    · exact h.2
    · rintro rfl
      exact Nat.lt_irrefl _ ht.2

/-- Without aliases, **the value that resolution returns is the entry it leaves**. -/
theorem known?_typeAt (hno : ∀ t, l.aliases.get? t = none) (ht : trimmed token = token) (depth : Nat)
    (scope? : Option String) (hops : Nat) :
    (typeAt depth scope? hops token l).2.known? token = some (typeAt depth scope? hops token l).1 := by
  cases hk : l.known? token with
  | some v =>
    rw [typeAt_hit hk, (counted_cached l token).known?]
    exact hk
  | none =>
    have hsettle (search : Search) (reason : MissReason) {l₁ : Lexicon} (h : l₁.known? token = none) :
        (settle token search reason l₁).2.known? token = some (settle token search reason l₁).1 := by
      rw [settle_eq, known?_settled, if_pos rfl, (search.counted l₁).known?, h]
      rfl
    have hk' : (l.cached token).2.known? token = none := by rw [(counted_cached l token).known?, hk]
    cases hops with
    | zero =>
      rw [typeAt_zero_miss hk, known?_settled, if_pos rfl, hk']
      rfl
    | succ hops =>
      rw [typeAt_succ_miss hk ht]
      -- what the plan asks for is shorter than the token, so the entry is still open when it is settled
      have hframe {plan : Plan} {l₁ : Lexicon} (hal : l₁.aliases = l.aliases) (h₁ : l₁.known? token = none)
          (hp : plan.Asks fun t => trimmed t = t ∧ t.length < token.length) :
          (plan.perform (typeAt depth scope? hops) token l₁).2.known? token =
            some (plan.perform (typeAt depth scope? hops) token l₁).1 := by
        induction plan generalizing l₁ with
        | finish search reason => exact hsettle search reason h₁
        | ask part next ih =>
          have hclosed : Closed l₁.aliases depth fun t => trimmed t = t ∧ t.length < token.length := by
            rw [hal]
            exact closed_shorter hno depth _
          obtain ⟨hal₂, h₂⟩ := (evolution_frame token).typeAt hclosed scope? hops hp.1
          exact ih _ (hal₂.trans hal) (h₂.trans h₁) (hp.2 _)
      refine hframe (counted_cached l token).aliases hk' (Plan.asks_ofToken ?_ ?_)
      · intro p hp
        exact TypeShape.mem_parts_ofToken hp
      · intro text target h
        rw [hno] at h
        cases h

/-! ## Compatible entries -/

/-- The tokens that a plan asks for when its questions are answered like this, up to the first one without an
answer. -/
def Plan.asked (answer : String → Option Value) : Plan → List String
  | finish _ _ => []
  | ask part next => part :: match answer part with
    | some value => (next value).asked answer
    | none => []

/-- What two runs from one lexicon leave, as far as it matters for repeating the second after the first. It matters for
the tokens that a run may resolve: those that have no entry at the start, and those whose entry is marked to be resolved
again. -/
structure Compatible (depth : Nat) (start first second : Lexicon) : Prop where
  /-- Such a token that both resolve has one value. -/
  same : ∀ {t x y}, start.known? t = none → first.known? t = some x → second.known? t = some y → x = y
  /-- What the second asks for on the way to such a token, the first resolves too. -/
  parts : ∀ {t}, start.known? t = none → (first.known? t).isSome → (second.known? t).isSome →
    ∀ p ∈ (Plan.ofToken start.aliases depth none t).asked second.known?,
      (second.known? p).isSome → (first.known? p).isSome
  /-- The first leaves the zeros of builtin types as they are. -/
  zeros : ∀ b : Builtin, first.tokens.get? (Vocabulary.zeroToken b.name) =
    start.tokens.get? (Vocabulary.zeroToken b.name)

/-- Runs that resolve no token in common are compatible, if the first leaves the zeros alone. -/
theorem compatible_of_disjoint {start first second : Lexicon}
    (hd : ∀ t ∈ first.tokens.keys, start.known? t = none → t ∉ second.tokens.keys)
    (hz : ∀ b : Builtin, first.tokens.get? (Vocabulary.zeroToken b.name) =
      start.tokens.get? (Vocabulary.zeroToken b.name)) : Compatible depth start first second := by
  have hboth {t : String} {x y : Value} (hs : start.known? t = none) (hx : first.known? t = some x)
      (hy : second.known? t = some y) : False :=
    hd t (Dict.mem_keys_of_get? (get?_of_known? hx)) hs (Dict.mem_keys_of_get? (get?_of_known? hy))
  refine ⟨fun hs hx hy => (hboth hs hx hy).elim, ?_, hz⟩
  intro t hs hx hy
  obtain ⟨x, hx⟩ := Option.isSome_iff_exists.1 hx
  obtain ⟨y, hy⟩ := Option.isSome_iff_exists.1 hy
  exact (hboth hs hx hy).elim

/-! ## Shadows -/

/-- A lexicon `w` that knows what `s` knows and what `first` left, and nothing else. Both come out of `start`. -/
structure Shadows (start first s w : Lexicon) : Prop where
  definitions : w.definitions = s.definitions
  aliases : w.aliases = s.aliases
  startAliases : s.aliases = start.aliases
  old : Kept start s
  known : Kept s w
  left : Kept first w
  nothingElse : ∀ {t v}, w.known? t = some v → s.known? t = some v ∨ first.known? t = some v
  zeros : ∀ b : Builtin, s.tokens.get? (Vocabulary.zeroToken b.name) = w.tokens.get? (Vocabulary.zeroToken b.name)

variable {start first second s w : Lexicon}

namespace Shadows

theorem counted {s' w' : Lexicon} (h : Shadows start first s w) (hs : Counted s s') (hw : Counted w w') :
    Shadows start first s' w' where
  definitions := by rw [hw.definitions, hs.definitions, h.definitions]
  aliases := by rw [hw.aliases, hs.aliases, h.aliases]
  startAliases := hs.aliases.trans h.startAliases
  old := h.old.trans (.of_counted hs)
  known := by
    intro t v hk
    rw [hs.known?] at hk
    rw [hw.known?]
    exact h.known t v hk
  left := h.left.trans (.of_counted hw)
  nothingElse := by
    intro t v hk
    rw [hw.known?] at hk
    rw [hs.known?]
    exact h.nothingElse hk
  zeros := by
    intro b
    rw [hs, hw]
    exact h.zeros b

theorem unknown (h : Shadows start first s w) (hw : w.known? token = none) :
    s.known? token = none ∧ first.known? token = none :=
  ⟨h.known.unknown hw, h.left.unknown hw⟩

theorem start_unknown (h : Shadows start first s w) (hs : s.known? token = none) : start.known? token = none :=
  h.old.unknown hs

/-- Both runs settle a token that the first one does not know. -/
theorem settled_both (h : Shadows start first s w) (hn : first.known? token = none) (reason : MissReason)
    (found : Option Value) : Shadows start first (s.settled token reason found) (w.settled token reason found) := by
  have hsame : s.known? token = w.known? token := by
    cases hw : w.known? token with
    | some v =>
      rcases h.nothingElse hw with hs | hf
      · exact hs
      · rw [hn] at hf
        cases hf
    | none => exact (h.unknown hw).1
  -- the two lexicons give the token one entry, since the value that was there before is the same
  refine ⟨?_, ?_, ?_, ?_, ?_, ?_, ?_, ?_⟩
  · rw [definitions_settled, definitions_settled, h.definitions]
  · rw [aliases_settled, aliases_settled, h.aliases]
  · rw [aliases_settled, h.startAliases]
  · intro t v hk
    exact known?_settled_of_known (h.old t v hk) token reason found
  · intro t v hk
    rw [known?_settled] at hk ⊢
    split at hk
    · next he => rw [if_pos he, ← hsame]; exact hk
    · next he => rw [if_neg he]; exact h.known t v hk
  · intro t v hk
    exact known?_settled_of_known (h.left t v hk) token reason found
  · intro t v hk
    rw [known?_settled] at hk ⊢
    split at hk
    · next he => rw [if_pos he, hsame]; exact Or.inl hk
    · next he => rw [if_neg he]; exact h.nothingElse hk
  · intro b
    rw [get?_settled, get?_settled, hsame, h.zeros b]

/-- One run settles a token with the value that the other one knows. -/
theorem settled_covered (h : Shadows start first s w) {value : Value} (hw : w.known? token = some value)
    {reason : MissReason} {found : Option Value}
    (hs : (s.settled token reason found).known? token = some value) :
    Shadows start first (s.settled token reason found) w := by
  -- only the first lexicon changes, and what it gains the shadow has already
  rw [known?_settled, if_pos rfl] at hs
  refine ⟨?_, ?_, ?_, ?_, ?_, h.left, ?_, ?_⟩
  · rw [definitions_settled, h.definitions]
  · rw [aliases_settled, h.aliases]
  · rw [aliases_settled, h.startAliases]
  · intro t v hk
    exact known?_settled_of_known (h.old t v hk) token reason found
  · intro t v hk
    rw [known?_settled] at hk
    split at hk
    · next he => rw [← he, hw, ← hs]; exact hk
    · exact h.known t v hk
  · intro t v hk
    rcases h.nothingElse hk with hk | hf
    · exact Or.inl (known?_settled_of_known hk token reason found)
    · exact Or.inr hf
  · intro b
    rw [get?_settled, hs]
    split
    · next he => rw [← he, get?_of_known? hw]
    · exact h.zeros b

end Shadows

/-! ## Runs -/

/-- A computation gives one answer over a lexicon and over its shadow, as long as it leaves no entry that the
second run does not have in the end. -/
structure Follows {α : Type} (start first second : Lexicon) (m : LexiconM α) : Prop where
  grows : ∀ l, Grows l (m l).2
  same : ∀ {s w}, Shadows start first s w → Kept (m s).2 second →
    (m s).1 = (m w).1 ∧ Shadows start first (m s).2 (m w).2

theorem follows_pure {α : Type} (a : α) : Follows start first second (pure a : LexiconM α) where
  grows := fun l => Grows.of_counted (.refl l)
  same := fun h _ => ⟨rfl, h⟩

theorem follows_bind {α β : Type} {m : LexiconM α} {k : α → LexiconM β} (hm : Follows start first second m)
    (hk : ∀ a, Follows start first second (k a)) : Follows start first second (m >>= k) where
  grows := fun l => (hm.grows l).trans ((hk (m l).1).grows (m l).2)
  same := by
    intro s w h hend
    obtain ⟨hval, hs⟩ := hm.same h (((hk (m s).1).grows (m s).2).keeps.trans hend)
    show (k (m s).1 (m s).2).1 = (k (m w).1 (m w).2).1 ∧
      Shadows start first (k (m s).1 (m s).2).2 (k (m w).1 (m w).2).2
    rw [← hval]
    exact (hk (m s).1).same hs hend

/-- Looking a zero up finds it on both sides, marked for another resolution or not. -/
theorem follows_lookup_zero (b : Builtin) :
    Follows start first second (modifyGet (·.lookup (Vocabulary.zeroToken b.name)) : LexiconM (Option Value)) where
  grows := fun l => .of_counted (show Counted l (l.lookup _).2 from rfl)
  same := fun {s w} h _ =>
    ⟨h.zeros b, h.counted (show Counted s (s.lookup _).2 from rfl) (show Counted w (w.lookup _).2 from rfl)⟩

theorem asked_ofToken (answer : String → Option Value) {aliases : Dict String} (hno : ∀ t, aliases.get? t = none)
    (depth : Nat) (scope? : Option String) (token : String) :
    (Plan.ofToken aliases depth scope? token).asked answer = (Plan.ofToken aliases depth none token).asked answer := by
  unfold Plan.ofToken
  cases TypeShape.ofToken depth token with
  | atom text =>
    dsimp only
    unfold Plan.atom
    rw [hno text]
    rfl
  | array element length? => rfl
  | generic container args => rfl

/-- A plan is performed twice for a token that neither run knows. -/
theorem perform_follows {hops : Nat} {plan : Plan}
    (ih : ∀ {p s w}, trimmed p = p → Shadows start first s w → Kept (typeAt depth scope? hops p s).2 second →
      (typeAt depth scope? hops p s).1 = (typeAt depth scope? hops p w).1 ∧
        Shadows start first (typeAt depth scope? hops p s).2 (typeAt depth scope? hops p w).2)
    (hp : plan.Asks fun p => trimmed p = p) (h : Shadows start first s w) (hn : first.known? token = none)
    (hend : Kept (plan.perform (typeAt depth scope? hops) token s).2 second) :
    (plan.perform (typeAt depth scope? hops) token s).1 = (plan.perform (typeAt depth scope? hops) token w).1 ∧
      Shadows start first (plan.perform (typeAt depth scope? hops) token s).2
        (plan.perform (typeAt depth scope? hops) token w).2 := by
  induction plan generalizing s w with
  | finish search reason =>
    show (settle token search reason s).1 = (settle token search reason w).1 ∧
      Shadows start first (settle token search reason s).2 (settle token search reason w).2
    rw [settle_eq, settle_eq, h.definitions]
    exact ⟨rfl, (h.counted (search.counted s) (search.counted w)).settled_both hn _ _⟩
  | ask part next ihPlan =>
    obtain ⟨hpart, hnext⟩ := hp
    have hkept : Kept (typeAt depth scope? hops part s).2 second := (kept_perform (hnext _) hops _).trans hend
    obtain ⟨hval, hshadow⟩ := ih hpart h hkept
    show ((next (typeAt depth scope? hops part s).1).perform _ token (typeAt depth scope? hops part s).2).1 =
        ((next (typeAt depth scope? hops part w).1).perform _ token (typeAt depth scope? hops part w).2).1 ∧
      Shadows start first ((next (typeAt depth scope? hops part s).1).perform _ token _).2
        ((next (typeAt depth scope? hops part w).1).perform _ token _).2
    -- the answers agree, so both runs go on with one plan
    rw [← hval]
    exact ihPlan _ (hnext _) hshadow hend

section

variable (hno : ∀ t, start.aliases.get? t = none)

include hno

theorem Shadows.noAliases (h : Shadows start first s w) (t : String) : s.aliases.get? t = none := by
  rw [h.startAliases]
  exact hno t

/-- A plan is performed whose token and parts are already in the shadow. -/
theorem perform_covered {hops : Nat} {plan : Plan} {x : Value}
    (ih : ∀ {p s z}, trimmed p = p → Shadows start first s w → first.known? p = some z →
      Kept (typeAt depth scope? hops p s).2 second →
      (typeAt depth scope? hops p s).1 = z ∧ Shadows start first (typeAt depth scope? hops p s).2 w)
    (hp : plan.Asks fun p => trimmed p = p)
    (ha : ∀ p ∈ plan.asked second.known?, (second.known? p).isSome → (first.known? p).isSome)
    (h : Shadows start first s w) (hw : w.known? token = some x)
    (hend : Kept (plan.perform (typeAt depth scope? hops) token s).2 second)
    (hx : (plan.perform (typeAt depth scope? hops) token s).2.known? token = some x) :
    Shadows start first (plan.perform (typeAt depth scope? hops) token s).2 w := by
  induction plan generalizing s with
  | finish search reason =>
    have hx' : (settle token search reason s).2.known? token = some x := hx
    show Shadows start first (settle token search reason s).2 w
    rw [settle_eq] at hx' ⊢
    exact (h.counted (search.counted s) (.refl w)).settled_covered hw hx'
  | ask part next ihPlan =>
    obtain ⟨hpart, hnext⟩ := hp
    have hkept : Kept (typeAt depth scope? hops part s).2 second := (kept_perform (hnext _) hops _).trans hend
    have hsecond : second.known? part = some (typeAt depth scope? hops part s).1 :=
      hkept _ _ (known?_typeAt (h.noAliases hno) hpart depth scope? hops)
    -- the second run answers with the entry it leaves, so the plan it follows is the one of `asked`
    rw [Plan.asked, hsecond] at ha
    obtain ⟨z, hz⟩ := Option.isSome_iff_exists.1 (ha part List.mem_cons_self (by rw [hsecond]; rfl))
    refine ihPlan _ (hnext _) ?_ (ih hpart h hz hkept).2 hend hx
    intro p hp
    exact ha p (List.mem_cons_of_mem _ hp)

variable (hc : Compatible depth start first second)

include hc

theorem value_covered {hops : Nat} {x : Value} (ht : trimmed token = token) (h : Shadows start first s w)
    (hk : s.known? token = none) (hx : first.known? token = some x)
    (hend : Kept (typeAt depth scope? hops token s).2 second) :
    (typeAt depth scope? hops token s).1 = x ∧ (typeAt depth scope? hops token s).2.known? token = some x := by
  have hentry := known?_typeAt (h.noAliases hno) ht depth scope? hops
  have hval := (hc.same (h.start_unknown hk) hx (hend _ _ hentry)).symm
  rw [hval] at hentry
  exact ⟨hval, hentry⟩

/-- The run resolves a token that is already in the shadow: it finds the value there, and the shadow stays one. -/
theorem typeAt_covered {hops : Nat} {x : Value} (ht : trimmed token = token) (h : Shadows start first s w)
    (hx : first.known? token = some x) (hend : Kept (typeAt depth scope? hops token s).2 second) :
    (typeAt depth scope? hops token s).1 = x ∧ Shadows start first (typeAt depth scope? hops token s).2 w := by
  have hw := h.left _ _ hx
  induction hops generalizing token s x with
  | zero =>
    cases hk : s.known? token with
    | some y =>
      rw [typeAt_hit hk]
      exact ⟨Option.some.inj ((h.known _ _ hk).symm.trans hw), h.counted (counted_cached s token) (.refl w)⟩
    | none =>
      obtain ⟨hval, hentry⟩ := value_covered hno hc ht h hk hx hend
      refine ⟨hval, ?_⟩
      rw [typeAt_zero_miss hk] at hentry ⊢
      exact (h.counted (counted_cached s token) (.refl w)).settled_covered hw hentry
  | succ hops ih =>
    cases hk : s.known? token with
    | some y =>
      rw [typeAt_hit hk]
      exact ⟨Option.some.inj ((h.known _ _ hk).symm.trans hw), h.counted (counted_cached s token) (.refl w)⟩
    | none =>
      -- both runs resolve the token, so compatibility gives it one value
      obtain ⟨hval, hentry⟩ := value_covered hno hc ht h hk hx hend
      refine ⟨hval, ?_⟩
      rw [typeAt_succ_miss hk ht] at hend hentry ⊢
      refine perform_covered hno ?_ ((closed_trimmed s.aliases depth token ht).2 scope?) ?_
        (h.counted (counted_cached s token) (.refl w)) hw hend hentry
      · intro p s z hp hs hz hkept
        exact ih hp hs hz hkept (hs.left _ _ hz)
      · rw [h.startAliases, asked_ofToken _ hno]
        exact hc.parts (h.start_unknown hk) (by rw [hx]; rfl) (by rw [hend _ _ hentry]; rfl)

/-- Where the shadow has an entry, the run has it too or resolves the token to it. -/
theorem typeAt_hit_shadow {hops : Nat} {x : Value} (ht : trimmed token = token) (h : Shadows start first s w)
    (hend : Kept (typeAt depth scope? hops token s).2 second) (hw : w.known? token = some x) :
    (typeAt depth scope? hops token s).1 = (typeAt depth scope? hops token w).1 ∧
      Shadows start first (typeAt depth scope? hops token s).2 (typeAt depth scope? hops token w).2 := by
  rw [typeAt_hit hw]
  -- the entry of the shadow comes from the run itself or from the first one
  rcases h.nothingElse hw with hs | hf
  · rw [typeAt_hit hs]
    exact ⟨rfl, h.counted (counted_cached s token) (counted_cached w token)⟩
  · obtain ⟨hval, hshadow⟩ := typeAt_covered hno hc ht h hf hend
    exact ⟨hval, hshadow.counted (.refl _) (counted_cached w token)⟩

/-- **Resolution gives one answer over a lexicon and over its shadow.** -/
theorem follows_typeAt (scope? : Option String) (hops : Nat) (ht : trimmed token = token) :
    Follows start first second (typeAt depth scope? hops token) where
  grows := grows_typeAt depth scope? hops ht
  same := by
    intro s w h hend
    induction hops generalizing token s w with
    | zero =>
      cases hw : w.known? token with
      | some x => exact typeAt_hit_shadow hno hc ht h hend hw
      | none =>
        obtain ⟨hs, hf⟩ := h.unknown hw
        rw [typeAt_zero_miss hs, typeAt_zero_miss hw]
        exact ⟨rfl, (h.counted (counted_cached s token) (counted_cached w token)).settled_both hf .tooDeep none⟩
    | succ hops ih =>
      cases hw : w.known? token with
      | some x => exact typeAt_hit_shadow hno hc ht h hend hw
      | none =>
        obtain ⟨hs, hf⟩ := h.unknown hw
        -- neither run knows the token: both perform its plan, under the same aliases
        rw [typeAt_succ_miss hs ht] at hend ⊢
        rw [typeAt_succ_miss hw ht, h.aliases]
        exact perform_follows (fun hp hs hkept => ih hp hs hkept) ((closed_trimmed s.aliases depth token ht).2 scope?)
          (h.counted (counted_cached s token) (counted_cached w token)) hf hend

theorem follows_resolveType (scope? : Option String) (token : String) :
    Follows start first second (resolveType depth scope? token) :=
  follows_typeAt hno hc scope? maxHops (trimmed_trimmed token)

theorem follows_whole (scope? : Option String) (hops : Nat) (ht : trimmed token = token) :
    Follows start first second (orCached token (atom (typeAt depth scope? hops) scope? token)) where
  grows := fun l => (evolution_grows _).whole (closed_trimmed l.aliases depth) trimmed_trimmed scope? hops ht
  same := by
    intro s w h hend
    have hs := counted_cached s token
    have hw := counted_cached w token
    -- without aliases the token is settled at once
    have hrun {l : Lexicon} (hl : ∀ t, l.aliases.get? t = none) (hk : l.known? token = none) :
        orCached token (atom (typeAt depth scope? hops) scope? token) l =
          settle token (.ofToken scope? token) .unknownToken (l.cached token).2 := by
      rw [orCached_miss hk, atom_eq_perform]
      unfold Plan.atom
      rw [(counted_cached l token).aliases, hl]
      rfl
    cases hkw : w.known? token with
    | none =>
      obtain ⟨hks, hf⟩ := h.unknown hkw
      rw [hrun (h.noAliases hno) hks, hrun (by rw [h.aliases]; exact h.noAliases hno) hkw, settle_eq, settle_eq,
        (h.counted hs hw).definitions]
      exact ⟨rfl, ((h.counted hs hw).counted (Search.counted _ _) (Search.counted _ _)).settled_both hf _ _⟩
    | some x =>
      rw [orCached_hit hkw]
      cases hks : s.known? token with
      | some y =>
        rw [orCached_hit hks]
        exact ⟨Option.some.inj ((h.known _ _ hks).symm.trans hkw), h.counted hs hw⟩
      | none =>
        rw [hrun (h.noAliases hno) hks, settle_eq] at hend ⊢
        have hf : first.known? token = some x := (h.nothingElse hkw).resolve_left (by rw [hks]; exact nofun)
        have hentry (found : Option Value) :
            (((Search.ofToken scope? token).run (s.cached token).2).2.settled token .unknownToken found).known? token =
              some (found.getD (.unmapped token)) := by
          rw [known?_settled, if_pos rfl, (Search.counted _ _).known?, hs.known?, hks]
          rfl
        have hval := (hc.same (h.start_unknown hks) hf (hend _ _ (hentry _))).symm
        have hkw' : (w.cached token).2.known? token = some x := by
          rw [hw.known?]
          exact hkw
        exact ⟨hval, ((h.counted hs hw).counted (Search.counted _ _) (.refl _)).settled_covered hkw'
          ((hentry _).trans (congrArg some hval))⟩

end

end Lexicon
end CallSig
