import CallSig.Proofs.Catalog.Walk

/-!
# `CallSig.Proofs.Catalog.Repetition` — the same questions once more

A build leaves its results in the lexicon, and a later build of the same lines starts from there. Every token finds
the entry that the first build gave it, so the answers are the same and nothing is added. The one exception is the
zeros of builtin types: they are looked up as entries, so a build that gives such a token its first entry changes
what the next one finds.

## Contents
- **Advancing.** `Advances`, `evolution_advances`.
- **Zeros.** `SameZeros`, `SameZeros.between`.
- **Alike lexicons.** `Alike`: they answer every question alike.
- **Repetition.** `Repeatable`, `Repeatable.alike`, `Repeatable.again`, `Repeatable.again_bind`.
- **Blocks.** `repeatable_readTexts`.
-/

namespace CallSig

open Lexicon

namespace Lexicon

variable {l l' l'' : Lexicon}

/-! ## Advancing -/

/-- Entries are kept, and a token that still has no entry to rely on has the one it had. -/
structure Advances (l l' : Lexicon) : Prop where
  definitions : l'.definitions = l.definitions
  aliases : l'.aliases = l.aliases
  kept : Kept l l'
  stillOpen : ∀ {t}, l'.known? t = none → l'.tokens.get? t = l.tokens.get? t

theorem Advances.trans (h : Advances l l') (h' : Advances l' l'') : Advances l l'' where
  definitions := h'.definitions.trans h.definitions
  aliases := h'.aliases.trans h.aliases
  kept := h.kept.trans h'.kept
  stillOpen := fun hn => (h'.stillOpen hn).trans (h.stillOpen (h'.kept.unknown hn))

theorem Advances.of_counted (h : Counted l l') : Advances l l' where
  definitions := h.definitions
  aliases := h.aliases
  kept := .of_counted h
  stillOpen := fun _ => by rw [h]

/-- **Resolution advances the lexicon.** -/
theorem evolution_advances (T : String → Prop) : Evolution T Advances where
  trans := Advances.trans
  counted := Advances.of_counted
  aliases := Advances.aliases
  settled := by
    intro l l' token _ _ h reason found
    refine h.trans ⟨definitions_settled l' token reason found, aliases_settled l' token reason found, ?_, ?_⟩
    · intro t v hk
      exact known?_settled_of_known hk token reason found
    · intro t hn
      -- the settled token has an entry now, so an open one is another
      rw [known?_settled] at hn
      rw [get?_settled]
      split at hn
      · cases hn
      · next he => rw [if_neg he]

/-! ## Zeros -/

/-- The zeros of the builtin types are the same. -/
def SameZeros (l l' : Lexicon) : Prop := ∀ b : Builtin,
  l'.tokens.get? (Vocabulary.zeroToken b.name) = l.tokens.get? (Vocabulary.zeroToken b.name)

/-- Zeros that are the same in the end were the same all the time. -/
theorem SameZeros.between (hz : SameZeros l l'') (h : Advances l l') (h' : Advances l' l'') : SameZeros l l' := by
  intro b
  cases hk : l'.known? (Vocabulary.zeroToken b.name) with
  | none => exact h.stillOpen hk
  | some v =>
    rw [get?_of_known? hk, ← hz b]
    exact (get?_of_known? (h'.kept _ _ hk)).symm

/-! ## Alike lexicons -/

/-- Two lexicons with the same entries to rely on, the same definitions, aliases and zeros. -/
structure Alike (l w : Lexicon) : Prop where
  definitions : w.definitions = l.definitions
  aliases : w.aliases = l.aliases
  known : ∀ t v, w.known? t = some v ↔ l.known? t = some v
  zeros : SameZeros l w

theorem Alike.refl (l : Lexicon) : Alike l l := ⟨rfl, rfl, fun _ _ => Iff.rfl, fun _ => rfl⟩

theorem Alike.trans {v : Lexicon} (h : Alike l l') (h' : Alike l' v) : Alike l v where
  definitions := h'.definitions.trans h.definitions
  aliases := h'.aliases.trans h.aliases
  known := fun t x => (h'.known t x).trans (h.known t x)
  zeros := fun b => (h'.zeros b).trans (h.zeros b)

end Lexicon

/-! ## Repetition -/

/-- A run that only advances the lexicon and gives one answer over it and over its shadows. -/
structure Repeatable (depth : Nat) {α : Type} (m : LexiconM α) : Prop where
  advances : ∀ l, Advances l (m l).2
  follows : ∀ {start first second}, (∀ t, start.aliases.get? t = none) → Compatible depth start first second →
    Follows start first second m

namespace Repeatable

variable {depth : Nat} {α β : Type} {m : LexiconM α} {k : α → LexiconM β} {l w : Lexicon}

/-- A run gives one answer over alike lexicons and leaves alike ones. -/
theorem alike (hm : Repeatable depth m) (hno : ∀ t, l.aliases.get? t = none) (h : Alike l w) :
    (m w).1 = (m l).1 ∧ Alike (m l).2 (m w).2 := by
  -- a lexicon that is alike is the shadow that adds nothing
  have hc : Compatible depth l l (m l).2 := by
    refine ⟨fun hn hx _ => ?_, fun hn hx _ => ?_, fun _ => rfl⟩
    · rw [hn] at hx
      cases hx
    · rw [hn] at hx
      cases hx
  have hshadow : Shadows l l l w :=
    ⟨h.definitions, h.aliases, rfl, fun _ _ hk => hk, fun t v hk => (h.known t v).2 hk,
      fun t v hk => (h.known t v).2 hk, fun {t v} hk => Or.inl ((h.known t v).1 hk), fun b => (h.zeros b).symm⟩
  obtain ⟨hval, hs⟩ := (hm.follows hno hc).same hshadow fun _ _ hk => hk
  refine ⟨hval.symm, hs.definitions, hs.aliases, fun t v => ⟨fun hk => ?_, hs.known t v⟩, fun b => (hs.zeros b).symm⟩
  exact (hs.nothingElse hk).elim id ((hm.advances l).kept t v)

/-- **A run that is repeated** gives its answer again and adds nothing, if it left the zeros as they were. -/
theorem again (hm : Repeatable depth m) (hno : ∀ t, l.aliases.get? t = none) (hz : SameZeros l (m l).2) :
    (m (m l).2).1 = (m l).1 ∧ Alike (m l).2 (m (m l).2).2 := by
  -- what the run leaves is a shadow of the lexicon that it started from
  have hc : Compatible depth l (m l).2 (m l).2 :=
    ⟨fun _ hx hy => Option.some.inj (hx.symm.trans hy), fun _ _ _ _ _ hp => hp, hz⟩
  have hadv := hm.advances l
  have hshadow : Shadows l (m l).2 l (m l).2 :=
    ⟨hadv.definitions, hadv.aliases, rfl, fun _ _ hk => hk, hadv.kept, fun _ _ hk => hk, Or.inr,
      fun b => (hz b).symm⟩
  obtain ⟨hval, hs⟩ := (hm.follows hno hc).same hshadow fun _ _ hk => hk
  exact ⟨hval.symm, hs.definitions, hs.aliases, fun t v => ⟨fun hk => (hs.nothingElse hk).elim id id, hs.known t v⟩,
    fun b => (hs.zeros b).symm⟩

/-- A longer run after its first part gives the answer that it gives without it. -/
theorem again_bind (hm : Repeatable depth m) (hk : ∀ a, Repeatable depth (k a)) (hno : ∀ t, l.aliases.get? t = none)
    (hz : SameZeros l ((m >>= k) l).2) :
    ((m >>= k) (m l).2).1 = ((m >>= k) l).1 ∧ Alike ((m >>= k) l).2 ((m >>= k) (m l).2).2 := by
  have hadv := hm.advances l
  have hz' : SameZeros l (m l).2 := hz.between hadv ((hk (m l).1).advances (m l).2)
  obtain ⟨hval, halike⟩ := hm.again hno hz'
  show (k (m (m l).2).1 (m (m l).2).2).1 = (k (m l).1 (m l).2).1 ∧
    Alike (k (m l).1 (m l).2).2 (k (m (m l).2).1 (m (m l).2).2).2
  rw [hval]
  exact (hk (m l).1).alike (by rw [hadv.aliases]; exact hno) halike

end Repeatable

/-! ## Blocks -/

/-- Reading merged lines can be repeated. -/
theorem repeatable_readTexts (settings : Settings) (owner : String) (texts : List String)
    (members : Dict (List Variant)) :
    Repeatable settings.bracketDepth (texts.foldlM (Catalog.readLine settings owner) members) where
  advances := ((evolution_advances _).runProperty (fun _ => ⟨rfl, rfl, fun _ _ hk => hk, fun _ => rfl⟩)
    settings.bracketDepth).readTexts owner texts members
  follows := fun hno hc => (runProperty_follows hno hc).readTexts owner texts members

end CallSig
