import CallSig.Proofs.Resolution.Installation
import CallSig.Proofs.Resolution.Meaning

/-!
# `CallSig.Proofs.Resolution.LateLoading` — modules installed before and after questions

Tokens may be resolved while the vocabulary that would explain them is still waiting. Installing it reopens the
missed tokens whose entries are placeholders, and these resolve afterwards as if the vocabulary had been there
from the start. Entries that merely contain a placeholder, or repeat one under another name, are not reopened.
Whether the late installation catches up with the early one depends on exactly these entries.

## Contents
- **Questions.** `askAll`, `grows_askAll`.
- **Early and late.** `CaughtUp`, `Precise`, `agrees_of_precise`, `caughtUp_iff_precise`.
- **An array stays imprecise.** `not_caughtUp_array`.
-/

namespace CallSig
namespace Lexicon

open Text

variable {l early late : Lexicon} {v : Vocabulary} {depth : Nat}

/-! ## Questions -/

/-- Resolves types, each with a bracket depth of its own, one after the other. -/
def askAll (questions : List (Nat × String)) : LexiconM (List Value) :=
  questions.mapM fun q => resolveType q.1 none q.2

theorem grows_askAll (questions : List (Nat × String)) (l : Lexicon) : Grows l (askAll questions l).2 := by
  unfold askAll
  induction questions generalizing l with
  | nil => exact Grows.of_counted (Counted.refl l)
  | cons q qs ih =>
    rw [List.mapM_cons]
    exact (grows_resolveType q.1 none q.2 l).trans (ih (resolveType q.1 none q.2 l).2)

/-! ## Early and late -/

/-- The vocabulary of a module that contributes one class and a token for it. -/
def oneClass (module token : String) : Vocabulary :=
  ((Vocabulary.empty module).addClass (module ++ "." ++ token)).addToken token (.type (.ofPath (module ++ "." ++ token)))

/-- Every token resolves in the late lexicon to what it resolves to in the early one. -/
def CaughtUp (depth : Nat) (early late : Lexicon) : Prop :=
  ∀ t, Within early depth none t → (resolveType depth none t late).1 = (resolveType depth none t early).1

/-- Every entry that was added between `l` and `l₁`, and that installing `v` neither replaces nor reopens, is
what its token resolves to in the early lexicon. -/
def Precise (depth : Nat) (v : Vocabulary) (l l₁ early : Lexicon) : Prop :=
  ∀ t x, trimmed t = t → l.known? t = none → l₁.known? t = some x → lastOf? t v.tokens = none →
    ¬(t ∈ l₁.missed ∧ x.isUnmapped) → Within early depth none t → x = (resolveType depth none t early).1

variable {l₁ : Lexicon}

/-- If the added entries are precise, the late lexicon holds meanings over the early one. -/
theorem agrees_of_precise (hg : Grows l l₁)
    (hm : ∀ t x, lastOf? t v.tokens = some x → x.isUnmapped → t ∈ l₁.missed → t ∈ l.missed)
    (hp : Precise depth v l l₁ (l.install v)) : Agrees depth none (l.install v) (l₁.install v) where
  definitions := by rw [definitions_install, definitions_install, hg.definitions]
  aliases := by rw [aliases_install, aliases_install, hg.aliases]
  kept := by
    intro t w hk
    obtain ⟨hl, hopen⟩ := known?_install_eq_some.1 hk
    refine known?_install_eq_some.2 ⟨?_, ?_⟩
    · rcases Option.or_eq_some_iff.1 hl with ht | ⟨ht, hl⟩
      · rw [ht, Option.some_or]
      · rw [ht, Option.none_or]
        exact hg.kept hl
    · -- reopened late means missed by a question; the early entry was there before it, or is no placeholder
      rintro ⟨hmissed, hw⟩
      refine hopen ⟨?_, hw⟩
      rcases Option.or_eq_some_iff.1 hl with ht | ⟨_, hl⟩
      · exact hm t w ht hw hmissed
      · rcases hg.newlyMissed hmissed with h | hn
        · exact h
        · rw [hl] at hn
          cases hn
  sound := by
    intro t x w htrim hk hw
    obtain ⟨hl₁, hopen⟩ := known?_install_eq_some.1 hk
    have hopen₀ : ¬(t ∈ l.missed ∧ x.isUnmapped) := fun h => hopen ⟨hg.missed h.1, h.2⟩
    -- an entry that was there before the questions is the early entry; any other one is precise
    have hearly (h : (lastOf? t v.tokens).or (l.known? t) = some x) : x = w := by
      rw [meaning?_of_known (known?_install_eq_some.2 ⟨h, hopen₀⟩)] at hw
      exact Option.some.inj hw
    rcases Option.or_eq_some_iff.1 hl₁ with ht | ⟨ht, hl₁⟩
    · exact hearly (by rw [ht, Option.some_or])
    · cases hl : l.known? t with
      | some y =>
        have hxy : x = y := Option.some.inj (hl₁.symm.trans (hg.kept hl))
        exact hearly (by rw [ht, Option.none_or, hl, hxy])
      | none =>
        have hwithin : Within (l.install v) depth none t := by
          unfold Within
          rw [htrim, hw]
          rfl
        have hmeaning := (resolveType_meaning hwithin (.refl depth none _)).1
        rw [htrim, hw] at hmeaning
        exact (hp t x htrim hl hl₁ ht hopen hwithin).trans (Option.some.inj hmeaning)

/-- **A late installation catches up with an early one** exactly if no entry stays imprecise. The vocabulary
gives no token that the questions missed a placeholder for a value. -/
theorem caughtUp_iff_precise {host : LoadedModules} {name : String} {questions : List (Nat × String)}
    (hv : l.pending.find? (·.name == name) = some v)
    (hm : ∀ t x, lastOf? t v.tokens = some x → x.isUnmapped →
      t ∈ (askAll questions l).2.missed → t ∈ l.missed)
    (he : l.ensure host name = .ok (true, early)) (hl : (askAll questions l).2.ensure host name = .ok (true, late)) :
    CaughtUp depth early late ↔ Precise depth v l (askAll questions l).2 early := by
  have hg := grows_askAll questions l
  have hv₁ : (askAll questions l).2.pending.find? (·.name == name) = some v := by
    rw [hg.pending]
    exact hv
  obtain rfl := eq_install_of_ensure hv he
  obtain rfl := eq_install_of_ensure hv₁ hl
  constructor
  · -- an entry that is not reopened is what the late lexicon answers with
    intro hcaught t x htrim _ hl₁ ht hopen hwithin
    have hknown : ((askAll questions l).2.install v).known? (trimmed t) = some x := by
      rw [htrim]
      exact known?_install_eq_some.2 ⟨by rw [ht, Option.none_or]; exact hl₁, hopen⟩
    rw [← hcaught t hwithin]
    show x = (typeAt depth none maxHops (trimmed t) _).1
    rw [typeAt_hit hknown]
  · intro hp t hwithin
    exact resolveType_eq_of_agrees hwithin (agrees_of_precise hg hm hp)

/-- The module `core`, with a class `Foo`, waits for the host. -/
def waiting : Lexicon := blank.addVocabulary (oneClass "core" "Foo")

theorem ensure_waiting (questions : List (Nat × String)) :
    (askAll questions waiting).2.ensure (.ofList ["core"]) "core" =
      .ok (true, (askAll questions waiting).2.install (oneClass "core" "Foo")) := by
  have hg := grows_askAll questions waiting
  refine ensure_of_pending ?_ ?_ rfl
  · show (askAll questions waiting).2.installed.contains "core" = false
    rw [hg.installed]
    rfl
  · rw [hg.pending]
    rfl

theorem caughtUp_iff_precise_waiting :
    CaughtUp 3 (waiting.install (oneClass "core" "Foo"))
        ((askAll [(3, "Foo"), (3, "Foo[]")] waiting).2.install (oneClass "core" "Foo")) ↔
      Precise 3 (oneClass "core" "Foo") waiting (askAll [(3, "Foo"), (3, "Foo[]")] waiting).2
        (waiting.install (oneClass "core" "Foo")) := by
  refine caughtUp_iff_precise rfl ?_ (ensure_waiting []) (ensure_waiting _)
  intro t x ht hx
  have hmapped : ∀ e ∈ (oneClass "core" "Foo").tokens, e.2.isUnmapped = false := by decide
  rw [hmapped (t, x) (mem_of_lastOf? ht)] at hx
  cases hx

/-! ## An array stays imprecise -/

/-- An array that was resolved before the module of its element came keeps the placeholder of the element. -/
theorem not_caughtUp_array :
    waiting.ensure (.ofList ["core"]) "core" = .ok (true, waiting.install (oneClass "core" "Foo")) ∧
      (askAll [(3, "Foo[]")] waiting).2.ensure (.ofList ["core"]) "core" =
        .ok (true, (askAll [(3, "Foo[]")] waiting).2.install (oneClass "core" "Foo")) ∧
      ¬CaughtUp 3 (waiting.install (oneClass "core" "Foo"))
        ((askAll [(3, "Foo[]")] waiting).2.install (oneClass "core" "Foo")) := by
  refine ⟨ensure_waiting [], ensure_waiting _, ?_⟩
  intro h
  have htext := congrArg Value.text (h "Foo[]" (by decide +kernel))
  revert htext
  decide +kernel

end Lexicon
end CallSig
