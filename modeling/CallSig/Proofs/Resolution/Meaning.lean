import CallSig.Proofs.Resolution.Evolution

/-!
# `CallSig.Proofs.Resolution.Meaning` — resolution without a memory

The meaning of a token is what the plans of the token and of its parts give, starting from the entries of one
fixed lexicon and keeping nothing. Resolution, which keeps every result in the lexicon it reads from, returns
meanings: the order of the questions cannot be seen in the answers. This holds for tokens whose recursion stays
within the hops; a token given up on for its depth has no meaning.

## Contents
- **Meanings.** `Plan.value?`, `meaning?`, `meaning?_mono`, `Within`.
- **Agreement.** `Agrees`: the entries of a lexicon are meanings; it survives counting and settling.
- **Runs.** `perform_meaning`, `typeAt_meaning`, `resolveType_meaning`.
- **Sequences.** `resolveType_transparent`.
-/

namespace CallSig
namespace Lexicon

open Text

variable {l l₀ : Lexicon} {token : String} {depth : Nat} {scope? : Option String}

/-! ## Meanings -/

/-- The value that a plan gives when the tokens it asks for have the values given by `resolve`. -/
def Plan.value? (resolve : String → Option Value) (definitions : Dict Value) (token : String) : Plan → Option Value
  | finish search _ => some ((search.value? definitions).getD (.unmapped token))
  | ask part next => (resolve part).bind fun value => (next value).value? resolve definitions token

/-- The value of a token over the entries of a lexicon, if at most `hops` steps are needed to find it. -/
def meaning? (l : Lexicon) (depth : Nat) (scope? : Option String) : Nat → String → Option Value
  | 0, token => l.known? token
  | hops + 1, token =>
    (l.known? token).or
      ((Plan.ofToken l.aliases depth scope? token).value? (meaning? l depth scope? hops) l.definitions token)

/-- The recursion of a token, from the entries of a lexicon, stays within the hops that resolution follows. -/
def Within (l : Lexicon) (depth : Nat) (scope? : Option String) (token : String) : Prop :=
  (meaning? l depth scope? maxHops (trimmed token)).isSome

instance (l : Lexicon) (depth : Nat) (scope? : Option String) (token : String) :
    Decidable (Within l depth scope? token) :=
  inferInstanceAs (Decidable (_ = true))

theorem meaning?_of_known {value : Value} (h : l.known? token = some value) (hops : Nat) :
    meaning? l depth scope? hops token = some value := by
  cases hops with
  | zero => exact h
  | succ hops => rw [meaning?, h, Option.some_or]

theorem meaning?_succ (h : l.known? token = none) (hops : Nat) :
    meaning? l depth scope? (hops + 1) token =
      (Plan.ofToken l.aliases depth scope? token).value? (meaning? l depth scope? hops) l.definitions token := by
  rw [meaning?, h, Option.none_or]

theorem Plan.value?_mono {plan : Plan} {resolve resolve' : String → Option Value} {definitions : Dict Value}
    {value : Value} (hr : ∀ {p v}, resolve p = some v → resolve' p = some v)
    (h : plan.value? resolve definitions token = some value) : plan.value? resolve' definitions token = some value := by
  induction plan with
  | finish search reason => exact h
  | ask part next ih =>
    obtain ⟨v, hv, hn⟩ := Option.bind_eq_some_iff.1 h
    exact Option.bind_eq_some_iff.2 ⟨v, hr hv, ih v hn⟩

theorem meaning?_succ_of_meaning? {hops : Nat} {value : Value} (h : meaning? l depth scope? hops token = some value) :
    meaning? l depth scope? (hops + 1) token = some value := by
  -- the parts of a token are asked with one hop less than the token
  induction hops generalizing token value with
  | zero => exact meaning?_of_known h 1
  | succ hops ih =>
    cases hk : l.known? token with
    | some v =>
      rw [meaning?_of_known hk] at h ⊢
      exact h
    | none =>
      rw [meaning?_succ hk] at h ⊢
      exact Plan.value?_mono ih h

/-- More hops do not change a meaning. -/
theorem meaning?_mono {m n : Nat} {value : Value} (hmn : m ≤ n) (h : meaning? l depth scope? m token = some value) :
    meaning? l depth scope? n token = some value := by
  induction hmn with
  | refl => exact h
  | step _ ih => exact meaning?_succ_of_meaning? ih

/-! ## Agreement -/

/-- A lexicon that has grown out of `l₀` and whose entries are meanings over `l₀`. -/
structure Agrees (depth : Nat) (scope? : Option String) (l₀ l : Lexicon) : Prop where
  definitions : l.definitions = l₀.definitions
  aliases : l.aliases = l₀.aliases
  kept : ∀ {t v}, l₀.known? t = some v → l.known? t = some v
  sound : ∀ {t v w}, trimmed t = t → l.known? t = some v → meaning? l₀ depth scope? maxHops t = some w → v = w

namespace Agrees

theorem refl (depth : Nat) (scope? : Option String) (l : Lexicon) : Agrees depth scope? l l where
  definitions := rfl
  aliases := rfl
  kept := id
  sound := by
    intro t v w _ hk hm
    rw [meaning?_of_known hk] at hm
    exact Option.some.inj hm

theorem counted {l' : Lexicon} (h : Agrees depth scope? l₀ l) (hc : Counted l l') : Agrees depth scope? l₀ l' where
  definitions := hc.definitions.trans h.definitions
  aliases := hc.aliases.trans h.aliases
  kept := fun hk => by rw [hc.known?]; exact h.kept hk
  sound := fun ht hk => h.sound ht (by rwa [hc.known?] at hk)

/-- Settling a token keeps agreement, unless the token has another meaning. -/
theorem settled_of (h : Agrees depth scope? l₀ l) {reason : MissReason} {found : Option Value}
    (hm : ∀ w, meaning? l₀ depth scope? maxHops token = some w → found.getD (.unmapped token) = w) :
    Agrees depth scope? l₀ (l.settled token reason found) where
  definitions := (definitions_settled l token reason found).trans h.definitions
  aliases := (aliases_settled l token reason found).trans h.aliases
  kept := fun hk => known?_settled_of_known (h.kept hk) token reason found
  sound := by
    intro t v w ht hk hw
    rw [known?_settled] at hk
    split at hk
    · next he =>
      subst he
      cases hl : l.known? token with
      | some x =>
        rw [hl] at hk
        exact (Option.some.inj hk).symm.trans (h.sound ht hl hw)
      | none =>
        rw [hl] at hk
        exact (Option.some.inj hk).symm.trans (hm w hw)
    · exact h.sound ht hk hw

/-- Settling a token with its meaning keeps agreement. -/
theorem settled (h : Agrees depth scope? l₀ l) {reason : MissReason} {found : Option Value}
    (hm : meaning? l₀ depth scope? maxHops token = some (found.getD (.unmapped token))) :
    Agrees depth scope? l₀ (l.settled token reason found) :=
  h.settled_of fun _ hw => Option.some.inj (hm.symm.trans hw)

end Agrees

/-! ## Runs -/

/-- Performing a plan for a token gives the token's meaning, if what it asks for does. -/
theorem perform_meaning {resolve : String → LexiconM Value} {meaning : String → Option Value} {plan : Plan}
    {value : Value} (hr : ∀ {p v l}, trimmed p = p → meaning p = some v → Agrees depth scope? l₀ l →
      (resolve p l).1 = v ∧ Agrees depth scope? l₀ (resolve p l).2)
    (hp : plan.Asks fun p => trimmed p = p) (hv : plan.value? meaning l₀.definitions token = some value)
    (hm : meaning? l₀ depth scope? maxHops token = some value) (h : Agrees depth scope? l₀ l) :
    (plan.perform resolve token l).1 = value ∧ Agrees depth scope? l₀ (plan.perform resolve token l).2 := by
  -- the answer to a question decides which plan goes on, and over which lexicon
  induction plan generalizing l with
  | finish search reason =>
    have hfound : (search.value? l.definitions).getD (.unmapped token) = value := by
      rw [h.definitions]
      exact Option.some.inj hv
    show (settle token search reason l).1 = value ∧ Agrees depth scope? l₀ (settle token search reason l).2
    rw [settle_eq]
    exact ⟨hfound, (h.counted (search.counted l)).settled (by rw [hfound]; exact hm)⟩
  | ask part next ih =>
    obtain ⟨hpart, hnext⟩ := hp
    obtain ⟨v, hpv, hnv⟩ := Option.bind_eq_some_iff.1 hv
    obtain ⟨hval, hagree⟩ := hr hpart hpv h
    show ((next (resolve part l).1).perform resolve token (resolve part l).2).1 = value ∧
      Agrees depth scope? l₀ ((next (resolve part l).1).perform resolve token (resolve part l).2).2
    rw [hval]
    exact ih v (hnext v) hnv hagree

/-- **Resolution returns meanings**, and what it keeps agrees with them. -/
theorem typeAt_meaning {hops : Nat} (hh : hops ≤ maxHops) {value : Value} (ht : trimmed token = token)
    (hm : meaning? l₀ depth scope? hops token = some value) (h : Agrees depth scope? l₀ l) :
    (typeAt depth scope? hops token l).1 = value ∧ Agrees depth scope? l₀ (typeAt depth scope? hops token l).2 := by
  induction hops generalizing l token value with
  | zero =>
    rw [typeAt_hit (h.kept hm)]
    exact ⟨rfl, h.counted (counted_cached l token)⟩
  | succ hops ih =>
    have hmax := meaning?_mono hh hm
    cases hk : l.known? token with
    | some v =>
      rw [typeAt_hit hk]
      -- the entry may be newer than the first lexicon, so only soundness says what it is
      exact ⟨h.sound ht hk hmax, h.counted (counted_cached l token)⟩
    | none =>
      -- without an entry now there was none at first, and the meaning comes from the plan
      have hk₀ : l₀.known? token = none := by
        cases hk₀ : l₀.known? token with
        | none => rfl
        | some v => rw [h.kept hk₀] at hk; cases hk
      rw [typeAt_succ_miss hk ht, h.aliases]
      rw [meaning?_succ hk₀] at hm
      have hasks := (closed_trimmed l₀.aliases depth token ht).2 scope?
      exact perform_meaning (ih (Nat.le_of_succ_le hh)) hasks hm hmax (h.counted (counted_cached l token))

theorem resolveType_meaning (hw : Within l₀ depth scope? token) (h : Agrees depth scope? l₀ l) :
    some (resolveType depth scope? token l).1 = meaning? l₀ depth scope? maxHops (trimmed token) ∧
      Agrees depth scope? l₀ (resolveType depth scope? token l).2 := by
  obtain ⟨value, hv⟩ := Option.isSome_iff_exists.1 hw
  obtain ⟨hval, hagree⟩ := typeAt_meaning (Nat.le_refl maxHops) (trimmed_trimmed token) hv h
  exact ⟨by rw [hv, ← hval]; rfl, hagree⟩

/-- Lexicons that agree with one lexicon give one answer. -/
theorem resolveType_eq_of_agrees (hw : Within l₀ depth scope? token) (h : Agrees depth scope? l₀ l) :
    (resolveType depth scope? token l).1 = (resolveType depth scope? token l₀).1 :=
  Option.some.inj ((resolveType_meaning hw h).1.trans (resolveType_meaning hw (.refl depth scope? l₀)).1.symm)

/-! ## Sequences -/

/-- **The memory of resolution cannot be observed**: in a sequence of questions whose recursion stays within the
hops, each one is answered as if it were the first. -/
theorem resolveType_transparent (l : Lexicon) (depth : Nat) (scope? : Option String) (tokens : List String)
    (hw : ∀ t ∈ tokens, Within l depth scope? t) :
    (tokens.mapM (resolveType depth scope?) l).1 = tokens.map fun t => (resolveType depth scope? t l).1 := by
  -- every prefix of the sequence leaves a lexicon that agrees with the first one
  have hrun : ∀ {l'}, Agrees depth scope? l l' →
      (tokens.mapM (resolveType depth scope?) l').1 = tokens.map fun t => (resolveType depth scope? t l).1 := by
    induction tokens with
    | nil => intro l' _; rfl
    | cons t ts ih =>
      intro l' h
      have hagree := (resolveType_meaning (hw t List.mem_cons_self) h).2
      rw [List.mapM_cons, List.map_cons]
      show (resolveType depth scope? t l').1 :: 
        (ts.mapM (resolveType depth scope?) (resolveType depth scope? t l').2).1 = _
      rw [resolveType_eq_of_agrees (hw t List.mem_cons_self) h,
        ih (fun s hs => hw s (List.mem_cons_of_mem _ hs)) hagree]
  exact hrun (.refl depth scope? l)

/-- A lexicon in which a class became known after its token had been given up on. -/
def reopened : Lexicon :=
  let l := (blank.register "core.Foo" (.unmapped "core.Foo")).register "List" (.former (.container .list))
  { l.define "core.Foo" (.type (.ofPath "core.Foo")) with retry := ["core.Foo"] }

theorem resolveType_transparent_reopened :
    (∀ t ∈ ["List[core.Foo]", " core.Foo", "core.Foo[]"], Within reopened 3 none t) ∧
      (["List[core.Foo]", " core.Foo", "core.Foo[]"].mapM (resolveType 3 none) reopened).1 =
        ["List[core.Foo]", " core.Foo", "core.Foo[]"].map fun t => (resolveType 3 none t reopened).1 :=
  ⟨by decide +kernel, resolveType_transparent reopened 3 none _ (by decide +kernel)⟩

end Lexicon
end CallSig
