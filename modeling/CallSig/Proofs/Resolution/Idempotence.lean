import CallSig.Catalog
import CallSig.Proofs.Resolution.Recursion

/-!
# `CallSig.Proofs.Resolution.Idempotence` — the same question twice in a row

A resolution leaves an entry for its token, and the next question finds it. It is the value that the first question
was answered with if the token was still open when it was settled. A token that only aliases lead back to is not:
its resolution goes round until the hops are used up. But then every token on the way gets the one placeholder of the
last of them, so the answer is the same again.

## Contents
- **Hits.** `cached_of_known`, `isSome_known?_typeAt`: a resolved token has an entry.
- **Open tokens.** `known?_typeAt_of_not_back`.
- **Circles of aliases.** `OnCircle`, `exists_onCircle`, `known?_typeAt_of_circle`.
- **Idempotence.** `known?_typeAt_of_not_recurs`, `resolveType_again`.
- **Through a container.** `not_idempotent_list`: an alias that contains its own token.
-/

namespace CallSig
namespace Lexicon

open Text

variable {l l₀ : Lexicon} {s t p token : String} {depth : Nat} {scope? : Option String}

/-! ## Hits -/

/-- The lexicon after a look-up that found an entry. -/
def countHit (l : Lexicon) : Lexicon :=
  { l with stats := { l.stats with lookups := l.stats.lookups + 1, hits := l.stats.hits + 1 } }

theorem cached_of_known {v : Value} (h : l.known? token = some v) : (l.cached token).2 = l.countHit := by
  have hr : ¬l.retry.contains token = true := by
    intro hr
    rw [known?, if_pos hr] at h
    cases h
  unfold cached lookup
  rw [if_neg hr, get?_of_known? h]
  rfl

theorem known?_settle_self (token : String) (search : Search) (reason : MissReason) (l : Lexicon) :
    (settle token search reason l).2.known? token =
      some ((l.known? token).getD (settle token search reason l).1) := by
  rw [settle_eq, known?_settled, if_pos rfl, (search.counted l).known?]

/-- A token has an entry once it is resolved. -/
theorem isSome_known?_typeAt (ht : trimmed token = token) (depth : Nat) (scope? : Option String) (hops : Nat)
    (l : Lexicon) : ((typeAt depth scope? hops token l).2.known? token).isSome := by
  cases hk : l.known? token with
  | some v =>
    rw [typeAt_hit hk, (counted_cached l token).known?, hk]
    rfl
  | none =>
    cases hops with
    | zero =>
      rw [typeAt_zero_miss hk, known?_settled, if_pos rfl]
      rfl
    | succ hops =>
      rw [typeAt_succ_miss hk ht]
      obtain ⟨search, reason, l₁, -, hrun⟩ := Plan.exists_settle (l := (l.cached token).2) (fun _ => True)
        (typeAt depth scope? hops) token (asks_leads hk scope?) (fun _ _ _ _ => trivial) trivial
      rw [hrun, known?_settle_self]
      rfl

/-! ## Open tokens -/

/-- A token that its parts do not lead back to is still open when it is settled, so **its entry is the answer**. -/
theorem known?_typeAt_of_not_back (ht : trimmed t = t) (hback : ¬Relation.TransGen (l.Leads depth) t t)
    (scope? : Option String) (hops : Nat) :
    (typeAt depth scope? hops t l).2.known? t = some (typeAt depth scope? hops t l).1 := by
  cases hk : l.known? t with
  | some v =>
    rw [typeAt_hit hk, (counted_cached l t).known?]
    exact hk
  | none =>
    have hk' : (l.cached t).2.known? t = none := by rw [(counted_cached l t).known?, hk]
    cases hops with
    | zero =>
      rw [typeAt_zero_miss hk, known?_settled, if_pos rfl, hk']
      rfl
    | succ hops =>
      have hask : ∀ part l₁, l.Leads depth t part → Grows l l₁ ∧ l₁.known? t = none →
          Grows l (typeAt depth scope? hops part l₁).2 ∧ (typeAt depth scope? hops part l₁).2.known? t = none := by
        rintro part l₁ hpart ⟨hg, h₁⟩
        have htrim := trimmed_of_leads hpart
        have hframe := untouched_typeAt htrim hg (fun hreach => hback (.head' hpart hreach)) scope? hops
        exact ⟨hg.trans (grows_typeAt depth scope? hops htrim l₁), hframe.known.trans h₁⟩
      rw [typeAt_succ_miss hk ht]
      obtain ⟨search, reason, l₁, ⟨-, h₁⟩, hrun⟩ := Plan.exists_settle _ (typeAt depth scope? hops) t
        (asks_leads hk scope?) hask ⟨.of_counted (counted_cached l t), hk'⟩
      rw [hrun, known?_settle_self, h₁]
      rfl

/-! ## Circles of aliases -/

/-- The tokens have no entries, and each is an alias of another one of them. -/
def OnCircle (l : Lexicon) (depth : Nat) (C : String → Prop) : Prop :=
  ∀ s, C s → l.known? s = none ∧ trimmed s = s ∧
    ∃ p, C p ∧ ∀ scope?, Plan.ofToken l.aliases depth scope? s = .ask p Plan.keep

/-- A token that comes back to itself, and never by way of a composite token, is on a circle of aliases. -/
theorem exists_onCircle (ht : trimmed t = t) (hr : ¬l.Recurs depth t)
    (hback : Relation.TransGen (l.Leads depth) t t) : l.OnCircle depth (l.Reaches depth t) := by
  have hatom {s : String} (hs : l.Reaches depth t s) (hback : Relation.TransGen (l.Leads depth) s t) :
      ¬IsComposite depth s := fun hc => hr ⟨s, hc, hs, hback⟩
  -- an atom leads to one token only, so the way back goes through every token that is reached
  have hreturns {s : String} (hs : l.Reaches depth t s) : Relation.TransGen (l.Leads depth) s t := by
    induction hs with
    | refl => exact hback
    | tail hs hstep ih =>
      obtain ⟨next, hnext, hrest⟩ := Relation.TransGen.head'_iff.1 ih
      rw [eq_of_leads_of_not_composite (hatom hs ih) hstep hnext]
      exact .trans_right hrest hback
  intro s hs
  obtain ⟨p, hp, -⟩ := Relation.TransGen.head'_iff.1 (hreturns hs)
  have htrim : trimmed s = s := by
    rcases Relation.ReflTransGen.cases_tail hs with rfl | ⟨_, _, hlast⟩
    · exact ht
    · exact trimmed_of_leads hlast
  obtain ⟨text, htext⟩ := Classical.not_forall.1 (hatom hs (hreturns hs))
  rw [Classical.not_not] at htext
  have hp' := hp
  unfold Leads asksFor at hp'
  split at hp'
  · cases hp'
  · next hk =>
    rw [htext] at hp'
    obtain ⟨target, htarget, rfl⟩ := Option.map_eq_some_iff.1 (Option.mem_toList.1 hp')
    refine ⟨Option.not_isSome_iff_eq_none.1 hk, htrim, trimmed target, hs.tail hp, fun scope? => ?_⟩
    unfold Plan.ofToken Plan.atom
    rw [htext]
    dsimp only
    rw [htarget]

/-- **Around a circle of aliases there is one answer**: it is the entry of the token that was asked for, and no other
token on the circle gets another one. -/
theorem known?_typeAt_of_circle {C : String → Prop} (hC : l₀.OnCircle depth C) (hs : C s) (hg : Grows l₀ l)
    (hopen : ∀ c, C c → l.known? c = none) (scope? : Option String) (hops : Nat) :
    (typeAt depth scope? hops s l).2.known? s = some (typeAt depth scope? hops s l).1 ∧
      ∀ c, C c → (typeAt depth scope? hops s l).2.known? c = none ∨
        (typeAt depth scope? hops s l).2.known? c = some (typeAt depth scope? hops s l).1 := by
  induction hops generalizing l s with
  | zero =>
    have hentry (c : String) : (typeAt depth scope? 0 s l).2.known? c =
        if s = c then some (.unmapped s) else l.known? c := by
      rw [typeAt_zero_miss (hopen s hs), known?_settled, (counted_cached l s).known?, hopen s hs]
      rfl
    rw [typeAt_zero_miss (hopen s hs)] at hentry ⊢
    refine ⟨(hentry s).trans (if_pos rfl), fun c hc => ?_⟩
    rw [hentry c, hopen c hc]
    split
    · exact Or.inr rfl
    · exact Or.inl rfl
  | succ hops ih =>
    obtain ⟨-, htrim, p, hp, hplan⟩ := hC s hs
    have hcounted := counted_cached l s
    obtain ⟨-, hrest⟩ := ih hp (hg.trans (.of_counted hcounted)) fun c hc => by rw [hcounted.known?, hopen c hc]
    rw [typeAt_succ_miss (hopen s hs) htrim, hg.aliases, hplan scope?]
    -- the value of the target is kept for the token, whose entry is none or this value already
    have hentry (c : String) : ((Plan.ask p Plan.keep).perform (typeAt depth scope? hops) s (l.cached s).2).2.known? c =
        if s = c then some (typeAt depth scope? hops p (l.cached s).2).1
        else (typeAt depth scope? hops p (l.cached s).2).2.known? c := by
      show ((typeAt depth scope? hops p (l.cached s).2).2.memoize s _).known? c = _
      rw [known?_memoize]
      rcases hrest s hs with hnone | hsome
      · rw [hnone]
        rfl
      · rw [hsome]
        rfl
    refine ⟨(hentry s).trans (if_pos rfl), fun c hc => ?_⟩
    rw [hentry c]
    split
    · exact Or.inr rfl
    · exact hrest c hc

/-! ## Idempotence -/

theorem known?_typeAt_of_not_recurs (ht : trimmed t = t) (hr : ¬l.Recurs depth t) (scope? : Option String)
    (hops : Nat) : (typeAt depth scope? hops t l).2.known? t = some (typeAt depth scope? hops t l).1 := by
  by_cases hback : Relation.TransGen (l.Leads depth) t t
  · have hC := exists_onCircle ht hr hback
    exact (known?_typeAt_of_circle hC .refl (.of_counted (.refl l)) (fun c hc => (hC c hc).1) scope? hops).1
  · exact known?_typeAt_of_not_back ht hback scope? hops

/-- **Resolution is idempotent**: asking for a type once more only counts a look-up and a hit, whatever the aliases
are. The answer is the same again unless the token comes back to itself by way of a composite token. -/
theorem resolveType_again (l : Lexicon) (depth : Nat) (scope? : Option String) (token : String) :
    let first := resolveType depth scope? token l
    let second := resolveType depth scope? token first.2
    second.2 = first.2.countHit ∧ (¬l.Recurs depth (trimmed token) → second.1 = first.1) := by
  intro first second
  have ht := trimmed_trimmed token
  obtain ⟨w, hw⟩ := Option.isSome_iff_exists.1 (isSome_known?_typeAt ht depth scope? maxHops l)
  have hsecond : second = (w, (first.2.cached (trimmed token)).2) := typeAt_hit hw depth scope? maxHops
  rw [hsecond]
  refine ⟨cached_of_known hw, fun hr => ?_⟩
  exact Option.some.inj (hw.symm.trans (known?_typeAt_of_not_recurs ht hr scope? maxHops))

/-- Settings with these aliases, and nothing else. -/
def aliased (aliases : List (String × String)) : Settings := { Settings.standard with aliases := .ofList aliases }

instance (s : Settings) : Decidable (s.validate = .ok ()) :=
  match s.validate with
  | .ok () => .isTrue rfl
  | .error _ => .isFalse nofun

/-- A lexicon with one container whose aliases go round, and an alias of a list over them. -/
def circular : Lexicon :=
  (Catalog.create (blank.register "List" (.former (.container .list)))
    (aliased [("A", "B"), ("B", " A"), ("As", "List[A, A]")])).lexicon

theorem resolveType_again_circular :
    let first := resolveType 3 (some "core.Object") " As" circular
    let second := resolveType 3 (some "core.Object") " As" first.2
    (aliased [("A", "B"), ("B", " A"), ("As", "List[A, A]")]).validate = .ok () ∧
      ¬circular.Recurs 3 (trimmed " As") ∧ second.2 = first.2.countHit ∧ second.1 = first.1 := by
  have hr : ¬circular.Recurs 3 (trimmed " As") :=
    not_recurs_of_not_asked ["As", "List[A, A]", "List", "A", "B"] (by decide) (by decide +kernel)
  obtain ⟨hcounted, hsame⟩ := resolveType_again circular 3 (some "core.Object") " As"
  exact ⟨by decide +kernel, hr, hcounted, hsame hr⟩

/-! ## Through a container -/

/-- With an alias for a list over its own token, the token is kept as the placeholder that the nesting limit left,
and the answer is a list. -/
theorem not_idempotent_list :
    let settings := aliased [("A", "List[A]")]
    let first := resolveType 3 none "A" (Catalog.create .baseline settings).lexicon
    settings.validate = .ok () ∧ (resolveType 3 none "A" first.2).1 ≠ first.1 := by
  refine ⟨by decide +kernel, fun h => ?_⟩
  have hunmapped := congrArg Value.isUnmapped h
  revert hunmapped
  decide +kernel

end Lexicon
end CallSig
