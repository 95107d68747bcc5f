import CallSig.Lexicon.Resolution

/-!
# `CallSig.Proofs.Resolution.Steps` — what one step of a resolution does to the lexicon

Resolution looks tokens up, searches for host objects, notes misses and keeps results. Looking up and searching
only count; keeping a result decides the entry of one token. What a token's entry *is* depends on the marks for
another resolution, so everything is stated for `known?`, the value that a look-up really gives.

## Contents
- **Entries.** `known?`, `known?_memoize`, `orCached_hit`, `orCached_miss`.
- **Counting.** `Counted`: only counters differ, and not that of the kept results.
- **Searches.** `Search` (a search with the value it finds), `Search.expression`, `guess`, `or`, `matrix`.
- **Settling.** `settle`: keep what a search found, or give up.
-/

namespace CallSig
namespace Lexicon

open Text

variable {l l' : Lexicon} {token : String}

/-! ## Entries -/

/-- The value that resolution finds under a token: none while the token is to be resolved again. -/
def known? (l : Lexicon) (token : String) : Option Value :=
  if l.retry.contains token then none else l.tokens.get? token

theorem get?_of_known? {v : Value} (h : l.known? token = some v) : l.tokens.get? token = some v := by
  unfold known? at h
  split at h
  · cases h
  · exact h

theorem cached_fst (l : Lexicon) (token : String) : (l.cached token).1 = l.known? token := by
  unfold cached known? lookup
  split <;> rfl

theorem get?_register (l : Lexicon) (token other : String) (v : Value) :
    (l.register token v).tokens.get? other = if token = other then some v else l.tokens.get? other :=
  Dict.get?_insert l.tokens token other v

theorem known?_register (l : Lexicon) (token other : String) (v : Value) :
    (l.register token v).known? other = if token = other then some v else l.known? other := by
  unfold known?
  rw [get?_register]
  show (if (l.retry.filter (· != token)).contains other = true then none else _) = _
  by_cases he : token = other
  · subst he
    simp
  · simp [he, Ne.symm he]

theorem memoize_of_known {w : Value} (h : l.known? token = some w) (v : Value) : l.memoize token v = l := by
  have hr : ¬l.retry.contains token = true := by
    intro hr
    rw [known?, if_pos hr] at h
    cases h
  have hc : l.tokens.contains token = true := Option.isSome_of_mem (get?_of_known? h)
  unfold memoize
  rw [if_neg hr, if_pos hc]

theorem memoize_of_unknown (h : l.known? token = none) (v : Value) :
    ∃ stats, l.memoize token v = { l.register token v with stats } := by
  unfold memoize
  -- a token is open because it is marked, or because it has no entry at all
  by_cases hr : l.retry.contains token = true
  · exact ⟨l.stats, if_pos hr⟩
  · have hc : ¬l.tokens.contains token = true := by
      rw [known?, if_neg hr] at h
      exact Option.not_isSome_iff_eq_none.2 h
    have hkept : l.retry.filter (· != token) = l.retry := by
      rw [List.filter_eq_self]
      intro other hmem
      rw [bne_iff_ne]
      rintro rfl
      exact hr (List.contains_iff_mem.2 hmem)
    rw [if_neg hr, if_neg hc]
    refine ⟨{ l.stats with memoized := l.stats.memoized + 1 }, ?_⟩
    unfold register
    rw [hkept]

/-- **Keeping a result** decides the entry of its token, and a value that is already there stays. -/
theorem known?_memoize (l : Lexicon) (token : String) (v : Value) (other : String) :
    (l.memoize token v).known? other =
      if token = other then some ((l.known? token).getD v) else l.known? other := by
  cases hk : l.known? token with
  | some w =>
    rw [memoize_of_known hk]
    split
    · next ho => rw [← ho, hk]; rfl
    · rfl
  | none =>
    obtain ⟨stats, hm⟩ := memoize_of_unknown hk v
    rw [hm]
    exact known?_register l token other v

theorem get?_memoize (l : Lexicon) (token : String) (v : Value) (other : String) :
    (l.memoize token v).tokens.get? other =
      if token = other then some ((l.known? token).getD v) else l.tokens.get? other := by
  cases hk : l.known? token with
  | some w =>
    rw [memoize_of_known hk]
    split
    · next ho => rw [← ho, get?_of_known? hk]; rfl
    · rfl
  | none =>
    obtain ⟨stats, hm⟩ := memoize_of_unknown hk v
    rw [hm]
    exact get?_register l token other v

/-- Nothing but the entries, their marks and the counters changes. -/
theorem memoize_eq (l : Lexicon) (token : String) (v : Value) :
    ∃ tokens retry stats, l.memoize token v = { l with tokens, retry, stats } := by
  cases hk : l.known? token with
  | some w => exact ⟨l.tokens, l.retry, l.stats, memoize_of_known hk v⟩
  | none =>
    obtain ⟨stats, hm⟩ := memoize_of_unknown hk v
    exact ⟨_, _, stats, hm⟩

theorem definitions_memoize (l : Lexicon) (token : String) (v : Value) :
    (l.memoize token v).definitions = l.definitions := by
  obtain ⟨tokens, retry, stats, hm⟩ := memoize_eq l token v
  rw [hm]

theorem aliases_memoize (l : Lexicon) (token : String) (v : Value) : (l.memoize token v).aliases = l.aliases := by
  obtain ⟨tokens, retry, stats, hm⟩ := memoize_eq l token v
  rw [hm]

theorem orCached_hit {v : Value} (h : l.known? token = some v) (resolve : LexiconM Value) :
    orCached token resolve l = (v, (l.cached token).2) := by
  have hc : l.cached token = (some v, (l.cached token).2) := Prod.ext ((cached_fst l token).trans h) rfl
  unfold orCached
  simp only [bind, StateT.bind, modifyGet, MonadStateOf.modifyGet, StateT.modifyGet]
  rw [hc]
  rfl

theorem orCached_miss (h : l.known? token = none) (resolve : LexiconM Value) :
    orCached token resolve l = resolve (l.cached token).2 := by
  have hc : l.cached token = (none, (l.cached token).2) := Prod.ext ((cached_fst l token).trans h) rfl
  unfold orCached
  simp only [bind, StateT.bind, modifyGet, MonadStateOf.modifyGet, StateT.modifyGet]
  rw [hc]
  rfl

/-! ## Counting -/

/-- A lexicon that differs from another one in its counters only, and has not kept more results. -/
def Counted (l l' : Lexicon) : Prop := l' = { l with stats := { l'.stats with memoized := l.stats.memoized } }

theorem Counted.refl (l : Lexicon) : Counted l l := rfl

theorem Counted.trans {l'' : Lexicon} (h : Counted l l') (h' : Counted l' l'') : Counted l l'' := by
  unfold Counted at h h' ⊢
  rw [h', h]

theorem Counted.known? (h : Counted l l') : l'.known? = l.known? := by
  rw [h]
  rfl

theorem Counted.definitions (h : Counted l l') : l'.definitions = l.definitions := by
  rw [h]

theorem Counted.aliases (h : Counted l l') : l'.aliases = l.aliases := by
  rw [h]

theorem counted_cached (l : Lexicon) (token : String) : Counted l (l.cached token).2 := by
  unfold cached
  split <;> rfl

/-! ## Searches -/

/-- A search for a host object. What it finds depends on the definitions only, and all it does is count. -/
structure Search where
  run : LexiconM (Option Value)
  value? : Dict Value → Option Value
  run_fst : ∀ l, (run l).1 = value? l.definitions
  counted : ∀ l, Counted l (run l).2

namespace Search

/-- The search whose outcome is known. -/
def always (found : Option Value) : Search where
  run := pure found
  value? := fun _ => found
  run_fst := fun _ => rfl
  counted := fun _ => rfl

/-- The value of a text as a default construction or as an expression. -/
def expression (text : String) : Search where
  run := tryExpression text
  value? := fun definitions =>
    match defaultConstructed? text with
    | some name => some (.sentinel ⟨.defaulted, name⟩)
    | none => Expression.evaluate definitions text
  run_fst := by
    intro l
    unfold tryExpression
    cases defaultConstructed? text <;> rfl
  counted := by
    intro l
    unfold tryExpression
    cases defaultConstructed? text <;> rfl

theorem orElse_eq (first second : LexiconM (Option Value)) (l : Lexicon) :
    (do match ← first with
        | some value => return some value
        | none => second : LexiconM (Option Value)) l =
      (match (first l).1 with
        | some value => pure (some value)
        | none => second : LexiconM (Option Value)) (first l).2 := rfl

/-- The second search if the first finds nothing. -/
def or (first second : Search) : Search where
  run := do
    match ← first.run with
    | some value => return some value
    | none => second.run
  value? := fun definitions => (first.value? definitions).or (second.value? definitions)
  run_fst := by
    intro l
    rw [orElse_eq, first.run_fst]
    cases first.value? l.definitions with
    | some value => rfl
    | none => exact (second.run_fst _).trans (by rw [(first.counted l).definitions]; rfl)
  counted := by
    intro l
    rw [orElse_eq]
    cases (first.run l).1 with
    | some value => exact first.counted l
    | none => exact (first.counted l).trans (second.counted _)

/-- The value of a token qualified by its scope. -/
def guessed (token scope : String) : Search :=
  let bare := !token.toList.contains '.' && !token.toList.contains '(' && Expression.isPath scope.toList
  (if bare then expression (scope ++ "." ++ token) else always none).or
    (match spliced? token scope with
      | some candidate => expression candidate
      | none => always none)

theorem guess_eq (token scope : String) (l : Lexicon) :
    guess token scope l = (guessed token scope).run l.countGuess := by
  unfold guess guessed or
  cases !token.toList.contains '.' && !token.toList.contains '(' && Expression.isPath scope.toList <;>
    cases spliced? token scope <;> rfl

/-- The value that a token has in a scope. -/
def inScope (token : String) : Option String → Search
  | none => always none
  | some scope =>
    { run := guess token scope
      value? := (guessed token scope).value?
      run_fst := fun l => by
        rw [guess_eq]
        exact (guessed token scope).run_fst _
      counted := fun l => by
        rw [guess_eq]
        exact Counted.trans (show Counted l l.countGuess from rfl) ((guessed token scope).counted _) }

/-- The value that a token without structure has in a scope. -/
def ofToken (scope? : Option String) (token : String) : Search := (expression token).or (inScope token scope?)

/-- The value of a matrix type. -/
def matrix (stem : String) (args : List String) : Search :=
  match dimensions? args with
  | none => always none
  | some (rows, cols) =>
    { run := modifyGet (·.evaluate s!"{stem}{rows}x{cols}")
      value? := fun definitions => Expression.evaluate definitions s!"{stem}{rows}x{cols}"
      run_fst := fun _ => rfl
      counted := fun _ => rfl }

end Search

/-! ## Settling -/

/-- Keeps what a search finds, or gives up on the token. -/
def settle (token : String) (search : Search) (reason : MissReason) : LexiconM Value := do
  match ← search.run with
  | some value => remember token value
  | none => giveUp token reason

/-- The lexicon once the outcome of a search is kept. -/
def settled (l : Lexicon) (token : String) (reason : MissReason) : Option Value → Lexicon
  | some value => l.memoize token value
  | none => (l.recordMiss ⟨token, reason⟩).memoize token (.unmapped token)

theorem settle_eq (token : String) (search : Search) (reason : MissReason) (l : Lexicon) :
    settle token search reason l =
      ((search.value? l.definitions).getD (.unmapped token),
        (search.run l).2.settled token reason (search.value? l.definitions)) := by
  show (match (search.run l).1 with
    | some value => remember token value
    | none => giveUp token reason : LexiconM Value) (search.run l).2 = _
  rw [search.run_fst]
  cases search.value? l.definitions <;> rfl

theorem matrix_eq_settle (token stem : String) (args : List String) :
    matrix token stem args =
      settle token (Search.matrix stem args)
        (if (dimensions? args).isSome then .unknownToken else .badArguments) := by
  unfold matrix settle Search.matrix
  cases dimensions? args <;> rfl

theorem known?_settled (l : Lexicon) (token other : String) (reason : MissReason) (found : Option Value) :
    (l.settled token reason found).known? other =
      if token = other then some ((l.known? token).getD (found.getD (.unmapped token))) else l.known? other := by
  cases found with
  | some value => exact known?_memoize l token value other
  | none => exact known?_memoize (l.recordMiss ⟨token, reason⟩) token (.unmapped token) other

theorem get?_settled (l : Lexicon) (token other : String) (reason : MissReason) (found : Option Value) :
    (l.settled token reason found).tokens.get? other =
      if token = other then some ((l.known? token).getD (found.getD (.unmapped token)))
      else l.tokens.get? other := by
  cases found with
  | some value => exact get?_memoize l token value other
  | none => exact get?_memoize (l.recordMiss ⟨token, reason⟩) token (.unmapped token) other

theorem known?_settled_of_known {other : String} {value : Value} (h : l.known? other = some value)
    (token : String) (reason : MissReason) (found : Option Value) :
    (l.settled token reason found).known? other = some value := by
  rw [known?_settled]
  split
  · next he => rw [he, h]; rfl
  · exact h

theorem definitions_settled (l : Lexicon) (token : String) (reason : MissReason) (found : Option Value) :
    (l.settled token reason found).definitions = l.definitions := by
  cases found <;> exact definitions_memoize _ token _

theorem aliases_settled (l : Lexicon) (token : String) (reason : MissReason) (found : Option Value) :
    (l.settled token reason found).aliases = l.aliases := by
  cases found <;> exact aliases_memoize _ token _

end Lexicon
end CallSig
