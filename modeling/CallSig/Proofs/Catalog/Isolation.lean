import CallSig.Proofs.Catalog.Walk
import CallSig.Proofs.Overload.Groups
import CallSig.Proofs.Overload.Prefixes
import CallSig.Proofs.Variant.Alignment

/-!
# `CallSig.Proofs.Catalog.Isolation` — a bad line harms only itself

A line that the parser rejects, and a line whose arguments repeat a name or step back in kind, are given up before
anything is resolved. Merging passes an unnumbered line on where it stands, whatever groups are open around it. So
building a block with such a line differs from building it without the line in one thing only: a line that parses hands
out the tokens that were given up on before, and if no other line of the block does, this one empties the list.

Resolution writes this list and never reads it. Two runs over lexicons that differ in the list only go the same way.

## Contents
- **Unread lists.** `drained`, `Oblivious`; `Oblivious.typeAt`, `runProperty_oblivious`.
- **Merging.** `texts_without`: an unnumbered line stands alone among the merged texts.
- **Lines.** `IsFaulty`, `readLine_of_faulty`.
- **Blocks.** `readTexts_of_rejected`, `unresolved_readTexts`, `readTexts_without`.
- **Builds.** `withBlock`, `build_without`, `not_isolated`.
-/

namespace CallSig

open Text

namespace Lexicon

/-! ## Unread lists -/

/-- The lexicon with nothing given up on that nobody has asked for. -/
def drained (l : Lexicon) : Lexicon := { l with unresolved := [] }

theorem drained_of_unresolved {l : Lexicon} (h : l.unresolved = []) : l.drained = l := by
  unfold drained
  rw [← h]

/-- The run does the same whatever has been given up on that nobody has asked for. -/
def Oblivious {α : Type} (m : LexiconM α) : Prop :=
  ∀ l, (m l.drained).1 = (m l).1 ∧ (m l.drained).2.drained = (m l).2.drained

namespace Oblivious

variable {α β : Type} {m : LexiconM α} {k : α → LexiconM β} {resolve : String → LexiconM Value}

theorem pure (a : α) : Oblivious (pure a : LexiconM α) := fun _ => ⟨rfl, rfl⟩

/-- Two lexicons that differ in the list only are not told apart. -/
theorem same (h : Oblivious m) {l l' : Lexicon} (hl : l.drained = l'.drained) :
    (m l).1 = (m l').1 ∧ (m l).2.drained = (m l').2.drained := by
  obtain ⟨hvalue, hlexicon⟩ := h l
  obtain ⟨hvalue', hlexicon'⟩ := h l'
  rw [hl] at hvalue hlexicon
  exact ⟨hvalue.symm.trans hvalue', hlexicon.symm.trans hlexicon'⟩

theorem bind (hm : Oblivious m) (hk : ∀ a, Oblivious (k a)) : Oblivious (m >>= k) := by
  intro l
  obtain ⟨hvalue, hlexicon⟩ := hm l
  show (k (m l.drained).1 (m l.drained).2).1 = (k (m l).1 (m l).2).1 ∧
    (k (m l.drained).1 (m l.drained).2).2.drained = (k (m l).1 (m l).2).2.drained
  rw [hvalue]
  exact (hk (m l).1).same hlexicon

theorem cached (token : String) : Oblivious (modifyGet (·.cached token)) := by
  intro l
  show (l.drained.cached token).1 = (l.cached token).1 ∧ (l.drained.cached token).2.drained = (l.cached token).2.drained
  have hretry : l.drained.retry = l.retry := rfl
  unfold Lexicon.cached
  rw [hretry]
  by_cases hr : l.retry.contains token = true
  · rw [if_pos hr, if_pos hr]
    exact ⟨rfl, rfl⟩
  · rw [if_neg hr, if_neg hr]
    exact ⟨rfl, rfl⟩

theorem evaluate (expr : String) : Oblivious (modifyGet (·.evaluate expr)) := fun _ => ⟨rfl, rfl⟩

theorem remember (token : String) (value : Value) : Oblivious (remember token value) := by
  intro l
  refine ⟨rfl, ?_⟩
  show (l.drained.memoize token value).drained = (l.memoize token value).drained
  have hretry : l.drained.retry = l.retry := rfl
  have htokens : l.drained.tokens = l.tokens := rfl
  unfold Lexicon.memoize
  rw [hretry, htokens]
  by_cases hr : l.retry.contains token = true
  · rw [if_pos hr, if_pos hr]
    rfl
  · rw [if_neg hr, if_neg hr]
    by_cases hc : l.tokens.contains token = true
    · rw [if_pos hc, if_pos hc]
      rfl
    · rw [if_neg hc, if_neg hc]
      rfl

theorem giveUp (token : String) (reason : MissReason) : Oblivious (giveUp token reason) := by
  have hnote : Oblivious (modify (·.recordMiss ⟨token, reason⟩) : LexiconM Unit) := fun _ => ⟨rfl, rfl⟩
  exact hnote.bind fun _ => remember token (.unmapped token)

theorem orCached (token : String) {m : LexiconM Value} (h : Oblivious m) :
    Oblivious (orCached token m) := by
  refine bind (cached token) fun found? => ?_
  cases found? with
  | some value => exact pure value
  | none => exact h

theorem tryExpression (text : String) : Oblivious (tryExpression text) := by
  unfold Lexicon.tryExpression
  cases defaultConstructed? text with
  | some name => exact pure _
  | none => exact evaluate text

theorem guess (token scope : String) : Oblivious (guess token scope) := by
  have hcount : Oblivious (modify countGuess : LexiconM Unit) := fun _ => ⟨rfl, rfl⟩
  refine hcount.bind fun _ => ?_
  dsimp only
  split
  case' isTrue => refine (tryExpression _).bind fun member => ?_
  case' isFalse => refine (pure none).bind fun member => ?_
  all_goals
    cases member with
    | some value => exact pure (some value)
    | none =>
      cases spliced? token scope with
      | some candidate => exact tryExpression candidate
      | none => exact pure none

theorem atom (h : ∀ token, Oblivious (resolve token)) (scope? : Option String) (token : String) :
    Oblivious (atom resolve scope? token) := by
  intro l
  -- the aliases are read, and they are the same
  have haliases : l.drained.aliases = l.aliases := rfl
  unfold Lexicon.atom
  simp only [Bind.bind, StateT.bind, get, getThe, MonadStateOf.get, StateT.get, Pure.pure]
  rw [haliases]
  cases l.aliases.get? token with
  | some target => exact (h (trimmed target)).bind (fun value => remember token value) l
  | none =>
    refine (tryExpression token).bind (fun found => ?_) l
    cases found with
    | some value => exact remember token value
    | none =>
      cases scope?
      case' some scope => refine (guess token scope).bind fun guessed => ?_
      case' none => refine (pure none).bind fun guessed => ?_
      all_goals
        cases guessed with
        | some value => exact remember token value
        | none => exact giveUp token .unknownToken

theorem typeArgs (h : ∀ token, Oblivious (resolve token)) (args : List String) :
    Oblivious (typeArgs resolve args) := by
  induction args with
  | nil => exact pure []
  | cons arg args ih => exact bind (h _) fun value => bind ih fun rest => pure _

theorem matrix (token stem : String) (args : List String) : Oblivious (matrix token stem args) := by
  unfold Lexicon.matrix
  cases dimensions? args with
  | none => exact giveUp token _
  | some dims =>
    refine bind (evaluate _) fun found? => ?_
    cases found? with
    | some value => exact remember token value
    | none => exact giveUp token _

theorem applyFormer (h : ∀ token, Oblivious (resolve token)) (token : String) (args : List String) (former : Value) :
    Oblivious (applyFormer resolve token args former) := by
  unfold Lexicon.applyFormer
  split
  · exact matrix token _ args
  · refine bind (typeArgs h args) fun types => ?_
    split
    · exact remember token _
    · exact giveUp token _
  · exact bind (typeArgs h args) fun types => remember token _
  · exact bind (typeArgs h args) fun types => remember token _
  · exact bind (typeArgs h args) fun types => remember token _
  · exact giveUp token _

/-- **Resolution does not read the list.** -/
theorem typeAt (depth : Nat) (scope? : Option String) (hops : Nat) (token : String) :
    Oblivious (typeAt depth scope? hops token) := by
  induction hops generalizing token with
  | zero => exact orCached token (giveUp token .tooDeep)
  | succ hops ih =>
    refine orCached token ?_
    cases TypeShape.ofToken depth token with
    | atom text => exact atom ih scope? text
    | array element length? => exact bind (ih element) fun value => remember token _
    | generic container args => exact bind (ih container) fun former => applyFormer ih token args former

end Oblivious

/-- No step of a build reads the list. -/
theorem runProperty_oblivious (depth : Nat) : RunProperty depth Oblivious where
  pure := .pure
  bind := .bind
  resolveType := fun scope? token => .typeAt depth scope? maxHops (trimmed token)
  zero := fun _ _ => ⟨rfl, rfl⟩
  whole := fun scope? hops {token} _ => .orCached token (.atom (.typeAt depth scope? hops) scope? token)
  handOut := fun _ => ⟨rfl, rfl⟩

end Lexicon

namespace Overload

/-! ## Merging -/

/-- **An unnumbered line stands alone among the merged texts**, wherever it stands among the lines. -/
theorem texts_without {line : String} (hplain : numberOf? line = none) (before after : List String) :
    ∃ front back, mergedTexts (before ++ after) = front ++ back ∧
      mergedTexts (before ++ line :: after) =
        front ++ ((if trimmed line = "" then [] else [trimmed line]) ++ back) := by
  have hfrom (group : Dict Nat) (origin : Nat) : ∃ front back,
      (mergeFrom group origin (before ++ after)).map Merged.text = front ++ back ∧
        (mergeFrom group origin (before ++ line :: after)).map Merged.text =
          front ++ ((if trimmed line = "" then [] else [trimmed line]) ++ back) := by
    induction before generalizing group origin with
    | nil =>
      refine ⟨[], (mergeFrom group origin after).map Merged.text, rfl, ?_⟩
      rw [List.nil_append, mergeFrom_cons, hplain, List.map_append, map_text_mergeFrom rfl (origin + 1) origin after]
      split
      · rfl
      · rfl
    | cons first before ih =>
      rw [List.cons_append, List.cons_append, mergeFrom_cons, mergeFrom_cons]
      -- what the first line gives comes first in both
      have hfront (part : List Merged) (group : Dict Nat) : ∃ front back,
          (part ++ mergeFrom group (origin + 1) (before ++ after)).map Merged.text = front ++ back ∧
            (part ++ mergeFrom group (origin + 1) (before ++ line :: after)).map Merged.text =
              front ++ ((if trimmed line = "" then [] else [trimmed line]) ++ back) := by
        obtain ⟨front, back, hwithout, hwith⟩ := ih group (origin + 1)
        refine ⟨part.map Merged.text ++ front, back, ?_, ?_⟩
        · rw [List.map_append, hwithout, List.append_assoc]
        · rw [List.map_append, hwith, List.append_assoc]
      rcases numberOf? first with _ | _ | n
      · exact hfront _ group
      · exact hfront _ .empty
      · exact hfront [] _
  exact hfrom .empty 0

end Overload

namespace Variant

/-! ## Lines -/

/-- A name is repeated, or an argument follows one that its kind may not follow. -/
def Misordered (args : List Argument) : Prop :=
  ¬(args.map Argument.name).Nodup ∨ ¬args.Pairwise fun a b => a.kind.Before b.kind

theorem checkStructure_of_misordered {args : List Argument} (h : Misordered args) :
    ∃ e, checkStructure args = .error e := by
  cases hc : checkStructure args with
  | error e => exact ⟨e, rfl⟩
  | ok u =>
    rcases h with hnames | hkinds
    · exact absurd (orderly_of_checkStructure hc).names hnames
    · exact absurd (orderly_of_checkStructure hc).before hkinds

end Variant

namespace Catalog

open Lexicon Overload

variable {c : Catalog} {owner line : String} {settings : Settings} {before after texts : List String} {l : Lexicon}
  {members : Dict (List Variant)}

/-- The line, as merging hands it to the parser, is rejected, or its arguments are out of order. -/
def IsFaulty (depth : Nat) (line : String) : Prop :=
  ∀ d, Descriptor.parse depth (trimmed line) = .ok d → Variant.Misordered d.arguments

theorem readLine_of_rejected {text : String} (h : ¬Accepted settings.bracketDepth text) :
    readLine settings owner members text l = (members, l) := by
  unfold readLine
  cases hp : Descriptor.parse settings.bracketDepth text with
  | error e => rfl
  | ok d => exact absurd ⟨d, hp⟩ h

/-- A faulty line that parses hands out what has been given up on, and does nothing else. -/
theorem readLine_of_faulty (hf : IsFaulty settings.bracketDepth line)
    (h : Accepted settings.bracketDepth (trimmed line)) :
    readLine settings owner members (trimmed line) l = (members, l.drained) := by
  obtain ⟨d, hd⟩ := h
  obtain ⟨e, he⟩ := Variant.checkStructure_of_misordered (hf d hd)
  have hassemble : Variant.assemble settings.bracketDepth settings.optionalReturns (some owner) d =
      pure (.error e) := by
    unfold Variant.assemble
    rw [he]
  unfold readLine
  rw [hd]
  dsimp only
  rw [hassemble]
  rfl

theorem unresolved_readLine {text : String} (h : Accepted settings.bracketDepth text) :
    (readLine settings owner members text l).2.unresolved = [] := by
  obtain ⟨d, hd⟩ := h
  cases hassemble : Variant.assemble settings.bracketDepth settings.optionalReturns (some owner) d l with
  | mk outcome after =>
    unfold readLine
    rw [hd]
    dsimp only [Bind.bind, StateT.bind]
    rw [hassemble]
    cases outcome with
    | ok variant => rfl
    | error e => rfl

/-! ## Blocks -/

theorem readTexts_of_rejected (h : ∀ text ∈ texts, ¬Accepted settings.bracketDepth text) :
    texts.foldlM (readLine settings owner) members l = (members, l) := by
  induction texts with
  | nil => rfl
  | cons text rest ih =>
    obtain ⟨hfirst, hrest⟩ := List.forall_mem_cons.1 h
    rw [List.foldlM_cons]
    show rest.foldlM (readLine settings owner) (readLine settings owner members text l).1
      (readLine settings owner members text l).2 = _
    rw [readLine_of_rejected hfirst]
    exact ih hrest

/-- Once a line has been read, nothing is left that nobody has asked for. -/
theorem unresolved_readTexts (h : ∃ text ∈ texts, Accepted settings.bracketDepth text) :
    (texts.foldlM (readLine settings owner) members l).2.unresolved = [] := by
  induction texts generalizing members l with
  | nil => simp at h
  | cons text rest ih =>
    rw [List.foldlM_cons]
    show (rest.foldlM (readLine settings owner) (readLine settings owner members text l).1
      (readLine settings owner members text l).2).2.unresolved = []
    by_cases hrest : ∃ text ∈ rest, Accepted settings.bracketDepth text
    · exact ih hrest
    · have hnone : ∀ text ∈ rest, ¬Accepted settings.bracketDepth text := fun text hmem hacc => hrest ⟨text, hmem, hacc⟩
      have hfirst : Accepted settings.bracketDepth text := by
        obtain ⟨other, hmem, hacc⟩ := h
        rcases List.mem_cons.1 hmem with rfl | hmem
        · exact hacc
        · exact absurd hacc (hnone other hmem)
      rw [readTexts_of_rejected hnone]
      exact unresolved_readLine hfirst

/-- The members and the lexicon once a block of merged texts is read. -/
def afterTexts (settings : Settings) (owner : String) (members : Dict (List Variant)) (l : Lexicon)
    (texts : List String) : Dict (List Variant) × Lexicon := texts.foldlM (readLine settings owner) members l

theorem afterTexts_append (front back : List String) :
    afterTexts settings owner members l (front ++ back) =
      afterTexts settings owner (afterTexts settings owner members l front).1
        (afterTexts settings owner members l front).2 back := by
  unfold afterTexts
  rw [List.foldlM_append]
  rfl

/-- **Among the merged texts of a block, a faulty line makes no difference** but to the list of what has been given up
on and not asked for, and to this list only if it is the one line that parses. -/
theorem afterTexts_without (owner : String) (members : Dict (List Variant)) (l : Lexicon)
    (hf : IsFaulty settings.bracketDepth line) (front back : List String) :
    let depth := settings.bracketDepth
    let without := afterTexts settings owner members l (front ++ back)
    let run := afterTexts settings owner members l (front ++ trimmed line :: back)
    run.1 = without.1 ∧
      (Accepted depth (trimmed line) → (∀ text ∈ front ++ back, ¬Accepted depth text) →
        without.2 = l ∧ run.2 = l.drained) ∧
      (¬Accepted depth (trimmed line) ∨ (∃ text ∈ front ++ back, Accepted depth text) → run.2 = without.2) := by
  dsimp only
  by_cases hacc : Accepted settings.bracketDepth (trimmed line)
  · have hobl : Oblivious (back.foldlM (readLine settings owner) (afterTexts settings owner members l front).1) :=
      (runProperty_oblivious settings.bracketDepth).readTexts owner back _
    obtain ⟨hmembers, hlexicon⟩ := hobl (afterTexts settings owner members l front).2
    have hrun : afterTexts settings owner members l (front ++ trimmed line :: back) =
        afterTexts settings owner (afterTexts settings owner members l front).1
          (afterTexts settings owner members l front).2.drained back := by
      rw [afterTexts_append]
      show back.foldlM (readLine settings owner) (readLine settings owner _ (trimmed line) _).1
        (readLine settings owner _ (trimmed line) _).2 = _
      rw [readLine_of_faulty hf hacc]
      rfl
    have hempty : (afterTexts settings owner members l (front ++ trimmed line :: back)).2.unresolved = [] :=
      unresolved_readTexts ⟨trimmed line, by simp, hacc⟩
    have hdrained : (afterTexts settings owner members l (front ++ trimmed line :: back)).2 =
        (afterTexts settings owner members l (front ++ back)).2.drained := by
      rw [← drained_of_unresolved hempty, hrun, afterTexts_append]
      exact hlexicon
    refine ⟨?_, fun _ hnone => ?_, fun h => ?_⟩
    · rw [hrun, afterTexts_append]
      exact hmembers
    · have hsame : afterTexts settings owner members l (front ++ back) = (members, l) := readTexts_of_rejected hnone
      rw [hdrained, hsame]
      exact ⟨rfl, rfl⟩
    · rw [hdrained]
      exact drained_of_unresolved (unresolved_readTexts (h.resolve_left (not_not_intro hacc)))
  · have hrun : afterTexts settings owner members l (front ++ trimmed line :: back) =
        afterTexts settings owner members l (front ++ back) := by
      rw [afterTexts_append, afterTexts_append]
      show back.foldlM (readLine settings owner) (readLine settings owner _ (trimmed line) _).1
        (readLine settings owner _ (trimmed line) _).2 = _
      rw [readLine_of_rejected hacc]
      rfl
    rw [hrun]
    exact ⟨rfl, fun h => absurd h hacc, fun _ => rfl⟩

/-! ## Builds -/

/-- The catalog with other lines in the block of an owner. -/
def withBlock (c : Catalog) (owner : String) (lines : List String) : Catalog :=
  { c with blocks := c.blocks.insert owner lines }

theorem not_accepted_blank (depth : Nat) : ¬Accepted depth "" := by
  rintro ⟨d, hd⟩
  rcases head_of_parse hd nofun with ⟨-, c, cs, hline, -⟩ | ⟨digits, gap, rest, -, -, hline, -⟩
  · cases hline
  · have hlength := congrArg List.length hline
    simp at hlength

/-- A build reads the merged texts of the block. -/
theorem build_eq_afterTexts (hstale : c.stale.contains owner = true) {lines : List String}
    (hblock : c.blocks.get? owner = some lines) :
    (c.build owner).builtMembers owner =
        (afterTexts c.settings owner (c.builtMembers owner) c.lexicon (mergedTexts lines)).1 ∧
      (c.build owner).lexicon =
        (afterTexts c.settings owner (c.builtMembers owner) c.lexicon (mergedTexts lines)).2 := by
  obtain ⟨hlexicon, hmembers, -⟩ := build_of_stale hstale
  rw [hblock] at hlexicon hmembers
  exact ⟨hmembers, hlexicon⟩

/-- **A bad line harms only itself.** A block is built to the same members with and without a faulty unnumbered line,
and leaves the same lexicon, except that the line, if it parses and no other line of the block does, empties the list
of what has been given up on and not asked for. -/
theorem build_without (c : Catalog) (owner line : String) (before after : List String)
    (hstale : c.stale.contains owner = true) (hblock : c.blocks.get? owner = some (before ++ line :: after))
    (hplain : numberOf? line = none) (hf : IsFaulty c.settings.bracketDepth line) :
    let depth := c.settings.bracketDepth
    let others := mergedTexts (before ++ after)
    let without := (c.withBlock owner (before ++ after)).build owner
    (∀ other, (c.build owner).builtMembers other = without.builtMembers other) ∧
      (Accepted depth (trimmed line) → (∀ text ∈ others, ¬Accepted depth text) →
        without.lexicon = c.lexicon ∧ (c.build owner).lexicon = c.lexicon.drained) ∧
      (¬Accepted depth (trimmed line) ∨ (∃ text ∈ others, Accepted depth text) →
        (c.build owner).lexicon = without.lexicon) := by
  intro depth others without
  have hblock' : (c.withBlock owner (before ++ after)).blocks.get? owner = some (before ++ after) :=
    Dict.get?_insert_self ..
  obtain ⟨hmembers, hlexicon⟩ := build_eq_afterTexts hstale hblock
  obtain ⟨hmembers', hlexicon'⟩ : without.builtMembers owner = _ ∧ without.lexicon = _ :=
    build_eq_afterTexts (c := c.withBlock owner (before ++ after)) hstale hblock'
  have hother (other : String) (hne : owner ≠ other) :
      (c.build owner).builtMembers other = without.builtMembers other := by
    rw [builtMembers_build_of_ne hne, builtMembers_build_of_ne hne]
    rfl
  have hall (h : (c.build owner).builtMembers owner = without.builtMembers owner) (other : String) :
      (c.build owner).builtMembers other = without.builtMembers other := by
    by_cases hne : owner = other
    · exact hne ▸ h
    · exact hother other hne
  obtain ⟨front, back, hwithout, hwith⟩ := texts_without hplain before after
  rw [hwith] at hmembers hlexicon
  rw [hwithout] at hmembers' hlexicon'
  by_cases hblank : trimmed line = ""
  · -- merging drops a blank line, and the parser rejects it
    rw [if_pos hblank, List.nil_append] at hmembers hlexicon
    have hrejected : ¬Accepted depth (trimmed line) := hblank ▸ not_accepted_blank depth
    exact ⟨hall (hmembers.trans hmembers'.symm), fun hacc => absurd hacc hrejected,
      fun _ => hlexicon.trans hlexicon'.symm⟩
  · rw [if_neg hblank, List.singleton_append] at hmembers hlexicon
    obtain ⟨hsame, halone, hbeside⟩ := afterTexts_without owner (c.builtMembers owner) c.lexicon hf front back
    have hothers : others = front ++ back := hwithout
    rw [hothers]
    refine ⟨hall (hmembers.trans (hsame.trans hmembers'.symm)), fun hacc hnone => ?_, fun h => ?_⟩
    · obtain ⟨hleft, hright⟩ := halone hacc hnone
      exact ⟨hlexicon'.trans hleft, hlexicon.trans hright⟩
    · exact hlexicon.trans ((hbeside h).trans hlexicon'.symm)

theorem isFaulty_repeated : IsFaulty 3 "f(a:int,a:int)" := by
  have hnames : (Descriptor.parse 3 (trimmed "f(a:int,a:int)")).map (·.arguments.map Argument.name) =
      .ok ["a", "a"] := by
    decide +kernel
  intro d hd
  rw [hd] at hnames
  have hnames : d.arguments.map Argument.name = ["a", "a"] := Except.ok.inj hnames
  refine Or.inl fun hnodup => ?_
  rw [hnames] at hnodup
  exact absurd hnodup (by decide)

/-- A block with a line that repeats a name, in the middle of a group. -/
def amidGroup : Catalog :=
  (create .baseline .standard).addDescriptors "o" "1:g(x:Widget)\nf(a:int,a:int)\n0:g(y:int)"

theorem build_without_amidGroup :
    let without := (amidGroup.withBlock "o" ["1:g(x:Widget)", "0:g(y:int)"]).build "o"
    (amidGroup.build "o").builtMembers "o" = without.builtMembers "o" ∧
      (amidGroup.build "o").lexicon = without.lexicon := by
  obtain ⟨hmembers, -, hlexicon⟩ :=
    build_without amidGroup "o" "f(a:int,a:int)" ["1:g(x:Widget)"] ["0:g(y:int)"] (by decide +kernel)
      (by decide +kernel) (by decide +kernel) isFaulty_repeated
  have hread : (Descriptor.parse 3 "0:g(x:Widget)").isOk = true := by decide +kernel
  refine ⟨hmembers "o", hlexicon (Or.inr ⟨"0:g(x:Widget)", by decide +kernel, ?_⟩)⟩
  cases hd : Descriptor.parse 3 "0:g(x:Widget)" with
  | ok d => exact ⟨d, hd⟩
  | error e =>
    rw [hd] at hread
    cases hread

/-- A catalog that has given up on a token, and a block of one line that repeats a name. -/
def repeatedAlone : Catalog :=
  let c := create .baseline .standard
  { c with lexicon := (resolveType 3 none "Widget" c.lexicon).2 }.addDescriptors "o" "f(a:int,a:int)"

/-- A faulty line does not leave the lexicon alone. -/
theorem not_isolated : ¬∀ (c : Catalog) (owner line : String) (before after : List String),
    c.stale.contains owner = true → c.blocks.get? owner = some (before ++ line :: after) → numberOf? line = none →
    IsFaulty c.settings.bracketDepth line →
    (∀ other, (c.build owner).builtMembers other =
      ((c.withBlock owner (before ++ after)).build owner).builtMembers other) ∧
    (c.build owner).lexicon = ((c.withBlock owner (before ++ after)).build owner).lexicon := by
  intro h
  obtain ⟨-, hsame⟩ := h repeatedAlone "o" "f(a:int,a:int)" [] [] (by decide +kernel) (by decide +kernel)
    (by decide +kernel) isFaulty_repeated
  have hwith : (repeatedAlone.build "o").lexicon.unresolved = [] := by decide +kernel
  have hwithout : ((repeatedAlone.withBlock "o" ([] ++ [])).build "o").lexicon.unresolved =
      [⟨"Widget", .unknownToken⟩] := by decide +kernel
  rw [hsame, hwithout] at hwith
  cases hwith

end Catalog
end CallSig
