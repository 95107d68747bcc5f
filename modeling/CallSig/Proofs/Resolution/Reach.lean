import CallSig.Proofs.Resolution.HostShapes
import CallSig.Proofs.Resolution.Recursion

/-!
# `CallSig.Proofs.Resolution.Reach` — how deep a class may stand in a type

A host token is resolved from the outside in, and every bracket costs a hop. Words and containers have entries and cost
none, so the hops only matter for a class path that is met for the first time. It is found if a hop is left, that is
inside fewer brackets than there are hops; later it has an entry, and may stand anywhere. So the classes of a token
that come in time decide whether the token is resolved or given up on.

## Contents
- **Order.** `InTime`, `inTime_append`; `HostToken.paths`.
- **States.** `Met` (a lexicon in which these classes were met), `Met.settled`; `Answers`.
- **Runs.** `typeAt_applied`; `typeAt_inTime`, `typeAt_late`; `resolveType_host`.
-/

namespace CallSig
namespace Lexicon

open Text Word

variable {l l₀ l' : Lexicon} {depth : Nat} {scope? : Option String} {K : List String}

/-! ## Order -/

/-- Every class path that is not among these stands, where it is met first, inside fewer brackets than there are
hops. -/
def InTime (K : List String) (leaves : List (String × Nat)) : Prop :=
  ∀ path n, leaves.lookup path = some n → path ∈ K ∨ n < maxHops

theorem lookup_eq_none_iff {path : String} {L : List (String × Nat)} :
    L.lookup path = none ↔ path ∉ L.map Prod.fst := by
  rw [List.lookup_eq_none_iff]
  simp only [bne_iff_ne, ne_eq, List.mem_map, not_exists, not_and]
  exact ⟨fun h e he heq => h e he heq.symm, fun h e he heq => h e he heq.symm⟩

theorem inTime_append {L L' : List (String × Nat)} :
    InTime K (L ++ L') ↔ InTime K L ∧ InTime (L.map Prod.fst ++ K) L' := by
  unfold InTime
  simp only [List.lookup_append, List.mem_append]
  constructor
  · intro h
    refine ⟨fun path n hn => h path n (by rw [hn, Option.some_or]), fun path n hn => ?_⟩
    by_cases hmem : path ∈ L.map Prod.fst
    · exact .inl (.inl hmem)
    · exact (h path n (by rw [lookup_eq_none_iff.2 hmem, Option.none_or, hn])).imp_left .inr
  · rintro ⟨hfirst, hlater⟩ path n hn
    cases hL : L.lookup path with
    | some m =>
      rw [hL, Option.some_or] at hn
      exact hfirst path n (hL.trans hn)
    | none =>
      rw [hL, Option.none_or] at hn
      exact (hlater path n hn).imp_left fun hmem => hmem.resolve_left (lookup_eq_none_iff.1 hL)

theorem inTime_singleton {path : String} {level : Nat} :
    InTime K [(path, level)] ↔ path ∈ K ∨ level < maxHops := by
  constructor
  · intro h
    exact h path level (by simp)
  · intro h other n hn
    rw [List.lookup_cons] at hn
    split at hn
    · next heq =>
      obtain rfl := Option.some.inj hn
      rwa [eq_of_beq heq]
    · cases hn

/-- The class paths in the token, from left to right. -/
def HostToken.paths (t : HostToken l) : List String := (t.leaves 0).map Prod.fst

mutual

theorem HostToken.map_fst_leaves (t : HostToken l) (level level' : Nat) :
    (t.leaves level).map Prod.fst = (t.leaves level').map Prod.fst := by
  match t with
  | .word .. => rfl
  | .named .. => rfl
  | .applied _ _ _ _ _ _ _ args => exact args.map_fst_leaves (level + 1) (level' + 1)

theorem HostArgs.map_fst_leaves (args : HostArgs l) (level level' : Nat) :
    (args.leaves level).map Prod.fst = (args.leaves level').map Prod.fst := by
  match args with
  | .last _ arg _ => exact arg.map_fst_leaves level level'
  | .more _ arg _ rest =>
    rw [HostArgs.leaves, HostArgs.leaves, List.map_append, List.map_append, arg.map_fst_leaves level level',
      rest.map_fst_leaves level level']

end

/-- A token whose class paths were all met comes in time. -/
theorem inTime_of_paths {t : HostToken l} (h : ∀ path ∈ t.paths, path ∈ K) (level : Nat) :
    InTime K (t.leaves level) := by
  intro path n hn
  refine .inl (h path ?_)
  rw [HostToken.paths, t.map_fst_leaves 0 level]
  exact Classical.byContradiction fun hmem => by rw [lookup_eq_none_iff.2 hmem] at hn; cases hn

/-! ## States -/

/-- A lexicon that resolutions of host tokens have made of `l₀`: it has entries for these class paths and no others, and
every entry for a host token is right. -/
structure Met (l₀ : Lexicon) (K : List String) (l : Lexicon) : Prop where
  definitions : l.definitions = l₀.definitions
  aliases : l.aliases = l₀.aliases
  kept : ∀ {t v}, l₀.known? t = some v → l.known? t = some v
  met : ∀ path ∈ K, l.known? path ≠ none
  sound : ∀ (t : HostToken l₀) {v}, l.known? t.token = some v → v = t.value ∧ ∀ path ∈ t.paths, path ∈ K

namespace Met

theorem start (hl : l₀.WholeEntries) : Met l₀ [] l₀ where
  definitions := rfl
  aliases := rfl
  kept := id
  met := nofun
  sound := by
    intro t _ hv
    cases t with
    | word name value dotted known typed =>
      rw [HostToken.token_word, known] at hv
      exact ⟨(Option.some.inj hv).symm, nofun⟩
    | named path dotted defined unknown unaliased =>
      rw [HostToken.token_named, unknown] at hv
      cases hv
    | applied container kind dotted known before bracket notRound args =>
      obtain ⟨text, hatom⟩ := hl hv args.nesting
      rw [ofToken_applied dotted known before notRound args (Nat.le_refl _)] at hatom
      cases hatom

theorem counted (h : Met l₀ K l) (hc : Counted l l') : Met l₀ K l' where
  definitions := hc.definitions.trans h.definitions
  aliases := hc.aliases.trans h.aliases
  kept := fun hk => by rw [hc.known?]; exact h.kept hk
  met := fun path hp => by rw [hc.known?]; exact h.met path hp
  sound := fun t _ hv => h.sound t (by rwa [hc.known?] at hv)

/-- The order of the class paths does not matter, nor how often they are listed. -/
theorem congr (h : Met l₀ K l) {paths : List String} (hp : ∀ path, path ∈ paths ↔ path ∈ K) : Met l₀ paths l where
  definitions := h.definitions
  aliases := h.aliases
  kept := h.kept
  met := fun path hmem => h.met path ((hp path).1 hmem)
  sound := fun t _ hv => ⟨(h.sound t hv).1, fun path hpath => (hp path).2 ((h.sound t hv).2 path hpath)⟩

/-- Keeping the value of a host token whose class paths were met; a class path is met by this. -/
theorem settled (h : Met l₀ K l) (hl : l₀.WholeEntries) (t : HostToken l₀) (paths : List String)
    (hK : ∀ path ∈ K, path ∈ paths) (hpaths : ∀ path ∈ t.paths, path ∈ paths)
    (hnew : ∀ path ∈ paths, path ∈ K ∨ path = t.token) (reason : MissReason) :
    Met l₀ paths (l.settled t.token reason (some t.value)) where
  definitions := (definitions_settled l t.token reason _).trans h.definitions
  aliases := (aliases_settled l t.token reason _).trans h.aliases
  kept := fun hk => known?_settled_of_known (h.kept hk) t.token reason _
  met := by
    intro path hpath
    rw [known?_settled]
    split
    · exact Option.some_ne_none _
    · next hne => exact h.met path ((hnew path hpath).resolve_right fun heq => hne heq.symm)
  sound := by
    intro t' v hv
    rw [known?_settled] at hv
    split at hv
    · next heq =>
      obtain ⟨hvalue, hleaves⟩ := t.agree hl t' heq
      refine ⟨?_, fun path hpath => hpaths path (by rwa [HostToken.paths, hleaves])⟩
      rw [← hvalue, ← Option.some.inj hv]
      cases hk : l.known? t.token with
      | some w => exact (h.sound t hk).1
      | none => rfl
    · obtain ⟨hvalue, hmet⟩ := h.sound t' hv
      exact ⟨hvalue, fun path hpath => hK path (hmet path hpath)⟩

end Met

/-- A result with this value, and a state in which these class paths were met and no token was given up on. -/
structure Answers {α : Type} (l₀ : Lexicon) (K : List String) (l : Lexicon) (value : α) (r : α × Lexicon) : Prop where
  value : r.1 = value
  met : Met l₀ K r.2
  quiet : r.2.unresolved = l.unresolved

theorem Counted.unresolved (h : Counted l l') : l'.unresolved = l.unresolved := by rw [h]

theorem length_unresolved_settled_none (l : Lexicon) (token : String) (reason : MissReason) :
    l.unresolved.length < (l.settled token reason none).unresolved.length := by
  rw [settled, unresolved_memoize]
  show _ < (l.unresolved ++ [_]).length
  rw [List.length_append]
  exact Nat.lt_add_one _

/-- Resolution takes no miss back. -/
theorem evolution_unresolved (T : String → Prop) :
    Evolution T fun l l' => l'.aliases = l.aliases ∧ l.unresolved.length ≤ l'.unresolved.length where
  trans := fun h h' => ⟨h'.1.trans h.1, Nat.le_trans h.2 h'.2⟩
  counted := fun h => ⟨h.aliases, Nat.le_of_eq (congrArg List.length h.unresolved.symm)⟩
  aliases := fun h => h.1
  settled := by
    intro l l' token _ _ h reason found
    refine ⟨(aliases_settled l' token reason found).trans h.1, Nat.le_trans h.2 ?_⟩
    cases found with
    | some value => exact Nat.le_of_eq (by rw [settled, unresolved_memoize])
    | none => exact Nat.le_of_lt (length_unresolved_settled_none l' token reason)

/-! ## Runs -/

/-- A container applied to arguments, without an entry: the arguments are resolved with one hop less. -/
theorem typeAt_applied {container : String} {kind : GenericKind} (dotted : Dotted container)
    (known : l₀.known? container = some (.former (.container kind))) (before : Gap) {bracket : Bracket}
    (notRound : bracket ≠ .round) (args : HostArgs l₀) (hd : args.nesting ≤ depth) (h : Met l₀ K l)
    (hk : l.known? (HostToken.applied container kind dotted known before bracket notRound args).token = none)
    (scope? : Option String) (hops : Nat) :
    let token := (HostToken.applied container kind dotted known before bracket notRound args).token
    ∃ l', Counted l l' ∧ typeAt depth scope? (hops + 1) token l =
      let r := typeArgs (typeAt depth scope? hops) (args.texts.map String.ofList) l'
      (.type (.generic kind r.1), r.2.memoize token (.type (.generic kind r.1))) := by
  intro token
  have hc := counted_cached l token
  have hcontainer : (l.cached token).2.known? container = some (.former (.container kind)) := by
    rw [hc.known?]
    exact h.kept known
  refine ⟨((l.cached token).2.cached container).2, hc.trans (counted_cached _ container), ?_⟩
  rw [typeAt, orCached_miss hk, ofToken_applied dotted known before notRound args hd]
  show applyFormer _ token _ (typeAt depth scope? hops container (l.cached token).2).1
    (typeAt depth scope? hops container (l.cached token).2).2 = _
  rw [typeAt_hit hcontainer]
  rfl

/-- A class path without an entry, with a hop left. -/
theorem typeAt_named {path : String} (dotted : Dotted path)
    (defined : l₀.definitions.get? path = some (.type (.ofPath path))) (unaliased : l₀.aliases.get? path = none)
    (h : Met l₀ K l) (hk : l.known? path = none) (depth : Nat) (scope? : Option String) (hops : Nat) :
    ∃ l', Counted l l' ∧ typeAt depth scope? (hops + 1) path l =
      (.type (.ofPath path), l'.settled path .unknownToken (some (.type (.ofPath path)))) := by
  have hc := counted_cached l path
  have hconstructed : defaultConstructed? path = none := by
    unfold defaultConstructed?
    split
    · next name hreverse =>
      have hmem : ')' ∈ path.toList := by
        rw [← List.mem_reverse, hreverse]
        exact List.mem_cons_self
      rcases dotted.mem_cases hmem with hname | hdot
      · exact absurd hname (by decide)
      · exact absurd hdot (by decide)
    · rfl
  have hfound : (Search.expression path).value? l₀.definitions = some (.type (.ofPath path)) := by
    unfold Search.expression
    dsimp only
    rw [hconstructed]
    exact (Expression.evaluate_of_dotted dotted _).trans defined
  have hvalue : (Search.ofToken scope? path).value? (l.cached path).2.definitions = some (.type (.ofPath path)) := by
    rw [hc.definitions, h.definitions]
    show ((Search.expression path).value? l₀.definitions).or _ = _
    rw [hfound, Option.some_or]
  have hplan : Plan.ofToken l.aliases depth scope? path = .finish (Search.ofToken scope? path) .unknownToken := by
    unfold Plan.ofToken
    rw [ofToken_dotted dotted]
    dsimp only
    rw [Plan.atom, h.aliases, unaliased]
  refine ⟨((Search.ofToken scope? path).run (l.cached path).2).2, hc.trans (Search.counted _ _), ?_⟩
  rw [typeAt_succ_miss hk (by rw [← String.ofList_toList (s := path)]; exact trimmed_of_tight dotted.tight), hplan]
  show settle path (Search.ofToken scope? path) .unknownToken (l.cached path).2 = _
  rw [settle_eq, hvalue]
  rfl

theorem length_unresolved_typeAt (depth : Nat) (scope? : Option String) (hops : Nat) {token : String}
    (ht : trimmed token = token) (l : Lexicon) :
    l.unresolved.length ≤ (typeAt depth scope? hops token l).2.unresolved.length :=
  ((evolution_unresolved fun t => trimmed t = t).typeAt (closed_trimmed _ _) scope? hops ht).2

theorem typeArgs_cons (resolve : String → LexiconM Value) (arg : HostToken l₀) (args : List String) (l : Lexicon) :
    typeArgs resolve (String.ofList arg.text :: args) l =
      let first := resolve arg.token l
      let rest := typeArgs resolve args first.2
      (first.1.elementType :: rest.1, rest.2) := by
  rw [← arg.trimmed_token]
  rfl

mutual

/-- **A host token whose classes come in time is resolved** to its value, and nothing is given up on. -/
theorem typeAt_inTime (hl : l₀.WholeEntries) (t : HostToken l₀) {hops level : Nat} {K : List String} {l : Lexicon}
    (hh : hops + level = maxHops) (hn : t.nesting ≤ hops) (hd : t.nesting ≤ depth) (ht : InTime K (t.leaves level))
    (h : Met l₀ K l) : Answers l₀ (t.paths ++ K) l t.value (typeAt depth scope? hops t.token l) := by
  cases hk : l.known? t.token with
  | some v =>
    obtain ⟨rfl, hpaths⟩ := h.sound t hk
    have hc := counted_cached l t.token
    rw [typeAt_hit hk]
    refine ⟨rfl, (h.counted hc).congr fun path => ?_, hc.unresolved⟩
    rw [List.mem_append]
    exact ⟨fun hmem => hmem.elim (hpaths path) id, .inr⟩
  | none =>
    match t with
    | .word name value dotted known typed =>
      rw [HostToken.token_word, h.kept known] at hk
      cases hk
    | .named path dotted defined unknown unaliased =>
      rw [HostToken.token_named] at hk
      have hlevel : level < maxHops := (inTime_singleton.1 ht).resolve_left fun hK => h.met path hK hk
      obtain ⟨hops, rfl⟩ : ∃ n, hops = n + 1 := ⟨hops - 1, by omega⟩
      obtain ⟨l', hc, hrun⟩ := typeAt_named dotted defined unaliased h hk depth scope? hops
      rw [HostToken.token_named, hrun]
      refine ⟨rfl, ?_, (unresolved_memoize l' path _).trans hc.unresolved⟩
      have hmet := (h.counted hc).settled hl (.named path dotted defined unknown unaliased) (path :: K)
        (fun other => List.mem_cons_of_mem path) (fun other hmem => List.mem_append_left K hmem)
        (fun other hmem => by rw [HostToken.token_named]; exact (List.mem_cons.1 hmem).symm) .unknownToken
      rwa [HostToken.token_named] at hmet
    | .applied container kind dotted known before bracket notRound args =>
      have hsucc : args.nesting + 1 ≤ hops := hn
      obtain ⟨hops, rfl⟩ : ∃ n, hops = n + 1 := ⟨hops - 1, by omega⟩
      obtain ⟨l', hc, hrun⟩ := typeAt_applied dotted known before notRound args (Nat.le_of_succ_le hd) h hk scope? hops
      obtain ⟨htypes, hmet, hquiet⟩ := typeArgs_inTime hl args (show hops + (level + 1) = maxHops by omega)
        (Nat.le_of_succ_le_succ hsucc) (Nat.le_of_succ_le hd) ht (h.counted hc)
      rw [hrun]
      dsimp only
      rw [htypes]
      refine ⟨rfl, ?_, (unresolved_memoize _ _ _).trans (hquiet.trans hc.unresolved)⟩
      rw [args.map_fst_leaves (level + 1) 1] at hmet
      exact hmet.settled hl (.applied container kind dotted known before bracket notRound args) _ (fun _ => id)
        (fun _ hmem => List.mem_append_left K hmem) (fun _ => .inl) .unknownToken

/-- The same for arguments, from left to right. -/
theorem typeArgs_inTime (hl : l₀.WholeEntries) (args : HostArgs l₀) {hops level : Nat} {K : List String} {l : Lexicon}
    (hh : hops + level = maxHops) (hn : args.nesting ≤ hops) (hd : args.nesting ≤ depth)
    (ht : InTime K (args.leaves level)) (h : Met l₀ K l) :
    Answers l₀ ((args.leaves level).map Prod.fst ++ K) l args.types
      (typeArgs (typeAt depth scope? hops) (args.texts.map String.ofList) l) := by
  match args with
  | .last _ arg _ =>
    obtain ⟨hvalue, hmet, hquiet⟩ := typeAt_inTime hl arg hh hn hd ht h
    rw [HostArgs.texts, List.map_singleton, typeArgs_cons, HostArgs.leaves, arg.map_fst_leaves level 0]
    exact ⟨by rw [HostArgs.types, ← hvalue]; rfl, hmet, hquiet⟩
  | .more _ arg _ rest =>
    obtain ⟨hnarg, hnrest⟩ := Nat.max_le.1 hn
    obtain ⟨hdarg, hdrest⟩ := Nat.max_le.1 hd
    obtain ⟨hfirst, hlater⟩ := inTime_append.1 ht
    obtain ⟨hvalue, hmet, hquiet⟩ := typeAt_inTime hl arg hh hnarg hdarg hfirst h
    rw [arg.map_fst_leaves level 0] at hlater
    obtain ⟨htypes, hmetRest, hquietRest⟩ := typeArgs_inTime hl rest hh hnrest hdrest hlater hmet
    rw [HostArgs.texts, List.map_cons, typeArgs_cons]
    refine ⟨?_, ?_, hquietRest.trans hquiet⟩
    · dsimp only
      rw [hvalue, htypes]
      rfl
    · refine hmetRest.congr fun path => ?_
      rw [HostArgs.leaves, List.map_append, arg.map_fst_leaves level 0]
      simp only [List.mem_append]
      rw [or_assoc, or_left_comm]

end

theorem length_unresolved_typeArgs (depth : Nat) (scope? : Option String) (hops : Nat) (args : HostArgs l₀)
    (l : Lexicon) : l.unresolved.length ≤
      (typeArgs (typeAt depth scope? hops) (args.texts.map String.ofList) l).2.unresolved.length := by
  match args with
  | .last _ arg _ =>
    rw [HostArgs.texts, List.map_singleton, typeArgs_cons]
    exact length_unresolved_typeAt depth scope? hops arg.trimmed_token l
  | .more _ arg _ rest =>
    rw [HostArgs.texts, List.map_cons, typeArgs_cons]
    exact Nat.le_trans (length_unresolved_typeAt depth scope? hops arg.trimmed_token l)
      (length_unresolved_typeArgs depth scope? hops rest _)

mutual

/-- **A host token with a class that comes too late is noted as a miss**, itself or a part of it. -/
theorem typeAt_late (hl : l₀.WholeEntries) (t : HostToken l₀) {hops level : Nat} {K : List String} {l : Lexicon}
    (hh : hops + level = maxHops) (hn : t.nesting ≤ hops) (hd : t.nesting ≤ depth) (ht : ¬InTime K (t.leaves level))
    (h : Met l₀ K l) : l.unresolved.length < (typeAt depth scope? hops t.token l).2.unresolved.length := by
  cases hk : l.known? t.token with
  | some v => exact absurd (inTime_of_paths (h.sound t hk).2 level) ht
  | none =>
    match t with
    | .word .. => exact absurd nofun ht
    | .named path dotted defined unknown unaliased =>
      have hlevel : ¬level < maxHops := fun hlt => ht (inTime_singleton.2 (.inr hlt))
      obtain rfl : hops = 0 := by omega
      rw [typeAt_zero_miss hk, ← (counted_cached l _).unresolved]
      exact length_unresolved_settled_none _ _ .tooDeep
    | .applied container kind dotted known before bracket notRound args =>
      have hsucc : args.nesting + 1 ≤ hops := hn
      obtain ⟨hops, rfl⟩ : ∃ n, hops = n + 1 := ⟨hops - 1, by omega⟩
      obtain ⟨l', hc, hrun⟩ := typeAt_applied dotted known before notRound args (Nat.le_of_succ_le hd) h hk scope? hops
      have hlate := typeArgs_late hl args (show hops + (level + 1) = maxHops by omega)
        (Nat.le_of_succ_le_succ hsucc) (Nat.le_of_succ_le hd) ht (h.counted hc)
      rw [hrun]
      dsimp only
      rwa [unresolved_memoize, ← hc.unresolved]

theorem typeArgs_late (hl : l₀.WholeEntries) (args : HostArgs l₀) {hops level : Nat} {K : List String} {l : Lexicon}
    (hh : hops + level = maxHops) (hn : args.nesting ≤ hops) (hd : args.nesting ≤ depth)
    (ht : ¬InTime K (args.leaves level)) (h : Met l₀ K l) :
    l.unresolved.length <
      (typeArgs (typeAt depth scope? hops) (args.texts.map String.ofList) l).2.unresolved.length := by
  match args with
  | .last _ arg _ =>
    rw [HostArgs.texts, List.map_singleton, typeArgs_cons]
    exact typeAt_late hl arg hh hn hd ht h
  | .more _ arg _ rest =>
    obtain ⟨hnarg, hnrest⟩ := Nat.max_le.1 hn
    obtain ⟨hdarg, hdrest⟩ := Nat.max_le.1 hd
    rw [HostArgs.texts, List.map_cons, typeArgs_cons]
    by_cases hfirst : InTime K (arg.leaves level)
    · -- the first argument is resolved, so a later class is late
      have hanswers : Answers l₀ (arg.paths ++ K) l arg.value (typeAt depth scope? hops arg.token l) :=
        typeAt_inTime hl arg hh hnarg hdarg hfirst h
      have hlater : ¬InTime (arg.paths ++ K) (rest.leaves level) := by
        intro hlater
        rw [HostToken.paths, arg.map_fst_leaves 0 level] at hlater
        exact ht (inTime_append.2 ⟨hfirst, hlater⟩)
      rw [← hanswers.quiet]
      exact typeArgs_late hl rest hh hnrest hdrest hlater hanswers.met
    · exact Nat.lt_of_lt_of_le (typeAt_late hl arg hh hnarg hdarg hfirst h)
        (length_unresolved_typeArgs depth _ hops rest _)

end

/-- **A host token that nests within the limits is resolved if its classes come in time**, and is noted as a miss,
itself or a part of it, if not. -/
theorem resolveType_host (hl : l₀.WholeEntries) (t : HostToken l₀) (hn : t.nesting ≤ maxHops) (hd : t.nesting ≤ depth)
    (scope? : Option String) :
    let r := resolveType depth scope? t.token l₀
    (InTime [] (t.leaves 0) → r.1 = t.value ∧ r.2.unresolved = l₀.unresolved) ∧
      (¬InTime [] (t.leaves 0) → l₀.unresolved.length < r.2.unresolved.length) := by
  have hstart : Met l₀ [] l₀ := .start hl
  have hwhole : resolveType depth scope? t.token l₀ = typeAt depth scope? maxHops t.token l₀ := by
    rw [resolveType, t.trimmed_token]
  rw [hwhole]
  refine ⟨fun hin => ?_, fun hlate => ?_⟩
  · have hanswers : Answers l₀ (t.paths ++ []) l₀ t.value (typeAt depth scope? maxHops t.token l₀) :=
      typeAt_inTime hl t (Nat.add_zero maxHops) hn hd hin hstart
    exact ⟨hanswers.value, hanswers.quiet⟩
  · exact typeAt_late hl t (Nat.add_zero maxHops) hn hd hlate hstart

end Lexicon
end CallSig
