import CallSig.Proofs.Resolution.Histories
import CallSig.Proofs.Resolution.Idempotence
import CallSig.Proofs.Resolution.Mentions
import CallSig.Proofs.Variant.Values

/-!
# `CallSig.Proofs.Resolution.Variance` — widening touches the outermost container

The type of a value depends on its position: what is a list as a result is any sequence as an argument. Only the
outermost constructor changes, and what a lexicon keeps is the value and not its type, so nothing inside another type is
ever widened. Over the baseline with further classes and constants, the only way to a sequence as a result is a token
that mentions it: every other token keeps a value without sequences, whatever has been resolved before.

## Contents
- **Types without a constructor.** `TypeExpr.Lacks`, `Value.Lacks`, `inherited_lacks_sequence`.
- **Positions.** `hint_argument_ne_list`, `hint_eq_or_widened`; `resolveHint`.
- **Runs.** `Apart`, `apart_perform`, `apart_typeAt`, `runProperty_apart`.
- **Histories.** `Event.Declares`, `Declared`, `declared_perform`, `declared_after`.
- **Widening.** `widening_outermost`.
-/

namespace CallSig

open Text

/-! ## Types without a constructor -/

/-- The generic type constructor does not occur in the type. -/
inductive TypeExpr.Lacks (absent : GenericKind) : TypeExpr → Prop
  | builtin (b : Builtin) : Lacks absent (.builtin b)
  | named (path : String) {args : List TypeExpr} (h : ∀ t ∈ args, Lacks absent t) : Lacks absent (.named path args)
  | generic {kind : GenericKind} {args : List TypeExpr} (hk : kind ≠ absent) (h : ∀ t ∈ args, Lacks absent t) :
    Lacks absent (.generic kind args)
  | optional {t : TypeExpr} (h : Lacks absent t) : Lacks absent (.optional t)
  | unmapped (token : String) : Lacks absent (.unmapped token)

namespace Value

/-- The generic type constructor does not occur in the types that the value is made of. -/
def Lacks (absent : GenericKind) : Value → Prop
  | type t | output t | arrayLike t => t.Lacks absent
  | former (.container kind) => kind ≠ absent
  | former .arrayLike | former (.matrix _) | literal _ | constant _ | sentinel _ | unmapped _ => True

/-- As a result, a value has the constructors that it is made of, and may be a list. -/
theorem Lacks.hint_result {absent : GenericKind} (hf : GenericKind.list ≠ absent) {v : Value} (h : v.Lacks absent) :
    (v.hint .result).Lacks absent := by
  have hlist {t : TypeExpr} (ht : t.Lacks absent) : (TypeExpr.list t).Lacks absent :=
    .generic hf (List.forall_mem_singleton.2 ht)
  cases v with
  | type t => exact h
  | former f =>
    cases f with
    | container kind => exact .generic h (List.forall_mem_nil _)
    | arrayLike | matrix => exact .unmapped _
  | output t | arrayLike t => exact hlist h
  | literal x =>
    cases x with
    | null => exact .builtin .noneType
    | _ => exact .unmapped _
  | constant | sentinel | unmapped => exact .unmapped _

theorem Lacks.elementType {absent : GenericKind} (hf : GenericKind.list ≠ absent) {v : Value} (h : v.Lacks absent) :
    v.elementType.Lacks absent := by
  cases v with
  | output t => exact h
  | _ => exact h.hint_result hf

end Value

namespace Lexicon

/-- **Resolution makes no sequences** of values without sequences: arrays become lists and tuples. -/
theorem inherited_lacks_sequence : Inherited (Value.Lacks .sequence) := by
  have helement {v : Value} (hv : v.Lacks .sequence) : v.elementType.Lacks .sequence := hv.elementType (by decide)
  have helements {values : List Value} (hvalues : ∀ v ∈ values, v.Lacks .sequence) :
      ∀ t ∈ values.map Value.elementType, t.Lacks .sequence := by
    intro t ht
    obtain ⟨v, hv, rfl⟩ := List.mem_map.1 ht
    exact helement (hvalues v hv)
  refine ⟨fun _ => trivial, fun _ => trivial, fun _ => trivial, ?_, ?_, ?_, ?_⟩
  · intro v hv length?
    unfold arrayOf
    split
    · split
      · refine TypeExpr.Lacks.generic nofun fun t ht => ?_
        rw [List.eq_of_mem_replicate ht]
        exact helement hv
      · exact helement hv
    · exact helement hv
  · exact fun hkind hvalues => .generic hkind (helements hvalues)
  · intro kind values hkind hvalues
    cases hkind with
    | generic hkind => exact .generic hkind (helements hvalues)
  · exact fun _ hvalues => .named _ (helements hvalues)

end Lexicon

/-! ## Positions -/

namespace Value

variable {v : Value}

/-- The type of an argument is no list, unless the callee writes to it. -/
theorem hint_argument_ne_list (hv : v.isOutput = false) (args : List TypeExpr) :
    v.hint .argument ≠ .generic .list args := by
  have hwiden (t : TypeExpr) : t.widen .argument ≠ .generic .list args := by
    unfold TypeExpr.widen
    split
    · nofun
    · next hne =>
      intro ht
      exact hne args rfl ht
  cases v with
  | type t => exact hwiden t
  | former f =>
    cases f with
    | container kind => exact hwiden _
    | arrayLike | matrix => nofun
  | output => cases hv
  | arrayLike => nofun
  | literal x => cases x <;> nofun
  | constant | sentinel | unmapped => nofun

/-- Between the two positions only the outermost constructor changes, from sequence to list. -/
theorem hint_eq_or_widened (hv : v.isOutput = false) :
    v.hint .argument = v.hint .result ∨
      ∃ args, v.hint .argument = .generic .sequence args ∧ v.hint .result = .generic .list args := by
  have hwiden (t : TypeExpr) : t.widen .argument = t.widen .result ∨
      ∃ args, t.widen .argument = .generic .sequence args ∧ t.widen .result = .generic .list args := by
    cases t with
    | generic kind args =>
      cases kind with
      | list => exact .inr ⟨args, rfl, rfl⟩
      | _ => exact .inl rfl
    | _ => exact .inl rfl
  cases v with
  | type t => exact hwiden t
  | former f =>
    cases f with
    | container kind => exact hwiden _
    | arrayLike | matrix => exact .inl rfl
  | output => cases hv
  | arrayLike t => exact .inr ⟨[t], rfl, rfl⟩
  | literal x => cases x <;> exact .inl rfl
  | constant | sentinel | unmapped => exact .inl rfl

end Value

namespace Lexicon

/-- The type of a type token in a position. -/
def resolveHint (depth : Nat) (scope? : Option String) (position : Position) (token : String) :
    LexiconM TypeExpr := do
  return (← resolveType depth scope? token).hint position

theorem resolveHint_eq (depth : Nat) (scope? : Option String) (position : Position) (token : String) (l : Lexicon) :
    resolveHint depth scope? position token l =
      ((resolveType depth scope? token l).1.hint position, (resolveType depth scope? token l).2) := rfl

/-! ## Runs -/

variable {word : String} {P : Value → Prop} {l : Lexicon} {token : String} {depth : Nat}

/-- Tokens that do not mention the word have values with the property, and so have all host objects; nothing is an
alias. -/
structure Apart (word : String) (P : Value → Prop) (l : Lexicon) : Prop where
  tokens : ∀ t v, ¬Mentions word t → l.tokens.get? t = some v → P v
  definitions : ∀ path v, l.definitions.get? path = some v → P v
  aliases : ∀ t, l.aliases.get? t = none

namespace Apart

theorem counted {l' : Lexicon} (h : Apart word P l) (hc : Counted l l') : Apart word P l' := by
  rw [hc]
  exact ⟨h.tokens, h.definitions, h.aliases⟩

theorem settled (h : Apart word P l) {found : Option Value}
    (hfound : ¬Mentions word token → P (found.getD (.unmapped token))) (reason : MissReason) :
    Apart word P (l.settled token reason found) where
  tokens := by
    intro t v ht hv
    rw [get?_settled] at hv
    split at hv
    · next he =>
      subst he
      obtain rfl := Option.some.inj hv
      cases hk : l.known? token with
      | some w => exact h.tokens token w ht (get?_of_known? hk)
      | none => exact hfound ht
    · exact h.tokens t v ht hv
  definitions := by
    rw [definitions_settled]
    exact h.definitions
  aliases := by
    rw [aliases_settled]
    exact h.aliases

end Apart

/-- The run keeps the tokens apart, and returns a value for the token. -/
def KeepsApart (word : String) (P : Value → Prop) (token : String) (m : LexiconM Value) : Prop :=
  ∀ l, Apart word P l → Apart word P (m l).2 ∧ (¬Mentions word token → P (m l).1)

/-- A plan whose parts mention no word that its token does not mention. -/
theorem apart_perform (hu : ∀ t, P (.unmapped t)) {resolve : String → LexiconM Value} {plan : Plan}
    (hasks : plan.Asks fun part => KeepsApart word P part (resolve part) ∧ (Mentions word part → Mentions word token))
    (hgives : ¬Mentions word token → plan.Gives P) : KeepsApart word P token (plan.perform resolve token) := by
  induction plan with
  | finish search reason =>
    intro l hl
    have hfound (ht : ¬Mentions word token) : P ((search.value? l.definitions).getD (.unmapped token)) := by
      cases hv : search.value? l.definitions with
      | some v => exact hgives ht _ hl.definitions v hv
      | none => exact hu token
    show Apart word P (settle token search reason l).2 ∧ (_ → P (settle token search reason l).1)
    rw [settle_eq]
    exact ⟨(hl.counted (search.counted l)).settled hfound reason, hfound⟩
  | ask part next ih =>
    intro l hl
    obtain ⟨⟨hpart, hmention⟩, hnext⟩ := hasks
    obtain ⟨hl', hv⟩ := hpart l hl
    exact ih _ (hnext _) (fun ht => hgives ht _ (hv fun hp => ht (hmention hp))) _ hl'

/-- **A resolution keeps the tokens apart**, and a token that does not mention the word gets a value with the
property. -/
theorem apart_typeAt (h : Inherited P) (depth : Nat) (scope? : Option String) (hops : Nat)
    (ht : trimmed token = token) : KeepsApart word P token (typeAt depth scope? hops token) := by
  induction hops generalizing token with
  | zero =>
    intro l hl
    have hl' := hl.counted (counted_cached l token)
    cases hk : l.known? token with
    | some v =>
      rw [typeAt_hit hk]
      exact ⟨hl', fun hm => hl.tokens token v hm (get?_of_known? hk)⟩
    | none =>
      have hgiven (_ : ¬Mentions word token) : P (Option.getD none (.unmapped token)) := h.unmapped token
      rw [typeAt_zero_miss hk]
      exact ⟨hl'.settled hgiven .tooDeep, hgiven⟩
  | succ hops ih =>
    intro l hl
    have hl' := hl.counted (counted_cached l token)
    cases hk : l.known? token with
    | some v =>
      rw [typeAt_hit hk]
      exact ⟨hl', fun hm => hl.tokens token v hm (get?_of_known? hk)⟩
    | none =>
      rw [typeAt_succ_miss hk ht]
      refine apart_perform h.unmapped ?_ (fun _ => Plan.gives_ofToken h _ depth scope? token) _ hl'
      refine Plan.asks_ofToken (fun p hp => ?_) fun text target htarget => ?_
      · exact ⟨ih (TypeShape.mem_parts_ofToken hp).1, mentions_of_mem_parts hp⟩
      · rw [hl.aliases text] at htarget
        cases htarget

/-- A token that is taken as a whole. -/
theorem apart_whole (h : Inherited P) (depth : Nat) (scope? : Option String) (hops : Nat) (token : String) :
    KeepsApart word P token (orCached token (atom (typeAt depth scope? hops) scope? token)) := by
  intro l hl
  have hl' := hl.counted (counted_cached l token)
  cases hk : l.known? token with
  | some v =>
    rw [orCached_hit hk]
    exact ⟨hl', fun hm => hl.tokens token v hm (get?_of_known? hk)⟩
  | none =>
    rw [orCached_miss hk, atom_eq_perform]
    refine apart_perform h.unmapped (Plan.asks_atom fun target htarget => ?_)
      (fun _ => Plan.gives_atom h _ scope? token) _ hl'
    rw [hl'.aliases token] at htarget
    cases htarget

/-- So does every run that is made of resolutions. -/
theorem runProperty_apart (h : Inherited P) (depth : Nat) :
    RunProperty depth fun m => ∀ l, Apart word P l → Apart word P (m l).2 where
  pure := fun _ _ hl => hl
  bind := fun {_ _ m _} hm hk l hl => hk (m l).1 _ (hm l hl)
  resolveType := fun scope? token l hl => (apart_typeAt h depth scope? maxHops (trimmed_trimmed token) l hl).1
  zero := fun _ _ hl => ⟨hl.tokens, hl.definitions, hl.aliases⟩
  whole := fun scope? hops token _ l hl => (apart_whole h depth scope? hops token l hl).1
  handOut := fun _ hl => ⟨hl.tokens, hl.definitions, hl.aliases⟩

/-! ## Histories -/

/-- The value is a class or a constant of a host module. -/
def IsDeclared (v : Value) : Prop := (∃ path, v = .type (.ofPath path)) ∨ ∃ path, v = .constant path

theorem IsDeclared.lacks {v : Value} (h : IsDeclared v) (absent : GenericKind) : v.Lacks absent := by
  rcases h with ⟨path, rfl⟩ | ⟨path, rfl⟩
  · exact .named path (List.forall_mem_nil _)
  · trivial

/-- The vocabulary defines classes and constants, and nothing else. -/
structure DeclaresOnly (v : Vocabulary) : Prop where
  tokens : v.tokens = []
  aliases : v.aliases = []
  definitions : ∀ e ∈ v.definitions, IsDeclared e.2

/-- The event defines no more than classes and constants. -/
def Event.Declares : Event → Prop
  | register _ _ | addAlias _ _ => False
  | define _ value => IsDeclared value
  | addVocabulary v => DeclaresOnly v
  | ensure _ _ | refresh _ | resolveType _ _ _ | resolveValue _ _ _ | lookup _ | evaluate _ | takeUnresolved => True

/-- The tokens are kept apart, and the vocabularies that wait define no more than classes and constants. -/
structure Declared (word : String) (P : Value → Prop) (l : Lexicon) : Prop where
  apart : Apart word P l
  pending : ∀ v ∈ l.pending, DeclaresOnly v

namespace Apart

theorem define (h : Apart word P l) (path : String) {v : Value} (hv : P v) : Apart word P (l.define path v) where
  tokens := h.tokens
  definitions := by
    intro path' v' hv'
    rw [Lexicon.define, Dict.get?_insert] at hv'
    split at hv'
    · exact Option.some.inj hv' ▸ hv
    · exact h.definitions path' v' hv'
  aliases := h.aliases

theorem register (h : Apart word P l) (token : String) {v : Value} (hv : ¬Mentions word token → P v) :
    Apart word P (l.register token v) where
  tokens := by
    intro token' v' htoken hv'
    rw [get?_register] at hv'
    split at hv'
    · next he => exact Option.some.inj hv' ▸ hv (he ▸ htoken)
    · exact h.tokens token' v' htoken hv'
  definitions := h.definitions
  aliases := h.aliases

/-- Adding the entries of a vocabulary without aliases. -/
theorem addEntries (h : Apart word P l) {v : Vocabulary} (hdefinitions : ∀ e ∈ v.definitions, P e.2)
    (htokens : ∀ e ∈ v.tokens, ¬Mentions word e.1 → P e.2) (haliases : v.aliases = []) :
    Apart word P (l.addEntries v) := by
  refine addEntries_induction (fun l hl e he => ?_) (fun l hl e he => ?_) ?_ h
  · exact hl.define e.1 (hdefinitions e he)
  · exact hl.register e.1 (htokens e he)
  · rw [haliases]
    exact fun l _ => List.forall_mem_nil _

theorem installed (h : Apart word P l) (names : List String) : Apart word P { l with installed := names } :=
  ⟨h.tokens, h.definitions, h.aliases⟩

theorem install (h : Apart word P l) (hd : ∀ v, IsDeclared v → P v) {v : Vocabulary} (hv : DeclaresOnly v) :
    Apart word P (l.install v) := by
  have hwaiting : Apart word P { l with pending := l.pending.filter (·.name != v.name) } :=
    ⟨h.tokens, h.definitions, h.aliases⟩
  have hadded := hwaiting.addEntries (fun e he => hd _ (hv.definitions e he))
    (by rw [hv.tokens]; exact List.forall_mem_nil _) hv.aliases
  exact ⟨hadded.tokens, hadded.definitions, hadded.aliases⟩

end Apart

theorem declared_install (hd : ∀ v, IsDeclared v → P v) (h : Declared word P l) {v : Vocabulary}
    (hv : DeclaresOnly v) : Declared word P (l.install v) where
  apart := h.apart.install hd hv
  pending := by
    rw [pending_install]
    exact fun w hw => h.pending w (List.mem_filter.1 hw).1

/-- **One event** that defines no more than classes and constants. -/
theorem declared_perform (hP : Inherited P) (hd : ∀ v, IsDeclared v → P v) (h : Declared word P l) {e : Event}
    (he : e.Declares) : Declared word P (e.perform l) := by
  cases e with
  | register | addAlias => exact he.elim
  | define path value => exact ⟨h.apart.define path (hd value he), h.pending⟩
  | lookup | evaluate | takeUnresolved =>
    exact ⟨⟨h.apart.tokens, h.apart.definitions, h.apart.aliases⟩, h.pending⟩
  | addVocabulary v =>
    show Declared word P (l.addVocabulary v)
    unfold Lexicon.addVocabulary
    split
    · exact h
    · refine ⟨⟨h.apart.tokens, h.apart.definitions, h.apart.aliases⟩, fun w hw => ?_⟩
      rcases List.mem_append.1 hw with hw | hw
      · exact h.pending w hw
      · rw [List.mem_singleton.1 hw]
        exact he
  | ensure | refresh =>
    refine install_induction (fun l' v hl' hv => declared_install hd hl' (hl'.pending v hv)) (fun l' n hl' => ?_)
      trivial h
    exact ⟨⟨hl'.apart.tokens, hl'.apart.definitions, hl'.apart.aliases⟩, hl'.pending⟩
  | resolveType depth scope? token =>
    refine ⟨(runProperty_apart hP depth).resolveType scope? token l h.apart, ?_⟩
    have hsame := ((runProperty_resolved depth).resolveType scope? token l).pending
    exact fun v hv => h.pending v (hsame ▸ hv)
  | resolveValue depth type? token =>
    refine ⟨(runProperty_apart hP depth).resolveValue type? token l h.apart, ?_⟩
    have hsame := ((runProperty_resolved depth).resolveValue type? token l).pending
    exact fun v hv => h.pending v (hsame ▸ hv)

theorem lacks_definitions_baseline : ∀ e ∈ Vocabulary.baseline.definitions, e.2.Lacks .sequence := by
  unfold Vocabulary.baseline
  simp only [List.forall_mem_append, List.forall_mem_map]
  refine ⟨fun e _ => .builtin e.2, ?_⟩
  simp [Value.Lacks]

theorem mentions_self (word : String) : Mentions word word :=
  ⟨[], [], (List.append_nil _).symm, endsName_nil, endsName_nil⟩

/-- In the baseline, only the token of sequences has a value with a sequence in it. -/
theorem lacks_tokens_baseline :
    ∀ e ∈ Vocabulary.baseline.tokens, ¬Mentions "Sequence" e.1 → e.2.Lacks .sequence := by
  have hcontainers : ∀ e ∈ Vocabulary.containerTokens, e.2 = .sequence → e.1 = "Sequence" := by decide
  unfold Vocabulary.baseline
  simp only [List.forall_mem_append, List.forall_mem_map]
  refine ⟨⟨⟨⟨⟨⟨⟨⟨⟨⟨?own, ?int⟩, ?float⟩, ?string⟩, ?other⟩, ?output⟩, ?array⟩, ?container⟩, ?arrayLike⟩, ?literal⟩, ?zero⟩
  case container =>
    rintro ⟨token, kind⟩ hmem hword hkind
    have htoken : token = "Sequence" := hcontainers _ hmem hkind
    rw [htoken] at hword
    exact hword (mentions_self _)
  case own | int | float | string | other | output | array => exact fun e _ _ => .builtin _
  case arrayLike | literal | zero => exact fun e _ _ => trivial

theorem apart_baseline : Apart "Sequence" (Value.Lacks .sequence) baseline := by
  have hblank : Apart "Sequence" (Value.Lacks .sequence) blank := ⟨nofun, nofun, fun _ => rfl⟩
  have haliases : Vocabulary.baseline.aliases = [] := rfl
  have hadded : Apart "Sequence" (Value.Lacks .sequence) (blank.addEntries Vocabulary.baseline) :=
    hblank.addEntries lacks_definitions_baseline lacks_tokens_baseline haliases
  exact hadded.installed _

/-- **Any history** of such events over the baseline keeps sequences to the tokens that mention them. -/
theorem declared_after {es : List Event} (h : ∀ e ∈ es, e.Declares) :
    Declared "Sequence" (Value.Lacks .sequence) (baseline.after es) := by
  have hd (v : Value) (hv : IsDeclared v) : v.Lacks .sequence := hv.lacks .sequence
  refine after_induction (fun l hl e he => declared_perform inherited_lacks_sequence hd hl (h e he)) ?_
  refine ⟨apart_baseline, ?_⟩
  rw [pending_baseline]
  exact List.forall_mem_nil _

/-! ## Widening -/

/-- Without aliases, a token leads to shorter ones only. -/
theorem not_recurs_of_no_alias (h : ∀ t, l.aliases.get? t = none) (depth : Nat) (t : String) : ¬l.Recurs depth t := by
  have hstep {s p : String} (hp : l.Leads depth s p) : p.length < s.length := by
    unfold Leads asksFor at hp
    split at hp
    · cases hp
    · split at hp
      · next text _ =>
        rw [h text] at hp
        cases hp
      · exact (TypeShape.mem_parts_ofToken hp).2
  have hlonger {s p : String} (hp : Relation.TransGen (l.Leads depth) s p) : p.length < s.length := by
    induction hp with
    | single hp => exact hstep hp
    | tail _ hp ih => exact (hstep hp).trans ih
  rintro ⟨c, -, hto, hback⟩
  have hshorter := hlonger hback
  rcases Relation.reflTransGen_iff_eq_or_transGen.1 hto with rfl | hto
  · exact absurd hshorter (Nat.lt_irrefl _)
  · exact absurd (hlonger hto) (Nat.lt_asymm hshorter)

/-- **Widening touches the outermost container only.** Take the baseline, any history that defines no more than classes
and constants, and a token that does not mention sequences and stands for no output parameter. As a result its type has
no sequence in it anywhere; as an argument it is no list; and the two types are equal, or a list and a sequence with the
same arguments. The lexicon does not keep the position: what is left behind is the same for both, and so the type is the
same whichever position the token was first resolved in. -/
theorem widening_outermost {es : List Event} (hes : ∀ e ∈ es, e.Declares) (depth : Nat) (scope? : Option String)
    {token : String} (hword : ¬Mentions "Sequence" token)
    (houtput : (resolveType depth scope? token (baseline.after es)).1.isOutput = false) :
    let hint (position : Position) := (resolveHint depth scope? position token (baseline.after es)).1
    (hint .result).Lacks .sequence ∧ (∀ args, hint .argument ≠ .generic .list args) ∧
      (hint .argument = hint .result ∨
        ∃ args, hint .argument = .generic .sequence args ∧ hint .result = .generic .list args) ∧
      ∀ first position,
        (resolveHint depth scope? first token (baseline.after es)).2 =
          (resolveType depth scope? token (baseline.after es)).2 ∧
        (resolveHint depth scope? position token
          (resolveHint depth scope? first token (baseline.after es)).2).1 = hint position := by
  intro hint
  have hl := (declared_after hes).apart
  obtain ⟨-, hlacks⟩ := apart_typeAt inherited_lacks_sequence depth scope? maxHops (trimmed_trimmed token) _ hl
  have htrimmed : ¬Mentions "Sequence" (trimmed token) := by
    intro hm
    refine hword (hm.trans ?_)
    unfold trimmed
    rw [String.toList_ofList]
    exact standsIn_trim token.toList
  have hagain := (resolveType_again (baseline.after es) depth scope? token).2
    (not_recurs_of_no_alias hl.aliases depth (trimmed token))
  have hhint (position : Position) :
      hint position = (resolveType depth scope? token (baseline.after es)).1.hint position := by
    unfold hint
    rw [resolveHint_eq]
  rw [hhint, hhint]
  refine ⟨(hlacks htrimmed).hint_result (by decide), Value.hint_argument_ne_list houtput,
    Value.hint_eq_or_widened houtput, fun first position => ?_⟩
  rw [hhint, resolveHint_eq, resolveHint_eq, hagain]
  exact ⟨rfl, rfl⟩

/-- A module defines a class, and a sequence has been resolved before. -/
def withObject : List Event :=
  [.define "core.Object" (.type (.ofPath "core.Object")), .resolveType 3 none "Sequence[int]"]

theorem widening_outermost_lists :
    let token := "std.list[std.vector[core.Object]]"
    let hint (position : Position) := (resolveHint 3 none position token (baseline.after withObject)).1
    (hint .argument).text = "Sequence[List[core.Object]]" ∧ (hint .result).Lacks .sequence ∧
      ∀ first position,
        (resolveHint 3 none first token (baseline.after withObject)).2 =
          (resolveType 3 none token (baseline.after withObject)).2 ∧
        (resolveHint 3 none position token
          (resolveHint 3 none first token (baseline.after withObject)).2).1 = hint position := by
  intro token hint
  have hdeclares : ∀ e ∈ withObject, e.Declares :=
    List.forall_mem_cons.2 ⟨.inl ⟨_, rfl⟩, List.forall_mem_singleton.2 trivial⟩
  have hword : ¬Mentions "Sequence" token := not_mentions_of_not_infix (by decide)
  have hvalue : (hint .argument).text = "Sequence[List[core.Object]]" ∧
      (resolveType 3 none token (baseline.after withObject)).1.isOutput = false := by decide +kernel
  obtain ⟨hlacks, -, -, hagain⟩ := widening_outermost hdeclares 3 none hword hvalue.2
  exact ⟨hvalue.1, hlacks, hagain⟩

end Lexicon
end CallSig
