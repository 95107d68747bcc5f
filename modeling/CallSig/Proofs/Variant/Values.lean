import CallSig.Proofs.Resolution.Evolution
import CallSig.Proofs.Text.Trim
import CallSig.Variant.Assembly

/-!
# `CallSig.Proofs.Variant.Values` — which values a variant is made of

Resolution makes new values from old ones in a few ways only: an expression gives a literal, a sentinel or a host
object, a token without a value stands for itself, and arrays and containers are built from the values of their parts.
A property of values that survives these ways holds of everything that is resolved, if it holds of what a lexicon
starts with. So it holds of the defaults of a variant, and the types of its parameters are those of such values.

## Contents
- **Preserved properties.** `Preserved`, `Inherited`, `Holds`.
- **Searches and plans.** `Search.Gives`, `gives_ofToken`; `Plan.Gives`, `Plan.gives_ofToken`.
- **Runs.** `Keeps`, `keeps_bind`, `keeps_typeAt`, `keeps_resolveType`, `keeps_resolveValue`.
- **Assembly.** `HintOf`, `Draft.MadeOf`, `MadeOf`, `madeOf_of_assemble`.
-/

namespace CallSig

open Text

namespace Lexicon

variable {P : Value → Prop} {l l' : Lexicon} {token : String} {depth : Nat} {scope? : Option String}

/-! ## Preserved properties -/

/-- A property of values that resolution does not leave. -/
structure Preserved (P : Value → Prop) : Prop where
  literal : ∀ x, P (.literal x)
  sentinel : ∀ s, P (.sentinel s)
  unmapped : ∀ token, P (.unmapped token)
  array : ∀ {v}, P v → ∀ length?, P (arrayOf v.elementType length?)
  generic : ∀ kind {values : List Value}, (∀ v ∈ values, P v) →
    P (.type (.generic kind (values.map Value.elementType)))
  named : ∀ {path} {values : List Value}, P (.type (.named path [])) → (∀ v ∈ values, P v) →
    P (.type (.named path (values.map Value.elementType)))

/-- A property of values that resolution keeps where the parts of a value have it, the container among them. -/
structure Inherited (P : Value → Prop) : Prop where
  literal : ∀ x, P (.literal x)
  sentinel : ∀ s, P (.sentinel s)
  unmapped : ∀ token, P (.unmapped token)
  array : ∀ {v}, P v → ∀ length?, P (arrayOf v.elementType length?)
  container : ∀ {kind} {values : List Value}, P (.former (.container kind)) → (∀ v ∈ values, P v) →
    P (.type (.generic kind (values.map Value.elementType)))
  generic : ∀ {kind} {values : List Value}, P (.type (.generic kind [])) → (∀ v ∈ values, P v) →
    P (.type (.generic kind (values.map Value.elementType)))
  named : ∀ {path} {values : List Value}, P (.type (.named path [])) → (∀ v ∈ values, P v) →
    P (.type (.named path (values.map Value.elementType)))

theorem Preserved.inherited (h : Preserved P) : Inherited P where
  literal := h.literal
  sentinel := h.sentinel
  unmapped := h.unmapped
  array := h.array
  container := fun _ hvalues => h.generic _ hvalues
  generic := fun _ hvalues => h.generic _ hvalues
  named := h.named

/-- All entries and all host objects of the lexicon have the property. -/
structure Holds (P : Value → Prop) (l : Lexicon) : Prop where
  tokens : ∀ t v, l.tokens.get? t = some v → P v
  definitions : ∀ path v, l.definitions.get? path = some v → P v

namespace Holds

theorem counted (h : Holds P l) (hc : Counted l l') : Holds P l' := by
  rw [hc]
  exact ⟨h.tokens, h.definitions⟩

theorem known (h : Holds P l) {v : Value} (hk : l.known? token = some v) : P v := h.tokens token v (get?_of_known? hk)

/-- Settling a token with a value that has the property. -/
theorem settled (h : Holds P l) {found : Option Value} (hfound : P (found.getD (.unmapped token)))
    (reason : MissReason) : Holds P (l.settled token reason found) where
  tokens := by
    intro t v hv
    rw [get?_settled] at hv
    split at hv
    · obtain rfl := Option.some.inj hv
      cases hk : l.known? token with
      | some w => exact h.known hk
      | none => exact hfound
    · exact h.tokens t v hv
  definitions := by
    rw [definitions_settled]
    exact h.definitions

end Holds

/-! ## Searches and plans -/

/-- Among host objects that have the property, the search finds values that have it. -/
def Search.Gives (P : Value → Prop) (s : Search) : Prop :=
  ∀ definitions : Dict Value, (∀ path v, definitions.get? path = some v → P v) →
    ∀ v, s.value? definitions = some v → P v

namespace Search

theorem gives_always_none (P : Value → Prop) : (always none).Gives P := nofun

theorem gives_or {first second : Search} (h : first.Gives P) (h' : second.Gives P) : (first.or second).Gives P := by
  intro definitions hd v hv
  rcases Option.or_eq_some_iff.1 hv with hv | ⟨-, hv⟩
  · exact h definitions hd v hv
  · exact h' definitions hd v hv

end Search

/-- An expression is a literal, a host object, or a value that is constructed as spelled. -/
theorem gives_evaluate (h : Inherited P) {definitions : Dict Value}
    (hd : ∀ path v, definitions.get? path = some v → P v) {expr : String} {v : Value}
    (hv : Expression.evaluate definitions expr = some v) : P v := by
  unfold Expression.evaluate at hv
  dsimp only at hv
  split at hv
  · cases hv
  · split at hv
    · cases hv
      exact h.literal _
    · split at hv
      · cases hv
        exact h.literal _
      · split at hv
        · cases hv
          exact h.literal _
        · unfold Expression.evaluateName at hv
          split at hv
          · exact hd _ v hv
          · split at hv
            · obtain ⟨_, -, rfl⟩ := Option.map_eq_some_iff.1 hv
              exact h.sentinel _
            · split at hv
              · cases hv
                exact h.sentinel _
              · cases hv

namespace Search

theorem gives_expression (h : Inherited P) (text : String) : (expression text).Gives P := by
  intro definitions hd v hv
  unfold expression at hv
  dsimp only at hv
  split at hv
  · cases hv
    exact h.sentinel _
  · exact gives_evaluate h hd hv

theorem gives_guessed (h : Inherited P) (token scope : String) : (guessed token scope).Gives P := by
  refine gives_or ?_ ?_
  · split
    · exact gives_expression h _
    · exact gives_always_none P
  · split
    · exact gives_expression h _
    · exact gives_always_none P

theorem gives_ofToken (h : Inherited P) (scope? : Option String) (token : String) : (ofToken scope? token).Gives P := by
  refine gives_or (gives_expression h token) ?_
  cases scope? with
  | none => exact gives_always_none P
  | some scope => exact fun definitions hd v hv => gives_guessed h token scope definitions hd v hv

theorem gives_matrix (h : Inherited P) (stem : String) (args : List String) : (matrix stem args).Gives P := by
  unfold matrix
  split
  · exact gives_always_none P
  · exact fun definitions hd v hv => gives_evaluate h hd hv

end Search

namespace Plan

/-- If what the plan asks for has the property, what it comes to has it. -/
def Gives (P : Value → Prop) : Plan → Prop
  | finish search _ => search.Gives P
  | ask _ next => ∀ v, P v → (next v).Gives P

theorem gives_keep {v : Value} (h : P v) : (keep v).Gives P := fun _ _ _ hv => Option.some.inj hv ▸ h

theorem gives_quit (P : Value → Prop) (reason : MissReason) : (quit reason).Gives P := Search.gives_always_none P

theorem gives_askEach {args : List String} {next : List TypeExpr → Plan}
    (h : ∀ values : List Value, (∀ v ∈ values, P v) → (next (values.map Value.elementType)).Gives P) :
    (askEach args next).Gives P := by
  induction args generalizing next with
  | nil => exact h [] (List.forall_mem_nil _)
  | cons arg args ih =>
    intro v hv
    exact ih fun values hvalues => h (v :: values) (List.forall_mem_cons.2 ⟨hv, hvalues⟩)

theorem gives_ofFormer (h : Inherited P) (args : List String) {former : Value} (hf : P former) :
    (ofFormer args former).Gives P := by
  unfold ofFormer
  split
  · exact Search.gives_matrix h _ args
  · -- an array-like container has one argument
    refine gives_askEach fun values hvalues => ?_
    match values, hvalues with
    | [v], hvalues => exact gives_keep (h.array (hvalues v List.mem_cons_self) none)
    | [], _ | _ :: _ :: _, _ => exact gives_quit P .badArguments
  · exact gives_askEach fun values hvalues => gives_keep (h.container hf hvalues)
  · exact gives_askEach fun values hvalues => gives_keep (h.named hf hvalues)
  · exact gives_askEach fun values hvalues => gives_keep (h.generic hf hvalues)
  · exact gives_quit P .notAContainer

theorem gives_atom (h : Inherited P) (aliases : Dict String) (scope? : Option String) (token : String) :
    (atom aliases scope? token).Gives P := by
  unfold atom
  split
  · exact fun v hv => gives_keep hv
  · exact Search.gives_ofToken h scope? token

theorem gives_ofToken (h : Inherited P) (aliases : Dict String) (depth : Nat) (scope? : Option String)
    (token : String) : (ofToken aliases depth scope? token).Gives P := by
  unfold ofToken
  split
  · exact gives_atom h aliases scope? _
  · exact fun v hv => gives_keep (h.array hv _)
  · exact fun v hv => gives_ofFormer h _ hv

end Plan

/-! ## Runs -/

/-- Over a lexicon whose values have the property, the run returns something with the other property, and the values of
the lexicon that it leaves still have the first one. -/
def Keeps (P : Value → Prop) {α : Type} (m : LexiconM α) (Q : α → Prop) : Prop :=
  ∀ l, Holds P l → Q (m l).1 ∧ Holds P (m l).2

theorem keeps_pure {α : Type} {Q : α → Prop} {a : α} (h : Q a) : Keeps P (pure a) Q := fun _ hl => ⟨h, hl⟩

theorem keeps_bind {α β : Type} {Q : α → Prop} {R : β → Prop} {m : LexiconM α} {k : α → LexiconM β}
    (hm : Keeps P m Q) (hk : ∀ a, Q a → Keeps P (k a) R) : Keeps P (m >>= k) R := by
  intro l hl
  obtain ⟨ha, hl'⟩ := hm l hl
  exact hk _ ha _ hl'

theorem keeps_lookup (P : Value → Prop) (token : String) :
    Keeps P (modifyGet (·.lookup token)) fun found => ∀ v, found = some v → P v :=
  fun _ hl => ⟨fun v hv => hl.tokens token v hv, hl.tokens, hl.definitions⟩

theorem keeps_settle (h : Preserved P) {search : Search} (hs : search.Gives P) (token : String) (reason : MissReason) :
    Keeps P (settle token search reason) P := by
  intro l hl
  have hfound : P ((search.value? l.definitions).getD (.unmapped token)) := by
    cases hv : search.value? l.definitions with
    | some v => exact hs _ hl.definitions v hv
    | none => exact h.unmapped token
  rw [settle_eq]
  exact ⟨hfound, (hl.counted (search.counted l)).settled hfound reason⟩

theorem keeps_perform (h : Preserved P) {resolve : String → LexiconM Value} {plan : Plan}
    (hasks : plan.Asks fun part => Keeps P (resolve part) P) (hgives : plan.Gives P) (token : String) :
    Keeps P (plan.perform resolve token) P := by
  induction plan with
  | finish search reason => exact keeps_settle h hgives token reason
  | ask part next ih => exact keeps_bind hasks.1 fun v hv => ih v (hasks.2 v) (hgives v hv)

/-- **What is resolved has the property.** -/
theorem keeps_typeAt (h : Preserved P) (depth : Nat) (scope? : Option String) (hops : Nat)
    (ht : trimmed token = token) : Keeps P (typeAt depth scope? hops token) P := by
  induction hops generalizing token with
  | zero =>
    intro l hl
    have hl' := hl.counted (counted_cached l token)
    cases hk : l.known? token with
    | some v =>
      rw [typeAt_hit hk]
      exact ⟨hl.known hk, hl'⟩
    | none =>
      have hgiven : P (Option.getD none (.unmapped token)) := h.unmapped token
      rw [typeAt_zero_miss hk]
      exact ⟨h.unmapped token, hl'.settled hgiven .tooDeep⟩
  | succ hops ih =>
    intro l hl
    have hl' := hl.counted (counted_cached l token)
    cases hk : l.known? token with
    | some v =>
      rw [typeAt_hit hk]
      exact ⟨hl.known hk, hl'⟩
    | none =>
      rw [typeAt_succ_miss hk ht]
      have hasks := ((closed_trimmed l.aliases depth token ht).2 scope?).mono fun part hpart => ih hpart
      exact keeps_perform h hasks (Plan.gives_ofToken h.inherited _ depth scope? token) token _ hl'

theorem keeps_resolveType (h : Preserved P) (depth : Nat) (scope? : Option String) (token : String) :
    Keeps P (resolveType depth scope? token) P := keeps_typeAt h depth scope? maxHops (trimmed_trimmed token)

/-- A token that is taken as a whole. -/
theorem keeps_whole (h : Preserved P) (depth : Nat) (scope? : Option String) (hops : Nat) (token : String) :
    Keeps P (orCached token (atom (typeAt depth scope? hops) scope? token)) P := by
  intro l hl
  have hl' := hl.counted (counted_cached l token)
  cases hk : l.known? token with
  | some v =>
    rw [orCached_hit hk]
    exact ⟨hl.known hk, hl'⟩
  | none =>
    rw [orCached_miss hk, atom_eq_perform]
    refine keeps_perform h (Plan.asks_atom fun target _ => ?_) (Plan.gives_atom h.inherited _ scope? token) token _ hl'
    exact keeps_typeAt h depth scope? hops (trimmed_trimmed target)

theorem keeps_zeroFor? (h : Preserved P) (depth : Nat) (typeToken : String) :
    Keeps P (zeroFor? depth typeToken) fun zero? => ∀ v, zero? = some v → P v := by
  refine keeps_bind (keeps_resolveType h depth none typeToken) fun type _ => ?_
  split
  · exact keeps_lookup P _
  · refine keeps_pure fun v hv => ?_
    split at hv
    · cases hv
    · cases hv
      exact h.literal _

theorem keeps_resolveValue (h : Preserved P) (depth : Nat) (type? : Option String) (token : String) :
    Keeps P (resolveValue depth type? token) P := by
  unfold resolveValue
  dsimp only
  have hwhole := keeps_whole h depth type? (maxHops - 1) (trimmed token)
  cases type? with
  | none => exact hwhole
  | some typeToken =>
    dsimp only
    split
    · refine keeps_bind (keeps_zeroFor? h depth typeToken) fun zero? hzero => ?_
      cases zero? with
      | some zero => exact keeps_pure (hzero zero rfl)
      | none => exact hwhole
    · exact hwhole

end Lexicon

/-! ## Assembly -/

namespace Variant

open Lexicon

variable {P : Value → Prop}

/-- The type is the one that a value with the property has as an argument, or it also admits `None`. -/
def HintOf (P : Value → Prop) (t : TypeExpr) : Prop :=
  ∃ value, P value ∧ (t = value.hint .argument ∨ t = (value.hint .argument).orNone)

/-- The types of the parameters are those of values with the property, and the defaults have it. -/
structure Draft.MadeOf (P : Value → Prop) (d : Draft) : Prop where
  hints : ∀ p ∈ d.params, ∀ t, p.hint? = some t → HintOf P t
  defaults : ∀ v ∈ d.defaults, P v
  keywordDefaults : ∀ e ∈ d.keywordDefaults, P e.2

namespace Draft

theorem madeOf_empty (P : Value → Prop) : empty.MadeOf P :=
  ⟨List.forall_mem_nil _, List.forall_mem_nil _, List.forall_mem_nil _⟩

theorem MadeOf.push {d : Draft} (h : d.MadeOf P) {p : Parameter} (hp : ∀ t, p.hint? = some t → HintOf P t) :
    ∀ q ∈ d.params ++ [p], ∀ t, q.hint? = some t → HintOf P t := by
  intro q hq
  rcases List.mem_append.1 hq with hq | hq
  · exact h.hints q hq
  · rw [List.mem_singleton.1 hq]
    exact hp

theorem MadeOf.addTyped {d d' : Draft} (h : d.MadeOf P) {arg : Argument} {value : Value} (hvalue : P value)
    {default? : Option Value} (hdefault : ∀ v, default? = some v → P v)
    (hd : d.addTyped arg value default? = .ok d') : d'.MadeOf P := by
  have hplain : ∀ t, some (value.hint .argument) = some t → HintOf P t := by
    rintro t ⟨⟩
    exact ⟨value, hvalue, Or.inl rfl⟩
  unfold Draft.addTyped at hd
  cases default? with
  | none =>
    dsimp only at hd
    split at hd
    · cases hd
    · cases hd
      exact ⟨h.push hplain, h.defaults, h.keywordDefaults⟩
  | some default =>
    have hpush : ∀ t, some (if default.isNone = true then (value.hint .argument).orNone else value.hint .argument) =
        some t → HintOf P t := by
      rintro t ⟨⟩
      refine ⟨value, hvalue, ?_⟩
      split
      · exact Or.inr rfl
      · exact Or.inl rfl
    have hlast := hdefault default rfl
    dsimp only at hd
    split at hd
    · cases hd
      refine ⟨h.push hpush, fun v hv => ?_, h.keywordDefaults⟩
      rcases List.mem_append.1 hv with hv | hv
      · exact h.defaults v hv
      · rw [List.mem_singleton.1 hv]
        exact hlast
    · cases hd
      refine ⟨h.push hpush, h.defaults, fun e he => ?_⟩
      rcases List.mem_append.1 he with he | he
      · exact h.keywordDefaults e he
      · rw [List.mem_singleton.1 he]
        exact hlast

theorem keeps_resolveDefault (hP : Preserved P) (depth : Nat) (arg : Argument) :
    Keeps P (resolveDefault depth arg) fun default? => ∀ v, default? = some v → P v := by
  unfold resolveDefault
  cases arg.default? with
  | none => exact keeps_pure nofun
  | some token =>
    refine keeps_bind (keeps_resolveValue hP depth _ token) fun value hvalue => keeps_pure ?_
    rintro v ⟨⟩
    exact hvalue

theorem keeps_add (hP : Preserved P) (depth : Nat) (declaring? : Option String) {d : Draft} (h : d.MadeOf P)
    (arg : Argument) : Keeps P (d.add depth declaring? arg) fun r => ∀ d', r = .ok d' → d'.MadeOf P := by
  unfold add
  split
  · refine keeps_pure ?_
    rintro d' ⟨⟩
    exact ⟨h.push nofun, h.defaults, h.keywordDefaults⟩
  · refine keeps_bind (keeps_resolveType hP depth declaring? arg.typeToken) fun value hvalue => ?_
    cases value with
    | output t =>
      refine keeps_pure ?_
      rintro d' ⟨⟩
      exact ⟨h.hints, h.defaults, h.keywordDefaults⟩
    | type | former | arrayLike | literal | constant | sentinel | unmapped =>
      exact keeps_bind (keeps_resolveDefault hP depth arg) fun default? hdefault =>
        keeps_pure fun d' hd => h.addTyped hvalue hdefault hd

theorem keeps_addAll (hP : Preserved P) (depth : Nat) (declaring? : Option String) (args : List Argument) {d : Draft}
    (h : d.MadeOf P) : Keeps P (d.addAll depth declaring? args) fun r => ∀ d', r = .ok d' → d'.MadeOf P := by
  induction args generalizing d with
  | nil =>
    refine keeps_pure ?_
    rintro d' ⟨⟩
    exact h
  | cons arg args ih =>
    refine keeps_bind (keeps_add hP depth declaring? h arg) fun added hadded => ?_
    cases added with
    | error e => exact keeps_pure nofun
    | ok d₁ => exact ih (hadded d₁ rfl)

end Draft

/-- The types of the parameters are those of values with the property, and the defaults have it. -/
structure MadeOf (P : Value → Prop) (v : Variant) : Prop where
  hints : ∀ p ∈ v.params, ∀ t, p.hint? = some t → HintOf P t
  defaults : ∀ i d, v.defaultAt i = some d → P d

/-- A default stands in the list of its kind. -/
theorem mem_of_defaultAt {v : Variant} {i : Nat} {default : Value} (h : v.defaultAt i = some default) :
    default ∈ v.defaults ∨ ∃ e ∈ v.keywordDefaults, e.2 = default := by
  obtain ⟨p, -, hfound⟩ := Option.bind_eq_some_iff.1 h
  dsimp only at hfound
  split at hfound
  · split at hfound
    · cases hfound
    · exact Or.inl (List.mem_of_getElem? hfound)
  · obtain ⟨e, he, rfl⟩ := Option.map_eq_some_iff.1 hfound
    exact Or.inr ⟨e, List.mem_of_find?_eq_some he, rfl⟩

/-- **An assembled variant is made of values with the property**, if all values of the lexicon have it. -/
theorem madeOf_of_assemble (hP : Preserved P) {depth : Nat} {optionalReturns : List String} {scope? : Option String}
    {descriptor : Descriptor} {l : Lexicon} (hl : l.Holds P) {v : Variant}
    (h : (assemble depth optionalReturns scope? descriptor l).1 = .ok v) : v.MadeOf P := by
  have hrun : Keeps P (assemble depth optionalReturns scope? descriptor) fun r => ∀ v, r = .ok v → v.MadeOf P := by
    unfold assemble
    cases checkStructure descriptor.arguments with
    | error e => exact keeps_pure nofun
    | ok u =>
      have hempty := Draft.madeOf_empty P
      refine keeps_bind (Draft.keeps_addAll hP depth _ descriptor.arguments hempty) fun added hadded => ?_
      cases added with
      | error e => exact keeps_pure nofun
      | ok d =>
        have hd := hadded d rfl
        have hnatural : Keeps P (naturalResult depth (descriptor.owner?.or scope?) descriptor) fun _ => True := by
          unfold naturalResult
          cases descriptor.result? with
          | none => exact keeps_pure trivial
          | some token => exact keeps_bind (keeps_resolveType hP depth _ token) fun _ _ => keeps_pure trivial
        refine keeps_bind hnatural fun natural? _ => keeps_pure ?_
        rintro v ⟨⟩
        refine ⟨hd.hints, fun i default hdefault => ?_⟩
        rcases mem_of_defaultAt hdefault with hmem | ⟨e, hmem, rfl⟩
        · exact hd.defaults default hmem
        · exact hd.keywordDefaults e hmem
  exact (hrun l hl).1 v h

end Variant
end CallSig
