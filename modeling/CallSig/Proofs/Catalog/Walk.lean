import CallSig.Proofs.Catalog.Building
import CallSig.Proofs.Resolution.Shadowing
import CallSig.Proofs.Text.Trim

/-!
# `CallSig.Proofs.Catalog.Walk` — from steps of resolution to blocks

Assembly and building are put together from a few steps of resolution: a type is resolved, a zero is looked up, a
default is resolved as a whole, the tokens given up on are handed out. A property of runs that these steps have,
and that runs put together keep, is therefore a property of whole blocks. The walk through the definitions is made
here once.

## Contents
- **Properties of runs.** `RunProperty`.
- **Defaults and arguments.** `RunProperty.resolveValue`, `RunProperty.add`, `RunProperty.assemble`.
- **Blocks.** `RunProperty.readLine`, `RunProperty.readTexts`, `RunProperty.readBlock`.
- **Growth.** `Evolution.runProperty`: what single resolutions leave true, blocks leave true; `runProperty_grows`.
- **Shadows.** `runProperty_follows`: blocks give one answer over a lexicon and over its shadow.
-/

namespace CallSig

open Lexicon Text

/-! ## Properties of runs -/

/-- The property holds of the steps that assembly is made of, and of runs put together from runs that have it. -/
structure RunProperty (depth : Nat) (P : ∀ {α : Type}, LexiconM α → Prop) : Prop where
  pure : ∀ {α : Type} (a : α), P (pure a : LexiconM α)
  bind : ∀ {α β : Type} {m : LexiconM α} {k : α → LexiconM β}, P m → (∀ a, P (k a)) → P (m >>= k)
  resolveType : ∀ scope? token, P (resolveType depth scope? token)
  zero : ∀ b : Builtin, P (modifyGet (·.lookup (Vocabulary.zeroToken b.name)) : LexiconM (Option Value))
  whole : ∀ scope? hops {token}, trimmed token = token →
    P (orCached token (atom (typeAt depth scope? hops) scope? token))
  handOut : P (modify fun l => l.takeUnresolved.2 : LexiconM Unit)

namespace RunProperty

variable {depth : Nat} {P : ∀ {α : Type}, LexiconM α → Prop}

/-! ## Defaults and arguments -/

theorem zeroFor? (h : RunProperty depth P) (typeToken : String) : P (zeroFor? depth typeToken) := by
  refine h.bind (h.resolveType none typeToken) fun type => ?_
  cases type with
  | type t =>
    cases t with
    | builtin b => exact h.zero b
    | named | generic | optional | unmapped => exact h.pure _
  | former | output | arrayLike | literal | constant | sentinel | unmapped => exact h.pure _

theorem resolveValue (h : RunProperty depth P) (type? : Option String) (token : String) :
    P (resolveValue depth type? token) := by
  unfold Lexicon.resolveValue
  dsimp only
  cases type? with
  | none => exact h.whole none _ (trimmed_trimmed token)
  | some typeToken =>
    dsimp only
    split
    · refine h.bind (h.zeroFor? typeToken) fun zero? => ?_
      cases zero? with
      | some zero => exact h.pure zero
      | none => exact h.whole (some typeToken) _ (trimmed_trimmed token)
    · exact h.whole (some typeToken) _ (trimmed_trimmed token)

open Variant

theorem resolveDefault (h : RunProperty depth P) (arg : Argument) : P (Draft.resolveDefault depth arg) := by
  unfold Draft.resolveDefault
  cases arg.default? with
  | none => exact h.pure none
  | some token => exact h.bind (h.resolveValue _ token) fun value => h.pure (some value)

theorem add (h : RunProperty depth P) (declaring? : Option String) (d : Draft) (arg : Argument) :
    P (d.add depth declaring? arg) := by
  unfold Draft.add
  split
  · exact h.pure _
  · refine h.bind (h.resolveType declaring? arg.typeToken) fun value => ?_
    cases value with
    | output t => exact h.pure _
    | type | former | arrayLike | literal | constant | sentinel | unmapped =>
      exact h.bind (h.resolveDefault arg) fun default? => h.pure _

theorem addAll (h : RunProperty depth P) (declaring? : Option String) (d : Draft) (args : List Argument) :
    P (d.addAll depth declaring? args) := by
  induction args generalizing d with
  | nil => exact h.pure _
  | cons arg args ih =>
    refine h.bind (h.add declaring? d arg) fun added => ?_
    cases added with
    | ok d => exact ih d
    | error e => exact h.pure _

theorem naturalResult (h : RunProperty depth P) (declaring? : Option String) (descriptor : Descriptor) :
    P (naturalResult depth declaring? descriptor) := by
  unfold Variant.naturalResult
  cases descriptor.result? with
  | none => exact h.pure none
  | some token => exact h.bind (h.resolveType declaring? token) fun value => h.pure _

/-- Assembling a descriptor has the property. -/
theorem assemble (h : RunProperty depth P) (optionalReturns : List String) (scope? : Option String)
    (descriptor : Descriptor) : P (assemble depth optionalReturns scope? descriptor) := by
  unfold Variant.assemble
  cases checkStructure descriptor.arguments with
  | error e => exact h.pure _
  | ok u =>
    refine h.bind (h.addAll _ _ _) fun added => ?_
    cases added with
    | error e => exact h.pure _
    | ok d => exact h.bind (h.naturalResult _ descriptor) fun natural? => h.pure _

/-! ## Blocks -/

theorem readLine {settings : Settings} (h : RunProperty settings.bracketDepth P) (owner : String)
    (members : Dict (List Variant)) (text : String) : P (Catalog.readLine settings owner members text) := by
  unfold Catalog.readLine
  cases Descriptor.parse settings.bracketDepth text with
  | error e => exact h.pure _
  | ok descriptor =>
    refine h.bind (h.assemble _ _ descriptor) fun outcome => ?_
    refine h.bind h.handOut fun _ => ?_
    cases outcome with
    | ok variant => exact h.pure _
    | error e => exact h.pure _

/-- Reading merged lines one after the other has the property, whatever members there are before. -/
theorem readTexts {settings : Settings} (h : RunProperty settings.bracketDepth P) (owner : String)
    (texts : List String) (members : Dict (List Variant)) :
    P (texts.foldlM (Catalog.readLine settings owner) members) := by
  induction texts generalizing members with
  | nil => exact h.pure members
  | cons text rest ih =>
    rw [List.foldlM_cons]
    exact h.bind (h.readLine owner members text) ih

/-- Reading a block has the property. -/
theorem readBlock {settings : Settings} (h : RunProperty settings.bracketDepth P) (owner : String)
    (members : Dict (List Variant)) (lines : List String) :
    P (Catalog.readBlock settings owner members lines) :=
  h.readTexts owner _ members

end RunProperty

/-! ## Growth -/

/-- A relation that resolution extends is extended by assembly too, if handing tokens out extends it. -/
theorem Lexicon.Evolution.runProperty {R : Lexicon → Lexicon → Prop} (h : Evolution (fun t => trimmed t = t) R)
    (hout : ∀ l, R l l.takeUnresolved.2) (depth : Nat) :
    RunProperty depth fun m => ∀ l, R l (m l).2 where
  pure := fun _ l => h.counted (.refl l)
  bind := fun {_ _ m _} hm hk l => h.trans (hm l) (hk (m l).1 (m l).2)
  resolveType := fun scope? token l => h.typeAt (closed_trimmed l.aliases depth) scope? maxHops (trimmed_trimmed token)
  zero := fun _ l => h.counted (show Counted l (l.lookup _).2 from rfl)
  whole := fun scope? hops _ ht l => h.whole (closed_trimmed l.aliases depth) trimmed_trimmed scope? hops ht
  handOut := hout

theorem Lexicon.grows_takeUnresolved (l : Lexicon) : Grows l l.takeUnresolved.2 :=
  ⟨rfl, rfl, rfl, rfl, fun hk => hk, fun hm => hm, Or.inl⟩

theorem Lexicon.runProperty_grows (depth : Nat) : RunProperty depth fun m => ∀ l, Grows l (m l).2 :=
  (evolution_grows fun t => trimmed t = t).runProperty grows_takeUnresolved depth

/-! ## Shadows -/

variable {start first second : Lexicon} {depth : Nat}

theorem follows_takeUnresolved : Follows start first second (modify fun l => l.takeUnresolved.2 : LexiconM Unit) where
  grows := grows_takeUnresolved
  same := fun h _ => ⟨rfl, h.definitions, h.aliases, h.startAliases, h.old, h.known, h.left, h.nothingElse, h.zeros⟩

/-- Every step of a build gives one answer over a lexicon and over its shadow. -/
theorem runProperty_follows (hno : ∀ t, start.aliases.get? t = none) (hc : Compatible depth start first second) :
    RunProperty depth (Follows start first second) where
  pure := follows_pure
  bind := follows_bind
  resolveType := follows_resolveType hno hc
  zero := follows_lookup_zero
  whole := fun scope? hops _ ht => follows_whole hno hc scope? hops ht
  handOut := follows_takeUnresolved

end CallSig
