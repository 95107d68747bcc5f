import CallSig.Catalog
import CallSig.Proofs.Resolution.Installation
import CallSig.Proofs.Resolution.Reach

/-!
# `CallSig.Proofs.Catalog.BracketDepth` — whether the deepest nesting can be used

Settings may ask for as many brackets as resolution follows hops. A line is then accepted up to this depth, and its
types are resolved over the baseline and classes that are defined beside it. Whether a type is resolved as a whole
depends on one thing: a class path needs a hop of its own after those for the brackets around it, unless it was met
before. So the settings of the greatest depth accept types that resolution gives up on.

## Contents
- **Types.** `unmappedTokens_hint`, `HostToken.unmappedTokens_value`.
- **Lexicons.** `Lexicon.withClasses`, `known?_create`, `wholeEntries_create`, `HostToken.ofClass`.
- **Depth.** `depth_le_of_validate`, `usable_iff`, `usable_iff_metBefore`, `not_usable`.
-/

namespace CallSig

/-! ## Types -/

theorem TypeExpr.unmappedTokens_widen (t : TypeExpr) (position : Position) :
    (t.widen position).unmappedTokens = t.unmappedTokens := by
  unfold TypeExpr.widen
  split
  · rfl
  · rfl

/-- A value has the same unmapped tokens on both sides of a call as inside another type. -/
theorem Value.unmappedTokens_hint (v : Value) (position : Position) :
    (v.hint position).unmappedTokens = v.elementType.unmappedTokens := by
  have hlist {kind : GenericKind} (t : TypeExpr) : (TypeExpr.generic kind [t]).unmappedTokens = t.unmappedTokens := by
    simp [TypeExpr.unmappedTokens, TypeExpr.argsUnmappedTokens]
  cases v with
  | type t => exact (t.unmappedTokens_widen position).trans (t.unmappedTokens_widen .result).symm
  | former f =>
    cases f with
    | container kind =>
      exact (TypeExpr.unmappedTokens_widen _ position).trans (TypeExpr.unmappedTokens_widen _ .result).symm
    | arrayLike | matrix => rfl
  | output t =>
    cases position with
    | argument => rfl
    | result => exact hlist t
  | arrayLike t => cases position <;> exact (hlist t).trans (hlist t).symm
  | literal x => cases x <;> rfl
  | constant | sentinel | unmapped => rfl

namespace Lexicon

open Text Word

variable {l : Lexicon}

mutual

theorem HostToken.unmappedTokens_value (t : HostToken l) : t.value.elementType.unmappedTokens = [] := by
  match t with
  | .word _ _ _ _ typed => exact typed
  | .named .. => rfl
  | .applied _ kind _ _ _ _ _ args => exact args.unmappedTokens_types

theorem HostArgs.unmappedTokens_types (args : HostArgs l) : TypeExpr.argsUnmappedTokens args.types = [] := by
  match args with
  | .last _ arg _ => simp [HostArgs.types, TypeExpr.argsUnmappedTokens, arg.unmappedTokens_value]
  | .more _ arg _ rest =>
    simp [HostArgs.types, TypeExpr.argsUnmappedTokens, arg.unmappedTokens_value, rest.unmappedTokens_types]

end

/-! ## Lexicons -/

/-- The baseline with classes defined under these paths. -/
def withClasses (classes : List String) : Lexicon :=
  classes.foldl (fun l path => l.define path (.type (.ofPath path))) baseline

theorem foldl_define_classes (classes : List String) (l : Lexicon) :
    ∃ definitions, classes.foldl (fun l path => l.define path (.type (.ofPath path))) l = { l with definitions } ∧
      ∀ path, path ∈ classes ∨ l.definitions.get? path = some (.type (.ofPath path)) →
        definitions.get? path = some (.type (.ofPath path)) := by
  induction classes generalizing l with
  | nil => exact ⟨l.definitions, rfl, fun path hpath => hpath.resolve_left List.not_mem_nil⟩
  | cons path classes ih =>
    obtain ⟨definitions, heq, hdefined⟩ := ih (l.define path (.type (.ofPath path)))
    refine ⟨definitions, heq, fun other hother => hdefined other ?_⟩
    -- a later class may be defined under the same path, as the same class
    rw [define, Dict.get?_insert]
    split
    · next he => exact .inr (by rw [he])
    · next hne =>
      rw [List.mem_cons] at hother
      exact hother.imp_left fun hmem => hmem.resolve_left fun he => hne he.symm

theorem withClasses_eq (classes : List String) :
    ∃ definitions, withClasses classes = { baseline with definitions } ∧
      ∀ path ∈ classes, definitions.get? path = some (.type (.ofPath path)) := by
  obtain ⟨definitions, heq, hdefined⟩ := foldl_define_classes classes baseline
  exact ⟨definitions, heq, fun path hpath => hdefined path (.inl hpath)⟩

/-- The lexicon of a catalog over the baseline and classes. -/
theorem lexicon_create (classes : List String) (s : Settings) :
    ∃ definitions, (Catalog.create (withClasses classes) s).lexicon =
      { baseline with definitions, aliases := s.aliases.entries.foldl (fun d e => d.insert e.1 e.2) baseline.aliases } ∧
        ∀ path ∈ classes, definitions.get? path = some (.type (.ofPath path)) := by
  obtain ⟨definitions, heq, hdefined⟩ := withClasses_eq classes
  refine ⟨definitions, ?_, hdefined⟩
  unfold Catalog.create
  dsimp only
  rw [foldl_addAlias, heq]

theorem known?_create (classes : List String) (s : Settings) (t : String) :
    (Catalog.create (withClasses classes) s).lexicon.known? t = baseline.known? t := by
  have hentries (l : Lexicon) (definitions : Dict Value) (aliases : Dict String) :
      known? { l with definitions, aliases } t = l.known? t := rfl
  obtain ⟨definitions, heq, -⟩ := lexicon_create classes s
  rw [heq, hentries]

theorem unresolved_create (classes : List String) (s : Settings) :
    (Catalog.create (withClasses classes) s).lexicon.unresolved = [] := by
  obtain ⟨definitions, heq, -⟩ := lexicon_create classes s
  obtain ⟨_, _, _, hbaseline⟩ := baseline_eq
  rw [heq, hbaseline]
  rfl

theorem wholeEntries_create (classes : List String) (s : Settings) :
    (Catalog.create (withClasses classes) s).lexicon.WholeEntries := by
  intro t v hv depth
  rw [known?_create, known?_baseline] at hv
  have hall : ∀ e ∈ Vocabulary.baseline.tokens,
      e.1 = "[]" ∨ (trim e.1.toList).reverse.head?.bind TypeShape.finalBracket? = none := by
    decide +kernel
  rcases hall _ (mem_of_lastOf? hv) with heq | hnone
  · obtain rfl : t = "[]" := heq
    exact ⟨"[]", rfl⟩
  · exact ⟨_, TypeShape.ofToken_eq_atom hnone depth⟩

theorem get?_foldl_insert_of_ne {es : List (String × String)} {d : Dict String} {key : String}
    (h : ∀ e ∈ es, e.1 ≠ key) : (es.foldl (fun d e => d.insert e.1 e.2) d).get? key = d.get? key := by
  induction es generalizing d with
  | nil => rfl
  | cons e es ih =>
    obtain ⟨he, hes⟩ := List.forall_mem_cons.1 h
    rw [List.foldl_cons, ih hes, Dict.get?_insert_of_ne d e.2 he]

theorem get?_aliases_create {classes : List String} {s : Settings} {t : String} (h : s.aliases.get? t = none) :
    (Catalog.create (withClasses classes) s).lexicon.aliases.get? t = none := by
  have hkeys : t ∉ s.aliases.keys := by
    rw [← Dict.isSome_get?_iff, h]
    exact Bool.false_ne_true
  have hne : ∀ e ∈ s.aliases.entries, e.1 ≠ t := by
    intro e he heq
    exact hkeys (heq ▸ List.mem_map_of_mem he)
  obtain ⟨definitions, heq, -⟩ := lexicon_create classes s
  rw [heq]
  exact (get?_foldl_insert_of_ne hne).trans (get?_aliases_baseline t)

/-- A defined class whose dotted path is no native token of the baseline and no alias. -/
def HostToken.ofClass {classes : List String} {s : Settings} {path : String} (hpath : path ∈ classes)
    (dotted : Dotted path) (native : baseline.known? path = none) (unaliased : s.aliases.get? path = none) :
    HostToken (Catalog.create (withClasses classes) s).lexicon :=
  .named path dotted
    (by obtain ⟨definitions, heq, hdefined⟩ := lexicon_create classes s; rw [heq]; exact hdefined path hpath)
    (by rw [known?_create, native]) (get?_aliases_create unaliased)

/-! ## Depth -/

theorem depth_le_of_validate {s : Settings} (h : s.validate = .ok ()) :
    1 ≤ s.bracketDepth ∧ s.bracketDepth ≤ maxHops := by
  unfold Settings.validate at h
  split at h
  · cases h
  · next hdepth =>
    have hsame : Settings.maxDepth = maxHops := rfl
    omega

/-- **The types of accepted arguments are resolved if and only if their classes come in time.** For settings that are
valid, a type built from containers, words of the baseline and classes has no unmapped part, and nothing is noted as a
miss, exactly if every class path stands, where it is met first, inside fewer brackets than there are hops. -/
theorem usable_iff {s : Settings} (hs : s.validate = .ok ()) (classes : List String) {line : String} {d : Descriptor}
    (hline : Descriptor.parse s.bracketDepth line = .ok d) {arg : Argument} (harg : arg ∈ d.arguments)
    (t : HostToken (Catalog.create (withClasses classes) s).lexicon) (htoken : arg.typeToken = t.token)
    (scope? : Option String) :
    let r := resolveType s.bracketDepth scope? arg.typeToken (Catalog.create (withClasses classes) s).lexicon
    ((∀ position, (r.1.hint position).unmappedTokens = []) ∧ r.2.unresolved = []) ↔
      ∀ path n, (t.leaves 0).lookup path = some n → n < maxHops := by
  obtain ⟨hpos, hle⟩ := depth_le_of_validate hs
  have hspelled : arg.typeToken.toList = spelled (t.words []) := by
    rw [htoken, HostToken.token, String.toList_ofList, t.spelled_words, List.nil_append]
  have hdepth : t.nesting ≤ s.bracketDepth := by
    have hreads : Reads (t.words []) [] := t.reads_words (List.forall_mem_nil _) endsName_nil
    have hsober : ∀ c ∈ spelled (t.words []), Sober c := by
      rw [t.spelled_words]
      exact t.sober
    have hn := Grammar.nesting_le_of_parse hline harg hspelled hreads hsober (t.nests_words [])
    rwa [Descriptor.parserDepth, Nat.max_eq_left hpos] at hn
  have htime : InTime [] (t.leaves 0) ↔ ∀ path n, (t.leaves 0).lookup path = some n → n < maxHops := by
    simp [InTime]
  obtain ⟨hresolved, hmissed⟩ :=
    resolveType_host (wholeEntries_create classes s) t (Nat.le_trans hdepth hle) hdepth scope?
  rw [unresolved_create] at hresolved hmissed
  rw [htoken, ← htime]
  constructor
  · rintro ⟨-, hquiet⟩
    refine Classical.byContradiction fun hlate => ?_
    have hmore := hmissed hlate
    rw [hquiet] at hmore
    exact Nat.lt_irrefl _ hmore
  · intro hin
    obtain ⟨hvalue, hquiet⟩ := hresolved hin
    refine ⟨fun position => ?_, hquiet⟩
    rw [hvalue, Value.unmappedTokens_hint]
    exact t.unmappedTokens_value

/-- Valid settings of the greatest depth. -/
def deepest : Settings := { Settings.standard with bracketDepth := Settings.maxDepth }

/-- A class. -/
def fooToken : HostToken (Catalog.create (withClasses ["core.Foo"]) deepest).lexicon :=
  .ofClass (List.mem_singleton_self "core.Foo") (by unfold Dotted; decide) (by rw [known?_baseline]; rfl) rfl

/-- Lists of lists of a type. -/
def HostToken.lists {classes : List String} {s : Settings}
    (t : HostToken (Catalog.create (withClasses classes) s).lexicon) :
    Nat → HostToken (Catalog.create (withClasses classes) s).lexicon
  | 0 => t
  | n + 1 =>
    .applied "List" .list (by unfold Dotted; decide) (by rw [known?_create, known?_baseline]; rfl) .none .square
      (by decide) (.last .none (t.lists n) .none)

/-- A class, and lists of it inside as many brackets as settings may ask for. -/
def metBefore : HostToken (Catalog.create (withClasses ["core.Foo"]) deepest).lexicon :=
  .applied "Dict" .dict (by unfold Dotted; decide) (by rw [known?_create, known?_baseline]; rfl) .none .square
    (by decide) (.more .none fooToken .none (.last .none (fooToken.lists 15) .none))

/-- The line of one argument with this type. -/
def HostToken.line {l : Lexicon} (t : HostToken l) : String := "f(a:" ++ t.token ++ ")"

theorem exists_argument {depth : Nat} {line token : String}
    (h : (Descriptor.parse depth line).toOption.map (·.arguments.map Argument.typeToken) = some [token]) :
    ∃ d arg, Descriptor.parse depth line = .ok d ∧ arg ∈ d.arguments ∧ arg.typeToken = token := by
  cases hd : Descriptor.parse depth line with
  | error e =>
    rw [hd] at h
    cases h
  | ok d =>
    rw [hd] at h
    have htokens : d.arguments.map Argument.typeToken = [token] := Option.some.inj h
    obtain ⟨arg, harg, htoken⟩ := List.mem_map.1 (htokens ▸ List.mem_singleton_self token)
    exact ⟨d, arg, rfl, harg, htoken⟩

/-- A class that was met before is resolved inside the deepest brackets. -/
theorem usable_iff_metBefore :
    deepest.validate = .ok () ∧
      ∃ d arg, Descriptor.parse deepest.bracketDepth metBefore.line = .ok d ∧ arg ∈ d.arguments ∧
        arg.typeToken = metBefore.token ∧
          let r := resolveType deepest.bracketDepth none arg.typeToken
            (Catalog.create (withClasses ["core.Foo"]) deepest).lexicon
          (∀ position, (r.1.hint position).unmappedTokens = []) ∧ r.2.unresolved = [] := by
  obtain ⟨d, arg, hd, harg, htoken⟩ : ∃ d arg, Descriptor.parse deepest.bracketDepth metBefore.line = .ok d ∧
      arg ∈ d.arguments ∧ arg.typeToken = metBefore.token := exists_argument (by decide +kernel)
  refine ⟨rfl, d, arg, hd, harg, htoken, (usable_iff rfl ["core.Foo"] hd harg metBefore htoken none).2 ?_⟩
  intro path n hn
  have hleaves : metBefore.leaves 0 = [("core.Foo", 1), ("core.Foo", 16)] := rfl
  rw [hleaves] at hn
  by_cases hpath : path = "core.Foo"
  · subst hpath
    cases hn
    decide
  · rw [lookup_eq_none_iff.2 (by simpa using hpath)] at hn
    cases hn

/-- The greatest depth is accepted, and a class inside so many brackets is given up on. -/
theorem not_usable : ¬∀ s : Settings, s.validate = .ok () → ∀ (classes : List String) (line : String) (d : Descriptor),
    Descriptor.parse s.bracketDepth line = .ok d → ∀ arg ∈ d.arguments,
    ∀ t : HostToken (Catalog.create (withClasses classes) s).lexicon, arg.typeToken = t.token →
    ∀ scope? : Option String,
      let r := resolveType s.bracketDepth scope? arg.typeToken (Catalog.create (withClasses classes) s).lexicon
      (∀ position, (r.1.hint position).unmappedTokens = []) ∧ r.2.unresolved = [] := by
  intro h
  obtain ⟨d, arg, hd, harg, htoken⟩ : ∃ d arg,
      Descriptor.parse deepest.bracketDepth (fooToken.lists 16).line = .ok d ∧ arg ∈ d.arguments ∧
        arg.typeToken = (fooToken.lists 16).token := exists_argument (by decide +kernel)
  obtain ⟨-, hquiet⟩ := h deepest rfl ["core.Foo"] _ d hd arg harg (fooToken.lists 16) htoken none
  have hlate : ¬InTime [] ((fooToken.lists 16).leaves 0) := by
    have hleaves : (fooToken.lists 16).leaves 0 = [("core.Foo", 16)] := rfl
    rw [hleaves, inTime_singleton]
    decide
  obtain ⟨-, hmissed⟩ := resolveType_host (wholeEntries_create ["core.Foo"] deepest) (fooToken.lists 16)
    (Nat.le_refl 16) (Nat.le_refl deepest.bracketDepth) none
  have hmore := hmissed hlate
  rw [← htoken, hquiet] at hmore
  exact Nat.not_lt_zero _ hmore

end Lexicon
end CallSig
