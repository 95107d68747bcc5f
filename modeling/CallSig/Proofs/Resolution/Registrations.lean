import CallSig.Proofs.Resolution.Histories
import CallSig.Proofs.Resolution.LateLoading

/-!
# `CallSig.Proofs.Resolution.Registrations` — how long a registered value lasts

A registration gives a token its value and takes its mark away. Resolutions leave such an entry alone, and so does
whatever registers other tokens. But the token may still be among the missed ones from the time before. If its new
value is a placeholder, the next installation takes it for the trace of a miss and reopens it, and the resolution after
that overwrites it. Nothing else ends a registration.

## Contents
- **Answers.** `Fixed`, `fixed_iff`.
- **Histories.** `EachStep`, `eachStep_cons`.
- **Steps.** `Exposed`, `known?_perform`, `exposed_perform`, `known?_perform_of_installs`.
- **Registrations.** `known?_lasts_iff`, `registration_lasts_iff`.
- **A registration is lost.** `placeholder_lost`.
-/

namespace CallSig
namespace Lexicon

open Text

variable {l : Lexicon} {token : String} {value : Value} {e : Event} {es : List Event}

/-! ## Answers -/

/-- The lexicon answers with this value for the token, and will not resolve the token again. -/
structure Fixed (l : Lexicon) (token : String) (value : Value) : Prop where
  unmarked : token ∉ l.retry
  found : (l.lookup token).1 = some value
  /-- Blanks around the token do not matter. -/
  resolved : ∀ depth scope? s, trimmed s = token → (resolveType depth scope? s l).1 = value

theorem fixed_iff : Fixed l token value ↔ l.known? token = some value := by
  constructor
  · intro h
    unfold known?
    rw [if_neg (mt List.contains_iff_mem.1 h.unmarked)]
    exact h.found
  · intro h
    refine ⟨fun hmark => ?_, get?_of_known? h, ?_⟩
    · rw [known?, if_pos (List.contains_iff_mem.2 hmark)] at h
      cases h
    · rintro depth scope? s rfl
      unfold resolveType
      rw [typeAt_hit h]

/-! ## Histories -/

/-- Every event of the history has the property, together with the lexicon before it. -/
def EachStep (Q : Lexicon → Event → Prop) (l : Lexicon) (es : List Event) : Prop :=
  ∀ before e, before ++ [e] <+: es → Q (l.after before) e

theorem eachStep_nil {Q : Lexicon → Event → Prop} : EachStep Q l [] :=
  fun before _ h => absurd (List.prefix_nil.1 h) (List.append_ne_nil_of_right_ne_nil before (List.cons_ne_nil _ _))

theorem eachStep_cons {Q : Lexicon → Event → Prop} :
    EachStep Q l (e :: es) ↔ Q l e ∧ EachStep Q (e.perform l) es := by
  constructor
  · intro h
    exact ⟨h [] e (List.prefix_append [e] es), fun before e' hb => h (e :: before) e' ((List.prefix_cons_inj e).2 hb)⟩
  · rintro ⟨hfirst, hrest⟩ before e' hb
    cases before with
    | nil =>
      obtain ⟨rfl, -⟩ := List.cons_prefix_cons.1 hb
      exact hfirst
    | cons e₁ before =>
      obtain ⟨rfl, htail⟩ := List.cons_prefix_cons.1 hb
      exact hrest before e' htail

/-- A property of the lexicon holds throughout a history. -/
theorem forall_prefix_cons {P : Lexicon → Prop} :
    (∀ before, before <+: e :: es → P (l.after before)) ↔
      P l ∧ ∀ before, before <+: es → P ((e.perform l).after before) := by
  constructor
  · intro h
    exact ⟨h [] List.nil_prefix, fun before hb => h (e :: before) ((List.prefix_cons_inj e).2 hb)⟩
  · rintro ⟨hfirst, hrest⟩ before hb
    cases before with
    | nil => exact hfirst
    | cons e₁ before =>
      obtain ⟨rfl, htail⟩ := List.cons_prefix_cons.1 hb
      exact hrest before htail

/-! ## Steps -/

/-- The value is a placeholder, and the token is still among the missed ones. -/
def Exposed (l : Lexicon) (token : String) (value : Value) : Prop := value.isUnmapped ∧ token ∈ l.missed

/-- An event that neither loads modules nor registers the token leaves its entry alone, and does not give up on it. -/
theorem kept_of_not_loads (he : ¬e.Loads) (hno : ¬e.Registers l token) (hk : l.known? token = some value) :
    (e.perform l).known? token = some value ∧ (token ∈ (e.perform l).missed ↔ token ∈ l.missed) := by
  have hgrows (h : Grows l (e.perform l)) :
      (e.perform l).known? token = some value ∧ (token ∈ (e.perform l).missed ↔ token ∈ l.missed) := by
    refine ⟨h.kept hk, fun hm => (h.newlyMissed hm).resolve_right ?_, h.missed⟩
    rw [hk]
    exact Option.some_ne_none value
  cases e with
  | ensure | refresh => exact absurd trivial he
  | resolveType depth scope? s => exact hgrows ((runProperty_grows depth).resolveType scope? s l)
  | resolveValue depth type? s => exact hgrows ((runProperty_grows depth).resolveValue type? s l)
  | register t v =>
    have hne : t ≠ token := fun h => hno (Or.inl ⟨v, h ▸ rfl⟩)
    exact ⟨(known?_register l t token v).trans ((if_neg hne).trans hk), Iff.rfl⟩
  | addVocabulary v =>
    show (l.addVocabulary v).known? token = some value ∧ (token ∈ (l.addVocabulary v).missed ↔ token ∈ l.missed)
    unfold Lexicon.addVocabulary
    split
    · exact ⟨hk, Iff.rfl⟩
    · exact ⟨hk, Iff.rfl⟩
  | define | addAlias | lookup | evaluate | takeUnresolved => exact ⟨hk, Iff.rfl⟩

theorem lastOf?_of_installs {v : Vocabulary} (hno : ¬e.Registers l token) (hv : e.Installs l v) :
    lastOf? token v.tokens = none := by
  cases ht : lastOf? token v.tokens with
  | none => rfl
  | some w => exact absurd (Or.inr ⟨v, hv, List.mem_map_of_mem (mem_of_lastOf? ht)⟩) hno

/-- An entry that is not exposed stays as it is, and is not exposed later. -/
theorem known?_perform (hno : ¬e.Registers l token) (hk : l.known? token = some value) (hs : ¬Exposed l token value) :
    (e.perform l).known? token = some value ∧ ¬Exposed (e.perform l) token value := by
  by_cases he : e.Loads
  · refine loads_induction (P := fun l' => l'.known? token = some value ∧ ¬Exposed l' token value) he ?_
      (fun _ _ h => h) ⟨hk, hs⟩
    rintro l' v ⟨hk', hs'⟩ hv
    refine ⟨known?_install_eq_some.2 ⟨?_, fun hmissed => hs' hmissed.symm⟩, fun hexposed => ?_⟩
    · rw [lastOf?_of_installs hno hv]
      exact hk'
    · -- after an installation no token is missed
      exact List.not_mem_nil hexposed.2
  · obtain ⟨hk', hmissed⟩ := kept_of_not_loads he hno hk
    exact ⟨hk', fun hexposed => hs ⟨hexposed.1, hmissed.1 hexposed.2⟩⟩

/-- Without an installation an exposed entry stays as it is, and stays exposed. -/
theorem exposed_perform (hno : ¬e.Registers l token) (hi : ∀ v, ¬e.Installs l v) (hk : l.known? token = some value)
    (hs : Exposed l token value) :
    (e.perform l).known? token = some value ∧ Exposed (e.perform l) token value := by
  by_cases he : e.Loads
  · exact loads_induction (P := fun l' => l'.known? token = some value ∧ Exposed l' token value) he
      (fun _ v _ hv => absurd hv (hi v)) (fun _ _ h => h) ⟨hk, hs⟩
  · obtain ⟨hk', hmissed⟩ := kept_of_not_loads he hno hk
    exact ⟨hk', hs.1, hmissed.2 hs.2⟩

/-- An installation reopens an exposed entry. -/
theorem known?_perform_of_installs {v : Vocabulary} (hno : ¬e.Registers l token) (hv : e.Installs l v)
    (hk : l.known? token = some value) (hs : Exposed l token value) : (e.perform l).known? token = none := by
  let P (l' : Lexicon) :=
    l'.known? token = none ∨ l'.pending = l.pending ∧ l'.known? token = some value ∧ Exposed l' token value
  have hinstall (l' : Lexicon) (w : Vocabulary) (h : P l') (hw : e.Installs l w) : P (l'.install w) := by
    refine Or.inl ?_
    rw [known?_install, lastOf?_of_installs hno hw, Option.none_or]
    rcases h with hopen | ⟨-, hk', hunmapped, hmissed⟩
    · rw [hopen]
      rfl
    · rw [hk', Option.filter_some, hunmapped, List.contains_iff_mem.2 hmissed]
      rfl
  have hend : P (e.perform l) :=
    loads_induction (loads_of_installs hv) hinstall (fun _ _ h => h) (Or.inr ⟨rfl, hk, hs⟩)
  rcases hend with hopen | ⟨hpending, -⟩
  · exact hopen
  · refine absurd ?_ hv.2
    unfold pendingNames
    rw [hpending]
    exact List.mem_map_of_mem hv.1

/-! ## Registrations -/

/-- An entry lasts through a history that does not register its token, unless it is exposed and something is
installed. -/
theorem known?_lasts_iff (h : EachStep (fun l e => ¬e.Registers l token) l es) (hk : l.known? token = some value) :
    (∀ before, before <+: es → (l.after before).known? token = some value) ↔
      (Exposed l token value → EachStep (fun l e => ∀ v, ¬e.Installs l v) l es) := by
  induction es generalizing l with
  | nil =>
    refine ⟨fun _ _ => eachStep_nil, fun _ before hb => ?_⟩
    rw [List.prefix_nil.1 hb]
    exact hk
  | cons e es ih =>
    obtain ⟨hno, hrest⟩ := eachStep_cons.1 h
    rw [forall_prefix_cons (P := fun l => l.known? token = some value), eachStep_cons, and_iff_right hk]
    by_cases hs : Exposed l token value
    · rw [forall_prop_of_true hs]
      by_cases hi : ∃ v, e.Installs l v
      · obtain ⟨v, hv⟩ := hi
        refine iff_of_false (fun hall => ?_) (fun hnone => hnone.1 v hv)
        have hstart := hall [] List.nil_prefix
        rw [after, List.foldl_nil, known?_perform_of_installs hno hv hk hs] at hstart
        cases hstart
      · have hi : ∀ v, ¬e.Installs l v := fun v hv => hi ⟨v, hv⟩
        obtain ⟨hk', hs'⟩ := exposed_perform hno hi hk hs
        rw [ih hrest hk', forall_prop_of_true hs', and_iff_right hi]
    · obtain ⟨hk', hs'⟩ := known?_perform hno hk hs
      exact iff_of_true ((ih hrest hk').2 fun hexposed => absurd hexposed hs') fun hexposed => absurd hexposed hs

/-- **A registered value lasts until its token is registered again**, whatever happened before and whatever happens
in between, unless the value is a placeholder for a token that was missed before, and something is installed. -/
theorem registration_lasts_iff (l : Lexicon) (token : String) (value : Value) (es : List Event)
    (h : EachStep (fun l e => ¬e.Registers l token) (l.register token value) es) :
    (∀ before, before <+: es → Fixed ((l.register token value).after before) token value) ↔
      (Exposed l token value → EachStep (fun l e => ∀ v, ¬e.Installs l v) (l.register token value) es) := by
  have hk : (l.register token value).known? token = some value := by rw [known?_register, if_pos rfl]
  simp only [fixed_iff]
  exact known?_lasts_iff h hk

/-- A host that has loaded the module `core`. -/
def withCore : LoadedModules := .ofList ["core"]

/-- Loading `core` registers no token that the waiting vocabularies do not have. -/
theorem not_registers_ensure (h : ∀ v ∈ l.pending, token ∉ v.tokens.map Prod.fst) :
    ¬(Event.ensure withCore "core").Registers l token := by
  rintro (⟨value, he⟩ | ⟨v, ⟨hv, -⟩, ht⟩)
  · cases he
  · exact h v hv ht

theorem registration_lasts_iff_gadget :
    EachStep (fun l e => ¬e.Registers l "Widget") (waiting.register "Widget" (.unmapped "Gadget"))
        [.ensure withCore "core", .resolveType 3 none "Widget"] ∧
      ∀ before, before <+: [.ensure withCore "core", .resolveType 3 none "Widget"] →
        Fixed ((waiting.register "Widget" (.unmapped "Gadget")).after before) "Widget" (.unmapped "Gadget") := by
  have h : EachStep (fun l e => ¬e.Registers l "Widget") (waiting.register "Widget" (.unmapped "Gadget"))
      [.ensure withCore "core", .resolveType 3 none "Widget"] :=
    eachStep_cons.2 ⟨not_registers_ensure (by decide),
      eachStep_cons.2 ⟨not_registers_of_resolves trivial, eachStep_nil⟩⟩
  exact ⟨h, (registration_lasts_iff waiting "Widget" (.unmapped "Gadget") _ h).2 fun hexposed => by cases hexposed.2⟩

/-! ## A registration is lost -/

/-- The module `core` waits for the host. `Widget` was missed, and was registered as a placeholder for `Gadget` then. -/
def gadget : Lexicon :=
  (baseline.after [.addVocabulary (oneClass "core" "Foo"), .resolveType 3 none "Widget"]).register "Widget"
    (.unmapped "Gadget")

/-- Once `core` is installed, `Widget` is resolved anew, and neither resolution nor look-up gives `Gadget` any more. -/
theorem placeholder_lost :
    EachStep (fun l e => ¬e.Registers l "Widget") gadget [.ensure withCore "core", .resolveType 3 none "Widget"] ∧
      Fixed gadget "Widget" (.unmapped "Gadget") ∧
      (resolveType 3 none "Widget" (gadget.after [.ensure withCore "core"])).1 ≠ .unmapped "Gadget" ∧
      ((gadget.after [.ensure withCore "core", .resolveType 3 none "Widget"]).lookup "Widget").1 ≠
        some (.unmapped "Gadget") := by
  have hvalues : (∀ v ∈ gadget.pending, "Widget" ∉ v.tokens.map Prod.fst) ∧
      (resolveType 3 none "Widget" (gadget.after [.ensure withCore "core"])).1.text ≠
        (Value.unmapped "Gadget").text ∧
      ((gadget.after [.ensure withCore "core", .resolveType 3 none "Widget"]).lookup "Widget").1.map Value.text ≠
        some (Value.unmapped "Gadget").text := by decide +kernel
  refine ⟨?_, fixed_iff.2 ((known?_register _ "Widget" "Widget" _).trans (if_pos rfl)), fun h => ?_, fun h => ?_⟩
  · exact eachStep_cons.2 ⟨not_registers_ensure hvalues.1,
      eachStep_cons.2 ⟨not_registers_of_resolves trivial, eachStep_nil⟩⟩
  · exact hvalues.2.1 (congrArg Value.text h)
  · exact hvalues.2.2 (congrArg (Option.map Value.text) h)

end Lexicon
end CallSig
