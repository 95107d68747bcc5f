import CallSig.Proofs.Catalog.Building
import CallSig.Proofs.Descriptor.Acceptance
import CallSig.Proofs.Variant.Origin

/-!
# `CallSig.Proofs.Catalog.Sessions` — what is built after any history

Lines are added to owners, owners are asked about, and modules come in, in any order. An owner whose lines changed
waits with nothing built; the first question about it builds all its lines over the lexicon of that moment; and what
is built stays until lines are added again. The invariant says where the members of an owner come from, and every
event keeps it.

## Contents
- **Histories.** `Event`, `Event.perform`, `after`, `after_induction`, `linesAdded`.
- **Survivors.** `Survivors`: the merged lines that a build keeps, with their variants; `named`, `exists_survivors`.
- **Events.** `perform_of_asked`, `SameOwner`, `sameOwner_perform`.
- **The invariant.** `Waits`, `LatestBuild`, `BuiltFrom`, `Consistent`, `consistent_perform`, `consistent_after`.
- **Numbers.** `index?_of_numbered`: a line keeps the number that merging gave it.
- **Overloads.** `isSome_signature_iff`, `signature_single_iff`, `overloads_exact`.
-/

namespace CallSig
namespace Catalog

open Overload

/-! ## Histories -/

/-- What can be done with a catalog. -/
inductive Event
  | add (owner text : String)
  | members (owner : String)
  | variants (owner member : String)
  | signature (owner member : String) (binding : Binding) (layout : Layout)
  | refresh (host : LoadedModules)
  | ensure (host : LoadedModules) (name : String)

namespace Event

/-- The catalog after an event. -/
def perform : Event → Catalog → Catalog
  | add owner text, c => c.addDescriptors owner text
  | members owner, c => (c.members owner).2
  | variants owner member, c => (c.variants owner member).2
  | signature owner member binding layout, c => (c.signature owner member binding layout).2
  | refresh host, c => (c.refresh host).2
  | ensure host name, c => (c.ensure host name).2

/-- The owner that is asked about. -/
def asked? : Event → Option String
  | members owner | variants owner _ | signature owner _ _ _ => some owner
  | add _ _ | refresh _ | ensure _ _ => none

/-- The owner that lines are added to. -/
def addedTo? : Event → Option String
  | add owner _ => some owner
  | members _ | variants _ _ | signature _ _ _ _ | refresh _ | ensure _ _ => none

/-- The lines that are added. -/
def lines : Event → List String
  | add _ text => (Text.lines text.toList).map String.ofList
  | members _ | variants _ _ | signature _ _ _ _ | refresh _ | ensure _ _ => []

end Event

/-- The catalog after a history. -/
def after (c : Catalog) (es : List Event) : Catalog := es.foldl (fun c e => e.perform c) c

/-- All lines that a history adds to an owner. -/
def linesAdded (owner : String) (es : List Event) : List String :=
  es.flatMap fun e => if e.addedTo? = some owner then e.lines else []

theorem after_concat (c : Catalog) (es : List Event) (e : Event) : c.after (es ++ [e]) = e.perform (c.after es) := by
  unfold after
  rw [List.foldl_append]
  rfl

/-- What holds at first, and what every event keeps, holds after every history. -/
theorem after_induction {P : List Event → Catalog → Prop} {start : Catalog} (nil : P [] start)
    (concat : ∀ es e, P es (start.after es) → P (es ++ [e]) (e.perform (start.after es))) (es : List Event) :
    P es (start.after es) := by
  suffices hrun : ∀ history, P history (start.after history) → P (history ++ es) (start.after (history ++ es)) from
    hrun [] nil
  induction es with
  | nil =>
    intro history h
    rw [List.append_nil]
    exact h
  | cons e es ih =>
    intro history h
    have hnext := concat history e h
    rw [← after_concat] at hnext
    have hrest := ih (history ++ [e]) hnext
    rw [List.append_assoc, List.singleton_append] at hrest
    exact hrest

theorem linesAdded_concat (owner : String) (es : List Event) (e : Event) :
    linesAdded owner (es ++ [e]) = linesAdded owner es ++ if e.addedTo? = some owner then e.lines else [] := by
  unfold linesAdded
  rw [List.flatMap_append, List.flatMap_singleton]

theorem linesAdded_of_not_added {owner : String} {es : List Event} {e : Event} (h : e.addedTo? ≠ some owner) :
    linesAdded owner (es ++ [e]) = linesAdded owner es := by
  rw [linesAdded_concat, if_neg h, List.append_nil]

/-! ## Survivors -/

/-- The merged lines that survive a build from a lexicon, each with its variant: those that can be read and
assembled. The lexicon goes on from line to line. -/
inductive Survivors (settings : Settings) (owner : String) :
    Lexicon → List Merged → List (Merged × Variant) → Prop
  | done (l : Lexicon) : Survivors settings owner l [] []
  | unread {l : Lexicon} {line : Merged} {lines : List Merged} {found : List (Merged × Variant)} {e : ParseError} :
    Descriptor.parse settings.bracketDepth line.text = .error e → Survivors settings owner l lines found →
      Survivors settings owner l (line :: lines) found
  | rejected {l l' : Lexicon} {line : Merged} {lines : List Merged} {found : List (Merged × Variant)}
      {d : Descriptor} {e : AssemblyError} :
    Descriptor.parse settings.bracketDepth line.text = .ok d →
      Variant.assemble settings.bracketDepth settings.optionalReturns (some owner) d l = (.error e, l') →
      Survivors settings owner l'.takeUnresolved.2 lines found → Survivors settings owner l (line :: lines) found
  | survives {l l' : Lexicon} {line : Merged} {lines : List Merged} {found : List (Merged × Variant)}
      {d : Descriptor} {v : Variant} :
    Descriptor.parse settings.bracketDepth line.text = .ok d →
      Variant.assemble settings.bracketDepth settings.optionalReturns (some owner) d l = (.ok v, l') →
      Survivors settings owner l'.takeUnresolved.2 lines found →
      Survivors settings owner l (line :: lines) ((line, v) :: found)

/-- The surviving variants of a member, in merged order. -/
def named (survivors : List (Merged × Variant)) (member : String) : List Variant :=
  (survivors.map Prod.snd).filter fun v => v.shortName = member

theorem named_cons (line : Merged) (v : Variant) (survivors : List (Merged × Variant)) (member : String) :
    named ((line, v) :: survivors) member =
      (if v.shortName = member then [v] else []) ++ named survivors member := by
  unfold named
  rw [List.map_cons, List.filter_cons]
  by_cases h : v.shortName = member <;> simp [h]

/-- The members once the survivors are filed. -/
def filed (members : Dict (List Variant)) (survivors : List (Merged × Variant)) : Dict (List Variant) :=
  survivors.foldl (fun members found => fileVariant members found.2) members

theorem getD_get?_filed (survivors : List (Merged × Variant)) (members : Dict (List Variant)) (member : String) :
    ((filed members survivors).get? member).getD [] = (members.get? member).getD [] ++ named survivors member := by
  induction survivors generalizing members with
  | nil => exact (List.append_nil _).symm
  | cons found rest ih =>
    obtain ⟨line, v⟩ := found
    show ((filed (fileVariant members v) rest).get? member).getD [] = _
    rw [ih, named_cons, fileVariant, Dict.get?_insert]
    split
    · next h =>
      rw [h, Option.getD_some, List.append_assoc]
    · rw [List.nil_append]

theorem ne_nil_of_filed {survivors : List (Merged × Variant)} {members : Dict (List Variant)}
    (h : ∀ member variants, members.get? member = some variants → variants ≠ []) {member : String}
    {variants : List Variant} (hv : (filed members survivors).get? member = some variants) : variants ≠ [] := by
  induction survivors generalizing members with
  | nil => exact h member variants hv
  | cons found rest ih =>
    have hmore : ∀ other variants', (fileVariant members found.2).get? other = some variants' → variants' ≠ [] := by
      intro other variants' hv'
      rw [fileVariant, Dict.get?_insert] at hv'
      split at hv'
      · cases hv'
        simp
      · exact h other variants' hv'
    exact ih hmore hv

/-- A member has a list if something survives under its name, and the list is what survives. -/
theorem get?_filed_iff (survivors : List (Merged × Variant)) (member : String) (variants : List Variant) :
    (filed .empty survivors).get? member = some variants ↔ variants ≠ [] ∧ variants = named survivors member := by
  have hnamed := getD_get?_filed survivors .empty member
  rw [Dict.get?_empty, Option.getD_none, List.nil_append] at hnamed
  constructor
  · intro h
    refine ⟨ne_nil_of_filed (fun other variants' h' => ?_) h, ?_⟩
    · rw [Dict.get?_empty] at h'
      cases h'
    · rw [← hnamed, h, Option.getD_some]
  · rintro ⟨hne, rfl⟩
    rw [← hnamed] at hne ⊢
    cases hg : (filed .empty survivors).get? member with
    | none =>
      rw [hg] at hne
      exact absurd rfl hne
    | some variants => rfl

/-- **A build files its survivors.** -/
theorem exists_survivors (settings : Settings) (owner : String) (lines : List Merged) (l : Lexicon)
    (members : Dict (List Variant)) :
    ∃ survivors, Survivors settings owner l lines survivors ∧
      ((lines.map Merged.text).foldlM (readLine settings owner) members l).1 = filed members survivors := by
  induction lines generalizing l members with
  | nil => exact ⟨[], .done l, rfl⟩
  | cons line lines ih =>
    rw [List.map_cons, List.foldlM_cons]
    show ∃ survivors, Survivors settings owner l (line :: lines) survivors ∧
      ((lines.map Merged.text).foldlM (readLine settings owner) (readLine settings owner members line.text l).1
        (readLine settings owner members line.text l).2).1 = filed members survivors
    cases hparse : Descriptor.parse settings.bracketDepth line.text with
    | error e =>
      have hline : readLine settings owner members line.text l = (members, l) := by
        unfold readLine
        rw [hparse]
        rfl
      rw [hline]
      obtain ⟨survivors, hs, hfiled⟩ := ih l members
      exact ⟨survivors, .unread hparse hs, hfiled⟩
    | ok d =>
      rcases hrun : Variant.assemble settings.bracketDepth settings.optionalReturns (some owner) d l with
        ⟨outcome, l'⟩
      have hline : readLine settings owner members line.text l =
          (match outcome with
            | .ok v => fileVariant members v
            | .error _ => members, l'.takeUnresolved.2) := by
        unfold readLine
        rw [hparse]
        simp only [bind, StateT.bind, hrun]
        cases outcome <;> rfl
      rw [hline]
      cases outcome with
      | error e =>
        obtain ⟨survivors, hs, hfiled⟩ := ih l'.takeUnresolved.2 members
        exact ⟨survivors, .rejected hparse hrun hs, hfiled⟩
      | ok v =>
        obtain ⟨survivors, hs, hfiled⟩ := ih l'.takeUnresolved.2 (fileVariant members v)
        exact ⟨(line, v) :: survivors, .survives hparse hrun hs, hfiled⟩

/-! ## Events -/

variable {c start : Catalog} {owner : String} {es : List Event} {e : Event}

/-- A question builds its owner. -/
theorem perform_of_asked (h : e.asked? = some owner) (c : Catalog) : e.perform c = c.build owner := by
  cases e with
  | members o | variants o m | signature o m b k =>
    cases h
    rfl
  | add o text | refresh host | ensure host name => cases h

/-- A question adds no lines. -/
theorem addedTo?_of_asked (h : e.asked? = some owner) (other : String) : e.addedTo? ≠ some other := by
  cases e with
  | add o text => cases h
  | members o | variants o m | signature o m b k | refresh host | ensure host name => exact nofun

theorem settings_perform (e : Event) (c : Catalog) : (e.perform c).settings = c.settings := by
  cases e with
  | members o | variants o m | signature o m b k => exact settings_build c o
  | add o text => exact settings_addDescriptors c o text
  | refresh host => rfl
  | ensure host name =>
    show (c.ensure host name).2.settings = _
    unfold Catalog.ensure
    split <;> rfl

/-- The second catalog has the same lines of the owner, and the same built of it. -/
structure SameOwner (owner : String) (c c' : Catalog) : Prop where
  blocks : c'.blocks.get? owner = c.blocks.get? owner
  stale : c'.stale.contains owner = c.stale.contains owner
  built : c'.built.get? owner = c.built.get? owner

/-- An event does not touch an owner that it is not about. -/
theorem sameOwner_perform (hask : e.asked? ≠ some owner) (hadd : e.addedTo? ≠ some owner) (c : Catalog) :
    SameOwner owner c (e.perform c) := by
  cases e with
  | members o | variants o m | signature o m b k =>
    have hne : o ≠ owner := fun h => hask (congrArg some h)
    exact ⟨by rw [perform_of_asked rfl, blocks_build], contains_stale_build hne, get?_built_build_of_ne hne⟩
  | add o text =>
    have hne : o ≠ owner := fun h => hadd (congrArg some h)
    show SameOwner owner c (c.addDescriptors o text)
    unfold addDescriptors
    dsimp only
    split
    · exact ⟨Dict.get?_insert_of_ne _ _ hne, rfl, rfl⟩
    · refine ⟨Dict.get?_insert_of_ne _ _ hne, ?_, ?_⟩
      · simp [hne.symm]
      · exact (Dict.get?_erase _ _ _).trans (if_neg hne)
  | refresh host => exact ⟨rfl, rfl, rfl⟩
  | ensure host name =>
    show SameOwner owner c (c.ensure host name).2
    unfold Catalog.ensure
    split <;> exact ⟨rfl, rfl, rfl⟩

/-! ## The invariant -/

/-- Lines were added to the owner, and nobody has asked about it since. -/
def Waits (owner : String) (es : List Event) : Prop :=
  ∃ first text rest, es = first ++ .add owner text :: rest ∧ ∀ e ∈ rest, e.asked? ≠ some owner

/-- The latest build of the owner was the one after the history `before`: a question about it while it waited, and
no lines were added since. -/
def LatestBuild (owner : String) (es before : List Event) : Prop :=
  Waits owner before ∧ ∃ question rest, es = before ++ question :: rest ∧ question.asked? = some owner ∧
    ∀ e ∈ rest, e.addedTo? ≠ some owner

/-- The lexicon that the latest build of the owner started from; any lexicon if there never were lines. -/
def BuiltFrom (start : Catalog) (owner : String) (es : List Event) (l : Lexicon) : Prop :=
  (∃ before, LatestBuild owner es before ∧ l = (start.after before).lexicon) ∨ ∀ e ∈ es, e.addedTo? ≠ some owner

/-- What a history says about an owner in a catalog. -/
structure Consistent (start : Catalog) (owner : String) (es : List Event) (c : Catalog) : Prop where
  settings : c.settings = start.settings
  lines : (c.blocks.get? owner).getD [] = linesAdded owner es
  waits : c.stale.contains owner = true → c.built.get? owner = none ∧ Waits owner es
  built : c.stale.contains owner = false → ∃ l survivors, BuiltFrom start owner es l ∧
    Survivors start.settings owner l (merge (linesAdded owner es)) survivors ∧
    c.builtMembers owner = filed .empty survivors

theorem Waits.concat (h : Waits owner es) (hask : e.asked? ≠ some owner) : Waits owner (es ++ [e]) := by
  obtain ⟨first, text, rest, rfl, hrest⟩ := h
  refine ⟨first, text, rest ++ [e], by simp, ?_⟩
  intro e' he
  rcases List.mem_append.1 he with he | he
  · exact hrest e' he
  · rw [List.mem_singleton.1 he]
    exact hask

theorem BuiltFrom.concat {l : Lexicon} (h : BuiltFrom start owner es l) (hadd : e.addedTo? ≠ some owner) :
    BuiltFrom start owner (es ++ [e]) l := by
  have hrest {rest : List Event} (h : ∀ e ∈ rest, e.addedTo? ≠ some owner) :
      ∀ e' ∈ rest ++ [e], e'.addedTo? ≠ some owner := by
    intro e' he
    rcases List.mem_append.1 he with he | he
    · exact h e' he
    · rw [List.mem_singleton.1 he]
      exact hadd
  rcases h with ⟨before, ⟨hwaits, question, rest, rfl, hask, hnone⟩, hl⟩ | hnever
  · exact Or.inl ⟨before, ⟨hwaits, question, rest ++ [e], by simp, hask, hrest hnone⟩, hl⟩
  · exact Or.inr (hrest hnever)

theorem consistent_create (l : Lexicon) (settings : Settings) (owner : String) :
    Consistent (create l settings) owner [] (create l settings) where
  settings := rfl
  lines := rfl
  waits := nofun
  built := fun _ => ⟨l, [], Or.inr (List.forall_mem_nil _), .done l, rfl⟩

/-- Adding lines to the owner makes it wait, with nothing built. -/
theorem consistent_add (h : Consistent start owner es c) (text : String) :
    Consistent start owner (es ++ [.add owner text]) (c.addDescriptors owner text) := by
  refine ⟨(settings_addDescriptors c owner text).trans h.settings, ?_, ?_, ?_⟩
  · rw [linesAdded_concat, ← h.lines]
    unfold addDescriptors
    dsimp only
    split <;> simp [Event.addedTo?, Event.lines]
  · intro _
    refine ⟨?_, es, text, [], rfl, List.forall_mem_nil _⟩
    unfold addDescriptors
    dsimp only
    split
    · next hs => exact (h.waits hs).1
    · exact (Dict.get?_erase _ _ _).trans (if_pos rfl)
  · intro hfresh
    rw [stale_addDescriptors] at hfresh
    cases hfresh

/-- A question about the owner builds it if it waits, and otherwise changes nothing. -/
theorem consistent_build (h : Consistent start owner es (start.after es)) (hask : e.asked? = some owner) :
    Consistent start owner (es ++ [e]) ((start.after es).build owner) := by
  have hadd := addedTo?_of_asked hask owner
  have hlines : linesAdded owner (es ++ [e]) = linesAdded owner es := linesAdded_of_not_added hadd
  refine ⟨(settings_build _ owner).trans h.settings, ?_, ?_, fun _ => ?_⟩
  · rw [blocks_build, hlines]
    exact h.lines
  · intro hs
    rw [fresh_build] at hs
    cases hs
  · rw [hlines]
    cases hs : (start.after es).stale.contains owner with
    | true =>
      -- nothing is there, so the members are those that this build gives
      obtain ⟨hnone, hwaits⟩ := h.waits hs
      obtain ⟨-, hmembers, -⟩ := build_of_stale hs
      have hempty : (start.after es).builtMembers owner = .empty := by
        rw [builtMembers, hnone]
        rfl
      rw [hempty, h.lines, h.settings] at hmembers
      obtain ⟨survivors, hsurvivors, hfiled⟩ :=
        exists_survivors start.settings owner (merge (linesAdded owner es)) (start.after es).lexicon .empty
      exact ⟨_, survivors, Or.inl ⟨es, ⟨hwaits, e, [], rfl, hask, List.forall_mem_nil _⟩, rfl⟩, hsurvivors,
        hmembers.trans hfiled⟩
    | false =>
      obtain ⟨l, survivors, hfrom, hrest⟩ := h.built hs
      rw [build_of_fresh hs]
      exact ⟨l, survivors, hfrom.concat hadd, hrest⟩

/-- **Every event keeps the invariant.** -/
theorem consistent_perform (h : Consistent start owner es (start.after es)) (e : Event) :
    Consistent start owner (es ++ [e]) (e.perform (start.after es)) := by
  by_cases hask : e.asked? = some owner
  · rw [perform_of_asked hask]
    exact consistent_build h hask
  · by_cases hadd : e.addedTo? = some owner
    · cases e with
      | add o text =>
        cases hadd
        exact consistent_add h text
      | members o | variants o m | signature o m b k | refresh host | ensure host name => cases hadd
    · -- the event is about something else
      have hsame := sameOwner_perform hask hadd (start.after es)
      have hlines : linesAdded owner (es ++ [e]) = linesAdded owner es := linesAdded_of_not_added hadd
      refine ⟨(settings_perform e _).trans h.settings, ?_, ?_, ?_⟩
      · rw [hsame.blocks, hlines]
        exact h.lines
      · intro hs
        rw [hsame.stale] at hs
        obtain ⟨hnone, hwaits⟩ := h.waits hs
        exact ⟨hsame.built.trans hnone, hwaits.concat hask⟩
      · intro hs
        rw [hsame.stale] at hs
        obtain ⟨l, survivors, hfrom, hsurvivors, hmembers⟩ := h.built hs
        refine ⟨l, survivors, hfrom.concat hadd, ?_, ?_⟩
        · rw [hlines]
          exact hsurvivors
        · rw [builtMembers, hsame.built]
          exact hmembers

/-- The invariant holds after every history. -/
theorem consistent_after (l : Lexicon) (settings : Settings) (owner : String) (es : List Event) :
    Consistent (create l settings) owner es ((create l settings).after es) :=
  after_induction (consistent_create l settings owner) (fun _ e h => consistent_perform h e) es

/-! ## Numbers -/

open Descriptor Grammar in
/-- The variant of a line that begins with a number has this number. -/
theorem index?_of_numbered {depth : Nat} {line : String} {d : Descriptor} {n : Nat} {body : List Char}
    (hparse : Descriptor.parse depth line = .ok d) (hn : splitIndex? line.toList = some (n, body)) :
    d.index? = some n := by
  obtain ⟨g, hlexemes, hw, rfl⟩ := parse_eq_ok_iff.1 hparse
  -- the digits are the first lexeme of the line, and no name begins with an integer
  obtain ⟨digits, hline, hne, hdigits, hword⟩ : ∃ digits, line.toList = digits ++ ':' :: body ∧ digits ≠ [] ∧
      (∀ c ∈ digits, c.isDigit = true) ∧ Text.word? digits = some n := by
    unfold splitIndex? at hn
    dsimp only at hn
    split at hn
    · next body' hdrop =>
      split at hn
      · cases hn
      · next hempty =>
        obtain ⟨m, hm, heq⟩ := Option.map_eq_some_iff.1 hn
        cases heq
        refine ⟨line.toList.takeWhile Char.isDigit, ?_, by simpa using hempty, ?_, hm⟩
        · rw [← hdrop, List.takeWhile_append_dropWhile]
        · exact fun c hc => List.all_eq_true.1 List.all_takeWhile c hc
    · cases hn
  have hreads : (Word.digits digits).ReadsBefore (':' :: body) := by
    refine Word.reads_digits hne hdigits ?_
    rintro c ⟨⟩
    decide
  obtain ⟨x, hx, hscan⟩ := Lexeme.scan_word hreads 0
  have hfirst : ∃ tail, g.lexemes = x :: tail := by
    have hscan' : Lexeme.ofText line.toList = _ := (congrArg (Lexeme.scan 0) hline).trans hscan
    rw [hscan'] at hlexemes
    obtain ⟨tail, -, htail⟩ := Lexeme.eq_ok_of_map_eq_ok hlexemes
    exact ⟨tail, htail.symm⟩
  have htoken : x.token = .integer := congrArg Word.token hx
  have htext : x.text = digits := congrArg Word.text hx
  obtain ⟨tail, htail⟩ := hfirst
  unfold Line.lexemes at htail
  cases hindex : g.index? with
  | none =>
    rw [hindex] at htail
    have hname := hw.first
    rw [(List.cons.inj htail).1, htoken] at hname
    cases hname
  | some found =>
    obtain ⟨number, colon⟩ := found
    rw [hindex] at htail
    have hnumber : number = x := (List.cons.inj htail).1
    rw [word?_digits hne hdigits] at hword
    split at hword
    · cases hword
      show g.index?.map _ = _
      rw [hindex, hnumber, ← htext]
      rfl
    · cases hword

/-! ## Overloads -/

theorem Survivors.mem {settings : Settings} {l : Lexicon} {lines : List Merged} {survivors : List (Merged × Variant)}
    (h : Survivors settings owner l lines survivors) {line : Merged} {v : Variant} (hm : (line, v) ∈ survivors) :
    ∃ d, Descriptor.parse settings.bracketDepth line.text = .ok d ∧ v.shortName = d.name ∧ v.index? = d.index? := by
  induction h with
  | done l => cases hm
  | unread _ _ ih => exact ih hm
  | rejected _ _ _ ih => exact ih hm
  | survives hparse hassemble _ ih =>
    rcases List.mem_cons.1 hm with heq | hm
    · cases heq
      have hfrom := Variant.comesFrom_of_assemble (congrArg Prod.fst hassemble)
      exact ⟨_, hparse, hfrom.name, hfrom.index⟩
    · exact ih hm

theorem ofList_eq_single_iff (rs : List Rendering) : (∃ r, SignatureSet.ofList rs = .single r) ↔ rs.length = 1 := by
  rw [List.length_eq_one_iff]
  constructor
  · rintro ⟨r, h⟩
    unfold SignatureSet.ofList at h
    split at h
    · next r' => exact ⟨r', rfl⟩
    · cases h
  · rintro ⟨r, rfl⟩
    exact ⟨r, rfl⟩

theorem Consistent.ne_nil (h : Consistent start owner es c) {member : String} {variants : List Variant}
    (hv : (c.builtMembers owner).get? member = some variants) : variants ≠ [] := by
  cases hs : c.stale.contains owner with
  | true =>
    rw [builtMembers, (h.waits hs).1] at hv
    cases hv
  | false =>
    obtain ⟨_, survivors, -, -, hmembers⟩ := h.built hs
    rw [hmembers] at hv
    exact ((get?_filed_iff survivors member variants).1 hv).1

/-- A member has signatures if it is one of the members. -/
theorem isSome_signature_iff (c : Catalog) (owner member : String) (binding : Binding) (layout : Layout) :
    (c.signature owner member binding layout).1.isSome = true ↔ member ∈ (c.members owner).1 := by
  show ((((c.build owner).builtMembers owner).get? member).map _).isSome = true ↔
    member ∈ ((c.build owner).builtMembers owner).keys
  rw [Option.isSome_map]
  exact Dict.isSome_get?_iff

theorem signature_single_iff {survivors : List (Merged × Variant)}
    (h : (c.build owner).builtMembers owner = filed .empty survivors) (member : String) (binding : Binding)
    (layout : Layout) :
    (∃ r, (c.signature owner member binding layout).1 = some (.single r)) ↔ (named survivors member).length = 1 := by
  show (∃ r, (((c.build owner).builtMembers owner).get? member).map
    (fun found => SignatureSet.ofList (found.map fun v => v.render binding layout)) = some (.single r)) ↔ _
  rw [h]
  cases hg : (filed .empty survivors).get? member with
  | none =>
    constructor
    · rintro ⟨r, hr⟩
      cases hr
    · intro hone
      have hne : named survivors member ≠ [] := List.ne_nil_of_length_eq_add_one hone
      rw [(get?_filed_iff survivors member _).2 ⟨hne, rfl⟩] at hg
      cases hg
  | some variants =>
    rw [Option.map_some, ((get?_filed_iff survivors member variants).1 hg).2]
    simp only [Option.some.injEq, ofList_eq_single_iff, List.length_map]

/-- **No overload is lost, duplicated or stale**, after any history: an owner that waits has nothing built, no list
of variants is empty, and right after a question the owner has exactly the variants that survived its latest build
of all lines added to it, under their names, in merged order and with their numbers. -/
theorem overloads_exact (l : Lexicon) (settings : Settings) (es : List Event) (owner : String) :
    let start := create l settings
    let c := start.after es
    (c.stale.contains owner = true → c.built.get? owner = none) ∧
    (∀ member variants, (c.builtMembers owner).get? member = some variants → variants ≠ []) ∧
    (∀ member binding layout,
      (c.signature owner member binding layout).1.isSome = true ↔ member ∈ (c.members owner).1) ∧
    ∀ question : Event, question.asked? = some owner →
      (∀ other, other ≠ owner → (question.perform c).built.get? other = c.built.get? other) ∧
      ∃ l₀ survivors, BuiltFrom start owner (es ++ [question]) l₀ ∧
        Survivors settings owner l₀ (merge (linesAdded owner es)) survivors ∧
        (∀ member variants, ((question.perform c).builtMembers owner).get? member = some variants ↔
          variants ≠ [] ∧ variants = named survivors member) ∧
        (∀ line v, (line, v) ∈ survivors →
          (∃ d, Descriptor.parse settings.bracketDepth line.text = .ok d ∧ v.shortName = d.name ∧
            v.index? = d.index?) ∧
          ∀ n body, splitIndex? line.text.toList = some (n, body) → v.index? = some n) ∧
        ∀ member binding layout, (∃ r, (c.signature owner member binding layout).1 = some (.single r)) ↔
          (named survivors member).length = 1 := by
  intro start c
  have hc : Consistent start owner es c := consistent_after l settings owner es
  refine ⟨fun hs => (hc.waits hs).1, fun _ _ hv => hc.ne_nil hv, isSome_signature_iff c owner, ?_⟩
  intro question hask
  rw [perform_of_asked hask]
  refine ⟨fun other hne => get?_built_build_of_ne hne.symm, ?_⟩
  obtain ⟨l₀, survivors, hfrom, hsurvivors, hmembers⟩ := (consistent_build hc hask).built (fresh_build c owner)
  rw [linesAdded_of_not_added (addedTo?_of_asked hask owner)] at hsurvivors
  refine ⟨l₀, survivors, hfrom, hsurvivors, ?_, ?_, signature_single_iff hmembers⟩
  · intro member variants
    rw [hmembers]
    exact get?_filed_iff survivors member variants
  · intro line v hm
    obtain ⟨d, hparse, hname, hindex⟩ := hsurvivors.mem hm
    exact ⟨⟨d, hparse, hname, hindex⟩, fun n body hn => hindex.trans (index?_of_numbered hparse hn)⟩

end Catalog
end CallSig
