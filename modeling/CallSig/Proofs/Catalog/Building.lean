import CallSig.Catalog

/-!
# `CallSig.Proofs.Catalog.Building` — what a build computes, reports aside

Building an owner reads its merged lines one after the other over the shared lexicon. Reports and spans only go
out; the variants and the lexicon are those of one computation over the lexicon, and this computation is all that
the signatures of the owner depend on.

## Contents
- **Lines and blocks.** `readLine`, `readBlock`, `foldl_addLine`.
- **Additions.** What adding lines leaves alone.
- **Builds.** `build_of_fresh`, `build_of_stale`, `build_build`, and what a build leaves alone.
- **Queries.** `queried`, `queried_eq`.
-/

namespace CallSig
namespace Catalog

variable {c : Catalog} {owner other : String}

/-! ## Lines and blocks -/

/-- The members once a merged line is read; the tokens given up on are handed out. -/
def readLine (settings : Settings) (owner : String) (members : Dict (List Variant)) (text : String) :
    LexiconM (Dict (List Variant)) :=
  match Descriptor.parse settings.bracketDepth text with
  | .error _ => return members
  | .ok descriptor => do
    let outcome ← Variant.assemble settings.bracketDepth settings.optionalReturns (some owner) descriptor
    modify fun l => l.takeUnresolved.2
    match outcome with
    | .ok variant => return fileVariant members variant
    | .error _ => return members

/-- The members once a block of raw lines is read. -/
def readBlock (settings : Settings) (owner : String) (members : Dict (List Variant)) (lines : List String) :
    LexiconM (Dict (List Variant)) :=
  ((Overload.merge lines).map Overload.Merged.text).foldlM (readLine settings owner) members

theorem addLine_eq (settings : Settings) (owner : String) (p : Progress) (s : Source) :
    ((p.addLine settings owner s).members, (p.addLine settings owner s).lexicon) =
      readLine settings owner p.members s.merged p.lexicon := by
  unfold Progress.addLine readLine
  cases Descriptor.parse settings.bracketDepth s.merged with
  | error e => rfl
  | ok descriptor =>
    show _ = (match (Variant.assemble settings.bracketDepth settings.optionalReturns (some owner) descriptor
        p.lexicon).1 with
      | .ok variant => pure (fileVariant p.members variant)
      | .error _ => pure p.members : LexiconM (Dict (List Variant)))
      (Variant.assemble settings.bracketDepth settings.optionalReturns (some owner) descriptor
        p.lexicon).2.takeUnresolved.2
    -- both sides depend on the outcome of one assembly only
    dsimp only
    generalize Variant.assemble settings.bracketDepth settings.optionalReturns (some owner) descriptor p.lexicon = run
    obtain ⟨outcome, lexicon⟩ := run
    cases outcome <;> rfl

theorem foldl_addLine (settings : Settings) (owner : String) (sources : List Source) (p : Progress) :
    ((sources.foldl (Progress.addLine settings owner) p).members,
        (sources.foldl (Progress.addLine settings owner) p).lexicon) =
      (sources.map Source.merged).foldlM (readLine settings owner) p.members p.lexicon := by
  induction sources generalizing p with
  | nil => rfl
  | cons s rest ih =>
    rw [List.foldl_cons, ih, List.map_cons, List.foldlM_cons]
    show _ = (rest.map Source.merged).foldlM (readLine settings owner)
      (readLine settings owner p.members s.merged p.lexicon).1
      (readLine settings owner p.members s.merged p.lexicon).2
    rw [← addLine_eq]

theorem merged_sources (file : Nat) (lines : List String) :
    (sources file lines).map Source.merged = (Overload.merge lines).map Overload.Merged.text := by
  unfold sources
  rw [List.map_map]
  rfl

/-! ## Additions -/

theorem lexicon_addDescriptors (c : Catalog) (owner text : String) :
    (c.addDescriptors owner text).lexicon = c.lexicon := by
  unfold addDescriptors
  dsimp only
  split <;> rfl

theorem settings_addDescriptors (c : Catalog) (owner text : String) :
    (c.addDescriptors owner text).settings = c.settings := by
  unfold addDescriptors
  dsimp only
  split <;> rfl

theorem stale_addDescriptors (c : Catalog) (owner text : String) :
    (c.addDescriptors owner text).stale.contains owner = true := by
  unfold addDescriptors
  dsimp only
  split
  · next hs => exact hs
  · simp

/-! ## Builds -/

theorem build_of_fresh (h : c.stale.contains owner = false) : c.build owner = c := by
  unfold build
  rw [h]
  rfl

/-- **A build runs the block of its owner** over the lexicon and files what it gives with the members. -/
theorem build_of_stale (h : c.stale.contains owner = true) :
    let run := readBlock c.settings owner (c.builtMembers owner) ((c.blocks.get? owner).getD []) c.lexicon
    (c.build owner).lexicon = run.2 ∧ (c.build owner).builtMembers owner = run.1 ∧
      (c.build owner).stale = c.stale.filter (· != owner) := by
  unfold build
  rw [if_pos h]
  dsimp only
  cases c.blocks.get? owner with
  | none => exact ⟨rfl, rfl, rfl⟩
  | some lines =>
    have hfold := foldl_addLine c.settings owner (sources (c.report.addFile owner (blockText lines)).1 lines)
      ⟨c.lexicon, c.forgetOld owner (c.report.addFile owner (blockText lines)).2, c.builtMembers owner⟩
    rw [merged_sources] at hfold
    obtain ⟨hmembers, hlexicon⟩ := Prod.mk.inj hfold
    refine ⟨hlexicon, ?_, rfl⟩
    rw [builtMembers, Dict.get?_insert_self]
    exact hmembers

theorem settings_build (c : Catalog) (owner : String) : (c.build owner).settings = c.settings := by
  unfold build
  split
  · dsimp only
    split <;> rfl
  · rfl

theorem blocks_build (c : Catalog) (owner : String) : (c.build owner).blocks = c.blocks := by
  unfold build
  split
  · dsimp only
    split <;> rfl
  · rfl

theorem stale_build (c : Catalog) (owner : String) : (c.build owner).stale = c.stale.filter (· != owner) := by
  cases h : c.stale.contains owner with
  | true => exact (build_of_stale h).2.2
  | false =>
    rw [build_of_fresh h]
    have hne : ∀ o ∈ c.stale, (o != owner) = true := by
      intro o ho
      rw [bne_iff_ne]
      rintro rfl
      rw [List.contains_iff_mem.2 ho] at h
      cases h
    exact (List.filter_eq_self.2 hne).symm

theorem fresh_build (c : Catalog) (owner : String) : (c.build owner).stale.contains owner = false := by
  rw [stale_build]
  simp

theorem build_build (c : Catalog) (owner : String) : (c.build owner).build owner = c.build owner :=
  build_of_fresh (fresh_build c owner)

theorem contains_stale_build (h : owner ≠ other) : (c.build owner).stale.contains other = c.stale.contains other := by
  rw [stale_build]
  simp [h.symm]

/-- What is built of another owner stays. -/
theorem get?_built_build_of_ne (h : owner ≠ other) : (c.build owner).built.get? other = c.built.get? other := by
  unfold build
  split
  · dsimp only
    split
    · rfl
    · exact Dict.get?_insert_of_ne _ _ h
  · rfl

theorem builtMembers_build_of_ne (h : owner ≠ other) :
    (c.build owner).builtMembers other = c.builtMembers other :=
  congrArg (·.getD .empty) (get?_built_build_of_ne h)

/-! ## Queries -/

/-- A catalog after questions about the members of one owner. -/
def queried (c : Catalog) (owner : String) (queries : List (String × Binding × Layout)) : Catalog :=
  queries.foldl (fun c q => (c.signature owner q.1 q.2.1 q.2.2).2) c

/-- However many questions are asked, the owner is built once. -/
theorem queried_eq (c : Catalog) (owner : String) (queries : List (String × Binding × Layout)) :
    c.queried owner queries = if queries.isEmpty then c else c.build owner := by
  have hrest : ∀ rest : List (String × Binding × Layout), (c.build owner).queried owner rest = c.build owner := by
    intro rest
    induction rest with
    | nil => rfl
    | cons q rest ih =>
      show ((c.build owner).build owner).queried owner rest = c.build owner
      rw [build_build]
      exact ih
  cases queries with
  | nil => rfl
  | cons q rest => exact hrest rest

end Catalog
end CallSig
