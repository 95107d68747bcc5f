import CallSig.Overload

/-!
# `CallSig.Proofs.Overload.Merging` — merging chunk by chunk

A group that is closed by its line numbered zero has nothing to do with the lines after it. Where a chunk of lines
closes every group it opens, the merged texts of the chunk stay what they are, whatever lines follow. Only the
origins depend on where the chunk stands.

## Contents
- **Closed chunks.** `ClosesGroups`, `closesGroups_cons`, `ClosesGroups.append`.
- **Texts of groups.** `numbered`, `map_text_flush`, `keys_insertNew`: the texts of a group are those of its bodies.
- **Chunks.** `mergedTexts`, `map_text_mergeFrom`, `mergedTexts_append`.
-/

namespace CallSig.Overload

/-! ## Closed chunks -/

/-- The number of a raw line. -/
def numberOf? (line : String) : Option Nat := (splitIndex? (Text.trim line.toList)).map Prod.fst

/-- Every numbered group that the lines open, they end with a line numbered zero. -/
def ClosesGroups (lines : List String) : Prop :=
  ∀ before line after n, lines = before ++ line :: after → numberOf? line = some n → n ≠ 0 →
    ∃ zero ∈ after, numberOf? zero = some 0

theorem closesGroups_nil : ClosesGroups [] := by
  intro before line after n h
  cases before <;> cases h

theorem closesGroups_cons {line : String} {rest : List String} :
    ClosesGroups (line :: rest) ↔
      (∀ n ∈ numberOf? line, n ≠ 0 → ∃ zero ∈ rest, numberOf? zero = some 0) ∧ ClosesGroups rest := by
  constructor
  · intro h
    refine ⟨fun n hn hne => h [] line rest n rfl hn hne, fun before other after n hrest => ?_⟩
    exact h (line :: before) other after n (by rw [hrest, List.cons_append])
  · rintro ⟨hline, hrest⟩ before other after n hsplit hn hne
    rcases before with _ | ⟨first, before⟩
    · cases hsplit
      exact hline n hn hne
    · cases hsplit
      exact hrest before other after n rfl hn hne

instance decidableClosesGroups : ∀ lines, Decidable (ClosesGroups lines)
  | [] => .isTrue closesGroups_nil
  | _ :: rest =>
    haveI := decidableClosesGroups rest
    decidable_of_iff _ closesGroups_cons.symm

theorem ClosesGroups.append {lines lines' : List String} (h : ClosesGroups lines) (h' : ClosesGroups lines') :
    ClosesGroups (lines ++ lines') := by
  induction lines with
  | nil => exact h'
  | cons line rest ih =>
    obtain ⟨hline, hrest⟩ := closesGroups_cons.1 h
    refine closesGroups_cons.2 ⟨fun n hn hne => ?_, ih hrest⟩
    obtain ⟨zero, hz, h0⟩ := hline n hn hne
    exact ⟨zero, List.mem_append_left _ hz, h0⟩

/-! ## Texts of groups -/

/-- The texts of a finished group, from its bodies in ascending order. -/
def numbered : List String → List String
  | [body] => [body]
  | bodies => (bodies.zipIdx.map fun (body, i) => s!"{i}:{body}").reverse

theorem map_text_flush (group : Dict Nat) : (flush group).map Merged.text = numbered group.keys := by
  unfold flush Dict.keys
  rcases group.entries with _ | ⟨⟨body, origin⟩, _ | ⟨next, rest⟩⟩
  · rfl
  · rfl
  · rw [numbered, List.map_reverse, List.map_map, List.zipIdx_map, List.map_map]
    · rfl
    · exact nofun

theorem keys_insert (k : String) (v w : Nat) {es es' : List (String × Nat)}
    (h : es.map Prod.fst = es'.map Prod.fst) :
    (Entries.insert k v es).map Prod.fst = (Entries.insert k w es').map Prod.fst := by
  induction es generalizing es' with
  | nil =>
    cases es' with
    | nil => rfl
    | cons e' rest' => cases h
  | cons e rest ih =>
    cases es' with
    | nil => cases h
    | cons e' rest' =>
      obtain ⟨hkey, hrest⟩ := List.cons.inj h
      simp only [Entries.insert, ← hkey]
      split
      · simp [hkey, hrest]
      · split
        · simp [hrest]
        · simp [hkey, ih hrest]

/-- The bodies of a group do not depend on the origins. -/
theorem keys_insertNew {group group' : Dict Nat} (h : group.keys = group'.keys) (body : String) (o o' : Nat) :
    (group.insertNew body o).keys = (group'.insertNew body o').keys := by
  have hc : group.contains body = group'.contains body := by rw [Dict.contains_eq, Dict.contains_eq, h]
  unfold Dict.insertNew
  rw [hc]
  split
  · exact h
  · exact keys_insert body o o' h

/-! ## Chunks -/

/-- The texts of the merged lines. -/
def mergedTexts (lines : List String) : List String := (merge lines).map Merged.text

theorem map_text_mergeFrom {group group' : Dict Nat} (h : group.keys = group'.keys) (o o' : Nat)
    (lines : List String) :
    (mergeFrom group o lines).map Merged.text = (mergeFrom group' o' lines).map Merged.text := by
  induction lines generalizing group group' o o' with
  | nil => rw [mergeFrom, mergeFrom, map_text_flush, map_text_flush, h]
  | cons line rest ih =>
    rw [mergeFrom, mergeFrom]
    dsimp only
    split
    · exact ih h _ _
    · cases splitIndex? (Text.trim line.toList) with
      | none =>
        rw [List.map_cons, List.map_cons]
        exact congrArg _ (ih h _ _)
      | some numbered =>
        have hkeys := keys_insertNew h (String.ofList (Text.trim numbered.2)) o o'
        dsimp only
        split
        · rw [List.map_append, List.map_append, map_text_flush, map_text_flush, hkeys]
          exact congrArg _ (ih rfl _ _)
        · exact ih hkeys _ _

/-- Lines after a chunk that closes its groups, and the one that is open before it, are merged on their own. -/
theorem map_text_mergeFrom_append {chunk : List String} (hc : ClosesGroups chunk) {group : Dict Nat}
    (hg : group.keys = [] ∨ ∃ zero ∈ chunk, numberOf? zero = some 0) (origin : Nat) (lines : List String) :
    (mergeFrom group origin (chunk ++ lines)).map Merged.text =
      (mergeFrom group origin chunk).map Merged.text ++ mergedTexts lines := by
  induction chunk generalizing group origin with
  | nil =>
    obtain hg | ⟨zero, hz, _⟩ := hg
    · rw [List.nil_append, mergeFrom, map_text_flush, hg]
      exact map_text_mergeFrom hg origin 0 lines
    · cases hz
  | cons line rest ih =>
    obtain ⟨hline, hclosed⟩ := closesGroups_cons.1 hc
    -- a line that is not numbered zero leaves the open group to the rest
    have hrest (hn : numberOf? line ≠ some 0) : group.keys = [] ∨ ∃ zero ∈ rest, numberOf? zero = some 0 := by
      refine hg.imp id ?_
      rintro ⟨zero, hz, h0⟩
      rcases List.mem_cons.1 hz with rfl | hz
      · exact absurd h0 hn
      · exact ⟨zero, hz, h0⟩
    rw [List.cons_append, mergeFrom, mergeFrom]
    dsimp only
    split
    · next he =>
      refine ih hclosed (hrest ?_) _
      rw [numberOf?, List.isEmpty_iff.1 he]
      decide
    · cases hs : splitIndex? (Text.trim line.toList) with
      | none =>
        rw [List.map_cons, List.map_cons, List.cons_append]
        refine congrArg _ (ih hclosed (hrest ?_) _)
        rw [numberOf?, hs]
        exact nofun
      | some numbered =>
        dsimp only
        split
        · rw [List.map_append, List.map_append, List.append_assoc]
          exact congrArg _ (ih hclosed (Or.inl rfl) _)
        · next hn =>
          refine ih hclosed (Or.inr ?_) _
          exact hline numbered.1 (by rw [numberOf?, hs]; rfl) hn

/-- **A chunk that closes its groups is merged on its own.** -/
theorem mergedTexts_append {chunk : List String} (hc : ClosesGroups chunk) (lines : List String) :
    mergedTexts (chunk ++ lines) = mergedTexts chunk ++ mergedTexts lines :=
  map_text_mergeFrom_append hc (Or.inl rfl) 0 lines

end CallSig.Overload
