import CallSig.Proofs.Overload.Merging
import CallSig.Proofs.Overload.Origins
import CallSig.Proofs.Text.Bytes
import Mathlib.Data.List.Sort
import Mathlib.Order.Lattice.Nat

/-!
# `CallSig.Proofs.Overload.Groups` — what merging writes, line by line

A numbered line belongs to the group that the next line numbered zero ends, or the end of the input. What merging
writes is told here without its scan: for every position of the input, and for its end, what stands there in the
output. A line that is not numbered stands for itself; where a group ends, its distinct bodies stand, each with the
first position that has it.

The scan carries the open group along. Its entries are the bodies of the group so far with their first positions, and
from this everything follows.

## Contents
- **Groups.** `Carries`, `written`, `StandsFor` (the lines of a group), `StandsFor.unique`.
- **Places.** `Replaces` (what stands for a position), `MergesTo`, `MergesTo.unique`.
- **Open groups.** `Holds` (what an open group has), `Holds.insertNew`, `Holds.standsFor`.
- **Merging.** `mergeFrom_cons`; `carries_iff`, `open_succ_iff`, `not_open_succ`; `exists_parts`, `mergesTo_merge`.
- **Rearranged groups.** `Rearranges`, `map_text_mergeFrom_part`, `map_text_mergeFrom_rearranged`.
- **Exactness.** `merge_exact`.
-/

namespace CallSig.Overload

open Text

/-! ## Groups -/

/-- The line at position `i` belongs to the group that ends at position `stop`, and has this body: it is numbered, and
no line numbered zero stands from it up to that position. -/
structure Carries (lines : List String) (stop : Nat) (body : String) (i : Nat) : Prop where
  le : i ≤ stop
  numbered : ∃ raw, lines[i]? = some raw ∧ (numberOf? raw).isSome ∧ bodyOf raw = body
  unclosed : ∀ j raw, i ≤ j → j < stop → lines[j]? = some raw → numberOf? raw ≠ some 0

/-- The lines that bodies with their origins become: numbered down to zero, or without a number if there is one. -/
def written : List (String × Nat) → List Merged
  | [(body, origin)] => [⟨body, origin⟩]
  | bodies => bodies.mapIdx fun k (body, origin) => ⟨s!"{bodies.length - 1 - k}:{body}", origin⟩

/-- These lines stand for the group that ends at position `stop`: its bodies, each once and with the first position
that has it, the greatest bytes first. -/
def StandsFor (lines : List String) (stop : Nat) (out : List Merged) : Prop :=
  ∃ bodies, out = written bodies ∧ bodies.Pairwise (fun a b => bytes b.1 < bytes a.1) ∧
    ∀ body origin, (body, origin) ∈ bodies ↔ IsLeast {i | Carries lines stop body i} origin

theorem StandsFor.unique {lines : List String} {stop : Nat} {out out' : List Merged} (h : StandsFor lines stop out)
    (h' : StandsFor lines stop out') : out = out' := by
  obtain ⟨bodies, rfl, hsorted, hmem⟩ := h
  obtain ⟨bodies', rfl, hsorted', hmem'⟩ := h'
  have hsame (e : String × Nat) : e ∈ bodies ↔ e ∈ bodies' := (hmem e.1 e.2).trans (hmem' e.1 e.2).symm
  have hirrefl : Std.Irrefl fun a b : String × Nat => bytes b.1 < bytes a.1 := ⟨fun _ => List.lt_irrefl _⟩
  have hantisymm : Std.Antisymm fun a b : String × Nat => bytes b.1 < bytes a.1 :=
    ⟨fun _ _ hlt hgt => absurd hgt (List.lt_asymm hlt)⟩
  rw [hsorted.eq_of_mem_iff hsorted' hsame]

/-! ## Places -/

/-- What stands in the merged lines for a position of the input, or for its end: a group where it ends, an unnumbered
line trimmed, nothing for any other line. -/
def Replaces (lines : List String) (i : Nat) (part : List Merged) : Prop :=
  match lines[i]? with
  | none => StandsFor lines i part
  | some raw =>
    match numberOf? raw with
    | some 0 => StandsFor lines i part
    | some _ => part = []
    | none => part = if trimmed raw = "" then [] else [⟨trimmed raw, i⟩]

/-- The lines are merged to these: what stands for the positions of the input and for its end, one after the other. -/
def MergesTo (lines : List String) (out : List Merged) : Prop :=
  ∃ parts : List (List Merged), parts.length = lines.length + 1 ∧
    (∀ i part, parts[i]? = some part → Replaces lines i part) ∧ out = parts.flatten

theorem Replaces.unique {lines : List String} {i : Nat} {part part' : List Merged} (h : Replaces lines i part)
    (h' : Replaces lines i part') : part = part' := by
  unfold Replaces at h h'
  cases hline : lines[i]? with
  | none =>
    rw [hline] at h h'
    exact StandsFor.unique h h'
  | some raw =>
    rw [hline] at h h'
    dsimp only at h h'
    rcases hn : numberOf? raw with _ | _ | n
    · rw [hn] at h h'
      exact Eq.trans h (Eq.symm h')
    · rw [hn] at h h'
      exact StandsFor.unique h h'
    · rw [hn] at h h'
      exact Eq.trans h (Eq.symm h')

theorem MergesTo.unique {lines : List String} {out out' : List Merged} (h : MergesTo lines out)
    (h' : MergesTo lines out') : out = out' := by
  obtain ⟨parts, hlength, hparts, rfl⟩ := h
  obtain ⟨parts', hlength', hparts', rfl⟩ := h'
  refine congrArg List.flatten (List.ext_getElem (hlength.trans hlength'.symm) fun i hi hi' => ?_)
  exact (hparts i _ (List.getElem?_eq_getElem hi)).unique (hparts' i _ (List.getElem?_eq_getElem hi'))

/-! ## Open groups -/

/-- The group has the bodies that some positions have, each with the least of them. -/
def Holds (group : Dict Nat) (positions : String → Set Nat) : Prop :=
  ∀ body origin, (body, origin) ∈ group.entries ↔ IsLeast (positions body) origin

theorem holds_empty : Holds .empty fun _ => ∅ := by
  intro body origin
  constructor
  · intro h
    cases h
  · intro h
    exact absurd h.1 (Set.notMem_empty origin)

theorem Holds.congr {group : Dict Nat} {positions positions' : String → Set Nat} (h : Holds group positions)
    (hsame : ∀ body i, i ∈ positions body ↔ i ∈ positions' body) : Holds group positions' := by
  have heq : positions = positions' := funext fun body => Set.ext (hsame body)
  exact heq ▸ h

/-- A position after all others is the least one only if there are no others. -/
theorem isLeast_or_iff {s : Set Nat} {p : Nat} (hp : ∀ i ∈ s, i < p) (origin : Nat) :
    IsLeast {i | i ∈ s ∨ i = p} origin ↔ IsLeast s origin ∨ s = ∅ ∧ origin = p := by
  constructor
  · rintro ⟨hmem, hlow⟩
    rcases hmem with hmem | rfl
    · exact Or.inl ⟨hmem, fun i hi => hlow (Or.inl hi)⟩
    · refine Or.inr ⟨Set.eq_empty_iff_forall_notMem.2 fun i hi => ?_, rfl⟩
      exact absurd (hlow (Or.inl hi)) (Nat.not_le.2 (hp i hi))
  · rintro (⟨hmem, hlow⟩ | ⟨rfl, rfl⟩)
    · refine ⟨Or.inl hmem, ?_⟩
      rintro i (hi | rfl)
      · exact hlow hi
      · exact Nat.le_of_lt (hp origin hmem)
    · refine ⟨Or.inr rfl, ?_⟩
      rintro i (hi | rfl)
      · exact absurd hi (Set.notMem_empty i)
      · exact Nat.le_refl i

/-- One more position, after all others, has a body. -/
theorem Holds.insertNew {group : Dict Nat} {positions : String → Set Nat} (h : Holds group positions) (body : String)
    {p : Nat} (hp : ∀ other, ∀ i ∈ positions other, i < p) :
    Holds (group.insertNew body p) fun other => {i | i ∈ positions other ∨ other = body ∧ i = p} := by
  have hkeys : body ∉ group.keys ↔ positions body = ∅ := by
    rw [← not_iff_not, not_not, ← ne_eq, ← Set.nonempty_iff_ne_empty]
    constructor
    · intro hmem
      obtain ⟨⟨key, origin⟩, he, rfl⟩ := List.mem_map.1 hmem
      exact ⟨origin, ((h key origin).1 he).1⟩
    · intro hne
      exact List.mem_map_of_mem ((h body (sInf (positions body))).2 ⟨Nat.sInf_mem hne, fun i hi => Nat.sInf_le hi⟩)
  intro other origin
  rw [mem_insertNew_iff, Prod.mk.injEq, h other origin, hkeys]
  by_cases hother : other = body
  · subst hother
    simpa using (isLeast_or_iff (hp other) origin).symm
  · simp [hother]

theorem written_of_length_ne_one {bodies : List (String × Nat)} (h : bodies.length ≠ 1) :
    written bodies = bodies.mapIdx fun k (body, origin) => ⟨s!"{bodies.length - 1 - k}:{body}", origin⟩ := by
  rcases bodies with _ | ⟨_, _ | _⟩
  · rfl
  · exact absurd rfl h
  · rfl

/-- A finished group is written with its greatest body first. -/
theorem flush_eq_written (group : Dict Nat) : flush group = written group.entries.reverse := by
  unfold flush
  split
  · next body origin h =>
    rw [h]
    rfl
  · next entries hne =>
    have hlength : group.entries.reverse.length ≠ 1 := by
      intro h
      rw [List.length_reverse] at h
      obtain ⟨⟨body, origin⟩, he⟩ := List.length_eq_one_iff.1 h
      exact hne body origin he
    rw [written_of_length_ne_one hlength]
    refine List.ext_getElem (by simp) fun k hk hk' => ?_
    simp [Nat.sub_sub_self (Nat.sub_le _ _)]

/-- A group with the bodies of all its lines is written as what stands for it. -/
theorem Holds.standsFor {group : Dict Nat} {lines : List String} {stop : Nat}
    (h : Holds group fun body => {i | Carries lines stop body i}) : StandsFor lines stop (flush group) := by
  refine ⟨group.entries.reverse, flush_eq_written group, ?_, fun body origin => ?_⟩
  · rw [List.pairwise_reverse]
    exact group.ascending.imp fun hlt => bytes_lt_iff.2 hlt
  · rw [List.mem_reverse]
    exact h body origin

/-! ## Merging -/

/-- One line at a time, by the number that the line has. -/
theorem mergeFrom_cons (group : Dict Nat) (origin : Nat) (line : String) (rest : List String) :
    mergeFrom group origin (line :: rest) =
      match numberOf? line with
      | none => (if trimmed line = "" then [] else [⟨trimmed line, origin⟩]) ++ mergeFrom group (origin + 1) rest
      | some 0 => flush (group.insertNew (bodyOf line) origin) ++ mergeFrom .empty (origin + 1) rest
      | some _ => mergeFrom (group.insertNew (bodyOf line) origin) (origin + 1) rest := by
  have hblank : trimmed line = "" ↔ trim line.toList = [] := by
    unfold trimmed
    rw [← String.toList_inj, String.toList_ofList]
    rfl
  rw [mergeFrom]
  dsimp only
  unfold numberOf?
  split
  · next h =>
    rw [List.isEmpty_iff] at h
    rw [if_pos (hblank.2 h), h]
    rfl
  · next h =>
    rw [List.isEmpty_iff] at h
    cases hs : splitIndex? (trim line.toList) with
    | none =>
      rw [if_neg (mt hblank.1 h)]
      rfl
    | some found =>
      obtain ⟨n, body⟩ := found
      rw [bodyOf_of_numbered hs]
      dsimp only [Option.map_some]
      cases n with
      | zero => rfl
      | succ n => rfl

variable {lines : List String} {p : Nat} {raw : String}

/-- The lines of a group that the last of them has been read of. -/
theorem carries_iff (hraw : lines[p]? = some raw) (hn : (numberOf? raw).isSome) (body : String) (i : Nat) :
    Carries lines p body i ↔ (i < p ∧ Carries lines p body i) ∨ body = bodyOf raw ∧ i = p := by
  constructor
  · intro h
    rcases Nat.lt_or_eq_of_le h.le with hlt | rfl
    · exact Or.inl ⟨hlt, h⟩
    · obtain ⟨raw', hraw', -, rfl⟩ := h.numbered
      rw [hraw] at hraw'
      cases hraw'
      exact Or.inr ⟨rfl, rfl⟩
  · rintro (⟨-, h⟩ | ⟨rfl, rfl⟩)
    · exact h
    · refine ⟨Nat.le_refl _, ⟨raw, hraw, hn, rfl⟩, fun j _ hj hj' => ?_⟩
      exact absurd (Nat.lt_of_le_of_lt hj hj') (Nat.lt_irrefl _)

/-- A position without a numbered line carries nothing. -/
theorem carries_lt_iff (hraw : ∀ raw, lines[p]? = some raw → numberOf? raw = none) (body : String) (i : Nat) :
    Carries lines p body i ↔ i < p ∧ Carries lines p body i := by
  refine ⟨fun h => ⟨Nat.lt_of_le_of_ne h.le ?_, h⟩, And.right⟩
  rintro rfl
  obtain ⟨raw, hi, hn, -⟩ := h.numbered
  rw [hraw raw hi] at hn
  cases hn

/-- A line that is not numbered zero leaves the group open. -/
theorem open_succ_iff (hraw : lines[p]? = some raw) (hn : numberOf? raw ≠ some 0) (body : String) (i : Nat) :
    i < p + 1 ∧ Carries lines (p + 1) body i ↔ Carries lines p body i := by
  constructor
  · rintro ⟨hlt, h⟩
    exact ⟨Nat.le_of_lt_succ hlt, h.numbered, fun j other hj hj' => h.unclosed j other hj (Nat.lt_succ_of_lt hj')⟩
  · intro h
    refine ⟨Nat.lt_succ_of_le h.le, Nat.le_succ_of_le h.le, h.numbered, fun j other hj hj' hother => ?_⟩
    rcases Nat.lt_or_eq_of_le (Nat.le_of_lt_succ hj') with hlt | rfl
    · exact h.unclosed j other hj hlt hother
    · rw [hraw] at hother
      cases hother
      exact hn

/-- A line numbered zero closes the group. -/
theorem not_open_succ (hraw : lines[p]? = some raw) (hn : numberOf? raw = some 0) (body : String) (i : Nat) :
    ¬(i < p + 1 ∧ Carries lines (p + 1) body i) := by
  rintro ⟨hlt, h⟩
  exact h.unclosed p raw (Nat.le_of_lt_succ hlt) (Nat.lt_succ_self p) hraw hn

theorem replaces_cons {part : List Merged} {parts : List (List Merged)} (h : Replaces lines p part)
    (hparts : ∀ k part, parts[k]? = some part → Replaces lines (p + 1 + k) part) :
    ∀ k other, (part :: parts)[k]? = some other → Replaces lines (p + k) other := by
  intro k other hk
  cases k with
  | zero =>
    cases hk
    exact h
  | succ k =>
    rw [Nat.add_succ, ← Nat.succ_add]
    exact hparts k other hk

theorem replaces_of_number {part : List Merged} {number : Option Nat}
    (h : match number with
      | some 0 => StandsFor lines p part
      | some _ => part = []
      | none => part = if trimmed raw = "" then [] else [⟨trimmed raw, p⟩])
    (hraw : lines[p]? = some raw) (hn : numberOf? raw = number) : Replaces lines p part := by
  unfold Replaces
  rw [hraw]
  dsimp only
  rw [hn]
  exact h

/-- The rest of the input is merged to what stands for its positions, if the open group has what it should. -/
theorem exists_parts {rest : List String} (before : List String) {group : Dict Nat} (hlines : lines = before ++ rest)
    (h : Holds group fun body => {i | i < before.length ∧ Carries lines before.length body i}) :
    ∃ parts : List (List Merged), parts.length = rest.length + 1 ∧
      (∀ k part, parts[k]? = some part → Replaces lines (before.length + k) part) ∧
      mergeFrom group before.length rest = parts.flatten := by
  induction rest generalizing before group with
  | nil =>
    have hend : lines[before.length]? = none := by simp [hlines]
    have hplain (raw : String) (hraw : lines[before.length]? = some raw) : numberOf? raw = none := by
      rw [hend] at hraw
      cases hraw
    have hstands : StandsFor lines before.length (flush group) :=
      (h.congr fun body i => (carries_lt_iff hplain body i).symm).standsFor
    refine ⟨[flush group], rfl, replaces_cons ?_ (fun _ _ hk => by simp at hk), (List.flatten_singleton).symm⟩
    unfold Replaces
    rw [hend]
    exact hstands
  | cons line rest ih =>
    have hline : lines[before.length]? = some line := by simp [hlines]
    have hnext : lines = (before ++ [line]) ++ rest := by simp [hlines]
    have hlength : (before ++ [line]).length = before.length + 1 := by simp
    -- the group once the line is in it
    have hmore (hn : (numberOf? line).isSome) : Holds (group.insertNew (bodyOf line) before.length) fun body =>
        {i | Carries lines before.length body i} :=
      (h.insertNew (bodyOf line) fun _ _ hi => hi.1).congr fun body i => (carries_iff hline hn body i).symm
    -- what the rest is merged to, after what stands for the line
    have hparts {next : Dict Nat} {part : List Merged} (hpart : Replaces lines before.length part)
        (hnext' : Holds next fun body => {i | i < before.length + 1 ∧ Carries lines (before.length + 1) body i}) :
        ∃ parts : List (List Merged), parts.length = (line :: rest).length + 1 ∧
          (∀ k part, parts[k]? = some part → Replaces lines (before.length + k) part) ∧
          part ++ mergeFrom next (before.length + 1) rest = parts.flatten := by
      rw [← hlength] at hnext'
      obtain ⟨parts, hparts, hrest, hmerge⟩ := ih (before ++ [line]) hnext hnext'
      rw [hlength] at hrest hmerge
      exact ⟨part :: parts, congrArg (· + 1) hparts, replaces_cons hpart hrest, by rw [hmerge, List.flatten_cons]⟩
    rw [mergeFrom_cons]
    rcases hn : numberOf? line with _ | _ | n
    · have hplain (raw : String) (hraw : lines[before.length]? = some raw) : numberOf? raw = none := by
        rw [hline] at hraw
        cases hraw
        exact hn
      have hopen : numberOf? line ≠ some 0 := by rw [hn]; exact nofun
      exact hparts (replaces_of_number rfl hline hn) (h.congr fun body i =>
        (carries_lt_iff hplain body i).symm.trans (open_succ_iff hline hopen body i).symm)
    · have hstands : StandsFor lines before.length (flush (group.insertNew (bodyOf line) before.length)) :=
        (hmore (by rw [hn]; rfl)).standsFor
      exact hparts (replaces_of_number hstands hline hn) (holds_empty.congr fun body i =>
        iff_of_false (Set.notMem_empty i) (not_open_succ hline hn body i))
    · have hopen : numberOf? line ≠ some 0 := by rw [hn]; exact nofun
      exact hparts (replaces_of_number rfl hline hn) ((hmore (by rw [hn]; rfl)).congr fun body i =>
        (open_succ_iff hline hopen body i).symm)

theorem mergesTo_merge (lines : List String) : MergesTo lines (merge lines) := by
  have hempty : Holds .empty fun body => {i | i < 0 ∧ Carries lines 0 body i} :=
    holds_empty.congr fun body i => iff_of_false (Set.notMem_empty i) fun h => Nat.not_lt_zero i h.1
  obtain ⟨parts, hlength, hparts, hmerge⟩ := exists_parts [] rfl hempty
  refine ⟨parts, hlength, fun i part hi => ?_, hmerge⟩
  have hreplaces := hparts i part hi
  rwa [List.length_nil, Nat.zero_add] at hreplaces

/-! ## Rearranged groups -/

/-- The lines without a number, trimmed; blank ones are dropped. -/
def plainTexts (lines : List String) : List String :=
  lines.filterMap fun raw => if numberOf? raw = none ∧ trimmed raw ≠ "" then some (trimmed raw) else none

/-- The bodies of the numbered lines. -/
def numberedBodies (lines : List String) : List String :=
  lines.filterMap fun raw => if (numberOf? raw).isSome then some (bodyOf raw) else none

/-- A part of the lines in which no group ends, and another with the same unnumbered lines and with numbered lines of
the same bodies: these may stand in any order, have any positive numbers, and be repeated. -/
structure Rearranges (part part' : List String) : Prop where
  unclosed : ∀ raw ∈ part ++ part', numberOf? raw ≠ some 0
  plain : plainTexts part' = plainTexts part
  kept : numberedBodies part ⊆ numberedBodies part'
  bodies : numberedBodies part' ⊆ numberedBodies part

/-- The bodies of a group stand in one order only. -/
theorem keys_eq_of_mem_iff {group group' : Dict Nat} (h : ∀ body, body ∈ group.keys ↔ body ∈ group'.keys) :
    group.keys = group'.keys := by
  have hirrefl : Std.Irrefl fun a b : String => a < b := ⟨String.lt_irrefl⟩
  have hantisymm : Std.Antisymm fun a b : String => a < b := ⟨fun _ _ hlt hgt => absurd hgt (String.lt_asymm hlt)⟩
  exact group.pairwise_keys.eq_of_mem_iff group'.pairwise_keys fun body => h body

/-- Lines in which no group ends only add their bodies to the open group. -/
theorem map_text_mergeFrom_part {part : List String} (hpart : ∀ raw ∈ part, numberOf? raw ≠ some 0) (group : Dict Nat)
    (origin : Nat) (after : List String) :
    ∃ group' : Dict Nat, (∀ body, body ∈ group'.keys ↔ body ∈ group.keys ∨ body ∈ numberedBodies part) ∧
      (mergeFrom group origin (part ++ after)).map Merged.text =
        plainTexts part ++ (mergeFrom group' (origin + part.length) after).map Merged.text := by
  induction part generalizing group origin with
  | nil => exact ⟨group, fun body => by simp [numberedBodies], rfl⟩
  | cons line rest ih =>
    obtain ⟨hline, hrest⟩ := List.forall_mem_cons.1 hpart
    have hlength : origin + (line :: rest).length = origin + 1 + rest.length := by
      rw [List.length_cons, Nat.add_right_comm, Nat.add_assoc]
    rw [List.cons_append, mergeFrom_cons, hlength]
    rcases hn : numberOf? line with _ | _ | n
    · obtain ⟨group', hkeys, htexts⟩ := ih hrest group (origin + 1)
      refine ⟨group', fun body => ?_, ?_⟩
      · rw [hkeys body]
        simp [numberedBodies, hn]
      · dsimp only
        have hplain : (if trimmed line = "" then [] else [Merged.mk (trimmed line) origin]).map Merged.text ++
            plainTexts rest = plainTexts (line :: rest) := by
          by_cases hblank : trimmed line = "" <;> simp [plainTexts, hn, hblank]
        rw [List.map_append, htexts, ← List.append_assoc, hplain]
    · exact absurd hn hline
    · obtain ⟨group', hkeys, htexts⟩ := ih hrest (group.insertNew (bodyOf line) origin) (origin + 1)
      refine ⟨group', fun body => ?_, ?_⟩
      · rw [hkeys body, Dict.mem_keys_insertNew]
        simp [numberedBodies, hn, or_assoc, or_left_comm]
      · refine htexts.trans ?_
        simp [plainTexts, hn]

theorem map_text_mergeFrom_rearranged {part part' : List String} (h : Rearranges part part')
    (before after : List String) (group : Dict Nat) (origin : Nat) :
    (mergeFrom group origin (before ++ part' ++ after)).map Merged.text =
      (mergeFrom group origin (before ++ part ++ after)).map Merged.text := by
  induction before generalizing group origin with
  | nil =>
    obtain ⟨hpart, hpart'⟩ := List.forall_mem_append.1 h.unclosed
    obtain ⟨group₁, hkeys₁, htexts₁⟩ := map_text_mergeFrom_part hpart group origin after
    obtain ⟨group₂, hkeys₂, htexts₂⟩ := map_text_mergeFrom_part hpart' group origin after
    have hsame : group₂.keys = group₁.keys := keys_eq_of_mem_iff fun body => by
      rw [hkeys₁, hkeys₂, or_congr_right ⟨fun hb => h.bodies hb, fun hb => h.kept hb⟩]
    rw [List.nil_append, List.nil_append, htexts₁, htexts₂, h.plain]
    exact congrArg _ (map_text_mergeFrom hsame _ _ after)
  | cons line rest ih =>
    rw [List.cons_append, List.cons_append, List.cons_append, List.cons_append, mergeFrom_cons, mergeFrom_cons]
    split
    · rw [List.map_append, List.map_append, ih]
    · rw [List.map_append, List.map_append, ih]
    · exact ih _ _

/-! ## Exactness -/

/-- **Merging is exact.** What stands in the output for each position of the input is all that it is merged to, with
the origins. The texts stay the same where the lines of a group before the one that ends it are permuted, numbered
otherwise or repeated. -/
theorem merge_exact (lines : List String) :
    (∀ out, merge lines = out ↔ MergesTo lines out) ∧
      ∀ before part part' after, lines = before ++ part ++ after → Rearranges part part' →
        mergedTexts (before ++ part' ++ after) = mergedTexts lines := by
  refine ⟨fun out => ⟨?_, fun h => (mergesTo_merge lines).unique h⟩, ?_⟩
  · rintro rfl
    exact mergesTo_merge lines
  · rintro before part part' after rfl h
    exact map_text_mergeFrom_rearranged h before after .empty 0

theorem merge_exact_interleaved :
    Rearranges ["2:f(a)", "g()", "1: f(b)"] ["g()", "7:f(b)", "3:f(a)", "7:f(b) "] ∧
      mergedTexts (["h()"] ++ ["g()", "7:f(b)", "3:f(a)", "7:f(b) "] ++ ["0:f(b)"]) =
        mergedTexts (["h()"] ++ ["2:f(a)", "g()", "1: f(b)"] ++ ["0:f(b)"]) :=
  have h : Rearranges ["2:f(a)", "g()", "1: f(b)"] ["g()", "7:f(b)", "3:f(a)", "7:f(b) "] :=
    ⟨by decide +kernel, by decide +kernel, by decide +kernel, by decide +kernel⟩
  ⟨h, (merge_exact (["h()"] ++ ["2:f(a)", "g()", "1: f(b)"] ++ ["0:f(b)"])).2 _ _ _ _ rfl h⟩

end CallSig.Overload
