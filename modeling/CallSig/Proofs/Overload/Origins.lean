import CallSig.Overload
import CallSig.Proofs.Descriptor.Acceptance
import CallSig.Proofs.Text.Trim

/-!
# `CallSig.Proofs.Overload.Origins` — the raw line behind a merged line

Merging trims lines, takes numbers off and writes new ones. What it never touches is the body: every merged line is
the body of the raw line that it gives as its origin, alone or after a number that is less than the number of lines.

## Contents
- **Bodies.** `splitIndex_append`, `bodyOf`, `bodyOf_of_plain`.
- **Groups.** `mem_flush`, `length_insertNew_le`, `mem_insertNew_iff`.
- **Origins.** `Gathered` (what an open group holds), `HasOrigin`, `hasOrigin_of_mem_mergeFrom`,
  `hasOrigin_of_mem_merge`.
- **Written numbers.** `splitIndex_numbered`: a number that merging writes is read back; `HasOrigin.body`.
-/

namespace CallSig.Overload

open Text

/-! ## Bodies -/

/-- A line is what stands before its body, and the body. -/
theorem splitIndex_append (line : List Char) : ∃ number, line = number ++ (splitIndex line).2 := by
  unfold splitIndex splitIndex?
  dsimp only
  split
  · next n body h =>
    split at h
    · next body' hdrop =>
      split at h
      · cases h
      · obtain ⟨m, -, heq⟩ := Option.map_eq_some_iff.1 h
        cases heq
        refine ⟨line.takeWhile Char.isDigit ++ [':'], ?_⟩
        rw [List.append_assoc, List.singleton_append, ← hdrop, List.takeWhile_append_dropWhile]
    · cases h
  · exact ⟨[], rfl⟩

/-- The body of a raw line: neither its number nor blanks around it count. -/
def bodyOf (raw : String) : String := String.ofList (trim (splitIndex (trim raw.toList)).2)

theorem bodyOf_of_plain {raw : String} (h : splitIndex? (trim raw.toList) = none) :
    bodyOf raw = String.ofList (trim raw.toList) := by
  unfold bodyOf splitIndex
  rw [h]
  exact congrArg String.ofList (tight_trim raw.toList).trim_eq

theorem bodyOf_of_numbered {raw : String} {n : Nat} {body : List Char}
    (h : splitIndex? (trim raw.toList) = some (n, body)) : bodyOf raw = String.ofList (trim body) := by
  unfold bodyOf splitIndex
  rw [h]

/-! ## Groups -/

/-- A line of a finished group is one of its bodies, alone or numbered. -/
theorem mem_flush {group : Dict Nat} {m : Merged} (h : m ∈ flush group) :
    ∃ body, (body, m.origin) ∈ group.entries ∧
      (m.text = body ∨ ∃ i < group.entries.length, m.text = s!"{i}:{body}") := by
  unfold flush at h
  split at h
  · next body origin hentries =>
    rw [List.mem_singleton.1 h, hentries]
    exact ⟨body, List.mem_singleton_self _, Or.inl rfl⟩
  · obtain ⟨⟨⟨body, origin⟩, i⟩, hmem, rfl⟩ := List.mem_map.1 (List.mem_reverse.1 h)
    have hget := List.mem_zipIdx_iff_getElem?.1 hmem
    obtain ⟨hi, -⟩ := List.getElem?_eq_some_iff.1 hget
    exact ⟨body, List.mem_of_getElem? hget, Or.inr ⟨i, hi, rfl⟩⟩

theorem length_insert_le (k : String) (v : Nat) (es : List (String × Nat)) :
    (Entries.insert k v es).length ≤ es.length + 1 := by
  induction es with
  | nil => exact Nat.le_refl _
  | cons e rest ih =>
    rw [Entries.insert]
    split
    · exact Nat.le_refl _
    · split
      · exact Nat.le_succ _
      · exact Nat.succ_le_succ ih

theorem length_insertNew_le (group : Dict Nat) (body : String) (origin : Nat) :
    (group.insertNew body origin).entries.length ≤ group.entries.length + 1 := by
  unfold Dict.insertNew
  split
  · exact Nat.le_succ _
  · exact length_insert_le body origin group.entries

theorem mem_insert_iff {body : String} {origin : Nat} {es : List (String × Nat)} (hnew : body ∉ es.map Prod.fst)
    (e : String × Nat) : e ∈ Entries.insert body origin es ↔ e ∈ es ∨ e = (body, origin) := by
  induction es with
  | nil => simp [Entries.insert]
  | cons first rest ih =>
    obtain ⟨key, value⟩ := first
    rw [List.map_cons, List.mem_cons, not_or] at hnew
    rw [Entries.insert, if_neg hnew.1]
    split
    · rw [List.mem_cons, or_comm]
    · rw [List.mem_cons, ih hnew.2, List.mem_cons, or_assoc]

/-- A body that the group has keeps its origin. -/
theorem mem_insertNew_iff {group : Dict Nat} {body : String} {origin : Nat} {e : String × Nat} :
    e ∈ (group.insertNew body origin).entries ↔ e ∈ group.entries ∨ body ∉ group.keys ∧ e = (body, origin) := by
  have hc : group.contains body = true ↔ body ∈ group.keys := by rw [Dict.contains_eq, List.contains_iff_mem]
  unfold Dict.insertNew
  by_cases hk : body ∈ group.keys
  · rw [if_pos (hc.2 hk)]
    simp [hk]
  · rw [if_neg (mt hc.1 hk)]
    show e ∈ Entries.insert body origin group.entries ↔ _
    rw [mem_insert_iff hk]
    simp [hk]

/-! ## Origins -/

/-- An open group holds bodies of the lines before a position, each with the position of its line. -/
structure Gathered (lines : List String) (origin : Nat) (group : Dict Nat) : Prop where
  bodies : ∀ e ∈ group.entries, ∃ raw, lines[e.2]? = some raw ∧ e.1 = bodyOf raw
  length : group.entries.length ≤ origin

theorem gathered_empty (lines : List String) (origin : Nat) : Gathered lines origin .empty :=
  ⟨List.forall_mem_nil _, Nat.zero_le _⟩

theorem Gathered.insertNew {lines : List String} {origin n : Nat} {group : Dict Nat} {raw : String} {body : List Char}
    (h : Gathered lines origin group) (hraw : lines[origin]? = some raw)
    (hbody : splitIndex? (trim raw.toList) = some (n, body)) :
    Gathered lines (origin + 1) (group.insertNew (String.ofList (trim body)) origin) where
  bodies := by
    intro e he
    rcases mem_insertNew_iff.1 he with he | ⟨-, rfl⟩
    · exact h.bodies e he
    · exact ⟨raw, hraw, (bodyOf_of_numbered hbody).symm⟩
  length := Nat.le_trans (length_insertNew_le _ _ _) (Nat.succ_le_succ h.length)

/-- The line is the body of the raw line at its origin, alone or after a number. -/
def HasOrigin (lines : List String) (m : Merged) : Prop :=
  ∃ raw, lines[m.origin]? = some raw ∧ (m.text = bodyOf raw ∨ ∃ i < lines.length, m.text = s!"{i}:{bodyOf raw}")

theorem hasOrigin_of_mem_flush {lines : List String} {origin : Nat} {group : Dict Nat} {m : Merged}
    (h : Gathered lines origin group) (hle : origin ≤ lines.length) (hm : m ∈ flush group) : HasOrigin lines m := by
  obtain ⟨body, hmem, htext⟩ := mem_flush hm
  obtain ⟨raw, hraw, rfl⟩ := h.bodies _ hmem
  refine ⟨raw, hraw, htext.imp id ?_⟩
  rintro ⟨i, hi, htext⟩
  exact ⟨i, Nat.lt_of_lt_of_le hi (Nat.le_trans h.length hle), htext⟩

theorem hasOrigin_of_mem_mergeFrom {lines rest : List String} (before : List String) {group : Dict Nat} {m : Merged}
    (hlines : lines = before ++ rest) (h : Gathered lines before.length group)
    (hm : m ∈ mergeFrom group before.length rest) : HasOrigin lines m := by
  induction rest generalizing before group with
  | nil => exact hasOrigin_of_mem_flush h (by simp [hlines]) hm
  | cons line rest ih =>
    have hline : lines[before.length]? = some line := by simp [hlines]
    have hnext : lines = (before ++ [line]) ++ rest := by simp [hlines]
    have hlength : (before ++ [line]).length = before.length + 1 := by simp
    have hle : before.length + 1 ≤ lines.length := by simp [hlines]
    rw [mergeFrom] at hm
    dsimp only at hm
    split at hm
    · exact ih _ hnext ⟨h.bodies, by rw [hlength]; exact Nat.le_succ_of_le h.length⟩ (hlength ▸ hm)
    · cases hs : splitIndex? (trim line.toList) with
      | none =>
        rw [hs] at hm
        rcases List.mem_cons.1 hm with rfl | hm
        · exact ⟨line, hline, Or.inl (bodyOf_of_plain hs).symm⟩
        · exact ih _ hnext ⟨h.bodies, by rw [hlength]; exact Nat.le_succ_of_le h.length⟩ (hlength ▸ hm)
      | some found =>
        obtain ⟨n, body⟩ := found
        rw [hs] at hm
        dsimp only at hm
        have hmore := h.insertNew hline hs
        split at hm
        · rcases List.mem_append.1 hm with hm | hm
          · exact hasOrigin_of_mem_flush hmore hle hm
          · exact ih _ hnext (gathered_empty lines _) (hlength ▸ hm)
        · exact ih _ hnext (hlength ▸ hmore) (hlength ▸ hm)

/-- **Every merged line is the body of its origin**, alone or after a number less than the number of lines. -/
theorem hasOrigin_of_mem_merge {lines : List String} {m : Merged} (hm : m ∈ merge lines) : HasOrigin lines m :=
  hasOrigin_of_mem_mergeFrom [] rfl (gathered_empty lines 0) hm

/-! ## Written numbers -/

theorem decimal_toDigits (n : Nat) : Grammar.decimal (Nat.toDigits 10 n) = n := by
  have h := Nat.ofDigitChars_ten_toDigits (n := n)
  rw [Nat.ofDigitChars_eq_foldl] at h
  exact h

/-- A number that a machine word holds is read back, and the body after it too. -/
theorem splitIndex_numbered {i : Nat} (hi : i < wordBound) (body : String) :
    splitIndex (s!"{i}:{body}").toList = (some i, body.toList) := by
  have hline : (s!"{i}:{body}").toList = Nat.toDigits 10 i ++ ':' :: body.toList := by
    simp [toString, Nat.toList_repr]
  have hdigits : ∀ c ∈ Nat.toDigits 10 i, c.isDigit = true := fun c hc =>
    Nat.isDigit_of_mem_toDigits (by decide) (by decide) hc
  have hne : Nat.toDigits 10 i ≠ [] := Nat.toDigits_ne_nil
  have hword : word? (Nat.toDigits 10 i) = some i := by
    rw [Grammar.word?_digits hne hdigits, decimal_toDigits, if_pos hi]
  unfold splitIndex splitIndex?
  rw [hline, List.takeWhile_append_of_pos hdigits, List.dropWhile_append_of_pos hdigits]
  simp [hword]

/-- The body of a merged line is that of its origin, if a lone body does not begin with another number. -/
theorem HasOrigin.body {lines : List String} {m : Merged} (h : HasOrigin lines m) (hl : lines.length ≤ wordBound) :
    ∃ raw, lines[m.origin]? = some raw ∧
      ((m.text = bodyOf raw → splitIndex? m.text.toList = none) →
        (splitIndex m.text.toList).2 = (bodyOf raw).toList) := by
  obtain ⟨raw, hraw, htext | ⟨i, hi, htext⟩⟩ := h
  · refine ⟨raw, hraw, fun hplain => ?_⟩
    unfold splitIndex
    rw [hplain htext, htext]
  · refine ⟨raw, hraw, fun _ => ?_⟩
    rw [htext, splitIndex_numbered (Nat.lt_of_lt_of_le hi hl)]

end CallSig.Overload
