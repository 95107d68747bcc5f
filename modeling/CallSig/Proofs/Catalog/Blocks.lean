import CallSig.Catalog.Block
import CallSig.Proofs.Overload.Origins
import CallSig.Proofs.Text.Bytes
import CallSig.Report

/-!
# `CallSig.Proofs.Catalog.Blocks` — bytes and lines of a block

A block is its raw lines with line feeds between them. This file says where a line and its body lie in the bytes of
the block, what bytes stand under a span, and that every byte of a line and the one after its last has the number
of the line.

## Contents
- **Bytes.** `under`, `under_shift`.
- **Lines.** `not_mem_of_mem_lines`, `ended`, `exists_toList_blockText`, `width_flatMap_ended`.
- **Bodies.** `exists_toList_body`.
- **Line numbers.** `exists_advance_append`, `line_advance`, `line_locate`.
-/

namespace CallSig
namespace Catalog

open Text Overload

/-! ## Bytes -/

/-- The bytes of a text under a span. -/
def under (text : String) (span : Span) : List UInt8 :=
  (text.toUTF8.data.toList.drop span.start).take (span.stop - span.start)

/-- The bytes under a span inside a part of a text are those of the part. -/
theorem under_shift {text : String} {before part after : List Char} (h : text.toList = before ++ part ++ after)
    {span : Span} (hspan : span.stop ≤ width part) :
    under text (span.shift (width before)) = under (String.ofList part) span := by
  unfold under
  rw [toList_toUTF8, toList_toUTF8, h, String.toList_ofList, List.flatMap_append, List.flatMap_append]
  generalize hb : before.flatMap String.utf8EncodeChar = b
  generalize hp : part.flatMap String.utf8EncodeChar = p
  have hblen : b.length = width before := by rw [← hb, length_flatMap_utf8EncodeChar]
  have hplen : p.length = width part := by rw [← hp, length_flatMap_utf8EncodeChar]
  show ((b ++ p ++ _).drop (span.start + width before)).take (span.stop + width before - (span.start + width before)) =
    (p.drop span.start).take (span.stop - span.start)
  rw [Nat.add_sub_add_right, List.append_assoc, ← hblen, Nat.add_comm, List.drop_length_add_append, List.drop_append,
    List.take_append_of_le_length]
  rw [List.length_drop, hplen]
  exact Nat.sub_le_sub_right hspan _

/-! ## Lines -/

theorem not_mem_of_mem_cutWhere (isSep : Char → Bool) {sep : Char} (hs : isSep sep = true) {cs piece : List Char}
    (h : piece ∈ cutWhere isSep cs) : sep ∉ piece := by
  induction cs generalizing piece with
  | nil =>
    rw [cutWhere, List.mem_singleton] at h
    rw [h]
    exact List.not_mem_nil
  | cons c cs ih =>
    rw [cutWhere] at h
    split at h
    · rcases List.mem_cons.1 h with rfl | h
      · exact List.not_mem_nil
      · exact ih h
    · next hc =>
      have hne : sep ≠ c := by
        rintro rfl
        exact hc hs
      cases hcut : cutWhere isSep cs with
      | nil => exact absurd hcut (cutWhere_ne_nil isSep cs)
      | cons first rest =>
        rw [hcut] at h ih
        rcases List.mem_cons.1 h with rfl | h
        · exact List.not_mem_cons_of_ne_of_not_mem hne (ih List.mem_cons_self)
        · exact ih (List.mem_cons_of_mem _ h)

theorem not_mem_of_mem_linesOfPieces {sep : Char} {pieces : List (List Char)} (h : ∀ piece ∈ pieces, sep ∉ piece)
    {line : List Char} (hl : line ∈ linesOfPieces pieces) : sep ∉ line := by
  induction pieces with
  | nil => cases hl
  | cons piece rest ih =>
    obtain ⟨hpiece, hrest⟩ := List.forall_mem_cons.1 h
    cases rest with
    | nil =>
      rw [linesOfPieces] at hl
      split at hl
      · cases hl
      · rw [List.mem_singleton.1 hl]
        exact hpiece
    | cons next rest =>
      rw [linesOfPieces] at hl
      · rcases List.mem_cons.1 hl with rfl | hl
        · unfold dropReturn
          split
          · exact fun hmem => hpiece ((List.dropLast_sublist piece).subset hmem)
          · exact hpiece
        · exact ih hrest hl
      · exact nofun

/-- No line of a text has a line feed. -/
theorem not_mem_of_mem_lines {text line : List Char} (h : line ∈ Text.lines text) : '\n' ∉ line :=
  not_mem_of_mem_linesOfPieces (fun _ hp => not_mem_of_mem_cutWhere (· == '\n') rfl hp) h

/-- A line with the line feed that ends it. -/
def ended (line : String) : List Char := line.toList ++ ['\n']

theorem exists_toList_blockText {lines : List String} {i : Nat} {raw : String} (h : lines[i]? = some raw) :
    ∃ after, (blockText lines).toList = (lines.take i).flatMap ended ++ raw.toList ++ after := by
  induction lines generalizing i with
  | nil => cases h
  | cons line lines ih =>
    cases i with
    | zero =>
      cases h
      cases lines with
      | nil => exact ⟨[], by simp [blockText, join]⟩
      | cons next rest => exact ⟨'\n' :: (blockText (next :: rest)).toList, by simp [blockText, join]⟩
    | succ i =>
      have hne : lines ≠ [] := by
        rintro rfl
        cases h
      obtain ⟨after, hrest⟩ := ih h
      refine ⟨after, ?_⟩
      have hblock : (blockText (line :: lines)).toList = ended line ++ (blockText lines).toList := by
        unfold blockText join
        rw [String.intercalate_cons_of_ne_nil hne, String.toList_append, String.toList_append]
        rfl
      rw [hblock, hrest, List.take_succ_cons, List.flatMap_cons]
      simp only [List.append_assoc]

theorem width_flatMap_ended (lines : List String) (i : Nat) :
    width ((lines.take i).flatMap ended) = lineStart lines i := by
  induction lines generalizing i with
  | nil =>
    rw [List.take_nil]
    cases i <;> rfl
  | cons line lines ih =>
    cases i with
    | zero => rfl
    | succ i =>
      have hended : width (ended line) = width line.toList + 1 := width_append _ _
      rw [List.take_succ_cons, List.flatMap_cons, width_append, ih, hended]
      rfl

/-! ## Bodies -/

/-- The body of a raw line lies where `bodyStart` says. -/
theorem exists_toList_body (raw : String) :
    ∃ before after, raw.toList = before ++ (bodyOf raw).toList ++ after ∧ width before = bodyStart raw.toList := by
  -- the line from the outside in: blanks, the number, blanks, the body, blanks
  obtain ⟨lead, hlead⟩ : trimStart raw.toList <:+ raw.toList := List.dropWhile_suffix _
  obtain ⟨trail, htrail⟩ := trimEnd_isPrefix (trimStart raw.toList)
  obtain ⟨number, hnumber⟩ := splitIndex_append (trim raw.toList)
  obtain ⟨blanks, hblanks⟩ : trimStart (splitIndex (trim raw.toList)).2 <:+ (splitIndex (trim raw.toList)).2 :=
    List.dropWhile_suffix _
  obtain ⟨rest, hrest⟩ := trimEnd_isPrefix (trimStart (splitIndex (trim raw.toList)).2)
  have hbody : (bodyOf raw).toList = trimEnd (trimStart (splitIndex (trim raw.toList)).2) := String.toList_ofList
  refine ⟨lead ++ number ++ blanks, rest ++ trail, ?_, ?_⟩
  · calc raw.toList = lead ++ (trim raw.toList ++ trail) := (hlead.symm.trans (congrArg _ htrail.symm))
      _ = lead ++ (number ++ (blanks ++ (trimEnd (trimStart (splitIndex (trim raw.toList)).2) ++ rest)) ++ trail) := by
        rw [hrest, hblanks, ← hnumber]
      _ = _ := by
        rw [hbody]
        simp only [List.append_assoc]
  · have hl := congrArg width hlead
    have hn := congrArg width hnumber
    have hb := congrArg width hblanks
    rw [width_append] at hl hn hb
    unfold bodyStart
    rw [width_append, width_append]
    dsimp only
    omega

/-! ## Line numbers -/

/-- Passing a part of a text counts its line feeds. -/
theorem exists_advance_append {target offset : Nat} (place : Place) {part : List Char} (rest : List Char)
    (h : offset + width part ≤ target) : ∃ column, Place.advance target offset place (part ++ rest) =
      Place.advance target (offset + width part) ⟨place.line + part.count '\n', column⟩ rest := by
  induction part generalizing offset place with
  | nil => exact ⟨place.column, rfl⟩
  | cons c part ih =>
    rw [width_cons, ← Nat.add_assoc] at h
    rw [List.cons_append, Place.advance, if_pos (Nat.le_trans (Nat.le_add_right _ _) h), width_cons,
      List.count_cons, ← Nat.add_assoc]
    obtain ⟨column, hrest⟩ := ih (if c = '\n' then ⟨place.line + 1, 1⟩ else ⟨place.line, place.column + 1⟩) h
    have hline : (if c = '\n' then (⟨place.line + 1, 1⟩ : Place) else ⟨place.line, place.column + 1⟩).line +
        part.count '\n' = place.line + (part.count '\n' + if c == '\n' then 1 else 0) := by
      by_cases hc : c = '\n'
      · rw [if_pos hc, if_pos (beq_iff_eq.2 hc)]
        show place.line + 1 + _ = _
        omega
      · rw [if_neg hc, if_neg (by simpa using hc)]
        rfl
    rw [hline] at hrest
    exact ⟨column, hrest⟩

/-- In a part without a line feed, and right after it, the line stays. -/
theorem line_advance {target offset : Nat} {place : Place} {part rest : List Char} (hn : '\n' ∉ part)
    (ht : target ≤ offset + width part) : (Place.advance target offset place (part ++ rest)).line = place.line := by
  induction part generalizing offset place with
  | nil =>
    cases rest with
    | nil => rfl
    | cons c rest =>
      have hc := c.utf8Size_pos
      rw [width_nil] at ht
      rw [List.nil_append, Place.advance, if_neg (by omega)]
  | cons c part ih =>
    obtain ⟨hc, hpart⟩ := List.ne_and_not_mem_of_not_mem_cons hn
    rw [List.cons_append, Place.advance]
    split
    · rw [if_neg (Ne.symm hc), ih hpart (by rw [width_cons] at ht; omega)]
    · rfl

theorem count_flatMap_ended {lines : List String} (hn : ∀ line ∈ lines, '\n' ∉ line.toList) :
    (lines.flatMap ended).count '\n' = lines.length := by
  induction lines with
  | nil => rfl
  | cons line lines ih =>
    obtain ⟨hline, hlines⟩ := List.forall_mem_cons.1 hn
    rw [List.flatMap_cons, List.count_append, ih hlines, ended, List.count_append, List.count_eq_zero.2 hline,
      List.length_cons]
    exact Nat.add_comm _ _

/-- **Every byte of a line has the number of the line**, and so has the one after its last. -/
theorem line_locate {lines : List String} {i : Nat} {raw : String} (h : lines[i]? = some raw)
    (hn : ∀ line ∈ lines, '\n' ∉ line.toList) {target : Nat} (hlow : lineStart lines i ≤ target)
    (hhigh : target ≤ lineStart lines i + width raw.toList) :
    (Place.locate (blockText lines) target).line = i + 1 := by
  obtain ⟨after, hblock⟩ := exists_toList_blockText h
  have hwidth := width_flatMap_ended lines i
  have hi : i < lines.length := (List.getElem?_eq_some_iff.1 h).1
  have hcount : ((lines.take i).flatMap ended).count '\n' = i := by
    rw [count_flatMap_ended fun line hline => hn line (List.mem_of_mem_take hline),
      List.length_take_of_le (Nat.le_of_lt hi)]
  unfold Place.locate
  rw [hblock, List.append_assoc]
  have hbefore : 0 + width ((lines.take i).flatMap ended) ≤ target := by omega
  obtain ⟨column, hadvance⟩ := exists_advance_append ⟨1, 1⟩ (raw.toList ++ after) hbefore
  rw [hadvance, hcount, hwidth, Nat.zero_add, line_advance (hn raw (List.mem_of_getElem? h)) hhigh]
  exact Nat.add_comm 1 i

end Catalog
end CallSig
