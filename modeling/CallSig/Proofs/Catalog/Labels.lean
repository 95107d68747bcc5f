import CallSig.Proofs.Catalog.Blocks
import CallSig.Proofs.Catalog.Findings

/-!
# `CallSig.Proofs.Catalog.Labels` — labels point at the offending text

The span of a failure is one of the merged line; its label is a span of the block. Both show the same bytes as long
as the span lies in the body, the body of the merged line is that of the raw line, and the number that merging wrote
is not longer than what stands before the body in the raw line. A longer number would need a shift to the left.

## Contents
- **Moving.** What shifting and clamping a span does.
- **Bodies.** `numberWidth`, `place_shift`, `under_place`.
- **Labels.** `label_exact`, `label_beside`.
-/

namespace CallSig
namespace Catalog

open Text Overload

/-! ## Moving -/

theorem under_of_le {text : String} {span : Span} (h : span.stop ≤ span.start) : under text span = [] := by
  unfold under
  rw [Nat.sub_eq_zero_of_le h, List.take_zero]

theorem shift_shift (span : Span) (a b : Nat) : (span.shift a).shift b = span.shift (a + b) := by
  unfold Span.shift
  rw [Nat.add_assoc, Nat.add_assoc]

theorem exists_eq_shift {span : Span} {n : Nat} (h : n ≤ span.start) (h' : n ≤ span.stop) :
    ∃ inner : Span, span = inner.shift n :=
  ⟨⟨span.start - n, span.stop - n⟩, by unfold Span.shift; rw [Nat.sub_add_cancel h, Nat.sub_add_cancel h']⟩

theorem clamp_eq_self {span : Span} {limit : Nat} (h : span.start ≤ span.stop) (h' : span.stop ≤ limit) :
    span.clamp limit = span := by
  unfold Span.clamp
  rw [Nat.min_eq_left (Nat.le_trans h h'), Nat.min_eq_left h']

/-! ## Bodies -/

/-- The bytes before the body of a merged line. -/
def numberWidth (text : String) : Nat := width text.toList - width (splitIndex text.toList).2

theorem exists_toList_merged (text : String) :
    ∃ number, text.toList = number ++ (splitIndex text.toList).2 ∧ width number = numberWidth text := by
  obtain ⟨number, h⟩ := splitIndex_append text.toList
  have hwidth := congrArg width h
  rw [width_append] at hwidth
  exact ⟨number, h, by unfold numberWidth; omega⟩

/-- A span of the body of a merged line is moved to the body of the raw line. -/
theorem place_shift {lines : List String} {m : Merged} {raw : String} (hraw : lines[m.origin]? = some raw)
    (hfits : numberWidth m.text ≤ bodyStart raw.toList) {inner : Span} (horder : inner.start ≤ inner.stop)
    (hstop : bodyStart raw.toList + inner.stop ≤ width raw.toList) (file : Nat) :
    (sourceOf file lines m).place (inner.shift (numberWidth m.text)) =
      inner.shift (lineStart lines m.origin + bodyStart raw.toList) := by
  have hshift : numberWidth m.text + (lineStart lines m.origin + bodyShift raw.toList m.text.toList) =
      lineStart lines m.origin + bodyStart raw.toList := by
    have hcancel : numberWidth m.text + bodyShift raw.toList m.text.toList = bodyStart raw.toList :=
      Nat.add_sub_of_le hfits
    rw [Nat.add_left_comm, hcancel]
  unfold sourceOf Source.place toBlock
  rw [hraw, shift_shift]
  show (inner.shift (numberWidth m.text + (lineStart lines m.origin + bodyShift raw.toList m.text.toList))).clamp
    (lineStart lines m.origin + width raw.toList) = _
  rw [hshift]
  refine clamp_eq_self (Nat.add_le_add_right horder _) ?_
  show inner.stop + (lineStart lines m.origin + bodyStart raw.toList) ≤ _
  rw [Nat.add_left_comm, Nat.add_comm inner.stop]
  exact Nat.add_le_add_left hstop _

theorem stop_place_le (s : Source) {span : Span} (h : span.stop ≤ span.start) :
    (s.place span).stop ≤ (s.place span).start := by
  refine Nat.le_min.2 ⟨Nat.le_trans (Nat.min_le_left _ _) (Nat.add_le_add_right h _), Nat.min_le_right _ _⟩

/-- **A span in the body keeps its bytes** when it is moved to the block. -/
theorem under_place {lines : List String} {m : Merged} {raw : String} (hraw : lines[m.origin]? = some raw)
    (hbody : (splitIndex m.text.toList).2 = (bodyOf raw).toList)
    (hfits : numberWidth m.text ≤ bodyStart raw.toList) {span : Span} (hstart : numberWidth m.text ≤ span.start)
    (hstop : span.stop ≤ width m.text.toList) (file : Nat) :
    under (blockText lines) ((sourceOf file lines m).place span) = under m.text span := by
  obtain ⟨number, hmerged, hnumber⟩ := exists_toList_merged m.text
  obtain ⟨before, after, hline, hbefore⟩ := exists_toList_body raw
  obtain ⟨rest, hblock⟩ := exists_toList_blockText hraw
  rw [hbody] at hmerged
  rcases Nat.le_total span.stop span.start with horder | horder
  · rw [under_of_le horder, under_of_le (stop_place_le _ horder)]
  · -- both spans are the same one of the body, moved
    obtain ⟨inner, rfl⟩ := exists_eq_shift hstart (Nat.le_trans hstart horder)
    have hinner : inner.stop ≤ width (bodyOf raw).toList := by
      have hstop' : inner.stop + numberWidth m.text ≤ width m.text.toList := hstop
      rw [hmerged, width_append, hnumber] at hstop'
      omega
    have hfit : bodyStart raw.toList + inner.stop ≤ width raw.toList := by
      rw [hline, width_append, width_append, ← hline, hbefore]
      omega
    have hblock' : (blockText lines).toList =
        (lines.take m.origin).flatMap ended ++ before ++ (bodyOf raw).toList ++ (after ++ rest) := by
      rw [hblock, hline]
      simp only [List.append_assoc]
    have hmerged' : m.text.toList = number ++ (bodyOf raw).toList ++ [] := by rw [hmerged, List.append_nil]
    have hmoved := under_shift hblock' hinner
    rw [width_append, width_flatMap_ended, hbefore] at hmoved
    rw [place_shift hraw hfits (Nat.le_of_add_le_add_right horder) hfit, hmoved, ← hnumber,
      under_shift hmerged' hinner]

/-! ## Labels -/

/-- **Labels point at the offending text.** What a build adds about faults is one diagnostic for each failure, with
one label in the block that it registers; and if the failure lies in the body of its merged line, the bytes under the
label are the bytes of the merged line, unless merging wrote a number longer than what stands before the body in the
raw line, or took the number off a body that begins with another one. (No block has more lines than a machine word
can count.) -/
theorem label_exact {c : Catalog} {owner : String} {lines : List String} (hs : c.stale.contains owner = true)
    (hb : c.blocks.get? owner = some lines) (hl : lines.length ≤ wordBound) :
    ∃ failures new, Failures c.settings owner c.lexicon (merge lines) failures ∧
      (c.build owner).report.files = c.report.files ++ [⟨owner, blockText lines⟩] ∧
      (c.build owner).report.diagnostics =
        (c.forgetOld owner (c.report.addFile owner (blockText lines)).2).diagnostics ++ new ∧
      new.filter Diagnostic.isFault = failures.map (finding c.report.files.length lines) ∧
      ∀ m f, (m, f) ∈ failures → ∃ raw label, lines[m.origin]? = some raw ∧
        (finding c.report.files.length lines (m, f)).labels = [label] ∧ label.file = c.report.files.length ∧
        (numberWidth m.text ≤ f.span.start → f.span.stop ≤ width m.text.toList →
          numberWidth m.text ≤ bodyStart raw.toList → (m.text = bodyOf raw → splitIndex? m.text.toList = none) →
          under (blockText lines) label.span = under m.text f.span) := by
  obtain ⟨failures, new, hfailures, hadds, hfaults, -⟩ := exists_findings_build hs hb
  refine ⟨failures, new, hfailures, ?_, hadds.diagnostics, hfaults, ?_⟩
  · rw [hadds.files]
    unfold forgetOld
    split <;> rfl
  · intro m f hm
    obtain ⟨raw, hraw, hbody⟩ := (hasOrigin_of_mem_merge (hfailures.mem_lines hm)).body hl
    obtain ⟨message, hlabels⟩ := f.exists_labels_diagnostic c.report.files.length
      ((sourceOf c.report.files.length lines m).place f.span)
    exact ⟨raw, _, hraw, hlabels, rfl, fun hstart hstop hfits hlone =>
      under_place hraw (hbody hlone) hfits hstart hstop _⟩

/-- A catalog to which the lines of one owner were added. -/
def withLines (lines : List String) : Catalog := (create .blank .standard).addDescriptors "o" (blockText lines)

theorem label_exact_renumbered :
    let lines := ["  7:  f(x", "0: g(y:int=1,x:int)"]
    let c := withLines lines
    c.stale.contains "o" = true ∧ c.blocks.get? "o" = some lines ∧ lines.length ≤ wordBound ∧
      ∃ failures, Failures c.settings "o" c.lexicon (merge lines) failures ∧ failures.length = 2 ∧
        ∀ m f, (m, f) ∈ failures → ∃ label, (finding 0 lines (m, f)).labels = [label] ∧
          (numberWidth m.text ≤ f.span.start → f.span.stop ≤ width m.text.toList →
            under (blockText lines) label.span = under m.text f.span) := by
  intro lines c
  have hs : c.stale.contains "o" = true := by decide +kernel
  have hb : c.blocks.get? "o" = some lines := by decide +kernel
  have hl : lines.length ≤ wordBound := by decide
  obtain ⟨failures, new, hfailures, -, hadded, hfaults, hlabels⟩ := label_exact hs hb hl
  refine ⟨hs, hb, hl, failures, hfailures, ?_, ?_⟩
  · have hlength := congrArg List.length hfaults
    have hnew : new = (c.build "o").report.diagnostics := hadded.symm
    have htwo : ((c.build "o").report.diagnostics.filter Diagnostic.isFault).length = 2 := by decide +kernel
    rw [hnew, htwo, List.length_map] at hlength
    exact hlength.symm
  · intro m f hm
    have hfits : ∀ m ∈ merge lines, ∀ raw ∈ lines[m.origin]?, numberWidth m.text ≤ bodyStart raw.toList ∧
        (m.text = bodyOf raw → splitIndex? m.text.toList = none) := by decide +kernel
    obtain ⟨raw, label, hraw, hlabel, -, hexact⟩ := hlabels m f hm
    obtain ⟨hfit, hlone⟩ := hfits m (hfailures.mem_lines hm) raw hraw
    exact ⟨label, hlabel, fun hstart hstop => hexact hstart hstop hfit hlone⟩

instance (depth : Nat) (text : String) (e : ParseError) : Decidable (Descriptor.parse depth text = .error e) :=
  match Descriptor.parse depth text with
  | .ok _ => .isFalse nofun
  | .error e' => decidable_of_iff (e' = e) ⟨congrArg _, fun h => Except.error.inj h⟩

/-- A line numbered 3 becomes number 11 of its group: the label stands one byte beside the bracket that is not
closed. -/
theorem label_beside :
    let lines := ["3:z(x", "2:a()", "2:b()", "2:c()", "2:d()", "2:e()", "2:f()", "2:g()", "2:h()", "2:i()", "1:j()",
      "0:k()"]
    let m : Merged := ⟨"11:z(x", 0⟩
    let e : ParseError := ⟨.unclosedBracket .round, ⟨4, 5⟩⟩
    let d := finding 0 lines (m, .unread e)
    m ∈ merge lines ∧ Descriptor.parse (withLines lines).settings.bracketDepth m.text = .error e ∧
      d ∈ ((withLines lines).build "o").report.diagnostics ∧ numberWidth m.text ≤ e.span.start ∧
      e.span.stop ≤ width m.text.toList ∧
      ∀ label ∈ d.labels, under (blockText lines) label.span ≠ under m.text e.span := by
  intro lines m e d
  decide +kernel

end Catalog
end CallSig
