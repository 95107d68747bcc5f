import CallSig.Proofs.Text.Trim

/-!
# `CallSig.Proofs.Text.Collapse` — collapsing blanks from left to right

The words of a text with one space between them can be written down while the text is read. Behind a character that is
no blank, a run of blanks becomes one space if more follows, and any other character stays. So what stands before a
place decides nothing about what comes after it.

## Contents
- **Collapsing by characters.** `squeezed`, `collapse_cons_blank`, `collapse_cons_solid`.
- **Runs.** `squeezed_append_solid`, `squeezed_gap`.
- **Looking ahead.** `takeWhile_squeezed`, `head?_squeezed`, `take_two_squeezed`.
- **Collapsing again.** `squeezed_cons_blank_again`, `collapse_collapse`.
- **Collapsing by rules.** `IsSpace`, `HasWords`, `Collapses`; `hasWords_iff`, `collapses_iff`.
-/

namespace CallSig
namespace Text

/-! ## Collapsing by characters -/

theorem words_cons_blank {c : Char} (hc : isBlank c = true) (cs : List Char) : words (c :: cs) = words cs := by
  unfold words
  rw [cutWhere, if_pos hc]
  rfl

theorem collapse_cons_blank {c : Char} (hc : isBlank c = true) (cs : List Char) : collapse (c :: cs) = collapse cs := by
  unfold collapse
  rw [words_cons_blank hc]

/-- What collapsing leaves of a text that comes behind a character that is no blank. -/
def squeezed : List Char → List Char
  | [] => []
  | c :: cs =>
    if isBlank c then
      match collapse cs with
      | [] => []
      | d :: ds => ' ' :: d :: ds
    else c :: squeezed cs

theorem words_cons_solid_blank {c d : Char} (hc : isBlank c = false) (hd : isBlank d = true) (ds : List Char) :
    words (c :: d :: ds) = [c] :: words ds := by
  unfold words
  rw [cutWhere, if_neg (by simp [hc]), cutWhere, if_pos hd]
  rfl

theorem collapse_cons_solid_solid {c d : Char} (hc : isBlank c = false) (hd : isBlank d = false) (ds : List Char) :
    collapse (c :: d :: ds) = c :: collapse (d :: ds) := by
  obtain ⟨piece, pieces, hcut⟩ : ∃ piece pieces, cutWhere isBlank (d :: ds) = (d :: piece) :: pieces := by
    rw [cutWhere, if_neg (by simp [hd])]
    split
    · exact ⟨[], [], rfl⟩
    · exact ⟨_, _, rfl⟩
  have hcut' : cutWhere isBlank (c :: d :: ds) = (c :: d :: piece) :: pieces := by
    rw [cutWhere, if_neg (by simp [hc]), hcut]
  unfold collapse words
  rw [hcut, hcut', List.filter_cons_of_pos rfl, List.filter_cons_of_pos rfl]
  cases pieces.filter fun w => !w.isEmpty with
  | nil => simp [List.intercalate_singleton]
  | cons word more => simp [List.intercalate_cons_cons]

theorem collapse_cons_solid {c : Char} (hc : isBlank c = false) (cs : List Char) :
    collapse (c :: cs) = c :: squeezed cs := by
  induction cs generalizing c with
  | nil => exact collapse_eq_self (List.forall_mem_singleton.2 hc)
  | cons d ds ih =>
    rw [squeezed]
    cases hd : isBlank d with
    | false =>
      rw [collapse_cons_solid_solid hc hd, ih hd]
      rfl
    | true =>
      unfold collapse
      rw [words_cons_solid_blank hc hd, if_pos rfl]
      cases hw : words ds with
      | nil => simp [List.intercalate_singleton]
      | cons word more =>
        have hword : word ≠ [] := by
          have hmem : word ∈ words ds := hw ▸ List.mem_cons_self
          simpa using (List.mem_filter.1 hmem).2
        obtain ⟨e, es, rfl⟩ := List.exists_cons_of_ne_nil hword
        rw [List.intercalate_cons_cons]
        cases more with
        | nil => simp [List.intercalate_singleton]
        | cons word' more => simp [List.intercalate_cons_cons]

theorem collapse_eq_squeezed {c : Char} {cs : List Char} (hc : isBlank c = false) :
    collapse (c :: cs) = squeezed (c :: cs) := by
  rw [collapse_cons_solid hc, squeezed, if_neg (by simp [hc])]

/-! ## Runs -/

theorem squeezed_cons_solid {c : Char} (hc : isBlank c = false) (cs : List Char) :
    squeezed (c :: cs) = c :: squeezed cs := by
  rw [squeezed, if_neg (by simp [hc])]

theorem squeezed_cons_blank {c : Char} {cs : List Char} (hc : isBlank c = true) (hne : collapse cs ≠ []) :
    squeezed (c :: cs) = ' ' :: collapse cs := by
  rw [squeezed, if_pos hc]
  cases hcs : collapse cs with
  | nil => exact absurd hcs hne
  | cons d ds => rfl

theorem squeezed_append_solid {cs : List Char} (h : ∀ c ∈ cs, isBlank c = false) (rest : List Char) :
    squeezed (cs ++ rest) = cs ++ squeezed rest := by
  induction cs with
  | nil => rfl
  | cons c cs ih =>
    obtain ⟨hc, hcs⟩ := List.forall_mem_cons.1 h
    rw [List.cons_append, squeezed_cons_solid hc, ih hcs]
    rfl

theorem collapse_blanks {gap : List Char} (h : ∀ c ∈ gap, isBlank c = true) (rest : List Char) :
    collapse (gap ++ rest) = collapse rest := by
  induction gap with
  | nil => rfl
  | cons c gap ih =>
    obtain ⟨hc, hgap⟩ := List.forall_mem_cons.1 h
    rw [List.cons_append, collapse_cons_blank hc, ih hgap]

/-- The blanks that are left of blanks between words. -/
def oneSpace (gap : List Char) : List Char := if gap.isEmpty then [] else [' ']

/-- Blanks before a word become one space. -/
theorem squeezed_gap {gap : List Char} (h : ∀ c ∈ gap, isBlank c = true) {c : Char} (hc : isBlank c = false)
    (cs : List Char) : squeezed (gap ++ c :: cs) = oneSpace gap ++ c :: squeezed cs := by
  cases gap with
  | nil => exact squeezed_cons_solid hc cs
  | cons d gap =>
    obtain ⟨hd, hgap⟩ := List.forall_mem_cons.1 h
    rw [List.cons_append, squeezed, if_pos hd, collapse_blanks hgap, collapse_cons_solid hc]
    rfl

/-! ## Looking ahead -/

/-- The text begins with the same characters as before, as far as they are of a class without blanks. -/
theorem takeWhile_squeezed {p : Char → Bool} (hp : ∀ c, isBlank c = true → p c = false) (cs : List Char) :
    (squeezed cs).takeWhile p = cs.takeWhile p := by
  induction cs with
  | nil => rfl
  | cons c cs ih =>
    rw [squeezed]
    cases hc : isBlank c with
    | false => simp only [Bool.false_eq_true, if_false, List.takeWhile_cons, ih]
    | true =>
      rw [if_pos rfl, List.takeWhile_cons_of_neg (by simp [hp c hc])]
      cases collapse cs with
      | nil => rfl
      | cons d ds => exact List.takeWhile_cons_of_neg (by simp [hp ' ' (by decide)])

theorem head?_squeezed {d : Char} (hd : isBlank d = false) (cs : List Char) :
    (squeezed cs).head? = some d ↔ cs.head? = some d := by
  cases cs with
  | nil => exact Iff.rfl
  | cons c cs =>
    rw [squeezed]
    cases hc : isBlank c with
    | false => exact Iff.rfl
    | true =>
      have hne : c ≠ d := by
        rintro rfl
        rw [hd] at hc
        cases hc
      have hspace : ' ' ≠ d := by
        rintro rfl
        exact absurd hd (by decide)
      cases collapse cs <;> simp [hne, hspace]

theorem take_two_squeezed {d e : Char} (hd : isBlank d = false) (he : isBlank e = false) (cs : List Char) :
    (squeezed cs).take 2 = [d, e] ↔ cs.take 2 = [d, e] := by
  have htake (cs : List Char) : cs.take 2 = [d, e] ↔ cs.head? = some d ∧ cs.tail.head? = some e := by
    cases cs with
    | nil => simp
    | cons c cs => cases cs <;> simp
  rw [htake, htake, head?_squeezed hd]
  refine and_congr_right fun hhead => ?_
  obtain ⟨cs, rfl⟩ := List.head?_eq_some_iff.1 hhead
  rw [squeezed_cons_solid hd]
  exact head?_squeezed he cs

/-! ## Collapsing again -/

/-- A blank in front of collapsed text stays one space, or goes with the text. -/
theorem squeezed_cons_blank_again {c : Char} {cs : List Char} (hc : isBlank c = true)
    (h : collapse (collapse cs) = collapse cs) : squeezed (squeezed (c :: cs)) = squeezed (c :: cs) := by
  by_cases hnil : collapse cs = []
  · have hnone : squeezed (c :: cs) = [] := by simp [squeezed, hc, hnil]
    rw [hnone]
    rfl
  · have hspace : isBlank ' ' = true := by decide
    rw [squeezed_cons_blank hc hnil, squeezed_cons_blank hspace (by rwa [h]), h]

/-- **Collapsing twice is collapsing once**, also behind a character that is no blank. -/
theorem collapse_collapse_and_squeezed (cs : List Char) :
    collapse (collapse cs) = collapse cs ∧ squeezed (squeezed cs) = squeezed cs := by
  -- each of the two goes on with the other: a blank hands over to `collapse`, any other character to `squeezed`
  induction cs with
  | nil => exact ⟨rfl, rfl⟩
  | cons c cs ih =>
    obtain ⟨hcollapse, hsqueezed⟩ := ih
    cases hc : isBlank c with
    | true =>
      refine ⟨?_, squeezed_cons_blank_again hc hcollapse⟩
      rw [collapse_cons_blank hc, hcollapse]
    | false =>
      have hagain : collapse (c :: squeezed cs) = c :: squeezed cs := by rw [collapse_cons_solid hc, hsqueezed]
      refine ⟨?_, ?_⟩
      · rw [collapse_cons_solid hc, hagain]
      · rw [squeezed_cons_solid hc, squeezed_cons_solid hc, hsqueezed]

theorem collapse_collapse (cs : List Char) : collapse (collapse cs) = collapse cs :=
  (collapse_collapse_and_squeezed cs).1

/-! ## Collapsing by rules -/

/-- The code points of white space. -/
def spacePoints : List Nat :=
  [0x09, 0x0A, 0x0B, 0x0C, 0x0D, 0x20, 0x85, 0xA0, 0x1680, 0x2000, 0x2001, 0x2002, 0x2003, 0x2004, 0x2005, 0x2006,
   0x2007, 0x2008, 0x2009, 0x200A, 0x2028, 0x2029, 0x202F, 0x205F, 0x3000]

/-- The character is white space. -/
def IsSpace (c : Char) : Prop := c.toNat ∈ spacePoints

/-- The text has these words: runs without white space that end where white space or nothing follows. -/
inductive HasWords : List Char → List (List Char) → Prop
  | nil : HasWords [] []
  | space {c : Char} {cs : List Char} {ws : List (List Char)} (hc : IsSpace c) (h : HasWords cs ws) :
      HasWords (c :: cs) ws
  | word {w cs : List Char} {ws : List (List Char)} (hne : w ≠ []) (hw : ∀ c ∈ w, ¬IsSpace c)
      (hend : ∀ c, cs.head? = some c → IsSpace c) (h : HasWords cs ws) : HasWords (w ++ cs) (w :: ws)

/-- The second text is the first one with all its runs of white space collapsed: its words with one space between
them. -/
def Collapses (cs collapsed : List Char) : Prop := ∃ ws, HasWords cs ws ∧ collapsed = [' '].intercalate ws

theorem isSpace_iff (c : Char) : IsSpace c ↔ isBlank c = true := by
  unfold IsSpace spacePoints isBlank
  simp only [List.mem_cons, List.not_mem_nil, or_false, Bool.or_eq_true, Bool.and_eq_true, decide_eq_true_eq,
    beq_iff_eq]
  omega

theorem not_isSpace_iff (c : Char) : ¬IsSpace c ↔ isBlank c = false := by
  rw [isSpace_iff, Bool.not_eq_true]

theorem HasWords.words_eq {cs : List Char} {ws : List (List Char)} (h : HasWords cs ws) : words cs = ws := by
  induction h with
  | nil => rfl
  | space hc _ ih => rw [words_cons_blank ((isSpace_iff _).1 hc), ih]
  | @word w cs ws hne hw hend _ ih =>
    have hsolid : ∀ c ∈ w, isBlank c = false := fun c hc => (not_isSpace_iff c).1 (hw c hc)
    cases cs with
    | nil =>
      rw [← ih, List.append_nil]
      unfold words
      rw [cutWhere_eq_singleton hsolid, List.filter_cons_of_pos (by simpa using hne)]
      rfl
    | cons c cs =>
      have hc : isBlank c = true := (isSpace_iff c).1 (hend c rfl)
      rw [words_append_cons hne hsolid hc, ← words_cons_blank hc, ih]

theorem exists_hasWords (cs : List Char) : ∃ ws, HasWords cs ws := by
  induction cs with
  | nil => exact ⟨[], .nil⟩
  | cons c cs ih =>
    obtain ⟨ws, h⟩ := ih
    by_cases hc : IsSpace c
    · exact ⟨ws, .space hc h⟩
    · -- the character is a word of its own, or it begins the word that follows
      cases h with
      | nil => exact ⟨[[c]], .word (List.cons_ne_nil c []) (List.forall_mem_singleton.2 hc) nofun .nil⟩
      | space hd h =>
        refine ⟨[c] :: ws, .word (List.cons_ne_nil c []) (List.forall_mem_singleton.2 hc) ?_ (.space hd h)⟩
        rintro _ ⟨⟩
        exact hd
      | word hne hw hend h =>
        exact ⟨_, .word (List.cons_ne_nil c _) (List.forall_mem_cons.2 ⟨hc, hw⟩) hend h⟩

theorem hasWords_iff {cs : List Char} {ws : List (List Char)} : HasWords cs ws ↔ ws = words cs := by
  refine ⟨fun h => h.words_eq.symm, ?_⟩
  rintro rfl
  obtain ⟨ws, h⟩ := exists_hasWords cs
  rwa [h.words_eq]

/-- **The rules say what collapsing computes.** -/
theorem collapses_iff {cs collapsed : List Char} : Collapses cs collapsed ↔ collapsed = collapse cs := by
  simp only [Collapses, hasWords_iff, exists_eq_left]
  rfl

end Text
end CallSig
