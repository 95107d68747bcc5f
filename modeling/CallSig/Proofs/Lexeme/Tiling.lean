import CallSig.Proofs.Lexeme.Longest
import Mathlib.Data.List.TakeWhile

/-!
# `CallSig.Proofs.Lexeme.Tiling` — lexemes tile their text

Every later stage cuts its texts at the places of lexemes, so the places have to be right for all texts. The scanner
goes from left to right and leaves only blanks out: what it has read, up to any place where it stops, covers the text up
to there without a gap and without an overlap, each lexeme being the longest that begins where it stands. The other way
round, a text that is covered in this way is read so. It follows what an error means: up to its place the text is read
as if it ended there, and at its place nothing begins.

## Contents
- **Tilings.** `Tiled`, `scan_of_tiled`.
- **The scanner with a record.** `recorded`, `scan_eq_recorded`; `tiled_recorded`, `scan_eq_ok_iff`.
- **Places.** `Tiled.start_le`, `Tiled.ordered`, `Tiled.placed`, `Tiled.covers`.
- **Texts.** `Tiles`, `Tiled.tiles`; `Stuck`, `tiles_or_stuck`.
-/

namespace CallSig
namespace Lexeme

open Text

/-! ## Tilings -/

/-- The text, which begins at a byte offset and has `after` behind it, consists of blanks and these lexemes, each in its
place and the longest one there. -/
inductive Tiled (after : List Char) : Nat → List Char → List Lexeme → Prop
  | blanks {start : Nat} {gap : List Char} (h : ∀ c ∈ gap, isGap c = true) : Tiled after start gap []
  | lexeme {start : Nat} {x : Lexeme} {xs : List Lexeme} {rest : List Char} (hgap : ∀ c ∈ x.gap, isGap c = true)
      (hstart : x.start = start + width x.gap) (hlongest : IsLongest x.token x.text (rest ++ after))
      (h : Tiled after x.span.stop rest xs) : Tiled after start (x.gap ++ x.text ++ rest) (x :: xs)

theorem not_isGap_of_spells {token : Token} {c : Char} {cs : List Char} (h : Spells token (c :: cs)) :
    isGap c = false := by
  obtain ⟨found, n, hread, -⟩ := read?_of_spells h []
  rw [← Bool.not_eq_true]
  intro hgap
  have hblank := Word.not_isBlank_of_read? hread
  rw [Word.isBlank_of_isGap hgap] at hblank
  cases hblank

theorem readsBefore_of_isLongest {x : Lexeme} {rest : List Char} (hgap : ∀ c ∈ x.gap, isGap c = true)
    (h : IsLongest x.token x.text rest) : x.word.ReadsBefore rest := by
  obtain ⟨c, cs, htext⟩ := h.1.exists_cons
  rw [htext] at h
  exact ⟨hgap, c, cs, htext, not_isGap_of_spells h.1, read?_eq_some_iff.2 h⟩

theorem scan_blanks {gap : List Char} (h : ∀ c ∈ gap, isGap c = true) (start : Nat) : scan start gap = .ok [] := by
  have hdrop : gap.dropWhile isGap = [] := List.dropWhile_eq_nil_iff.2 h
  rw [scan]
  split
  · rfl
  · next hcons =>
    rw [hdrop] at hcons
    cases hcons

/-- **A text that is tiled is read as its tiles**, whatever stood behind it. -/
theorem scan_of_tiled {after : List Char} {start : Nat} {cs : List Char} {xs : List Lexeme}
    (h : Tiled after start cs xs) : scan start cs = .ok xs := by
  induction h with
  | blanks h => exact scan_blanks h _
  | lexeme hgap hstart hlongest _ ih =>
    rw [scan_lexeme (readsBefore_of_isLongest hgap hlongest.cut) hstart, ih]
    rfl

/-! ## The scanner with a record -/

/-- The lexemes that the scanner has read when it stops, and the error that it stops at, unless it is the end of the
text. -/
def recorded (start : Nat) (cs : List Char) : List Lexeme × Option ParseError :=
  let gap := cs.takeWhile isGap
  match _h : cs.dropWhile isGap with
  | [] => ([], none)
  | c :: rest =>
    let here := start + Text.width gap
    match Token.read? c rest with
    | none => ([], some (errorAt here c rest))
    | some (token, n) =>
      let text := c :: rest.take n
      let later := recorded (here + Text.width text) (rest.drop n)
      (⟨token, gap, text, here⟩ :: later.1, later.2)
termination_by cs.length
decreasing_by
  have hle := Text.length_dropWhile_le isGap cs
  rw [_h] at hle
  simp only [List.length_cons, List.length_drop] at *
  omega

/-- The record changes nothing about what is returned. -/
theorem scan_eq_recorded (start : Nat) (cs : List Char) :
    scan start cs =
      match (recorded start cs).2 with
      | none => .ok (recorded start cs).1
      | some e => .error e := by
  fun_induction recorded start cs with
  | case1 start cs hd =>
    rw [scan]
    split
    · rfl
    · next hcons => simp [hd] at hcons
  | case2 start cs gap c rest hd here hr =>
    rw [scan]
    split
    · next hnil => simp [hd] at hnil
    · next c' rest' hcons =>
      obtain ⟨rfl, rfl⟩ := List.cons.inj (hd.symm.trans hcons)
      rw [hr]
  | case3 start cs gap c rest hd here token n hr text later ih =>
    rw [scan]
    split
    · next hnil => simp [hd] at hnil
    · next c' rest' hcons =>
      obtain ⟨rfl, rfl⟩ := List.cons.inj (hd.symm.trans hcons)
      rw [hr]
      dsimp only
      rw [ih]
      cases later.2 <;> rfl

theorem recorded_of_ok {start : Nat} {cs : List Char} {xs : List Lexeme} (h : scan start cs = .ok xs) :
    recorded start cs = (xs, none) := by
  rw [scan_eq_recorded] at h
  split at h
  · next hend => exact Prod.ext (Except.ok.inj h) hend
  · cases h

theorem recorded_of_error {start : Nat} {cs : List Char} {e : ParseError} (h : scan start cs = .error e) :
    (recorded start cs).2 = some e := by
  rw [scan_eq_recorded] at h
  split at h
  · cases h
  · next hend => rw [hend, Except.error.inj h]

/-- **Where the scanner stops**, the text before it is tiled by what has been read, and either the text ends there or no
token begins. -/
theorem tiled_recorded (start : Nat) (cs : List Char) :
    ∃ front after, cs = front ++ after ∧ Tiled after start front (recorded start cs).1 ∧
      match (recorded start cs).2 with
      | none => after = []
      | some e => ∃ c back, after = c :: back ∧ isGap c = false ∧ Token.read? c back = none ∧
          e = errorAt (start + width front) c back := by
  have hgaps (cs : List Char) : ∀ c ∈ cs.takeWhile isGap, isGap c = true := by
    intro c hc
    exact List.all_eq_true.1 List.all_takeWhile c hc
  have hhead {cs rest : List Char} {c : Char} (hd : cs.dropWhile isGap = c :: rest) : isGap c = false := by
    have hnot := List.head?_dropWhile_not isGap cs
    rw [hd] at hnot
    simpa using hnot
  fun_induction recorded start cs with
  | case1 start cs hd =>
    refine ⟨cs, [], (List.append_nil cs).symm, .blanks ?_, rfl⟩
    exact List.dropWhile_eq_nil_iff.1 hd
  | case2 start cs gap c rest hd here hr =>
    refine ⟨gap, c :: rest, ?_, .blanks (hgaps cs), c, rest, rfl, hhead hd, hr, rfl⟩
    rw [← hd]
    exact List.takeWhile_append_dropWhile.symm
  | case3 start cs gap c rest hd here token n hr text later ih =>
    obtain ⟨front, after, hrest, htiled, hstop⟩ := ih
    have hcs : cs = gap ++ text ++ front ++ after := by
      calc cs = gap ++ cs.dropWhile isGap := List.takeWhile_append_dropWhile.symm
        _ = gap ++ c :: (rest.take n ++ rest.drop n) := by rw [hd, List.take_append_drop]
        _ = gap ++ text ++ front ++ after := by simp [text, hrest]
    have hlongest : IsLongest token text (front ++ after) := by
      have hlength : (rest.take n).length = n := by
        rw [List.length_take]
        exact Nat.min_eq_left (length_le_of_read? hr)
      refine read?_eq_some_iff.1 ?_
      rw [← hrest, List.take_append_drop, hlength]
      exact hr
    refine ⟨gap ++ text ++ front, after, hcs, ?_, ?_⟩
    · exact .lexeme (x := ⟨token, gap, text, here⟩) (hgaps cs) rfl hlongest htiled
    · have hwidth : start + width (gap ++ text ++ front) = here + width text + width front := by
        simp only [width_append, here]
        omega
      rw [hwidth]
      exact hstop

theorem scan_eq_ok_iff {start : Nat} {cs : List Char} {xs : List Lexeme} :
    scan start cs = .ok xs ↔ Tiled [] start cs xs := by
  refine ⟨fun h => ?_, scan_of_tiled⟩
  obtain ⟨front, after, hcs, htiled, hstop⟩ := tiled_recorded start cs
  rw [recorded_of_ok h] at htiled hstop
  obtain rfl : after = [] := hstop
  rwa [hcs, List.append_nil]

/-! ## Places -/

variable {after : List Char} {start : Nat} {cs : List Char} {xs : List Lexeme}

theorem width_pos_of_spells {token : Token} {text : List Char} (h : Spells token text) : 0 < width text := by
  obtain ⟨c, cs, rfl⟩ := h.exists_cons
  rw [width_cons]
  exact Nat.add_pos_left c.utf8Size_pos _

theorem Tiled.start_le (h : Tiled after start cs xs) : ∀ x ∈ xs, start ≤ x.start := by
  induction h with
  | blanks => exact List.forall_mem_nil _
  | lexeme _ hstart _ _ ih =>
    intro y hy
    rcases List.mem_cons.1 hy with rfl | hy
    · omega
    · have hle := ih y hy
      simp only [span] at hle
      omega

theorem Tiled.nonempty (h : Tiled after start cs xs) : ∀ x ∈ xs, x.span.start < x.span.stop := by
  induction h with
  | blanks => exact List.forall_mem_nil _
  | lexeme _ _ hlongest _ ih =>
    intro y hy
    rcases List.mem_cons.1 hy with rfl | hy
    · exact Nat.lt_add_of_pos_right (width_pos_of_spells hlongest.1)
    · exact ih y hy

/-- The lexemes follow one another without an overlap. -/
theorem Tiled.ordered (h : Tiled after start cs xs) :
    xs.Pairwise fun x y => x.span.start < y.span.start ∧ x.span.stop ≤ y.span.start := by
  induction h with
  | blanks => exact .nil
  | lexeme _ _ hlongest h ih =>
    refine .cons (fun y hy => ?_) ih
    have hle := h.start_le y hy
    exact ⟨Nat.lt_of_lt_of_le (Nat.lt_add_of_pos_right (width_pos_of_spells hlongest.1)) hle, hle⟩

/-- Every lexeme stands where its span says, between two characters, and is the longest one there. -/
theorem Tiled.placed (h : Tiled after start cs xs) :
    ∀ front, width front = start → ∀ x ∈ xs, ∃ before rest, front ++ cs = before ++ x.text ++ rest ∧
      x.span = ⟨width before, width (before ++ x.text)⟩ ∧ IsLongest x.token x.text (rest ++ after) := by
  induction h with
  | blanks => exact fun _ _ => List.forall_mem_nil _
  | @lexeme start x xs rest _ hstart hlongest _ ih =>
    intro front hfront y hy
    have hx : x.span = ⟨width (front ++ x.gap), width (front ++ x.gap ++ x.text)⟩ := by
      simp only [span, width_append, hstart, hfront]
    rcases List.mem_cons.1 hy with rfl | hy
    · exact ⟨front ++ y.gap, rest, by simp, hx, hlongest⟩
    · obtain ⟨before, back, htext, hspan, hy⟩ := ih (front ++ x.gap ++ x.text) (by rw [hx]) y hy
      exact ⟨before, back, by rw [← htext]; simp, hspan, hy⟩

theorem utf8Size_of_isGap {c : Char} (h : isGap c = true) : c.utf8Size = 1 := by
  rcases Word.isGap_cases h with rfl | rfl | rfl | rfl <;> decide

/-- Every byte of blanks is a blank. -/
theorem exists_blank_at {gap : List Char} (h : ∀ c ∈ gap, isGap c = true) :
    ∀ i, i < width gap → ∃ before c back, gap = before ++ c :: back ∧ width before = i ∧ isGap c = true := by
  induction gap with
  | nil => exact fun i hi => absurd hi (Nat.not_lt_zero i)
  | cons c gap ih =>
    intro i hi
    obtain ⟨hc, hgap⟩ := List.forall_mem_cons.1 h
    have hsize := utf8Size_of_isGap hc
    rw [width_cons, hsize] at hi
    cases i with
    | zero => exact ⟨[], c, gap, rfl, rfl, hc⟩
    | succ i =>
      obtain ⟨before, d, back, hgap, hwidth, hd⟩ := ih hgap i (by omega)
      refine ⟨c :: before, d, back, by rw [hgap]; rfl, ?_, hd⟩
      rw [width_cons, hsize, hwidth]
      omega

/-- **Every byte** belongs to a lexeme or is a blank. -/
theorem Tiled.covers (h : Tiled after start cs xs) :
    ∀ i, start ≤ i → i < start + width cs → (∃ x ∈ xs, x.span.start ≤ i ∧ i < x.span.stop) ∨
      ∃ before c back, cs = before ++ c :: back ∧ start + width before = i ∧ isGap c = true := by
  induction h with
  | @blanks start gap h =>
    intro i hle hlt
    obtain ⟨before, c, back, htext, hwidth, hc⟩ := exists_blank_at h (i - start) (by omega)
    exact .inr ⟨before, c, back, htext, by omega, hc⟩
  | @lexeme start x xs rest hgap hstart _ _ ih =>
    intro i hle hlt
    have hstop : x.span.stop = start + width x.gap + width x.text := by
      show x.start + width x.text = _
      rw [hstart]
    simp only [width_append] at hlt
    by_cases hbefore : i < x.start
    · obtain ⟨before, c, back, htext, hwidth, hc⟩ := exists_blank_at hgap (i - start) (by omega)
      exact .inr ⟨before, c, back ++ x.text ++ rest, by rw [htext]; simp, by omega, hc⟩
    by_cases hwithin : i < x.span.stop
    · exact .inl ⟨x, List.mem_cons_self, Nat.le_of_not_lt hbefore, hwithin⟩
    rcases ih i (by omega) (by omega) with ⟨y, hy, hspan⟩ | ⟨before, c, back, htext, hwidth, hc⟩
    · exact .inl ⟨y, List.mem_cons_of_mem _ hy, hspan⟩
    · refine .inr ⟨x.gap ++ x.text ++ before, c, back, by rw [htext]; simp, ?_, hc⟩
      simp only [width_append]
      omega

/-! ## Texts -/

/-- **The lexemes tile the text.** -/
structure Tiles (cs : List Char) (xs : List Lexeme) : Prop where
  nonempty : ∀ x ∈ xs, x.span.start < x.span.stop
  ordered : xs.Pairwise fun x y => x.span.start < y.span.start ∧ x.span.stop ≤ y.span.start
  within : ∀ x ∈ xs, x.span.stop ≤ width cs
  /-- A span begins and ends between two characters, and what stands there is the longest token. -/
  longest : ∀ x ∈ xs, ∃ before after, cs = before ++ x.text ++ after ∧
    x.span = ⟨width before, width (before ++ x.text)⟩ ∧ IsLongest x.token x.text after
  /-- A byte outside all spans is a space, a tab, a carriage return or a line feed. -/
  blank : ∀ i, i < width cs → (∀ x ∈ xs, ¬(x.span.start ≤ i ∧ i < x.span.stop)) →
    ∃ before c after, cs = before ++ c :: after ∧ width before = i ∧ c ∈ [' ', '\t', '\r', '\n']

theorem Tiled.tiles (h : Tiled [] 0 cs xs) : Tiles cs xs := by
  have hplaced := h.placed [] rfl
  refine ⟨h.nonempty, h.ordered, fun x hx => ?_, fun x hx => ?_, fun i hi houtside => ?_⟩
  · obtain ⟨before, rest, htext, hspan, -⟩ := hplaced x hx
    rw [hspan, show cs = before ++ x.text ++ rest from htext, width_append _ rest]
    exact Nat.le_add_right _ _
  · obtain ⟨before, rest, htext, hspan, hlongest⟩ := hplaced x hx
    exact ⟨before, rest, htext, hspan, by simpa using hlongest⟩
  · rcases h.covers i (Nat.zero_le i) (by omega) with ⟨x, hx, hspan⟩ | ⟨before, c, back, htext, hwidth, hc⟩
    · exact absurd hspan (houtside x hx)
    · exact ⟨before, c, back, htext, by omega, by simpa using Word.isGap_cases hc⟩

/-- **The scanner is stuck** at a place of the text. -/
structure Stuck (cs : List Char) (e : ParseError) (front : List Char) (c : Char) (back : List Char) : Prop where
  text : cs = front ++ c :: back
  place : e.span.start = width front
  /-- What stands before is read on its own as it has been read in the text. -/
  before : ofText front = .ok (recorded 0 cs).1
  notBlank : c ∉ [' ', '\t', '\r', '\n']
  /-- No token begins here. -/
  noToken : ∀ token text, Spells token text → ¬text <+: c :: back
  error : e = if c = '"' ∨ c = '\'' then ⟨.unterminatedString, ⟨width front, width cs⟩⟩
    else ⟨.unexpectedCharacter c, ⟨width front, width front + c.utf8Size⟩⟩

/-- **The lexemes of a text tile it**, and where a text has none the scanner is stuck at a character that begins
nothing. -/
theorem tiles_or_stuck (cs : List Char) :
    match ofText cs with
    | .ok xs => Tiles cs xs
    | .error e => ∃ front c back, Stuck cs e front c back := by
  cases hscan : ofText cs with
  | ok xs => exact (scan_eq_ok_iff.1 hscan).tiles
  | error e =>
    obtain ⟨front, after, hcs, htiled, hstop⟩ := tiled_recorded 0 cs
    rw [recorded_of_error hscan] at hstop
    obtain ⟨c, back, rfl, hgap, hread, rfl⟩ := hstop
    have hwidth : width cs = width front + width (c :: back) := by rw [hcs, width_append]
    have herror : errorAt (0 + width front) c back = if c = '"' ∨ c = '\'' then
        ⟨.unterminatedString, ⟨width front, width cs⟩⟩
        else ⟨.unexpectedCharacter c, ⟨width front, width front + c.utf8Size⟩⟩ := by
      rw [Nat.zero_add, errorAt, hwidth]
    refine ⟨front, c, back, hcs, ?_, scan_of_tiled htiled, ?_, read?_eq_none_iff.1 hread, herror⟩
    · show (errorAt (0 + width front) c back).span.start = width front
      rw [herror]
      split <;> rfl
    · intro hmem
      have hblank : isGap c = true := by simpa [isGap, or_assoc] using hmem
      rw [hgap] at hblank
      cases hblank

end Lexeme
end CallSig
