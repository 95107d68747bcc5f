import CallSig.Lexeme.Pieces
import CallSig.Proofs.Text.Trim

/-!
# `CallSig.Proofs.Lexeme.Spelling` — lexemes spell their text

The scanner drops nothing but the blanks at the end of a text, and cutting at commas only leaves lexemes out, so
no piece is longer than the text it was cut from. This bounds the recursion through the arguments of a type.

## Contents
- **Spelling.** `spelled`, `spelled_scan`, `length_runText_le`.
- **Pieces.** `cut_sublist`, `pieces_sublist`, `length_le_of_splitText`.
-/

namespace CallSig
namespace Lexeme

/-! ## Spelling -/

/-- What lexemes spell with the blanks before them. -/
def spelled (xs : List Lexeme) : List Char := xs.flatMap fun x => x.gap ++ x.text

@[simp] theorem spelled_nil : spelled [] = [] := rfl

@[simp] theorem spelled_cons (x : Lexeme) (xs : List Lexeme) :
    spelled (x :: xs) = x.gap ++ x.text ++ spelled xs := rfl

theorem eq_ok_of_map_eq_ok {ε α β : Type} {r : Except ε α} {f : α → β} {b : β} (h : r.map f = .ok b) :
    ∃ a, r = .ok a ∧ f a = b := by
  cases r with
  | error e => cases h
  | ok a => exact ⟨a, rfl, Except.ok.inj h⟩

/-- **The lexemes of a text spell it**, up to the blanks it ends with. -/
theorem spelled_scan {start : Nat} {cs : List Char} :
    ∀ {xs : List Lexeme}, scan start cs = .ok xs → ∃ tail, cs = spelled xs ++ tail ∧ ∀ c ∈ tail, isGap c = true := by
  fun_induction scan start cs with
  | case1 start cs hd =>
    intro xs h
    cases h
    refine ⟨cs, rfl, fun c hc => ?_⟩
    rw [← List.takeWhile_append_dropWhile (p := isGap) (l := cs), hd, List.append_nil] at hc
    exact List.all_eq_true.1 List.all_takeWhile c hc
  | case2 =>
    intro xs h
    cases h
  | case3 start cs gap c rest hd here token n hr text =>
    rename_i ih
    intro xs h
    obtain ⟨ys, hys, rfl⟩ := eq_ok_of_map_eq_ok h
    obtain ⟨tail, ht, hgaps⟩ := ih hys
    refine ⟨tail, ?_, hgaps⟩
    calc cs = gap ++ cs.dropWhile isGap := (List.takeWhile_append_dropWhile).symm
      _ = gap ++ (c :: (rest.take n ++ rest.drop n)) := by rw [hd, List.take_append_drop]
      _ = gap ++ (text ++ (spelled ys ++ tail)) := by rw [← ht]; rfl
      _ = spelled (⟨token, gap, text, here⟩ :: ys) ++ tail := by simp

theorem length_runText_le (xs : List Lexeme) : (runText xs).length ≤ (spelled xs).length := by
  cases xs with
  | nil => exact Nat.le_refl 0
  | cons x xs =>
    show (x.text ++ spelled xs).length ≤ _
    simp only [spelled_cons, List.length_append]
    omega

/-! ## Pieces -/

theorem length_spelled_le {xs ys : List Lexeme} (h : xs.Sublist ys) :
    (spelled xs).length ≤ (spelled ys).length := by
  induction h with
  | slnil => exact Nat.le_refl _
  | cons y _ ih =>
    simp only [spelled_cons, List.length_append]
    omega
  | cons_cons y _ ih =>
    simp only [spelled_cons, List.length_append]
    omega

/-- Every piece is a part of these lexemes. -/
def PiecesOf (xs : List Lexeme) (r : Except ParseError (List Lexeme × List (List Lexeme))) : Prop :=
  ∀ {piece more}, r = .ok (piece, more) → ∀ p ∈ piece :: more, p.Sublist xs

theorem PiecesOf.push {xs : List Lexeme} {r : Except ParseError (List Lexeme × List (List Lexeme))}
    (h : PiecesOf xs r) (x : Lexeme) : PiecesOf (x :: xs) (r.map fun (piece, more) => (x :: piece, more)) := by
  intro piece more hr p hp
  obtain ⟨⟨piece', more'⟩, hc, he⟩ := eq_ok_of_map_eq_ok hr
  cases he
  rcases List.mem_cons.1 hp with rfl | hp
  · exact (h hc piece' List.mem_cons_self).cons_cons x
  · exact (h hc p (List.mem_cons_of_mem _ hp)).cons x

theorem PiecesOf.separate {xs : List Lexeme} {r : Except ParseError (List Lexeme × List (List Lexeme))}
    (h : PiecesOf xs r) (x : Lexeme) : PiecesOf (x :: xs) (r.map fun (piece, more) => ([], piece :: more)) := by
  intro piece more hr p hp
  obtain ⟨⟨piece', more'⟩, hc, he⟩ := eq_ok_of_map_eq_ok hr
  cases he
  rcases List.mem_cons.1 hp with rfl | hp
  · exact List.nil_sublist _
  · exact (h hc p hp).cons x

theorem cut_sublist (limit : Nat) (opened : List (Bracket × Span)) (xs : List Lexeme) :
    PiecesOf xs (cut limit opened xs) := by
  -- every branch of the cutter puts the lexeme into the first piece or ends a piece at it
  fun_induction cut limit opened xs with
  | case1 =>
    intro piece more h
    cases h
    simp
  | case2 | case3 | case6 | case7 =>
    intro piece more h
    cases h
  | case8 x xs _ ih => exact ih.separate x
  | case4 _ x _ _ _ _ ih => exact ih.push x
  | case5 x _ _ _ _ _ ih => exact ih.push x
  | case9 _ x _ _ _ ih => exact ih.push x
  | case10 _ x _ _ _ _ ih => exact ih.push x

theorem pieces_sublist {limit : Nat} {xs : List Lexeme} {found : List (List Lexeme)}
    (h : pieces limit xs = .ok found) : ∀ p ∈ found, p.Sublist xs := by
  unfold pieces at h
  split at h
  · cases h
    intro p hp
    cases hp
  · obtain ⟨⟨piece, more⟩, hc, rfl⟩ := eq_ok_of_map_eq_ok h
    exact cut_sublist limit [] xs hc

/-- No piece of a text is longer than the text. -/
theorem length_le_of_splitText {limit : Nat} {cs : List Char} {texts : List (List Char)}
    (h : splitText limit cs = .ok texts) : ∀ t ∈ texts, t.length ≤ cs.length := by
  unfold splitText at h
  cases hx : ofText cs with
  | error e => rw [hx] at h; cases h
  | ok xs =>
    rw [hx] at h
    obtain ⟨found, hf, rfl⟩ := eq_ok_of_map_eq_ok (show (pieces limit xs).map (·.map runText) = .ok texts from h)
    obtain ⟨tail, hcs, -⟩ := spelled_scan hx
    intro t ht
    obtain ⟨p, hp, rfl⟩ := List.mem_map.1 ht
    calc (runText p).length ≤ (spelled p).length := length_runText_le p
      _ ≤ (spelled xs).length := length_spelled_le (pieces_sublist hf p hp)
      _ ≤ cs.length := by rw [hcs, List.length_append]; omega

end Lexeme
end CallSig
