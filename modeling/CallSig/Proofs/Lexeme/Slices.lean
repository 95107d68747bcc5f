import CallSig.Proofs.Descriptor.Places
import CallSig.Proofs.Lexeme.Splitting

/-!
# `CallSig.Proofs.Lexeme.Slices` — the text of a run is read as the run

Types and defaults are runs of lexemes when a line is parsed, texts when they are handed on, and runs again when they are
resolved. The text of a run is cut out of the line at the places of its first and its last lexeme, so its tiling is the
tiling of the line between these places, moved to the beginning of a text. Blanks that are collapsed afterwards change
no token and the spelling of string literals only, and collapsing them once more changes nothing.

## Contents
- **Tilings at another place.** `Tiled.flush` (without the blanks before the first lexeme), `Tiled.moved_sub`.
- **Slices.** `sliced`, `ofText_runText`; `SameFrom`, `sameFrom_sliced`.
- **Collapsed slices.** `SameUnquoted`, `sameUnquoted_of_squeezes`.
- **Both.** `slices_read_alike`, `slices_read_alike_quoted`.
-/

namespace CallSig
namespace Lexeme

open Text

/-! ## Tilings at another place -/

/-- Without the blanks before its first lexeme, a run tiles its own text. -/
theorem Tiled.flush {after : List Char} {start : Nat} {x : Lexeme} {xs : List Lexeme}
    (h : Tiled after start (spelled (x :: xs)) (x :: xs)) :
    Tiled after x.start (runText (x :: xs)) ({ x with gap := [] } :: xs) := by
  generalize hcs : spelled (x :: xs) = cs at h
  cases h with
  | lexeme _ _ hlongest hrest =>
    obtain rfl := List.append_cancel_left hcs
    apply Tiled.lexeme (x := { x with gap := [] }) (List.forall_mem_nil _) ?_ hlongest hrest
    simp

/-- A tiling is moved to the left with the place where its text begins. -/
theorem Tiled.moved_sub {after : List Char} {start : Nat} {cs : List Char} {xs : List Lexeme}
    (h : Tiled after start cs xs) : ∀ k, k ≤ start → Tiled after (start - k) cs (xs.map (moved (· - k))) := by
  induction h with
  | blanks hgap =>
    intro k _
    exact .blanks hgap
  | @lexeme start x xs rest hgap hstart hlongest _ ih =>
    intro k hk
    have hfirst : (x.moved (· - k)).start = start - k + width x.gap := by
      show x.start - k = _
      omega
    have hstop : (x.moved (· - k)).span.stop = x.span.stop - k := by
      show x.start - k + width x.text = x.start + width x.text - k
      omega
    have hle : k ≤ x.span.stop := by
      show k ≤ x.start + width x.text
      omega
    have hrest := ih k hle
    rw [← hstop] at hrest
    exact .lexeme (x := x.moved (· - k)) hgap hfirst hlongest hrest

/-! ## Slices -/

/-- The lexemes of a run where its text is all there is: no blanks stand before the first one, and places are counted
from where it stands. -/
def sliced : List Lexeme → List Lexeme
  | [] => []
  | x :: xs => ({ x with gap := [] } :: xs).map (moved (· - x.start))

/-- Where a run begins. -/
def runStart : List Lexeme → Nat
  | [] => 0
  | x :: _ => x.span.start

/-- The second lexeme is the first one, found in a text that begins at this place. -/
structure SameFrom (start : Nat) (x y : Lexeme) : Prop where
  token : y.token = x.token
  text : y.text = x.text
  span : y.span.shift start = x.span

theorem sameFrom_moved_sub {start : Nat} {x : Lexeme} (h : start ≤ x.start) :
    SameFrom start x (x.moved (· - start)) := by
  refine ⟨rfl, rfl, ?_⟩
  show (⟨x.start - start + start, x.start - start + width x.text + start⟩ : Span) =
    ⟨x.start, x.start + width x.text⟩
  rw [Nat.add_right_comm, Nat.sub_add_cancel h]

variable {cs : List Char} {xs run : List Lexeme}

/-- A run of a text's lexemes tiles the text of the run, where it stands. -/
theorem Tiled.slice {x : Lexeme} (h : Tiled [] 0 cs xs) (hrun : x :: run <:+: xs) :
    ∃ after, Tiled after x.start (runText (x :: run)) ({ x with gap := [] } :: run) := by
  obtain ⟨front, back, rfl⟩ := hrun
  rw [List.append_assoc] at h
  obtain ⟨rest, -, -, hrest⟩ := h.split
  obtain ⟨tail, -, hrun, -⟩ := hrest.split
  exact ⟨_, hrun.flush⟩

/-- **The text of a run is read as the run**, at the beginning of a text. -/
theorem ofText_runText (h : Tiled [] 0 cs xs) (hrun : run <:+: xs) : ofText (runText run) = .ok (sliced run) := by
  cases run with
  | nil => exact scan_blanks (List.forall_mem_nil _) 0
  | cons x run =>
    obtain ⟨after, hslice⟩ := h.slice hrun
    have hmoved := hslice.moved_sub x.start (Nat.le_refl _)
    rw [Nat.sub_self] at hmoved
    exact scan_of_tiled hmoved

theorem sameFrom_sliced (h : Tiled [] 0 cs xs) (hrun : run <:+: xs) :
    List.Forall₂ (SameFrom (runStart run)) run (sliced run) := by
  cases run with
  | nil => exact .nil
  | cons x run =>
    obtain ⟨after, hslice⟩ := h.slice hrun
    have hle : ∀ y ∈ run, x.start ≤ y.start := fun y hy => hslice.start_le y (List.mem_cons_of_mem _ hy)
    have hfirst : SameFrom x.start x (x.moved (· - x.start)) := sameFrom_moved_sub (Nat.le_refl _)
    refine .cons ⟨hfirst.token, hfirst.text, hfirst.span⟩ ?_
    rw [List.forall₂_map_right_iff, List.forall₂_same]
    intro y hy
    exact sameFrom_moved_sub (hle y hy)

/-! ## Collapsed slices -/

/-- The second lexeme is the first one, up to what a string literal is spelled like. -/
structure SameUnquoted (x y : Lexeme) : Prop where
  token : y.token = x.token
  text : x.token ≠ .stringLiteral → y.text = x.text

theorem sameUnquoted_of_squeezes {ys : List Lexeme} (h : List.Forall₂ Word.Squeezes (bare xs) (ys.map word)) :
    List.Forall₂ SameUnquoted xs ys := by
  rw [List.forall₂_map_right_iff] at h
  -- blanks do not matter, so a word and the lexeme it comes from are alike
  have hword {x y : Lexeme} (h : Word.Squeezes x.word y.word) : SameUnquoted x y := ⟨h.token, h.text⟩
  cases xs with
  | nil =>
    cases h
    exact .nil
  | cons x xs =>
    obtain ⟨y, ys, hfirst, hrest, rfl⟩ := List.forall₂_cons_left_iff.1 h
    refine .cons ⟨hfirst.token, hfirst.text⟩ ?_
    rw [List.forall₂_map_left_iff] at hrest
    exact hrest.imp fun _ _ => hword

/-! ## Both -/

/-- **Lexemes survive slicing and collapsing.** The text of a run of a text's lexemes is a part of this text and is read
as the same lexemes, with the places counted from where the run begins. With its blanks collapsed it is read as the same
tokens, and all but the string literals are spelled alike. Collapsing blanks twice is collapsing them once. -/
theorem slices_read_alike :
    (∀ (cs : List Char) (xs run : List Lexeme), ofText cs = .ok xs → run <:+: xs →
      SourceText cs run (runText run) ∧
      (∃ ys, ofText (runText run) = .ok ys ∧ List.Forall₂ (SameFrom (runStart run)) run ys) ∧
      ∃ zs, ofText (collapse (runText run)) = .ok zs ∧ List.Forall₂ SameUnquoted run zs) ∧
    ∀ text : List Char, collapse (collapse text) = collapse text := by
  refine ⟨fun cs xs run hxs hrun => ?_, collapse_collapse⟩
  have htiled := scan_eq_ok_iff.1 hxs
  have hsource : SourceText cs run (runText run) := sourceText_of_infix htiled hrun
  have hfrom : FromText run := FromText.infix (fromText_of_ofText hxs) hrun
  refine ⟨hsource, ⟨sliced run, ofText_runText htiled hrun, sameFrom_sliced htiled hrun⟩, ?_⟩
  obtain ⟨zs, hzs, -, hsqueezes⟩ := exists_ofText_squeezes hfrom
  exact ⟨zs, hzs, sameUnquoted_of_squeezes hsqueezes⟩

/-- The lexemes of `m[ 'a  b' , c]`. -/
def spaced : List Lexeme :=
  [⟨.identifier, [], ['m'], 0⟩, ⟨.opening .square, [], ['['], 1⟩, ⟨.stringLiteral, [' '], "'a  b'".toList, 3⟩,
   ⟨.comma, [' '], [','], 10⟩, ⟨.identifier, [' '], ['c'], 12⟩, ⟨.closing .square, [], [']'], 13⟩]

/-- The run between the brackets, with a string literal that has blanks inside. -/
theorem slices_read_alike_quoted :
    let run := (spaced.drop 2).take 3
    ofText "m[ 'a  b' , c]".toList = .ok spaced ∧ run <:+: spaced ∧ runText run = "'a  b' , c".toList ∧
      (∃ ys, ofText "'a  b' , c".toList = .ok ys ∧ List.Forall₂ (SameFrom 3) run ys) ∧
      (∃ zs, ofText "'a b' , c".toList = .ok zs ∧ List.Forall₂ SameUnquoted run zs) ∧
      collapse (collapse "'a  b' , c".toList) = collapse "'a  b' , c".toList := by
  intro run
  have hxs : ofText "m[ 'a  b' , c]".toList = .ok spaced := eq_ok_of_toOption (by decide +kernel)
  have hrun : run <:+: spaced := ⟨spaced.take 2, spaced.drop 5, by decide⟩
  have htext : runText run = "'a  b' , c".toList := by decide
  have hcollapse : collapse (runText run) = "'a b' , c".toList := by decide +kernel
  obtain ⟨-, hslice, hcollapsed⟩ := slices_read_alike.1 _ _ run hxs hrun
  rw [hcollapse] at hcollapsed
  rw [htext] at hslice
  exact ⟨hxs, hrun, htext, hslice, hcollapsed, slices_read_alike.2 _⟩

end Lexeme
end CallSig
