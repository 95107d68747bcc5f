import CallSig.Proofs.Lexeme.Cutting
import CallSig.Proofs.Lexeme.Reading

/-!
# `CallSig.Proofs.Descriptor.Items` — the items of an argument list as words

An item is a slash, a star, or an argument with a short type and a short default. The words of items, with commas
between them, read back as they are, and they are cut at just these commas: no item has a comma of its own, and
the brackets of a type are closed inside it.

## Contents
- **Items.** `TypeForm`, `DefaultForm`, `Item`, with their `words` and `Good`.
- **Writing.** `reads_item`; `joined`, `spelled_joined`, `reads_joined`.
- **Cutting.** `passes_item`, `pieces_joined`, `untilClose?_joined`.
-/

namespace CallSig
namespace Descriptor

open Word

/-! ## Items -/

/-- A type as it is written: three dots, a name, or `Optional` of a name. -/
inductive TypeForm
  | dots
  | plain (name : List Char)
  | optional (name : List Char)

/-- A default as it is written: none, a name, or a number. -/
inductive DefaultForm
  | absent
  | named (name : List Char)
  | number (negative : Bool) (digits : List Char)

/-- An item of an argument list. -/
inductive Item
  | slash
  | star
  | argument (name : List Char) (type : TypeForm) (default : DefaultForm)

/-- The words of a type. -/
def TypeForm.words : TypeForm → List Word
  | dots => [Word.dots]
  | plain name => [Word.name name]
  | optional name =>
    [Word.name "Optional".toList, sign (.opening .square) '[', Word.name name, sign (.closing .square) ']']

/-- The words of a default, with the equals sign before it. -/
def DefaultForm.words : DefaultForm → List Word
  | absent => []
  | named name => [sign .equal '=', Word.name name]
  | number negative digits => sign .equal '=' :: (if negative then [sign .minus '-'] else []) ++ [Word.digits digits]

/-- The words of an item. -/
def Item.words : Item → List Word
  | slash => [sign .slash '/']
  | star => [sign .star '*']
  | argument name type default => Word.name name :: sign .colon ':' :: (type.words ++ default.words)

/-- A type that reads as it is written. -/
def TypeForm.Good : TypeForm → Prop
  | dots => True
  | plain name => IsName name
  | optional name => IsName name

/-- A default that reads as it is written. -/
def DefaultForm.Good : DefaultForm → Prop
  | absent => True
  | named name => IsName name
  | number _ digits => digits ≠ [] ∧ ∀ x ∈ digits, x.isDigit = true

/-- An item that reads as it is written; a variadic argument has no default. -/
def Item.Good : Item → Prop
  | slash => True
  | star => True
  | argument name type default => IsName name ∧ type.Good ∧ default.Good ∧ (type = .dots → default = .absent)

/-! ## Writing -/

theorem isName_optional : IsName "Optional".toList := by decide

theorem reads_typeForm {type : TypeForm} (h : type.Good) {rest : List Char} (hr : EndsName rest) :
    Reads type.words rest := by
  cases type with
  | dots => exact ⟨reads_dots _, trivial⟩
  | plain name => exact ⟨reads_name h hr, trivial⟩
  | optional name =>
    refine ⟨reads_name isName_optional (endsName_cons (by decide) _), ?_, ?_, ?_, trivial⟩
    · exact reads_sign _ (by decide) fun _ => rfl
    · exact reads_name h (endsName_cons (by decide) _)
    · exact reads_sign _ (by decide) fun _ => rfl

/-- A type does not begin with a colon, so the colon before it stands alone. -/
theorem head?_typeForm {type : TypeForm} (h : type.Good) (rest : List Char) :
    (spelled type.words ++ rest).head? ≠ some ':' := by
  cases type with
  | dots => exact nofun
  | plain name =>
    obtain ⟨c, more, rfl, hc, -⟩ := h
    rintro ⟨⟩
    revert hc
    decide
  | optional name => exact nofun

theorem endsName_defaultForm (default : DefaultForm) {rest : List Char} (hr : EndsName rest) :
    EndsName (spelled default.words ++ rest) := by
  cases default with
  | absent => exact hr
  | named name => exact endsName_cons (by decide) _
  | number negative digits => exact endsName_cons (by decide) _

theorem reads_defaultForm {default : DefaultForm} (h : default.Good) {rest : List Char} (hr : EndsName rest) :
    Reads default.words rest := by
  have hequal : ∀ rest, (sign .equal '=').ReadsBefore rest := fun rest => reads_sign rest (by decide) fun _ => rfl
  cases default with
  | absent => trivial
  | named name => exact ⟨hequal _, reads_name h hr, trivial⟩
  | number negative digits =>
    obtain ⟨hne, hdigits⟩ := h
    have hlast := reads_digits hne hdigits hr
    cases negative with
    | false => exact ⟨hequal _, hlast, trivial⟩
    | true =>
      -- a digit follows the minus sign, so it is no arrow
      refine ⟨hequal _, reads_minus ?_, hlast, trivial⟩
      obtain ⟨c, more, rfl⟩ := List.exists_cons_of_ne_nil hne
      have hc := hdigits c List.mem_cons_self
      rintro ⟨⟩
      revert hc
      decide

theorem reads_item {item : Item} (h : item.Good) {rest : List Char} (hr : EndsName rest) :
    Reads item.words rest := by
  cases item with
  | slash => exact ⟨reads_sign _ (by decide) fun _ => rfl, trivial⟩
  | star => exact ⟨reads_sign _ (by decide) fun _ => rfl, trivial⟩
  | argument name type default =>
    obtain ⟨hname, htype, hdefault, -⟩ := h
    refine ⟨reads_name hname (endsName_cons (by decide) _), reads_colon ?_, ?_⟩
    · rw [spelled_append, List.append_assoc]
      exact head?_typeForm htype _
    · exact reads_append (reads_typeForm htype (endsName_defaultForm default hr)) (reads_defaultForm hdefault hr)

/-- The words of items, with a comma before each but the first. -/
def joined : List Item → List Word
  | [] => []
  | [item] => item.words
  | item :: next :: items => item.words ++ sign .comma ',' :: joined (next :: items)

theorem spelled_joined (items : List Item) :
    spelled (joined items) = [','].intercalate (items.map fun item => spelled item.words) := by
  fun_induction joined items with
  | case1 => rfl
  | case2 item => exact List.intercalate_singleton.symm
  | case3 item next items ih =>
    rw [spelled_append, spelled_cons, ih]
    simp only [List.map_cons, List.intercalate_cons_cons]
    simp [sign]

theorem reads_joined {items : List Item} (h : ∀ item ∈ items, item.Good) {rest : List Char} (hr : EndsName rest) :
    Reads (joined items) rest := by
  fun_induction joined items with
  | case1 => trivial
  | case2 item => exact reads_item (h item List.mem_cons_self) hr
  | case3 item next items ih =>
    refine reads_append (reads_item (h item List.mem_cons_self) (endsName_cons (by decide) _)) ⟨?_, ?_⟩
    · exact reads_sign _ (by decide) fun _ => rfl
    · exact ih fun other hmem => h other (List.mem_cons_of_mem _ hmem)

/-! ## Cutting -/

open Lexeme

/-- What holds of the tokens of the words holds of the tokens of the lexemes. -/
theorem forall_token {P : Token → Prop} {xs : List Lexeme} {ws : List Word} (h : xs.map Lexeme.word = ws)
    (hw : ∀ w ∈ ws, P w.token) : ∀ x ∈ xs, P x.token := by
  intro x hx
  apply hw x.word
  rw [← h]
  exact List.mem_map_of_mem hx

theorem plain_defaultForm (default : DefaultForm) : ∀ w ∈ default.words, Plain w.token := by
  cases default with
  | absent => exact List.forall_mem_nil _
  | named name => simp [DefaultForm.words, sign, Word.name, Plain]
  | number negative digits => cases negative <;> simp [DefaultForm.words, sign, Word.digits, Plain]

theorem passes_typeForm {type : TypeForm} {xs : List Lexeme} (h : xs.map Lexeme.word = type.words) {limit : Nat}
    (hlimit : 1 ≤ limit) : Passes limit [] xs := by
  cases type with
  | dots => exact passes_plain (forall_token h (by simp [TypeForm.words, Word.dots, Plain]))
  | plain name => exact passes_plain (forall_token h (by simp [TypeForm.words, Word.name, Plain]))
  | optional name =>
    obtain ⟨x, xs, rfl, hx, h⟩ := List.map_eq_cons_iff.1 h
    obtain ⟨opened, xs, rfl, ho, h⟩ := List.map_eq_cons_iff.1 h
    obtain ⟨inner, xs, rfl, hi, h⟩ := List.map_eq_cons_iff.1 h
    obtain ⟨closed, xs, rfl, hc, h⟩ := List.map_eq_cons_iff.1 h
    obtain rfl := List.map_eq_nil_iff.1 h
    -- a name, then a pair of square brackets around another one
    have hx : x.token = .identifier := congrArg Word.token hx
    have hi : inner.token = .identifier := congrArg Word.token hi
    have hhead : Passes limit [] [x] := passes_plain (by simp [hx, Plain])
    have hinner : Passes limit [(.square, opened.span)] [inner] := passes_plain (by simp [hi, Plain])
    have hbrackets : Passes limit [] [opened, inner, closed] :=
      passes_bracketed (congrArg Word.token ho) (congrArg Word.token hc) hlimit hinner
    exact hhead.append hbrackets

theorem passes_item {item : Item} {xs : List Lexeme} (h : xs.map Lexeme.word = item.words) {limit : Nat}
    (hlimit : 1 ≤ limit) : Passes limit [] xs := by
  cases item with
  | slash => exact passes_plain (forall_token h (by simp [Item.words, sign, Plain]))
  | star => exact passes_plain (forall_token h (by simp [Item.words, sign, Plain]))
  | argument name type default =>
    obtain ⟨x, xs, rfl, hx, h⟩ := List.map_eq_cons_iff.1 h
    obtain ⟨y, xs, rfl, hy, h⟩ := List.map_eq_cons_iff.1 h
    obtain ⟨ts, ds, rfl, ht, hd⟩ := List.map_eq_append_iff.1 h
    have hx : x.token = .identifier := congrArg Word.token hx
    have hy : y.token = .colon := congrArg Word.token hy
    have hhead : Passes limit [] [x, y] := passes_plain (by simp [hx, hy, Plain])
    have htail : Passes limit [] ds := passes_plain (forall_token hd (plain_defaultForm default))
    exact hhead.append ((passes_typeForm ht hlimit).append htail)

/-- **Items are cut at the commas between them.** -/
theorem cut_joined {items : List Item} (hne : items ≠ []) {limit : Nat} (hlimit : 1 ≤ limit) :
    ∀ {xs : List Lexeme}, xs.map Lexeme.word = joined items →
      ∃ piece more, cut limit [] xs = .ok (piece, more) ∧
        (piece :: more).map (List.map Lexeme.word) = items.map Item.words := by
  fun_induction joined items with
  | case1 => exact absurd rfl hne
  | case2 item =>
    intro xs h
    exact ⟨xs, [], cut_passes_end (passes_item h hlimit), by simp [h]⟩
  | case3 item next items ih =>
    intro xs h
    obtain ⟨front, back, rfl, hf, hb⟩ := List.map_eq_append_iff.1 h
    obtain ⟨x, back, rfl, hx, hb⟩ := List.map_eq_cons_iff.1 hb
    obtain ⟨piece, more, hcut, hmap⟩ := ih (List.cons_ne_nil _ _) hb
    refine ⟨front, piece :: more, ?_, ?_⟩
    · rw [cut_passes_comma (passes_item hf hlimit) (congrArg Word.token hx), hcut]
      rfl
    · rw [List.map_cons, hf, hmap]
      rfl

theorem pieces_joined {items : List Item} {limit : Nat} (hlimit : 1 ≤ limit) {xs : List Lexeme}
    (h : xs.map Lexeme.word = joined items) :
    ∃ found, pieces limit xs = .ok found ∧ found.map (List.map Lexeme.word) = items.map Item.words := by
  by_cases hne : items = []
  · subst hne
    obtain rfl := List.map_eq_nil_iff.1 h
    exact ⟨[], rfl, rfl⟩
  · obtain ⟨piece, more, hcut, hmap⟩ := cut_joined hne hlimit h
    refine ⟨piece :: more, ?_, hmap⟩
    have hxs : xs ≠ [] := by
      rintro rfl
      cases hcut
      cases items with
      | nil => exact hne rfl
      | cons item items => cases item <;> cases hmap
    simp only [pieces, List.isEmpty_iff, if_neg hxs, hcut]
    rfl

theorem notRound_item (item : Item) : ∀ w ∈ item.words, NotRound w.token := by
  cases item with
  | slash => simp [Item.words, sign, NotRound]
  | star => simp [Item.words, sign, NotRound]
  | argument name type default =>
    have htype : ∀ w ∈ type.words, NotRound w.token := by
      cases type <;> simp [TypeForm.words, Word.dots, Word.name, sign, NotRound]
    have hdefault : ∀ w ∈ default.words, NotRound w.token := by
      intro w hw
      -- what is no bracket at all is no round one
      have hplain := plain_defaultForm default w hw
      constructor
      · rintro ht
        rw [ht] at hplain
        exact hplain
      · rintro ht
        rw [ht] at hplain
        exact hplain
    simp only [Item.words, List.forall_mem_cons, List.forall_mem_append]
    exact ⟨⟨nofun, nofun⟩, ⟨nofun, nofun⟩, htype, hdefault⟩

theorem untilClose?_joined {items : List Item} {xs : List Lexeme} (h : xs.map Lexeme.word = joined items) {y : Lexeme}
    (hy : y.token = .closing .round) (ys : List Lexeme) : untilClose? 0 (xs ++ y :: ys) = some (xs, ys) := by
  refine untilClose?_append (forall_token h ?_) hy ys
  clear h
  fun_induction joined items with
  | case1 => exact List.forall_mem_nil _
  | case2 item => exact notRound_item item
  | case3 item next items ih =>
    intro w hw
    rcases List.mem_append.1 hw with hw | hw
    · exact notRound_item item w hw
    · rcases List.mem_cons.1 hw with rfl | hw
      · exact ⟨nofun, nofun⟩
      · exact ih w hw

end Descriptor
end CallSig
