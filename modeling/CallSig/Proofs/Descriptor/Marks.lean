import CallSig.Proofs.Descriptor.Items
import CallSig.Proofs.Descriptor.Names
import CallSig.Proofs.Lexeme.Scanning

/-!
# `CallSig.Proofs.Descriptor.Marks` — what the items of a list do

Reading an argument list goes from item to item with a state. Of this state only the names and kinds read so far
and the two markers matter to what follows. `Item.apply` says what one item does to them, and the reader follows
it: reading the lexemes of items is applying the items one after the other.

## Contents
- **Marks.** `Marks`, `ItemState.marks`, `Item.apply`, `Item.applyAll`.
- **Types and defaults.** `splitDefault_typeForm`, `splitDefault_defaultForm`, `typeText_eq_dots_iff`.
- **Items.** `readTyped_item`, `add_item`, `addAll_items`, `readArguments_joined`.
-/

namespace CallSig
namespace Descriptor

open Word Lexeme

/-! ## Marks -/

/-- What later items depend on: the names and kinds read so far, and the markers passed. -/
structure Marks where
  slots : List (String × ParamKind)
  slash : Bool
  star : Bool

/-- The marks before the first item. -/
def Marks.start : Marks := ⟨[], false, false⟩

/-- The marks of a state. -/
def ItemState.marks (s : ItemState) : Marks := ⟨s.arguments.map Argument.slot, s.slash, s.star⟩

/-- The name and kind of an argument that a slash follows. -/
def slashed (slot : String × ParamKind) : String × ParamKind :=
  if slot.2 = .positionalOrKeyword then (slot.1, .positionalOnly) else slot

/-- The name and kind that an argument is read with; `kind` is its kind unless it is variadic. -/
def TypeForm.slot (kind : ParamKind) (name : List Char) : TypeForm → String × ParamKind
  | dots =>
    if "arg_".toList.isPrefixOf name then ("args", .varPositional)
    else (escapeReserved (String.ofList name), .varKeyword)
  | _ => (escapeReserved (String.ofList name), kind)

/-- The marks after one more item, if it may stand there. -/
def Item.apply (m : Marks) : Item → Option Marks
  | slash =>
    if m.slash ∨ m.star ∨ m.slots.isEmpty then none else some { m with slots := m.slots.map slashed, slash := true }
  | star => if m.star then none else some { m with star := true }
  | argument name type _ =>
    some { m with slots := m.slots ++ [type.slot (if m.star then .keywordOnly else .positionalOrKeyword) name] }

/-- The marks after further items. -/
def Item.applyAll (m : Marks) : List Item → Option Marks
  | [] => some m
  | item :: items => (item.apply m).bind fun m => applyAll m items

/-! ## Types and defaults -/

theorem not_isBlank_of_isName {cs : List Char} (h : IsName cs) : ∀ c ∈ cs, Text.isBlank c = false := by
  obtain ⟨first, more, rfl, hfirst, hmore⟩ := h
  intro c hc
  apply not_isBlank_of_isNamePart
  rcases List.mem_cons.1 hc with rfl | hc
  · exact isNamePart_of_isNameStart hfirst
  · exact hmore c hc

theorem not_isBlank_typeForm {type : TypeForm} (h : type.Good) :
    ∀ c ∈ spelled type.words, Text.isBlank c = false := by
  cases type with
  | dots =>
    intro c hc
    obtain rfl : c = '.' := by simpa [TypeForm.words, Word.dots] using hc
    decide
  | plain name =>
    intro c hc
    exact not_isBlank_of_isName h c (by simpa [TypeForm.words, Word.name] using hc)
  | optional name =>
    have hspelled : spelled (TypeForm.optional name).words = "Optional".toList ++ '[' :: (name ++ [']']) := by
      simp [TypeForm.words, Word.name, sign]
    have hsquare : Text.isBlank '[' = false ∧ Text.isBlank ']' = false := by decide
    rw [hspelled]
    simp only [List.forall_mem_append, List.forall_mem_cons]
    exact ⟨not_isBlank_of_isName isName_optional, hsquare.1, not_isBlank_of_isName h, hsquare.2, List.forall_mem_nil _⟩

/-- Only three dots are read as the type of a variadic argument. -/
theorem typeText_eq_dots_iff {type : TypeForm} (h : type.Good) :
    String.ofList (Text.collapse (spelled type.words)) = "..." ↔ type = .dots := by
  have hdots : "...".toList = ['.', '.', '.'] := by decide
  rw [Text.collapse_eq_self (not_isBlank_typeForm h), ← String.toList_inj, String.toList_ofList, hdots]
  cases type with
  | dots => exact ⟨fun _ => rfl, fun _ => rfl⟩
  | plain name =>
    obtain ⟨c, more, rfl, hc, -⟩ := h
    refine ⟨fun heq => ?_, nofun⟩
    obtain rfl : c = '.' := (List.cons.inj heq).1
    exact absurd hc (by decide)
  | optional name => exact ⟨nofun, nofun⟩

theorem runText_eq_spelled {x : Lexeme} {xs : List Lexeme} (h : x.gap = []) :
    runText (x :: xs) = Word.spelled ((x :: xs).map Lexeme.word) := by
  unfold runText Word.spelled
  rw [List.map_cons, List.flatMap_cons, List.flatMap_map]
  simp [Lexeme.word, h]

/-- The type of an argument ends where its default begins. -/
theorem splitDefault_typeForm {type : TypeForm} {ts : List Lexeme} (h : ts.map Lexeme.word = type.words)
    (rest : List Lexeme) :
    splitDefault 0 (ts ++ rest) = (ts ++ (splitDefault 0 rest).1, (splitDefault 0 rest).2) := by
  cases type with
  | dots | plain name =>
    obtain ⟨x, ts, rfl, hx, h⟩ := List.map_eq_cons_iff.1 h
    obtain rfl := List.map_eq_nil_iff.1 h
    have htoken := congrArg Word.token hx
    simp only [Lexeme.word, Word.dots, Word.name] at htoken
    simp [splitDefault, htoken]
  | optional name =>
    obtain ⟨x, ts, rfl, hx, h⟩ := List.map_eq_cons_iff.1 h
    obtain ⟨opened, ts, rfl, ho, h⟩ := List.map_eq_cons_iff.1 h
    obtain ⟨inner, ts, rfl, hi, h⟩ := List.map_eq_cons_iff.1 h
    obtain ⟨closed, ts, rfl, hc, h⟩ := List.map_eq_cons_iff.1 h
    obtain rfl := List.map_eq_nil_iff.1 h
    have hx : x.token = .identifier := congrArg Word.token hx
    have ho : opened.token = .opening .square := congrArg Word.token ho
    have hi : inner.token = .identifier := congrArg Word.token hi
    have hc : closed.token = .closing .square := congrArg Word.token hc
    simp [splitDefault, hx, ho, hi, hc]

theorem splitDefault_defaultForm {default : DefaultForm} {ds : List Lexeme} (h : ds.map Lexeme.word = default.words) :
    ∃ default?, splitDefault 0 ds = ([], default?) ∧ default? ≠ some [] ∧ (default = .absent → default? = none) := by
  cases default with
  | absent =>
    obtain rfl := List.map_eq_nil_iff.1 h
    exact ⟨none, rfl, nofun, fun _ => rfl⟩
  | named name =>
    obtain ⟨x, ds, rfl, hx, h⟩ := List.map_eq_cons_iff.1 h
    obtain ⟨y, ds, rfl, -, -⟩ := List.map_eq_cons_iff.1 h
    exact ⟨some (y :: ds), by rw [splitDefault, if_pos ⟨congrArg Word.token hx, rfl⟩], nofun, nofun⟩
  | number negative digits =>
    obtain ⟨x, ds, rfl, hx, h⟩ := List.map_eq_cons_iff.1 h
    obtain ⟨front, back, rfl, -, h⟩ := List.map_eq_append_iff.1 h
    obtain ⟨y, back, rfl, -, -⟩ := List.map_eq_cons_iff.1 h
    refine ⟨some (front ++ y :: back), by rw [splitDefault, if_pos ⟨congrArg Word.token hx, rfl⟩], ?_, nofun⟩
    simp

/-! ## Items -/

/-- An argument is read with its name, and with its kind unless its type is three dots. -/
theorem readTyped_item {type : TypeForm} {default : DefaultForm} (htype : type.Good)
    (hvariadic : type = .dots → default = .absent) {ts ds : List Lexeme} (ht : ts.map Lexeme.word = type.words)
    (hd : ds.map Lexeme.word = default.words) (kind : ParamKind) (name : List Char) (span : Span) :
    ∃ arg, readTyped kind name span (ts ++ ds) = .ok arg ∧ arg.slot = type.slot kind name := by
  obtain ⟨default?, hsplit, hempty, habsent⟩ := splitDefault_defaultForm hd
  have hparts : splitDefault 0 (ts ++ ds) = (ts, default?) := by
    rw [splitDefault_typeForm ht, hsplit, List.append_nil]
  have hfirst : ∃ x more, ts = x :: more ∧ x.gap = [] := by
    cases type with
    | dots | plain name | optional name =>
      obtain ⟨x, more, rfl, hx, -⟩ := List.map_eq_cons_iff.1 ht
      exact ⟨x, more, rfl, congrArg Word.gap hx⟩
  have hnonempty : ¬ts.isEmpty = true := by
    obtain ⟨x, more, rfl, -⟩ := hfirst
    exact Bool.false_ne_true
  have htext : String.ofList (Text.collapse (runText ts)) = "..." ↔ type = .dots := by
    obtain ⟨x, more, rfl, hgap⟩ := hfirst
    rw [runText_eq_spelled hgap, ht]
    exact typeText_eq_dots_iff htype
  unfold readTyped
  rw [hparts]
  dsimp only
  rw [if_neg hnonempty, if_neg hempty]
  -- variadic or not, the name goes into the slot; three dots decide the kind, and the prefix of the name which one
  by_cases hdots : type = .dots
  · have hnone : ¬default?.isSome = true := by
      rw [habsent (hvariadic hdots)]
      exact Bool.false_ne_true
    rw [if_pos (htext.2 hdots), if_neg hnone, hdots]
    unfold TypeForm.slot
    split
    · exact ⟨_, rfl, rfl⟩
    · exact ⟨_, rfl, rfl⟩
  · rw [if_neg fun h => hdots (htext.1 h)]
    refine ⟨_, rfl, ?_⟩
    cases type with
    | dots => exact absurd rfl hdots
    | plain _ => rfl
    | optional _ => rfl

theorem slot_beforeSlash (arg : Argument) : (ItemState.beforeSlash arg).slot = slashed arg.slot := by
  unfold ItemState.beforeSlash slashed
  by_cases h : arg.kind = .positionalOrKeyword
  · rw [if_pos h, if_pos (show arg.slot.2 = .positionalOrKeyword from h)]
    rfl
  · rw [if_neg h, if_neg (show ¬arg.slot.2 = .positionalOrKeyword from h)]

theorem add_slash {first : Lexeme} (htoken : first.token = .slash) {s : ItemState} {m : Marks}
    (hm : Item.slash.apply s.marks = some m) : ∃ s', s.add first [] = .ok s' ∧ s'.marks = m := by
  have hempty : s.marks.slots.isEmpty = s.arguments.isEmpty := List.isEmpty_map
  simp only [Item.apply] at hm
  unfold ItemState.add
  rw [if_pos ⟨rfl, htoken⟩]
  split at hm
  · cases hm
  · next hfree =>
    rw [hempty] at hfree
    cases hm
    refine ⟨_, if_neg hfree, ?_⟩
    have hslots : (s.arguments.map ItemState.beforeSlash).map Argument.slot = s.marks.slots.map slashed := by
      simp [ItemState.marks, slot_beforeSlash]
    simp only [ItemState.marks] at hslots ⊢
    rw [hslots]

theorem add_star {first : Lexeme} (htoken : first.token = .star) {s : ItemState} {m : Marks}
    (hm : Item.star.apply s.marks = some m) : ∃ s', s.add first [] = .ok s' ∧ s'.marks = m := by
  simp only [Item.apply] at hm
  unfold ItemState.add
  rw [if_neg (by simp [htoken]), if_pos ⟨rfl, htoken⟩]
  split at hm
  · cases hm
  · next hfree =>
    cases hm
    exact ⟨_, if_neg hfree, rfl⟩

theorem add_argument {name : List Char} {type : TypeForm} {default : DefaultForm}
    (hgood : (Item.argument name type default).Good) {first : Lexeme} {rest : List Lexeme}
    (h : (first :: rest).map Lexeme.word = (Item.argument name type default).words) {s : ItemState} {m : Marks}
    (hm : (Item.argument name type default).apply s.marks = some m) :
    ∃ s', s.add first rest = .ok s' ∧ s'.marks = m := by
  obtain ⟨-, htype, -, hvariadic⟩ := hgood
  obtain ⟨hfirst, hrest⟩ := List.cons.inj h
  obtain ⟨x, body, rfl, hx, hbody⟩ := List.map_eq_cons_iff.1 hrest
  obtain ⟨ts, ds, rfl, ht, hd⟩ := List.map_eq_append_iff.1 hbody
  have htoken : first.token = .identifier := congrArg Word.token hfirst
  have hname : first.text = name := congrArg Word.text hfirst
  have hcolon : x.token = .colon := congrArg Word.token hx
  let kind : ParamKind := if s.star then .keywordOnly else .positionalOrKeyword
  obtain ⟨arg, harg, hslot⟩ :=
    readTyped_item htype hvariadic ht hd kind name (Lexeme.runSpan first (x :: (ts ++ ds)))
  have hread : readArgument kind first (x :: (ts ++ ds)) = .ok arg := by
    unfold readArgument
    simp only [htoken, hcolon, hname, ne_eq, not_true_eq_false, if_false]
    exact harg
  refine ⟨{ s with arguments := s.arguments ++ [arg] }, ?_, ?_⟩
  · unfold ItemState.add
    rw [if_neg (by simp), if_neg (by simp)]
    show (readArgument kind first _).map _ = _
    rw [hread]
    rfl
  · cases hm
    simp only [ItemState.marks, List.map_append, List.map_cons, List.map_nil, hslot]
    rfl

/-- **One item**: where it may stand, the reader accepts it and changes its marks as the item says. -/
theorem add_item {item : Item} (hgood : item.Good) {first : Lexeme} {rest : List Lexeme}
    (h : (first :: rest).map Lexeme.word = item.words) {s : ItemState} {m : Marks}
    (hm : item.apply s.marks = some m) :
    ∃ s', s.add first rest = .ok s' ∧ s'.marks = m := by
  cases item with
  | slash =>
    obtain ⟨hfirst, hrest⟩ := List.cons.inj h
    obtain rfl := List.map_eq_nil_iff.1 hrest
    exact add_slash (congrArg Word.token hfirst) hm
  | star =>
    obtain ⟨hfirst, hrest⟩ := List.cons.inj h
    obtain rfl := List.map_eq_nil_iff.1 hrest
    exact add_star (congrArg Word.token hfirst) hm
  | argument name type default => exact add_argument hgood h hm

/-- **All items**: the reader goes through them as `Item.applyAll` does. -/
theorem addAll_items (anchor : Span) {items : List Item} (hgood : ∀ item ∈ items, item.Good) :
    ∀ {found : List (List Lexeme)}, found.map (List.map Lexeme.word) = items.map Item.words →
      ∀ {s : ItemState} {m : Marks}, Item.applyAll s.marks items = some m →
        ∃ s', s.addAll anchor found = .ok s' ∧ s'.marks = m := by
  induction items with
  | nil =>
    intro found h s m hm
    obtain rfl := List.map_eq_nil_iff.1 h
    cases hm
    exact ⟨s, rfl, rfl⟩
  | cons item items ih =>
    intro found h s m hm
    obtain ⟨piece, found, rfl, hpiece, hfound⟩ := List.map_eq_cons_iff.1 h
    obtain ⟨between, hbetween, hm⟩ := Option.bind_eq_some_iff.1 hm
    -- no item is without words, so the reader finds no empty piece
    have hne : piece ≠ [] := by
      rintro rfl
      cases item <;> cases hpiece
    obtain ⟨first, rest, rfl⟩ := List.exists_cons_of_ne_nil hne
    obtain ⟨s₁, hadd, rfl⟩ := add_item (hgood item List.mem_cons_self) hpiece hbetween
    obtain ⟨s', hall, hmarks⟩ := ih (fun other hmem => hgood other (List.mem_cons_of_mem _ hmem)) hfound hm
    refine ⟨s', ?_, hmarks⟩
    rw [ItemState.addAll, hadd]
    exact hall

/-- **The lexemes of items are read as their names and kinds.** -/
theorem readArguments_joined {items : List Item} (hgood : ∀ item ∈ items, item.Good) {limit : Nat}
    (hlimit : 1 ≤ limit) {xs : List Lexeme} (h : xs.map Lexeme.word = joined items) {m : Marks}
    (hm : Item.applyAll Marks.start items = some m) :
    ∃ args, readArguments limit xs = .ok args ∧ args.map Argument.slot = m.slots := by
  obtain ⟨found, hfound, hwords⟩ := pieces_joined hlimit h
  have hstart : Item.applyAll ItemState.start.marks items = some m := hm
  obtain ⟨s, hall, rfl⟩ := addAll_items ((xs.head?.map Lexeme.span).getD ⟨0, 0⟩) hgood hwords hstart
  refine ⟨s.arguments, ?_, rfl⟩
  unfold readArguments
  rw [hfound]
  simp only [bind, Except.bind]
  rw [hall]
  rfl

end Descriptor
end CallSig
