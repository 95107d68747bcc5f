import CallSig.Proofs.Descriptor.Acceptance

/-!
# `CallSig.Proofs.Descriptor.Places` — lines that stand elsewhere

What a line declares does not depend on where it stands: behind an index, behind blanks, or at the beginning of its
text. Only the places in it do. A derivation of the line is moved along with its lexemes, so that the parser need not
be followed a second time.

## Contents
- **Lexemes.** `Lexeme.moved`, `Lexeme.withGap`; `toOption_scan_add` (scanning from a later place),
  `toOption_scan_gap` (scanning behind blanks).
- **Runs.** `Nested.map_moved`, `Separated.map_moved`.
- **Content.** `Argument.content`, `Descriptor.SameContent`.
- **Lines.** `ArgumentForm.moved`, `Item.moved`, `Line.placed`, with `wellFormed_placed`, `lexemes_placed`,
  `sameContent_placed`.
-/

namespace CallSig

/-! ## Lexemes -/

namespace Lexeme

/-- The lexeme at another place. -/
def moved (ρ : Nat → Nat) (x : Lexeme) : Lexeme := { x with start := ρ x.start }

variable (ρ : Nat → Nat)

@[simp] theorem token_moved (x : Lexeme) : (x.moved ρ).token = x.token := rfl

@[simp] theorem text_moved (x : Lexeme) : (x.moved ρ).text = x.text := rfl

@[simp] theorem gap_moved (x : Lexeme) : (x.moved ρ).gap = x.gap := rfl

@[simp] theorem runText_map_moved (xs : List Lexeme) : runText (xs.map (moved ρ)) = runText xs := by
  cases xs with
  | nil => rfl
  | cons x xs => simp [runText, List.flatMap_map]

theorem moved_sub_moved_add (k : Nat) (x : Lexeme) : (x.moved (· + k)).moved (· - k) = x := by
  simp [moved]

/-- The lexemes with these blanks before the first. -/
def withGap (gap : List Char) : List Lexeme → List Lexeme
  | [] => []
  | x :: xs => { x with gap := gap ++ x.gap } :: xs

/-- One token at a time, by what stands behind the blanks. -/
theorem scan_eq (start : Nat) (cs : List Char) :
    scan start cs =
      match cs.dropWhile isGap with
      | [] => .ok []
      | c :: rest =>
        let here := start + Text.width (cs.takeWhile isGap)
        match Token.read? c rest with
        | none => .error (errorAt here c rest)
        | some (token, n) =>
          (scan (here + Text.width (c :: rest.take n)) (rest.drop n)).map
            (⟨token, cs.takeWhile isGap, c :: rest.take n, here⟩ :: ·) := by
  rw [scan]
  split
  · next h => simp only [h]
  · next c rest h =>
    cases hread : Token.read? c rest with
    | none => simp only [h, hread]
    | some found => simp only [h, hread]

theorem toOption_map {α β : Type} (r : Except ParseError α) (f : α → β) : (r.map f).toOption = r.toOption.map f := by
  cases r <;> rfl

/-- A text is read as the same lexemes wherever it starts. -/
theorem toOption_scan_add (k start : Nat) (cs : List Char) :
    (scan (start + k) cs).toOption = (scan start cs).toOption.map (List.map (moved (· + k))) := by
  fun_induction scan start cs with
  | case1 start cs hd =>
    rw [scan_eq, hd]
    rfl
  | case2 start cs gap c rest hd here hr =>
    rw [scan_eq, hd]
    dsimp only
    rw [hr]
    rfl
  | case3 start cs gap c rest hd here token n hr text =>
    rename_i ih
    have hhere : start + k + Text.width gap = here + k := Nat.add_right_comm start k _
    rw [scan_eq, hd]
    dsimp only
    rw [hr]
    dsimp only
    rw [toOption_map, toOption_map, hhere, Nat.add_right_comm here k, ih, Option.map_map, Option.map_map]
    rfl

/-- A text behind blanks is read as its lexemes, with these blanks before the first. -/
theorem toOption_scan_gap {gap : List Char} (h : ∀ c ∈ gap, isGap c = true) (start : Nat) (cs : List Char) :
    (scan start (gap ++ cs)).toOption = (scan (start + Text.width gap) cs).toOption.map (withGap gap) := by
  rw [scan_eq, scan_eq, List.dropWhile_append_of_pos h, List.takeWhile_append_of_pos h, Text.width_append,
    ← Nat.add_assoc]
  cases cs.dropWhile isGap with
  | nil => rfl
  | cons c rest =>
    dsimp only
    cases Token.read? c rest with
    | none => rfl
    | some found =>
      dsimp only
      rw [toOption_map, toOption_map, Option.map_map]
      rfl

/-! ## Runs -/

theorem Nested.map_moved {outer : Token → Prop} {depth : Nat} {xs : List Lexeme} (h : Nested outer depth xs) :
    Nested outer depth (xs.map (moved ρ)) := by
  induction h with
  | nil => exact .nil
  | plain hx ho _ ih => exact .plain hx ho ih
  | @bracketed _ _ _ x y inner xs hx hy _ _ ihi ih =>
    rw [List.map_cons, List.map_append, List.map_cons]
    exact .bracketed hx hy ihi ih

theorem Separated.map_moved {outer : Token → Prop} {depth : Nat} {xs : List Lexeme} {parts : List (List Lexeme)}
    (h : Separated (Nested outer depth) xs parts) :
    Separated (Nested outer depth) (xs.map (moved ρ)) (parts.map (List.map (moved ρ))) := by
  induction h with
  | last h => exact .last (h.map_moved ρ)
  | comma h hc _ ih =>
    rw [List.map_append, List.map_cons]
    exact .comma (h.map_moved ρ) hc ih

end Lexeme

/-! ## Content -/

/-- What an argument says, wherever it stands. -/
def Argument.content (arg : Argument) : String × String × Option String × ParamKind :=
  (arg.name, arg.typeToken, arg.default?, arg.kind)

/-- The lines declare the same function with the same arguments; their indices may differ. -/
structure Descriptor.SameContent (d d' : Descriptor) : Prop where
  scope : d.scope = d'.scope
  name : d.name = d'.name
  arguments : d.arguments.map Argument.content = d'.arguments.map Argument.content
  result : d.result? = d'.result?

theorem Descriptor.SameContent.refl (d : Descriptor) : d.SameContent d := ⟨rfl, rfl, rfl, rfl⟩

/-! ## Lines -/

namespace Grammar

open Lexeme

variable (ρ : Nat → Nat)

/-- A part with its mark at another place. -/
def movedPart (part? : Option (Lexeme × List Lexeme)) : Option (Lexeme × List Lexeme) :=
  part?.map fun (mark, part) => (mark.moved ρ, part.map (moved ρ))

theorem marked_movedPart (part? : Option (Lexeme × List Lexeme)) :
    marked (movedPart ρ part?) = (marked part?).map (moved ρ) := by
  cases part? <;> rfl

theorem movedPart_eq_some {part? : Option (Lexeme × List Lexeme)} {mark : Lexeme} {part : List Lexeme}
    (h : movedPart ρ part? = some (mark, part)) :
    ∃ mark' part', part? = some (mark', part') ∧ mark = mark'.moved ρ ∧ part = part'.map (moved ρ) := by
  obtain ⟨⟨mark', part'⟩, hpart, he⟩ := Option.map_eq_some_iff.1 h
  cases he
  exact ⟨mark', part', hpart, rfl, rfl⟩

/-- The argument at another place. -/
def ArgumentForm.moved (form : ArgumentForm) : ArgumentForm :=
  ⟨form.name.moved ρ, form.colon.moved ρ, form.type.map (Lexeme.moved ρ), movedPart ρ form.default?⟩

namespace ArgumentForm

theorem lexemes_moved (form : ArgumentForm) : (form.moved ρ).lexemes = form.lexemes.map (Lexeme.moved ρ) := by
  unfold lexemes moved
  rw [marked_movedPart, List.map_cons, List.map_cons, List.map_append]

theorem variadic_moved (form : ArgumentForm) : (form.moved ρ).variadic = form.variadic := by
  unfold variadic moved
  rcases form.type with _ | ⟨x, _ | ⟨y, xs⟩⟩ <;> rfl

theorem wellFormed_moved {depth : Nat} {form : ArgumentForm} (h : form.WellFormed depth) :
    (form.moved ρ).WellFormed depth where
  name := h.name
  colon := h.colon
  type_ne_nil := fun hnil => h.type_ne_nil (List.map_eq_nil_iff.1 hnil)
  type_nested := h.type_nested.map_moved ρ
  default := by
    intro equal part hdefault
    obtain ⟨equal, part, hd, rfl, rfl⟩ := movedPart_eq_some ρ hdefault
    obtain ⟨hequal, hne, hvariadic⟩ := h.default equal part hd
    exact ⟨hequal, fun hnil => hne (List.map_eq_nil_iff.1 hnil), (variadic_moved ρ form).trans hvariadic⟩

theorem content_moved (kind : ParamKind) (form : ArgumentForm) :
    ((form.moved ρ).argument kind).content = (form.argument kind).content := by
  have htype : runText (form.moved ρ).type = runText form.type := runText_map_moved ρ form.type
  have hdefault : (form.moved ρ).default?.map (fun (_, part) => String.ofList (runText part)) =
      form.default?.map fun (_, part) => String.ofList (runText part) := by
    show (movedPart ρ form.default?).map _ = _
    unfold movedPart
    rw [Option.map_map]
    exact Option.map_congr fun found _ => congrArg String.ofList (runText_map_moved ρ found.2)
  have hname : (form.moved ρ).name.text = form.name.text := rfl
  unfold argument
  dsimp only
  rw [variadic_moved, htype, hdefault, hname]
  split
  · split
    · rfl
    · rfl
  · rfl

end ArgumentForm

namespace Item

/-- The item at another place. -/
def moved : Item → Item
  | slash mark => slash (mark.moved ρ)
  | star mark => star (mark.moved ρ)
  | argument form => argument (form.moved ρ)

theorem lexemes_moved (item : Item) : (item.moved ρ).lexemes = item.lexemes.map (Lexeme.moved ρ) := by
  cases item with
  | slash | star => rfl
  | argument form => exact form.lexemes_moved ρ

theorem wellFormed_moved {depth : Nat} {item : Item} (h : item.WellFormed depth) : (item.moved ρ).WellFormed depth := by
  cases item with
  | slash | star => exact h
  | argument form => exact ArgumentForm.wellFormed_moved ρ h

theorem isSlash_comp_moved : isSlash ∘ moved ρ = isSlash := by
  funext item
  cases item <;> rfl

theorem isStar_comp_moved : isStar ∘ moved ρ = isStar := by
  funext item
  cases item <;> rfl

theorem isArgument_comp_moved : isArgument ∘ moved ρ = isArgument := by
  funext item
  cases item <;> rfl

theorem fits_moved {front : List Item} {item : Item} (h : item.Fits front) :
    (item.moved ρ).Fits (front.map (moved ρ)) := by
  cases item with
  | slash mark =>
    show _ ∧ _ ∧ _
    rw [List.any_map, List.any_map, List.any_map, isSlash_comp_moved, isStar_comp_moved, isArgument_comp_moved]
    exact h
  | star mark =>
    show _ = _
    rw [List.any_map, isStar_comp_moved]
    exact h
  | argument form => trivial

end Item

theorem markersInPlace_moved {items : List Item} (h : MarkersInPlace items) :
    MarkersInPlace (items.map (Item.moved ρ)) := by
  intro front item back hitems
  obtain ⟨front, rest, rfl, rfl, hrest⟩ := List.map_eq_append_iff.1 hitems
  obtain ⟨item, back, rfl, rfl, rfl⟩ := List.map_eq_cons_iff.1 hrest
  exact Item.fits_moved ρ (h front item back rfl)

theorem content_argumentsFrom_moved (star : Bool) (items : List Item) :
    (argumentsFrom star (items.map (Item.moved ρ))).map Argument.content =
      (argumentsFrom star items).map Argument.content := by
  induction items generalizing star with
  | nil => rfl
  | cons item items ih =>
    cases item with
    | slash mark => exact ih star
    | star mark => exact ih true
    | argument form =>
      rw [List.map_cons]
      show (ArgumentForm.argument _ _ :: argumentsFrom star _).map _ = (ArgumentForm.argument _ _ :: _).map _
      rw [List.map_cons, List.map_cons, ih star, List.any_map, Item.isSlash_comp_moved, form.content_moved]

theorem isList_moved {depth : Nat} {inner : List Lexeme} {items : List Item} (h : IsList depth inner items) :
    IsList depth (inner.map (moved ρ)) (items.map (Item.moved ρ)) := by
  rcases h with ⟨rfl, rfl⟩ | h
  · exact Or.inl ⟨rfl, rfl⟩
  · refine Or.inr ?_
    have hlexemes : (items.map (Item.moved ρ)).map Item.lexemes =
        (items.map Item.lexemes).map (List.map (moved ρ)) := by
      rw [List.map_map, List.map_map]
      exact List.map_congr_left fun item _ => item.lexemes_moved ρ
    rw [hlexemes]
    exact h.map_moved ρ

namespace Line

/-- What follows the first name of a line. -/
def tail (line : Line) : List Lexeme :=
  dotted line.more ++ line.opened :: (line.inner ++ line.closed :: marked line.result?)

theorem lexemes_eq (line : Line) : line.lexemes = indexed line.index? ++ line.first :: line.tail := rfl

/-- The line at another place, behind this index and these blanks. -/
def placed (line : Line) (index? : Option (Lexeme × Lexeme)) (gap : List Char) : Line where
  index? := index?
  first := { line.first.moved ρ with gap }
  more := line.more.map fun (dot, name) => (dot.moved ρ, name.moved ρ)
  opened := line.opened.moved ρ
  inner := line.inner.map (moved ρ)
  items := line.items.map (Item.moved ρ)
  closed := line.closed.moved ρ
  result? := movedPart ρ line.result?

variable {line : Line} {index? : Option (Lexeme × Lexeme)} {gap : List Char}

theorem lexemes_placed : (line.placed ρ index? gap).lexemes =
    indexed index? ++ { line.first.moved ρ with gap } :: line.tail.map (moved ρ) := by
  have hdotted : dotted (line.placed ρ index? gap).more = (dotted line.more).map (moved ρ) := by
    show dotted (line.more.map _) = _
    unfold dotted
    rw [List.flatMap_map, List.map_flatMap]
    rfl
  have hresult : marked (line.placed ρ index? gap).result? = (marked line.result?).map (moved ρ) :=
    marked_movedPart ρ line.result?
  rw [lexemes_eq, tail, hdotted, hresult]
  unfold tail
  rw [List.map_append, List.map_cons, List.map_append, List.map_cons]
  rfl

theorem wellFormed_placed {depth : Nat} (h : line.WellFormed depth) (hi : IsIndex index?) :
    (line.placed ρ index? gap).WellFormed depth where
  index := hi
  first := h.first
  more := by
    intro dot name hmem
    obtain ⟨⟨dot', name'⟩, hmem', he⟩ := List.mem_map.1 hmem
    cases he
    exact h.more dot' name' hmem'
  opened := h.opened
  list := isList_moved ρ h.list
  items := by
    intro item hmem
    obtain ⟨item', hmem', rfl⟩ := List.mem_map.1 hmem
    exact Item.wellFormed_moved ρ (h.items item' hmem')
  markers := markersInPlace_moved ρ h.markers
  closed := h.closed
  result := by
    intro arrow part hresult
    obtain ⟨arrow, part, hr, rfl, rfl⟩ := movedPart_eq_some ρ hresult
    obtain ⟨harrow, hne⟩ := h.result arrow part hr
    exact ⟨harrow, fun hnil => hne (List.map_eq_nil_iff.1 hnil)⟩

theorem sameContent_placed : (line.placed ρ index? gap).descriptor.SameContent line.descriptor := by
  have hnames : (line.placed ρ index? gap).names.map (fun name => String.ofList name.text) =
      line.names.map fun name => String.ofList name.text := by
    show _ :: (List.map Prod.snd (line.more.map _)).map _ = _ :: (line.more.map Prod.snd).map _
    rw [List.map_map, List.map_map, List.map_map]
    rfl
  refine ⟨congrArg List.dropLast hnames, ?_, content_argumentsFrom_moved ρ false line.items, ?_⟩
  · exact congrArg (fun names => escapeReserved (names.getLastD "")) hnames
  · show (movedPart ρ line.result?).map _ = line.result?.map _
    unfold movedPart
    rw [Option.map_map]
    refine Option.map_congr fun found _ => ?_
    exact congrArg (fun text => String.ofList (Text.collapse text)) (runText_map_moved ρ found.2)

end Line
end Grammar
end CallSig
