/-!
# `CallSig.Dict` — dictionaries with string keys

A dictionary is an association list whose keys ascend strictly, so each key occurs once and two dictionaries
with the same entries are equal. Keys ascend by code point, which is also their order by UTF-8 bytes.

## Contents
- **Entry lists.** `Entries.insert`, `Entries.find?`, with `Entries.find?_insert` and `Entries.ascending_insert`.
- **Dictionaries.** `Dict`, `get?`, `contains`, `insert`, `insertNew`, `erase`, `keys`, `size`, `ofList`; the laws
  of look-up are `get?_insert` and `get?_erase`, those of the keys `mem_keys_insert` and `mem_keys_insertNew`.
-/

namespace CallSig

/-! ## Entry lists -/

namespace Entries

variable {β : Type}

/-- The keys of the entries ascend strictly. -/
def Ascending (es : List (String × β)) : Prop := es.Pairwise fun a b => a.1 < b.1

/-- The value under a key. -/
def find? (k : String) : List (String × β) → Option β
  | [] => none
  | (k', v) :: rest => if k' = k then some v else find? k rest

/-- The entries with one more, or with another value under the key. -/
def insert (k : String) (v : β) : List (String × β) → List (String × β)
  | [] => [(k, v)]
  | (k', v') :: rest =>
    if k < k' then (k, v) :: (k', v') :: rest
    else if k = k' then (k, v) :: rest
    else (k', v') :: insert k v rest

theorem find?_insert (k k' : String) (v : β) (es : List (String × β)) :
    find? k' (insert k v es) = if k = k' then some v else find? k' es := by
  induction es with
  | nil => simp [insert, find?]
  | cons e rest ih =>
    obtain ⟨key, value⟩ := e
    simp only [insert]
    split
    · simp [find?]
    · split
      · next h => subst h; by_cases hk : k = k' <;> simp [find?, hk]
      · next h => by_cases hk : key = k' <;> simp_all [find?]

theorem mem_of_find? {k : String} {v : β} {es : List (String × β)} (h : find? k es = some v) : (k, v) ∈ es := by
  induction es with
  | nil => cases h
  | cons e rest ih =>
    obtain ⟨key, value⟩ := e
    rw [find?] at h
    split at h
    · next hk =>
      cases h
      rw [← hk]
      exact List.mem_cons_self
    · exact List.mem_cons_of_mem _ (ih h)

theorem isSome_find? (k : String) (es : List (String × β)) :
    (find? k es).isSome = (es.map Prod.fst).contains k := by
  induction es with
  | nil => rfl
  | cons e rest ih =>
    rw [find?, List.map_cons, List.contains_cons]
    split
    · next he => simp [he]
    · next he => simp [ih, Ne.symm he]

theorem mem_insert {k : String} {v : β} {e : String × β} {es : List (String × β)}
    (h : e ∈ insert k v es) : e = (k, v) ∨ e ∈ es := by
  induction es with
  | nil => simpa [insert] using h
  | cons e' rest ih =>
    obtain ⟨key, value⟩ := e'
    simp only [insert] at h
    split at h
    · simpa using h
    · split at h
      · rcases List.mem_cons.1 h with h | h
        · exact .inl h
        · exact .inr (List.mem_cons_of_mem _ h)
      · rcases List.mem_cons.1 h with h | h
        · exact .inr (h ▸ List.mem_cons_self)
        · exact (ih h).imp_right (List.mem_cons_of_mem _)

theorem ascending_insert (k : String) (v : β) {es : List (String × β)} (h : Ascending es) :
    Ascending (insert k v es) := by
  induction es with
  | nil => simp [insert, Ascending]
  | cons e rest ih =>
    obtain ⟨key, value⟩ := e
    obtain ⟨hfirst, hrest⟩ := List.pairwise_cons.1 h
    simp only [insert]
    split
    · next hlt =>
      refine List.pairwise_cons.2 ⟨fun e he => ?_, h⟩
      rcases List.mem_cons.1 he with he | he
      · exact he ▸ hlt
      · exact String.lt_trans hlt (hfirst e he)
    · split
      · next heq => exact List.pairwise_cons.2 ⟨fun e he => heq ▸ hfirst e he, hrest⟩
      · next hlt hne =>
        refine List.pairwise_cons.2 ⟨fun e he => ?_, ih hrest⟩
        rcases mem_insert he with he | he
        · subst he
          exact Decidable.byContradiction fun hn => hne (String.le_antisymm (String.not_lt.1 hn) (String.not_lt.1 hlt))
        · exact hfirst e he

end Entries

/-! ## Dictionaries -/

/-- A finite map from strings, as entries with strictly ascending keys. -/
structure Dict (β : Type) where
  entries : List (String × β)
  ascending : Entries.Ascending entries

namespace Dict

variable {β : Type}

/-- The dictionary without entries. -/
def empty : Dict β := ⟨[], List.Pairwise.nil⟩

/-- The value under a key. -/
def get? (d : Dict β) (k : String) : Option β := Entries.find? k d.entries

/-- Whether there is a value under a key. -/
def contains (d : Dict β) (k : String) : Bool := (d.get? k).isSome

/-- The dictionary with this value under the key, whatever was there. -/
def insert (d : Dict β) (k : String) (v : β) : Dict β :=
  ⟨Entries.insert k v d.entries, Entries.ascending_insert k v d.ascending⟩

/-- The dictionary with this value under the key, unless the key has one. -/
def insertNew (d : Dict β) (k : String) (v : β) : Dict β :=
  if d.contains k then d else d.insert k v

/-- The dictionary without a value under the key. -/
def erase (d : Dict β) (k : String) : Dict β :=
  ⟨d.entries.filter fun e => e.1 != k, d.ascending.filter _⟩

/-- The keys in ascending order. -/
def keys (d : Dict β) : List String := d.entries.map Prod.fst

/-- The number of entries. -/
def size (d : Dict β) : Nat := d.entries.length

/-- The dictionary of the listed entries; later ones win. -/
def ofList (es : List (String × β)) : Dict β := es.foldl (fun d e => d.insert e.1 e.2) empty

theorem find?_filter_ne (k k' : String) (es : List (String × β)) :
    Entries.find? k' (es.filter fun e => e.1 != k) = if k = k' then none else Entries.find? k' es := by
  induction es with
  | nil => simp [Entries.find?]
  | cons e rest ih =>
    obtain ⟨key, value⟩ := e
    by_cases h : key = k
    · subst h; by_cases hk : key = k' <;> simp_all [Entries.find?]
    · by_cases hk : key = k'
      · subst hk; simp [Entries.find?, h, Ne.symm h]
      · simp_all [Entries.find?]

theorem get?_erase (d : Dict β) (k k' : String) :
    (d.erase k).get? k' = if k = k' then none else d.get? k' :=
  find?_filter_ne k k' d.entries

@[simp] theorem get?_empty (k : String) : (empty : Dict β).get? k = none := rfl

theorem get?_insert (d : Dict β) (k k' : String) (v : β) :
    (d.insert k v).get? k' = if k = k' then some v else d.get? k' :=
  Entries.find?_insert k k' v d.entries

@[simp] theorem get?_insert_self (d : Dict β) (k : String) (v : β) : (d.insert k v).get? k = some v := by
  simp [get?_insert]

theorem get?_insert_of_ne (d : Dict β) {k k' : String} (v : β) (h : k ≠ k') :
    (d.insert k v).get? k' = d.get? k' := by
  simp [get?_insert, h]

theorem contains_eq (d : Dict β) (k : String) : d.contains k = d.keys.contains k := Entries.isSome_find? k d.entries

theorem isSome_get?_iff {d : Dict β} {k : String} : (d.get? k).isSome = true ↔ k ∈ d.keys := by
  rw [← List.contains_iff_mem, ← contains_eq]
  rfl

theorem mem_keys_of_get? {d : Dict β} {k : String} {v : β} (h : d.get? k = some v) : k ∈ d.keys :=
  List.mem_map_of_mem (Entries.mem_of_find? h)

theorem pairwise_keys (d : Dict β) : d.keys.Pairwise (· < ·) := List.pairwise_map.2 d.ascending

theorem mem_keys_insert {d : Dict β} {k k' : String} {v : β} : k' ∈ (d.insert k v).keys ↔ k' = k ∨ k' ∈ d.keys := by
  rw [← isSome_get?_iff, ← isSome_get?_iff, get?_insert]
  split
  · next h => simp [h]
  · next h => simp [Ne.symm h]

theorem mem_keys_insertNew {d : Dict β} {k k' : String} {v : β} :
    k' ∈ (d.insertNew k v).keys ↔ k' = k ∨ k' ∈ d.keys := by
  unfold insertNew
  split
  · next h =>
    rw [contains_eq, List.contains_iff_mem] at h
    exact ⟨Or.inr, fun hmem => hmem.elim (fun he => he ▸ h) id⟩
  · exact mem_keys_insert

end Dict

end CallSig
