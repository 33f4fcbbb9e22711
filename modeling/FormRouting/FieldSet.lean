import FormRouting.Selector

/-!
# Field sets

The fields of a form by name, in ascending order of their names. A field may
declare a selector for its content key.
-/

namespace FormRouting

universe u

/-- Write `value` under `name` into a list that is sorted by name. -/
def putSorted {α : Type u} (name : String) (value : α) : List (String × α) → List (String × α)
  | [] => [(name, value)]
  | (k, v) :: rest =>
    if name < k then (name, value) :: (k, v) :: rest
    else if name = k then (k, value) :: rest
    else (k, v) :: putSorted name value rest

/-- The names ascend. -/
abbrev NamesAscend {α : Type u} (entries : List (String × α)) : Prop :=
  entries.Pairwise fun a b => a.1 < b.1

section

variable {α : Type u} {name : String} {value : α}

theorem mem_putSorted {entries : List (String × α)} {e : String × α}
    (h : e ∈ putSorted name value entries) : e = (name, value) ∨ e ∈ entries := by
  induction entries with
  | nil => simpa [putSorted] using h
  | cons x rest ih =>
    obtain ⟨k, v⟩ := x
    simp only [putSorted] at h
    split at h
    · rcases List.mem_cons.1 h with h | h
      · exact .inl h
      · exact .inr h
    · split at h
      · next hk =>
        rcases List.mem_cons.1 h with h | h
        · exact .inl (by rw [h, hk])
        · exact .inr (List.mem_cons_of_mem _ h)
      · rcases List.mem_cons.1 h with h | h
        · exact .inr (h ▸ List.mem_cons_self)
        · rcases ih h with h | h
          · exact .inl h
          · exact .inr (List.mem_cons_of_mem _ h)

theorem putSorted_ascends {entries : List (String × α)} (h : NamesAscend entries) :
    NamesAscend (putSorted name value entries) := by
  induction entries with
  | nil => simp [putSorted, NamesAscend]
  | cons x rest ih =>
    obtain ⟨k, v⟩ := x
    obtain ⟨hx, hrest⟩ := List.pairwise_cons.1 h
    simp only [putSorted]
    split
    · next hlt =>
      refine List.pairwise_cons.2 ⟨fun e he => ?_, h⟩
      rcases List.mem_cons.1 he with he | he
      · rw [he]; exact hlt
      · exact String.lt_trans hlt (hx e he)
    · next hlt =>
      split
      · exact List.pairwise_cons.2 ⟨hx, hrest⟩
      · next hne =>
        refine List.pairwise_cons.2 ⟨fun e he => ?_, ih hrest⟩
        rcases mem_putSorted he with he | he
        · rw [he]
          exact String.not_le.1 fun hle =>
            hne (String.le_antisymm hle (String.not_lt.1 hlt))
        · exact hx e he

end

/-- What is declared for one field; only the content key is read. -/
structure FieldOptions (C : Type) where
  contentKey : Option (Selector C) := none
deriving Inhabited

/-- Fields by ascending name. -/
structure FieldSet (C : Type) where
  entries : List (String × FieldOptions C)
  ascending : NamesAscend entries

namespace FieldSet

variable {C : Type}

def empty : FieldSet C := ⟨[], List.Pairwise.nil⟩

instance : Inhabited (FieldSet C) := ⟨empty⟩

/-- Field sets with the same entries are the same. -/
theorem ext {s t : FieldSet C} (h : s.entries = t.entries) : s = t := by
  cases s
  cases t
  cases h
  rfl

/-- Declare a field; a repeated declaration replaces the earlier one. -/
def insert (fields : FieldSet C) (name : String) (options : FieldOptions C) : FieldSet C :=
  ⟨putSorted name options fields.entries, putSorted_ascends fields.ascending⟩

/-- The set after declaring the fields one after the other. -/
def ofList (entries : List (String × FieldOptions C)) : FieldSet C :=
  entries.foldl (fun fields e => fields.insert e.1 e.2) empty

end FieldSet

end FormRouting
