/-!
# Tables

Entries under names. The order of a table is the order in which its names were
first written; writing a name again replaces the value where it stands.

* `keys_put`: what a write does to the names.
* `lookup_put`: what a write does to a look-up.
* `mem_of_lookup`: what is found is an entry. `lookup_of_mem`: where names are
  distinct, an entry is found under its name.
* `foldl_putEntry`, `Table.ofList_entries`: entries under distinct names, written one
  after the other, stay as they are.
-/

namespace FormRouting

universe u

/-- Write `value` under `name`: in place of the first entry of that name, else at the end. -/
def putEntry {α : Type u} (name : String) (value : α) : List (String × α) → List (String × α)
  | [] => [(name, value)]
  | (k, v) :: rest => if k = name then (k, value) :: rest else (k, v) :: putEntry name value rest

section

variable {α : Type u}

theorem keys_put (name : String) (value : α) (entries : List (String × α)) :
    (putEntry name value entries).map Prod.fst =
      if name ∈ entries.map Prod.fst then entries.map Prod.fst
      else entries.map Prod.fst ++ [name] := by
  induction entries with
  | nil => simp [putEntry]
  | cons e rest ih =>
    obtain ⟨k, v⟩ := e
    by_cases hk : k = name
    · simp [putEntry, hk]
    · have hk' : ¬ name = k := fun h => hk h.symm
      simp only [putEntry, hk, if_false, List.map_cons, ih, List.mem_cons, hk', false_or]
      split <;> simp

theorem lookup_put (name other : String) (value : α) (entries : List (String × α)) :
    (putEntry name value entries).lookup other =
      if other = name then some value else entries.lookup other := by
  induction entries with
  | nil =>
    by_cases h : other = name
    · simp [putEntry, h]
    · have hb : (other == name) = false := beq_false_of_ne h
      simp [putEntry, h, List.lookup_cons, hb]
  | cons e rest ih =>
    obtain ⟨k, v⟩ := e
    by_cases hk : k = name
    · by_cases h : other = name
      · simp [putEntry, hk, h]
      · have hk' : (other == k) = false := by simp [hk, h]
        simp only [putEntry, hk, if_true, h, if_false]
        rw [hk] at hk'
        simp [List.lookup_cons, hk']
    · simp only [putEntry, hk, if_false, List.lookup_cons, ih]
      by_cases h : other = name
      · have : (name == k) = false := by
          simp only [beq_eq_false_iff_ne]; exact fun h' => hk h'.symm
        simp [h, this]
      · simp only [h, if_false]

/-- A name that is not there yet is written at the end. -/
theorem putEntry_of_notMem {entries : List (String × α)} {name : String} {a : α}
    (h : name ∉ entries.map Prod.fst) : putEntry name a entries = entries ++ [(name, a)] := by
  induction entries with
  | nil => rfl
  | cons x rest ih =>
    obtain ⟨hx, hrest⟩ := not_or.1 (mt List.mem_cons.2 h)
    rw [putEntry, if_neg (Ne.symm hx), ih hrest]
    rfl

theorem lookup_of_mem {entries : List (String × α)} (h : (entries.map Prod.fst).Nodup)
    {e : String × α} (he : e ∈ entries) : entries.lookup e.1 = some e.2 := by
  induction entries with
  | nil => cases he
  | cons x rest ih =>
    obtain ⟨hx, hrest⟩ := List.nodup_cons.1 h
    rcases List.mem_cons.1 he with rfl | he
    · exact List.lookup_cons_self
    · have hne : (e.1 == x.1) = false :=
        beq_false_of_ne fun heq => hx (heq ▸ List.mem_map_of_mem he)
      rw [List.lookup_cons, hne]
      exact ih hrest he

/-- What is found under a name is an entry. -/
theorem mem_of_lookup {entries : List (String × α)} {name : String} {a : α}
    (h : entries.lookup name = some a) : (name, a) ∈ entries := by
  obtain ⟨before, after, hsplit, -⟩ := List.lookup_eq_some_iff.1 h
  rw [hsplit]
  exact List.mem_append_right _ List.mem_cons_self

theorem lookup_eq_none_of_notMem {entries : List (String × α)} {name : String}
    (h : name ∉ entries.map Prod.fst) : entries.lookup name = none :=
  List.lookup_eq_none_iff.2 fun _ he =>
    bne_iff_ne.2 fun heq => h (heq ▸ List.mem_map_of_mem he)

/-- Entries under distinct names are written down as they are. -/
theorem foldl_putEntry {entries done : List (String × α)}
    (h : ((done ++ entries).map Prod.fst).Nodup) :
    entries.foldl (fun written e => putEntry e.1 e.2 written) done = done ++ entries := by
  induction entries generalizing done with
  | nil => simp
  | cons e rest ih =>
    have hfresh : e.1 ∉ done.map Prod.fst := by
      rw [List.map_append, List.map_cons] at h
      intro hmem
      exact (List.nodup_append.1 h).2.2 _ hmem _ List.mem_cons_self rfl
    have hassoc : done ++ e :: rest = (done ++ [e]) ++ rest := by simp
    rw [List.foldl_cons, putEntry_of_notMem hfresh, hassoc]
    exact ih (hassoc ▸ h)

end

/-- Entries under distinct names, in the order in which the names were first written. -/
structure Table (α : Type u) where
  entries : List (String × α)
  distinct : (entries.map Prod.fst).Nodup

namespace Table

variable {α : Type u}

def empty : Table α := ⟨[], List.nodup_nil⟩

instance : Inhabited (Table α) := ⟨empty⟩

def keys (t : Table α) : List String := t.entries.map Prod.fst

/-- Tables with the same entries are the same. -/
theorem ext {s t : Table α} (h : s.entries = t.entries) : s = t := by
  cases s
  cases t
  cases h
  rfl

theorem keys_nodup (t : Table α) : t.keys.Nodup := t.distinct

def size (t : Table α) : Nat := t.entries.length

def isEmpty (t : Table α) : Bool := t.entries.isEmpty

def get? (t : Table α) (name : String) : Option α := t.entries.lookup name

def contains (t : Table α) (name : String) : Bool := (t.get? name).isSome

theorem put_distinct {name : String} {value : α} {entries : List (String × α)}
    (h : (entries.map Prod.fst).Nodup) :
    ((putEntry name value entries).map Prod.fst).Nodup := by
  rw [keys_put]
  split
  · exact h
  · next hn =>
    refine List.nodup_append.2 ⟨h, by simp, ?_⟩
    intro a ha b hb hab
    rw [List.mem_singleton.1 hb] at hab
    exact hn (hab ▸ ha)

/-- Write `value` under `name`; a name that is already there keeps its place. -/
def insert (t : Table α) (name : String) (value : α) : Table α :=
  ⟨putEntry name value t.entries, put_distinct t.distinct⟩

/-- The table after writing the entries one after the other. -/
def ofList (entries : List (String × α)) : Table α :=
  entries.foldl (fun t e => t.insert e.1 e.2) empty

theorem entries_foldl_insert (entries : List (String × α)) (t : Table α) :
    (entries.foldl (fun t e => t.insert e.1 e.2) t).entries =
      entries.foldl (fun written e => putEntry e.1 e.2 written) t.entries := by
  induction entries generalizing t with
  | nil => rfl
  | cons e rest ih => exact ih (t.insert e.1 e.2)

/-- A table is what is written entry by entry. -/
theorem ofList_entries (t : Table α) : ofList t.entries = t := by
  refine ext ?_
  rw [ofList, entries_foldl_insert, empty, foldl_putEntry t.distinct, List.nil_append]

theorem get?_eq_some_iff {t : Table α} {name : String} {value : α} :
    t.get? name = some value ↔ (name, value) ∈ t.entries :=
  ⟨mem_of_lookup, fun h => lookup_of_mem t.distinct h⟩

/-- The order of the entries does not matter to a look-up. -/
theorem get?_of_perm {s t : Table α} (h : s.entries.Perm t.entries) (name : String) :
    s.get? name = t.get? name := by
  ext value
  rw [get?_eq_some_iff, get?_eq_some_iff, h.mem_iff]

theorem get?_insert (t : Table α) (name other : String) (value : α) :
    (t.insert name value).get? other = if other = name then some value else t.get? other :=
  lookup_put name other value t.entries

theorem keys_insert (t : Table α) (name : String) (value : α) :
    (t.insert name value).keys = if name ∈ t.keys then t.keys else t.keys ++ [name] :=
  keys_put name value t.entries

end Table

end FormRouting
