import FormRouting.Table
import Mathlib.Data.List.Forall2
import Mathlib.Data.Finset.Card

/-!
# Names written more than once

A table that is written entry by entry forgets which entries were replaced. What it
keeps of them: every name at the place where it was first written, with what was last
written under it.

* `ofList_concat`: one more entry. From it, by induction from the end, what all
  entries do: `keys_ofList`, `get?_ofList`, `size_ofList`.
* `eq_of_get?`: a table is known by its names and its look-ups; `ofList_eq_iff`: so
  entries under the same names are compared where they are the last of their name.
* `forall₂_ofList`, `rel_get?_ofList`: entries that go with each other pairwise still
  do in the tables.
-/

namespace FormRouting

universe u v

variable {α : Type u} {β : Type v}

namespace Table

/-! ## Writing one after the other -/

theorem ofList_concat (entries : List (String × α)) (e : String × α) :
    ofList (entries ++ [e]) = (ofList entries).insert e.1 e.2 := by
  rw [ofList, List.foldl_append]
  rfl

/-- **Names stand in the order in which they were first written.** -/
theorem keys_ofList (entries : List (String × α)) :
    (ofList entries).keys = (entries.map Prod.fst).eraseDups := by
  induction entries using List.reverseRecOn with
  | nil => rfl
  | append_singleton entries e ih =>
    rw [ofList_concat, keys_insert, ih, List.map_append, List.eraseDups_append]
    simp only [List.mem_eraseDups, List.map_cons, List.map_nil]
    split
    · next h => simp [List.removeAll, h]
    · next h => simp [List.removeAll, h, List.eraseDups_cons]

/-- **What was last written under a name is found there.** -/
theorem get?_ofList (entries : List (String × α)) (name : String) :
    (ofList entries).get? name = entries.reverse.lookup name := by
  induction entries using List.reverseRecOn with
  | nil => rfl
  | append_singleton entries e ih =>
    rw [ofList_concat, get?_insert, ih, List.reverse_append, List.reverse_singleton,
      List.singleton_append, List.lookup_cons]
    by_cases h : name = e.1
    · rw [if_pos h, beq_iff_eq.2 h]
    · rw [if_neg h, beq_false_of_ne h]

/-- There are as many entries as names. -/
theorem size_ofList (entries : List (String × α)) :
    (ofList entries).size = (entries.map Prod.fst).toFinset.card := by
  have hsize : (ofList entries).size = (ofList entries).keys.length := by
    rw [size, keys, List.length_map]
  have hnames : (entries.map Prod.fst).toFinset = (ofList entries).keys.toFinset := by
    ext name
    rw [List.mem_toFinset, List.mem_toFinset, keys_ofList, List.mem_eraseDups]
  rw [hsize, hnames, List.toFinset_card_of_nodup (keys_nodup _)]

/-- Nothing stands in a table that was not written. -/
theorem mem_of_mem_ofList {entries : List (String × α)} {e : String × α}
    (h : e ∈ (ofList entries).entries) : e ∈ entries := by
  have hget := get?_eq_some_iff.2 h
  rw [get?_ofList] at hget
  exact List.mem_reverse.1 (mem_of_lookup hget)

/-- The same writes on bare entries. -/
theorem entries_ofList (entries : List (String × α)) :
    (ofList entries).entries =
      entries.foldl (fun written e => putEntry e.1 e.2 written) [] :=
  entries_foldl_insert entries empty

/-- Entries under distinct names stay as they are. -/
theorem entries_ofList_of_nodup {entries : List (String × α)}
    (h : (entries.map Prod.fst).Nodup) : (ofList entries).entries = entries := by
  have hall : (([] ++ entries).map Prod.fst).Nodup := h
  rw [entries_ofList, foldl_putEntry hall, List.nil_append]

/-! ## Equal tables -/

/-- The entries of a table, each with what is found under its name. -/
theorem map_entries (t : Table α) :
    t.entries.map (fun e => (e.1, some e.2)) = t.keys.map fun name => (name, t.get? name) := by
  rw [keys, List.map_map]
  refine List.map_congr_left fun e he => ?_
  rw [Function.comp_apply, get?, lookup_of_mem t.distinct he]

/-- **A table is known by its names and its look-ups.** -/
theorem eq_of_get? {s t : Table α} (hkeys : s.keys = t.keys)
    (hget : ∀ name, s.get? name = t.get? name) : s = t := by
  have hentries : s.entries.map (fun e => (e.1, some e.2)) =
      t.entries.map fun e => (e.1, some e.2) := by
    rw [map_entries, map_entries, hkeys]
    exact List.map_congr_left fun name _ => by rw [hget]
  refine ext (List.map_injective_iff.2 ?_ hentries)
  rintro ⟨name, a⟩ ⟨name', a'⟩ h
  cases h
  rfl

/-- Of entries under the same names, the last ones decide. -/
theorem ofList_eq_iff {entries others : List (String × α)}
    (hnames : entries.map Prod.fst = others.map Prod.fst) :
    ofList entries = ofList others ↔
      ∀ name, entries.reverse.lookup name = others.reverse.lookup name := by
  constructor
  · intro h name
    rw [← get?_ofList, h, get?_ofList]
  · intro h
    refine eq_of_get? (by rw [keys_ofList, keys_ofList, hnames]) fun name => ?_
    rw [get?_ofList, get?_ofList, h name]

end Table

/-! ## What goes with each other -/

section

variable {R : α → β → Prop}

theorem forall₂_imp_of_mem {S : α → β → Prop} {l : List α} {u : List β} (h : List.Forall₂ R l u)
    (himp : ∀ a ∈ l, ∀ b, R a b → S a b) : List.Forall₂ S l u := by
  induction h with
  | nil => exact .nil
  | cons hab _ ih =>
    exact .cons (himp _ List.mem_cons_self _ hab) (ih fun a ha => himp a (List.mem_cons_of_mem _ ha))

theorem map_eq_of_forall₂ {f : β → α} {l : List α} {u : List β}
    (h : List.Forall₂ (fun a b => f b = a) l u) : u.map f = l := by
  induction h with
  | nil => rfl
  | cons hab _ ih => rw [List.map_cons, hab, ih]

/-- Elements at the same place go with each other, or there are none. -/
theorem rel_getElem? {l : List α} {u : List β} (h : List.Forall₂ R l u) (i : Nat) :
    Option.Rel R l[i]? u[i]? := by
  induction h generalizing i with
  | nil => exact .none
  | cons hab _ ih =>
    cases i with
    | zero => exact .some hab
    | succ i => exact ih i

/-- Values under the same name go with each other, or there are none. -/
theorem rel_lookup {entries : List (String × α)} {others : List (String × β)}
    (h : List.Forall₂ (fun e f => e.1 = f.1 ∧ R e.2 f.2) entries others) (name : String) :
    Option.Rel R (entries.lookup name) (others.lookup name) := by
  induction h with
  | nil => exact .none
  | @cons e f rest others hef _ ih =>
    rw [List.lookup_cons, List.lookup_cons, hef.1]
    cases name == f.1 with
    | true => exact .some hef.2
    | false => exact ih

theorem forall₂_putEntry {e : String × α} {f : String × β} (hname : e.1 = f.1) (h : R e.2 f.2)
    {entries : List (String × α)} {others : List (String × β)}
    (hall : List.Forall₂ (fun e f => e.1 = f.1 ∧ R e.2 f.2) entries others) :
    List.Forall₂ (fun e f => e.1 = f.1 ∧ R e.2 f.2) (putEntry e.1 e.2 entries)
      (putEntry f.1 f.2 others) := by
  induction hall with
  | nil => exact .cons ⟨hname, h⟩ .nil
  | @cons x y rest others hxy hrest ih =>
    obtain ⟨k, a⟩ := x
    obtain ⟨k', b⟩ := y
    obtain ⟨rfl, hab⟩ := hxy
    simp only [putEntry, hname]
    split
    · exact .cons ⟨rfl, h⟩ hrest
    · exact .cons ⟨rfl, hab⟩ (hname ▸ ih)

/-- **Written one after the other, entries that go with each other still do.** -/
theorem Table.forall₂_ofList {entries : List (String × α)} {others : List (String × β)}
    (h : List.Forall₂ (fun e f => e.1 = f.1 ∧ R e.2 f.2) entries others) :
    List.Forall₂ (fun e f => e.1 = f.1 ∧ R e.2 f.2) (ofList entries).entries
      (ofList others).entries := by
  rw [entries_ofList, entries_ofList]
  exact List.rel_foldl
    (P := List.Forall₂ fun (e : String × α) (f : String × β) => e.1 = f.1 ∧ R e.2 f.2)
    (fun _ _ hall _ _ hef => forall₂_putEntry hef.1 hef.2 hall) .nil h

/-- What is found in a table goes with the last entry of the name. -/
theorem Table.rel_get?_ofList {entries : List (String × α)} {others : List (String × β)}
    (h : List.Forall₂ (fun e f => e.1 = f.1 ∧ R e.2 f.2) entries others) (name : String) :
    Option.Rel R (entries.reverse.lookup name) ((ofList others).get? name) := by
  rw [get?_ofList]
  exact rel_lookup (List.forall₂_reverse_iff.2 h) name

end

end FormRouting
