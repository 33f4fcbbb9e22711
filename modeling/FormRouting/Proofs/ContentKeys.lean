import FormRouting.Proofs.Dependence
import Mathlib.Data.List.Nodup
import Mathlib.Data.List.Perm.Basic

/-!
# Content keys field by field

The fields of a form are looked through in ascending order of their names. Each field
that declares a selector adds its key or nothing, and no field sees another one. So the
content keys are known from the single fields, and what happens to one field does not
show at any other.

* `lookup_putSorted`, `eq_of_lookup`: entries in ascending order are known by their
  look-ups. `joinSorted`: two lists of entries in one.
* `FieldSet.selectors`: the fields that declare a selector, in ascending order.
* `lookup_contentKeys`: the content key of a name is the key of its selector if that is
  not empty. `value_contentKeys_union`: field sets without a common name.
* `content_keys_by_field`: **what is returned for a name, for two field sets together,
  after a change of one field, and what is looked up on the way.**
-/

namespace FormRouting

universe u

/-! ## Entries in ascending order -/

section

variable {α : Type u} {entries : List (String × α)}

theorem lookup_putSorted (name other : String) (value : α) (entries : List (String × α)) :
    (putSorted name value entries).lookup other =
      if other = name then some value else entries.lookup other := by
  induction entries with
  | nil =>
    by_cases h : other = name
    · simp [putSorted, h]
    · simp [putSorted, h, List.lookup_cons, beq_false_of_ne h]
  | cons e rest ih =>
    obtain ⟨k, v⟩ := e
    unfold putSorted
    split
    · by_cases h : other = name
      · simp [h]
      · simp [h, List.lookup_cons, beq_false_of_ne h]
    · split
      · next hk =>
        subst hk
        by_cases h : other = name
        · simp [h]
        · simp [h, List.lookup_cons, beq_false_of_ne h]
      · next hk =>
        rw [List.lookup_cons, List.lookup_cons, ih]
        by_cases h : other = name
        · simp [h, beq_false_of_ne hk]
        · simp [h]

theorem NamesAscend.distinct (h : NamesAscend entries) : (entries.map Prod.fst).Nodup := by
  rw [List.Nodup, List.pairwise_map]
  refine h.imp ?_
  intro a b hlt heq
  rw [heq] at hlt
  exact String.lt_irrefl _ hlt

theorem NamesAscend.mem_iff_lookup (h : NamesAscend entries) {e : String × α} :
    e ∈ entries ↔ entries.lookup e.1 = some e.2 :=
  ⟨fun he => lookup_of_mem h.distinct he, mem_of_lookup⟩

/-- **Entries in ascending order are known by their look-ups.** -/
theorem NamesAscend.eq_of_lookup {others : List (String × α)} (h : NamesAscend entries)
    (h' : NamesAscend others) (hlookup : ∀ name, entries.lookup name = others.lookup name) :
    entries = others := by
  have hmem : ∀ e, e ∈ entries ↔ e ∈ others := by
    intro e
    rw [h.mem_iff_lookup, h'.mem_iff_lookup, hlookup]
  have hperm : entries.Perm others :=
    (List.perm_ext_iff_of_nodup (List.Nodup.of_map _ h.distinct)
      (List.Nodup.of_map _ h'.distinct)).2 hmem
  exact hperm.eq_of_pairwise
    (fun a b _ _ hab hba => absurd (String.lt_trans hab hba) (String.lt_irrefl _)) h h'

/-- Two lists of entries in one; the second one counts where both have a name. -/
def joinSorted (entries more : List (String × α)) : List (String × α) :=
  more.foldl (fun joined e => putSorted e.1 e.2 joined) entries

theorem joinSorted_ascends (h : NamesAscend entries) (more : List (String × α)) :
    NamesAscend (joinSorted entries more) := by
  induction more generalizing entries with
  | nil => exact h
  | cons e rest ih => exact ih (putSorted_ascends h)

theorem lookup_joinSorted {more : List (String × α)} (h : (more.map Prod.fst).Nodup)
    (entries : List (String × α)) (name : String) :
    (joinSorted entries more).lookup name = (more.lookup name).or (entries.lookup name) := by
  induction more generalizing entries with
  | nil => rfl
  | cons e rest ih =>
    obtain ⟨hnot, hrest⟩ := List.nodup_cons.1 h
    have hstep := ih hrest (putSorted e.1 e.2 entries)
    rw [lookup_putSorted] at hstep
    rw [joinSorted, List.foldl_cons, ← joinSorted, hstep, List.lookup_cons]
    by_cases he : name = e.1
    · simp [he, lookup_eq_none_of_notMem hnot]
    · simp [he, beq_false_of_ne he]

/-- A look-up among entries of which only some are kept, with other values. -/
theorem lookup_filterMap {β : Type u} (h : (entries.map Prod.fst).Nodup) (f : α → Option β)
    (name : String) :
    (entries.filterMap fun e => (f e.2).map fun b => (e.1, b)).lookup name =
      (entries.lookup name).bind f := by
  induction entries with
  | nil => rfl
  | cons e rest ih =>
    obtain ⟨k, a⟩ := e
    obtain ⟨hnot, hrest⟩ := List.nodup_cons.1 h
    have ih := ih hrest
    by_cases hk : name = k
    · subst hk
      rw [lookup_eq_none_of_notMem hnot] at ih
      cases hf : f a with
      | none => simp [hf, ih]
      | some b => simp [hf]
    · cases hf : f a with
      | none => simp [hf, List.lookup_cons, beq_false_of_ne hk, ih]
      | some b => simp [hf, List.lookup_cons, beq_false_of_ne hk, ih]

end

/-! ## Field sets -/

variable {C : Type}

namespace FieldSet

def get? (fields : FieldSet C) (name : String) : Option (FieldOptions C) :=
  fields.entries.lookup name

/-- The fields of both sets; the second one counts where both declare a field. -/
def union (fields more : FieldSet C) : FieldSet C :=
  more.entries.foldl (fun joined e => joined.insert e.1 e.2) fields

/-- The field set without a field. -/
def erase (fields : FieldSet C) (name : String) : FieldSet C :=
  ⟨fields.entries.filter fun e => e.1 ≠ name, fields.ascending.filter _⟩

/-- The fields that declare a selector, with their selectors. -/
def selectors (fields : FieldSet C) : List (String × Selector C) :=
  fields.entries.filterMap fun e => e.2.contentKey.map fun s => (e.1, s)

theorem entries_union (fields more : FieldSet C) :
    (fields.union more).entries = joinSorted fields.entries more.entries := by
  have hrun : ∀ (l : List (String × FieldOptions C)) (joined : FieldSet C),
      (l.foldl (fun joined e => joined.insert e.1 e.2) joined).entries =
        joinSorted joined.entries l := by
    intro l
    induction l with
    | nil => exact fun _ => rfl
    | cons e rest ih => exact fun joined => ih (joined.insert e.1 e.2)
  exact hrun more.entries fields

theorem get?_union (fields more : FieldSet C) (name : String) :
    (fields.union more).get? name = (more.get? name).or (fields.get? name) := by
  rw [get?, entries_union]
  exact lookup_joinSorted more.ascending.distinct fields.entries name

theorem get?_insert (fields : FieldSet C) (name other : String) (options : FieldOptions C) :
    (fields.insert name options).get? other =
      if other = name then some options else fields.get? other :=
  lookup_putSorted name other options fields.entries

theorem get?_erase_of_ne (fields : FieldSet C) {name other : String} (h : other ≠ name) :
    (fields.erase name).get? other = fields.get? other := by
  ext options
  have hmem : ∀ set : FieldSet C,
      set.get? other = some options ↔ (other, options) ∈ set.entries :=
    fun set => (set.ascending.mem_iff_lookup (e := (other, options))).symm
  rw [hmem, hmem, erase, List.mem_filter]
  exact and_iff_left (decide_eq_true h)

/-- Entries of which some are kept still ascend. -/
theorem filterMap_ascends {α β : Type} {entries : List (String × α)} (h : NamesAscend entries)
    (f : String × α → Option β) :
    NamesAscend (entries.filterMap fun e => (f e).map fun b => (e.1, b)) := by
  refine h.filterMap _ ?_
  intro a b hlt x hx y hy
  obtain ⟨_, -, rfl⟩ := Option.map_eq_some_iff.1 hx
  obtain ⟨_, -, rfl⟩ := Option.map_eq_some_iff.1 hy
  exact hlt

theorem selectors_ascend (fields : FieldSet C) : NamesAscend fields.selectors :=
  filterMap_ascends fields.ascending fun e => e.2.contentKey

theorem mem_selectors {fields : FieldSet C} {name : String} {s : Selector C} :
    (name, s) ∈ fields.selectors ↔ fields.get? name = some ⟨some s⟩ := by
  rw [fields.selectors_ascend.mem_iff_lookup, selectors,
    lookup_filterMap fields.ascending.distinct FieldOptions.contentKey, ← get?]
  cases hget : fields.get? name with
  | none => simp
  | some options =>
    obtain ⟨contentKey⟩ := options
    simp

end FieldSet

/-! ## The key of a field -/

/-- The key that a selector gives, unless it is empty. -/
def Selector.contentKey (s : Selector C) (source : Source) (ctx : C) : Option String :=
  (s.resolve source ctx).value.filter fun key => key ≠ ""

theorem Selector.contentKey_eq_some_iff {s : Selector C} {source : Source} {ctx : C}
    {key : String} :
    s.contentKey source ctx = some key ↔ (s.resolve source ctx).value = some key ∧ key ≠ "" := by
  rw [contentKey, Option.filter_eq_some_iff, decide_eq_true_iff]

theorem value_resolveKey (options : FieldOptions C) (name : String) (source : Source) (ctx : C) :
    (options.resolveKey name source ctx).value =
      options.contentKey.bind fun s => s.contentKey source ctx := by
  obtain ⟨contentKey⟩ := options
  cases contentKey with
  | none => rfl
  | some s =>
    simp only [FieldOptions.resolveKey, Option.bind_some, Selector.contentKey]
    cases hv : (s.resolve source ctx).value with
    | none => rfl
    | some key =>
      by_cases hkey : key = ""
      · simp [hkey, Option.filter]
      · simp [hkey, Option.filter]

namespace FieldSet

variable {fields more : FieldSet C} {source : Source} {ctx : C}

theorem value_contentKeys (fields : FieldSet C) (source : Source) (ctx : C) :
    (fields.contentKeys source ctx).value =
      fields.entries.filterMap fun e =>
        (e.2.contentKey.bind fun s => s.contentKey source ctx).map fun key => (e.1, key) := by
  unfold contentKeys
  simp only [List.filterMap_map, Function.comp_def, value_resolveKey]

theorem contentKeys_ascend (fields : FieldSet C) (source : Source) (ctx : C) :
    NamesAscend (fields.contentKeys source ctx).value := by
  rw [value_contentKeys]
  exact filterMap_ascends fields.ascending _

/-- **The content key of a name** is the key of its selector, unless that is empty. -/
theorem lookup_contentKeys (fields : FieldSet C) (source : Source) (ctx : C) (name : String) :
    (fields.contentKeys source ctx).value.lookup name =
      (fields.get? name).bind fun options =>
        options.contentKey.bind fun s => s.contentKey source ctx := by
  rw [value_contentKeys, get?]
  exact lookup_filterMap fields.ascending.distinct
    (fun options : FieldOptions C => options.contentKey.bind fun s => s.contentKey source ctx) name

theorem lookup_contentKeys_eq_some_iff {name key : String} :
    (fields.contentKeys source ctx).value.lookup name = some key ↔
      ∃ s, fields.get? name = some ⟨some s⟩ ∧ (s.resolve source ctx).value = some key ∧
        key ≠ "" := by
  rw [lookup_contentKeys, Option.bind_eq_some_iff]
  constructor
  · rintro ⟨⟨contentKey⟩, hget, hkey⟩
    obtain ⟨s, rfl, hs⟩ := Option.bind_eq_some_iff.1 hkey
    exact ⟨s, hget, Selector.contentKey_eq_some_iff.1 hs⟩
  · rintro ⟨s, hget, hs⟩
    exact ⟨_, hget, Selector.contentKey_eq_some_iff.2 hs⟩

/-- What is declared for a name is all that counts for its content key. -/
theorem lookup_contentKeys_congr {name : String} (h : fields.get? name = more.get? name) :
    (fields.contentKeys source ctx).value.lookup name =
      (more.contentKeys source ctx).value.lookup name := by
  rw [lookup_contentKeys, lookup_contentKeys, h]

/-- **Field sets without a common name.** -/
theorem value_contentKeys_union (h : ∀ name, fields.get? name = none ∨ more.get? name = none) :
    ((fields.union more).contentKeys source ctx).value =
      joinSorted (fields.contentKeys source ctx).value (more.contentKeys source ctx).value := by
  have hjoined := joinSorted_ascends (contentKeys_ascend fields source ctx)
    (more.contentKeys source ctx).value
  refine (contentKeys_ascend _ source ctx).eq_of_lookup hjoined fun name => ?_
  rw [lookup_joinSorted (contentKeys_ascend more source ctx).distinct, lookup_contentKeys,
    lookup_contentKeys, lookup_contentKeys, get?_union]
  rcases h name with hnone | hnone
  · simp [hnone]
  · simp [hnone]

/-- What is looked up, selector after selector. -/
theorem lookups_contentKeys_eq (fields : FieldSet C) (source : Source) (ctx : C) :
    lookups (fields.contentKeys source ctx).trace =
      fields.selectors.flatMap fun e => lookups (e.2.resolve source ctx).trace := by
  have hfield : ∀ e : String × FieldOptions C,
      e.2.contentKey.toList.flatMap (fun s => lookups (s.resolve source ctx).trace) =
        (e.2.contentKey.map fun s => (e.1, s)).toList.flatMap fun d =>
          lookups (d.2.resolve source ctx).trace := by
    intro e
    cases e.2.contentKey <;> rfl
  rw [lookups_contentKeys, selectors, List.filterMap_eq_flatMap_toList, List.flatMap_assoc]
  exact List.flatMap_congr fun e _ => hfield e

end FieldSet

/-- **Content keys are computed field by field.** A name has a content key just if its field
declares a selector that gives a key which is not empty, and then it has that key. For field sets
without a common name, the keys of both together are the keys of one and of the other. A field that
is added, changed or removed changes the key of no other name. The look-ups are those of the
declared selectors one after the other, in ascending order of the names. -/
theorem content_keys_by_field (source : Source) (ctx : C) :
    (∀ fields : FieldSet C, NamesAscend (fields.contentKeys source ctx).value ∧
      ∀ name key, (fields.contentKeys source ctx).value.lookup name = some key ↔
        ∃ s, fields.get? name = some ⟨some s⟩ ∧ (s.resolve source ctx).value = some key ∧
          key ≠ "") ∧
    (∀ fields more : FieldSet C, (∀ name, fields.get? name = none ∨ more.get? name = none) →
      ((fields.union more).contentKeys source ctx).value =
        joinSorted (fields.contentKeys source ctx).value (more.contentKeys source ctx).value) ∧
    (∀ (fields : FieldSet C) (name other : String), other ≠ name →
      (∀ options, ((fields.insert name options).contentKeys source ctx).value.lookup other =
        (fields.contentKeys source ctx).value.lookup other) ∧
      ((fields.erase name).contentKeys source ctx).value.lookup other =
        (fields.contentKeys source ctx).value.lookup other) ∧
    ∀ fields : FieldSet C, NamesAscend fields.selectors ∧
      (∀ name s, (name, s) ∈ fields.selectors ↔ fields.get? name = some ⟨some s⟩) ∧
      lookups (fields.contentKeys source ctx).trace =
        fields.selectors.flatMap fun e => lookups (e.2.resolve source ctx).trace := by
  refine ⟨fun fields => ⟨fields.contentKeys_ascend source ctx, fun name key => ?_⟩,
    fun fields more h => FieldSet.value_contentKeys_union h, fun fields name other h => ⟨?_, ?_⟩,
    fun fields => ⟨fields.selectors_ascend, fun name s => FieldSet.mem_selectors,
      fields.lookups_contentKeys_eq source ctx⟩⟩
  · exact FieldSet.lookup_contentKeys_eq_some_iff
  · intro options
    refine FieldSet.lookup_contentKeys_congr ?_
    rw [FieldSet.get?_insert, if_neg h]
  · exact FieldSet.lookup_contentKeys_congr (fields.get?_erase_of_ne h)

/-! ### A title and a hint -/

/-- A key for where the age is known. -/
def grownUp : Selector Unit := .sequence [.branch (known "age") (some (.key "adult"))]

def titleOnly : FieldSet Unit := .ofList [("title", ⟨some grownUp⟩)]

/-- The key of the hint is empty, so it has none. -/
def hintOnly : FieldSet Unit := .ofList [("hint", ⟨some (.key "")⟩)]

theorem contentKeys_title :
    (∀ name, titleOnly.get? name = none ∨ hintOnly.get? name = none) ∧
    ((titleOnly.union hintOnly).contentKeys ageOnly ()).value = [("title", "adult")] ∧
    "title" ≠ "hint" ∧
    ((titleOnly.insert "hint" ⟨some grownUp⟩).contentKeys ageOnly ()).value.lookup "title" =
      some "adult" ∧
    ((titleOnly.erase "hint").contentKeys ageOnly ()).value.lookup "title" = some "adult" := by
  obtain ⟨-, hunion, hothers, -⟩ := content_keys_by_field (C := Unit) ageOnly ()
  have hdisjoint : ∀ name, titleOnly.get? name = none ∨ hintOnly.get? name = none := by
    intro name
    by_cases h : name = "title"
    · exact .inr (h ▸ rfl)
    · have hnot : name ∉ ["title"] := by simpa using h
      exact .inl (lookup_eq_none_of_notMem hnot)
  have hgrownUp : (grownUp.resolve ageOnly ()).value = some "adult" := value_resolve ageOnly () grownUp
  have htitle : (titleOnly.contentKeys ageOnly ()).value = [("title", "adult")] := by
    have hentries : titleOnly.entries = [("title", ⟨some grownUp⟩)] := rfl
    simp [FieldSet.contentKeys, hentries, FieldOptions.resolveKey, hgrownUp]
  have hhint : (hintOnly.contentKeys ageOnly ()).value = [] := by
    have hkey : ((Selector.key "").resolve ageOnly ()).value = some "" :=
      value_resolve ageOnly () (.key "")
    have hentries : hintOnly.entries = [("hint", ⟨some (.key "")⟩)] := rfl
    simp [FieldSet.contentKeys, hentries, FieldOptions.resolveKey, hkey]
  have hne : "title" ≠ "hint" := by decide
  obtain ⟨hinsert, herase⟩ := hothers titleOnly "hint" "title" hne
  refine ⟨hdisjoint, ?_, hne, ?_, ?_⟩
  · rw [hunion titleOnly hintOnly hdisjoint, htitle, hhint]
    rfl
  · rw [hinsert, htitle]
    rfl
  · rw [herase, htitle]
    rfl

end FormRouting
