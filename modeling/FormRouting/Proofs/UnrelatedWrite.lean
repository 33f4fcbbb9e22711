import FormRouting.Proofs.Dependence
import FormRouting.Proofs.DottedLookup

/-!
# Writing an unrelated field

A look-up of a path asks for two stored values at most: the one under the whole path and
the one under its first part. A write under any other name is not noticed, by the look-up
or by anything that is made of look-ups.

* `getPath?_congr`: stores with the same values under these two names.
* `getPath?_insert_of_ne`, `exists_getPath?_insert_ne`: a write elsewhere is not noticed, a write
  under one of the two names can be.
* `agreeOn_insert`: look-ups that are not concerned with a name see the same source.
* `insert_unrelated`: **a write under a name that no look-up is concerned with changes no
  key, no content key and no event on the way.**
-/

namespace FormRouting

namespace FieldValues

variable {values other : FieldValues} {name path : String} {value : Json}

/-- A look-up asks for the whole path and for its first part, and for nothing else. -/
theorem getPath?_congr (hpath : values.get? path = other.get? path)
    (hfirst : values.get? (firstPart path) = other.get? (firstPart path)) :
    values.getPath? path = other.getPath? path := by
  obtain ⟨rest, hsegments⟩ := exists_segments_eq path
  cases hstored : values.get? path with
  | some value => rw [getPath?_of_stored hstored, getPath?_of_stored (hpath.symm.trans hstored)]
  | none =>
    rw [getPath?_of_segments hstored hsegments,
      getPath?_of_segments (hpath.symm.trans hstored) hsegments, hfirst]

/-- A write under another name than these two is not noticed. -/
theorem getPath?_insert_of_ne (hpath : name ≠ path) (hfirst : name ≠ firstPart path) :
    (values.insert name value).getPath? path = values.getPath? path := by
  refine getPath?_congr ?_ ?_
  · rw [get?_insert, if_neg hpath.symm]
  · rw [get?_insert, if_neg hfirst.symm]

theorem getPath?_empty (path : String) : empty.getPath? path = none := by
  obtain ⟨rest, hsegments⟩ := exists_segments_eq path
  exact getPath?_of_segments rfl hsegments

/-- A write under one of the two names can be noticed. -/
theorem exists_getPath?_insert_ne (h : name = path ∨ name = firstPart path) :
    ∃ values value, (insert values name value).getPath? path ≠ values.getPath? path := by
  -- in a store without any other field
  have hsome : ∃ value, ((empty.insert name value).getPath? path).isSome = true := by
    rcases h with rfl | rfl
    · have hstored : (empty.insert name .null).get? name = some .null := by
        rw [get?_insert, if_pos rfl]
      exact ⟨.null, by rw [getPath?_of_stored hstored]; rfl⟩
    · exact exists_getPath?_firstPart path
  obtain ⟨value, hvalue⟩ := hsome
  refine ⟨empty, value, fun heq => ?_⟩
  rw [heq, getPath?_empty] at hvalue
  cases hvalue

/-- For look-ups that are not concerned with the name, the store stays the same source. -/
theorem agreeOn_insert {fields : List String} (h : ∀ f ∈ fields, name ≠ f ∧ name ≠ firstPart f) :
    AgreeOn fields values.source (values.insert name value).source :=
  fun f hf => (getPath?_insert_of_ne (h f hf).1 (h f hf).2).symm

/-- **Writing an unrelated field changes nothing.** A write changes the look-up of a path only if it
is made under the path itself or under the part before the first dot, and such a write can change
it. So where no field that was looked up is concerned with the name, the write leaves the key of a
selector as it is, with all that is observed on the way, and so it does the content keys. -/
theorem insert_unrelated (name : String) :
    (∀ path, name ≠ path → name ≠ firstPart path → ∀ (values : FieldValues) (value : Json),
      (values.insert name value).getPath? path = values.getPath? path) ∧
    (∀ path, name = path ∨ name = firstPart path → ∃ (values : FieldValues) (value : Json),
      (values.insert name value).getPath? path ≠ values.getPath? path) ∧
    ∀ {C : Type} (ctx : C) (values : FieldValues) (value : Json),
      (∀ s : Selector C,
        (∀ f ∈ lookups (s.resolve values.source ctx).trace, name ≠ f ∧ name ≠ firstPart f) →
          s.resolve (values.insert name value).source ctx = s.resolve values.source ctx) ∧
      ∀ fields : FieldSet C,
        (∀ f ∈ lookups (fields.contentKeys values.source ctx).trace,
          name ≠ f ∧ name ≠ firstPart f) →
          fields.contentKeys (values.insert name value).source ctx =
            fields.contentKeys values.source ctx := by
  refine ⟨fun path hpath hfirst values value => getPath?_insert_of_ne hpath hfirst,
    fun path => exists_getPath?_insert_ne, fun ctx values value => ⟨fun s h => ?_, fun fields h => ?_⟩⟩
  · exact resolve_congr (agreeOn_insert h)
  · exact contentKeys_congr (agreeOn_insert h)

/-! ### A person with an age -/

def thirty : FieldValues := ofList [("person", .object [("age", .number (.int 30))])]

/-- Asks for the age inside of the person. -/
def greeting : Selector Unit :=
  .sequence [.branch (known "person.age") (some (.key "aged")), .key "any"]

def greetings : FieldSet Unit := .ofList [("greeting", ⟨some greeting⟩)]

/-- A name is written beside the person: the age is found as before. Written over the person, it
could hide the age. -/
theorem insert_person_name :
    ("person.name" ≠ "person.age" ∧ "person.name" ≠ firstPart "person.age" ∧
      (thirty.insert "person.name" .null).getPath? "person.age" = thirty.getPath? "person.age") ∧
    ("person" = firstPart "person.age" ∧ ∃ (values : FieldValues) (value : Json),
      (values.insert "person" value).getPath? "person.age" ≠ values.getPath? "person.age") ∧
    ((∀ f ∈ lookups (greeting.resolve thirty.source ()).trace,
        "person.name" ≠ f ∧ "person.name" ≠ firstPart f) ∧
      (greeting.resolve (thirty.insert "person.name" .null).source ()).value = some "aged") ∧
    (∀ f ∈ lookups (greetings.contentKeys thirty.source ()).trace,
        "person.name" ≠ f ∧ "person.name" ≠ firstPart f) ∧
      (greetings.contentKeys (thirty.insert "person.name" .null).source ()).value =
        [("greeting", "aged")] := by
  obtain ⟨hpath, -, hresolve⟩ := insert_unrelated "person.name"
  obtain ⟨-, hover, -⟩ := insert_unrelated "person"
  obtain ⟨hselector, hfields⟩ := hresolve () thirty .null
  have hne : "person.name" ≠ "person.age" ∧ "person.name" ≠ firstPart "person.age" := by decide
  have hlookups : lookups (greeting.resolve thirty.source ()).trace = ["person.age"] :=
    lookups_resolve thirty.source () greeting
  have hkey : (greeting.resolve thirty.source ()).value = some "aged" :=
    value_resolve thirty.source () greeting
  have hask : ∀ f ∈ lookups (greeting.resolve thirty.source ()).trace,
      "person.name" ≠ f ∧ "person.name" ≠ firstPart f :=
    hlookups ▸ List.forall_mem_singleton.2 hne
  have hcontent : greetings.contentKeys thirty.source () =
      ⟨[("greeting", "aged")], (greeting.resolve thirty.source ()).trace⟩ := by
    have hentries : greetings.entries = [("greeting", ⟨some greeting⟩)] := rfl
    simp [FieldSet.contentKeys, hentries, FieldOptions.resolveKey, hkey]
  have haskFields : ∀ f ∈ lookups (greetings.contentKeys thirty.source ()).trace,
      "person.name" ≠ f ∧ "person.name" ≠ firstPart f := by
    rw [hcontent]
    exact hask
  exact ⟨⟨hne.1, hne.2, hpath _ hne.1 hne.2 _ _⟩, ⟨by decide, hover _ (.inr (by decide))⟩,
    ⟨hask, by rw [hselector _ hask, hkey]⟩, haskFields, by rw [hfields _ haskFields, hcontent]⟩

end FieldValues

end FormRouting
