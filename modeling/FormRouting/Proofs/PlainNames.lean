import FormRouting.Proofs.Binding.Callables
import FormRouting.Proofs.Dependence
import FormRouting.Proofs.DottedLookup

/-!
# Stores agree on plain names

The values of an object can be kept as field values, where a name is a path, or in a plain
map, where a name is nothing but a name. A name without a dot finds the same value in all of
them. A selector looks up the fields of its conditions and nothing else, so if none of these
has a dot, it does not matter how the values are kept.

* `lookups_firstMatch`, `lookups_resolve_subset`: only fields of conditions are looked up.
* `Selector.PlainNames`, `FieldSet.PlainNames`: no condition at any depth has a field with a dot.
* `source_ofJson_eq_iff`: on which names the stores agree.
* `stores_agree_on_plain_names`: **selectors and field sets with plain names give the same key
  with the same events, in whichever store the object is kept.**
-/

namespace FormRouting

open FieldValues (ofJson exactSource)

variable {C : Type}

/-! ## What can be looked up -/

namespace Selector

section

variable (assigned : Assignment C) (source : Source) (ctx : C)

mutual

/-- The nested search asks for fields of conditions only. -/
theorem lookups_firstMatch (s : Selector C) :
    (s.firstMatch assigned source ctx).lookups ⊆ s.conditions.map Condition.field := by
  cases s with
  | key k => exact List.nil_subset _
  | function f => exact List.nil_subset _
  | sequence entries =>
    simp only [firstMatch, conditions]
    exact lookups_firstHit entries

theorem lookups_firstHit (entries : List (Entry C)) :
    (firstHit assigned source ctx entries).lookups ⊆
      (conditionsOfEntries entries).map Condition.field := by
  match entries with
  | [] => exact List.nil_subset _
  | .key k :: rest => exact List.nil_subset _
  | .function f :: rest => exact List.nil_subset _
  | .branch c outcome :: rest =>
    simp only [firstHit, Answer.afterTest, conditionsOfEntries, conditionsOfEntry,
      List.cons_append, List.map_cons, List.map_append]
    -- the condition's own field comes first, then the outcome or the rest goes on
    refine List.cons_subset_cons _ ?_
    split
    · exact List.subset_append_of_subset_left _ (lookups_committed outcome)
    · exact List.subset_append_of_subset_right _ (lookups_firstHit rest)

theorem lookups_committed (outcome : Option (Selector C)) :
    (committed assigned source ctx outcome).lookups ⊆
      (conditionsOfOutcome outcome).map Condition.field := by
  cases outcome with
  | none => exact List.nil_subset _
  | some s =>
    simp only [committed, conditionsOfOutcome]
    exact lookups_firstMatch s

end

end

/-- A resolution looks up fields of conditions only. -/
theorem lookups_resolve_subset (s : Selector C) (source : Source) (ctx : C) :
    lookups (s.resolve source ctx).trace ⊆ s.conditions.map Condition.field := by
  rw [lookups_resolve]
  exact lookups_firstMatch .carried source ctx s

/-- No condition at any depth has a field with a dot in its name. -/
def PlainNames (s : Selector C) : Prop := ∀ c ∈ s.conditions, '.' ∉ c.field.toList

theorem PlainNames.dot_notMem {s : Selector C} (h : s.PlainNames) {source : Source} {ctx : C}
    {f : String} (hf : f ∈ lookups (s.resolve source ctx).trace) : '.' ∉ f.toList := by
  obtain ⟨c, hc, rfl⟩ := List.mem_map.1 (s.lookups_resolve_subset source ctx hf)
  exact h c hc

end Selector

/-- No selector of the field set has a condition on a field with a dot in its name. -/
def FieldSet.PlainNames (fields : FieldSet C) : Prop :=
  ∀ e ∈ fields.entries, ∀ s ∈ e.2.contentKey, s.PlainNames

theorem FieldSet.PlainNames.dot_notMem {fields : FieldSet C} (h : fields.PlainNames)
    {source : Source} {ctx : C} {f : String}
    (hf : f ∈ lookups (fields.contentKeys source ctx).trace) : '.' ∉ f.toList := by
  rw [lookups_contentKeys] at hf
  obtain ⟨e, he, hf⟩ := List.mem_flatMap.1 hf
  obtain ⟨s, hs, hf⟩ := List.mem_flatMap.1 hf
  exact (h e he s (Option.mem_toList.1 hs)).dot_notMem hf

/-! ## How values are kept -/

namespace FieldValues

/-- Field values from an object are its members. -/
theorem ofJson_entries (m : Table Json) : ofJson (.object m.entries) = ⟨m⟩ := by
  rw [ofJson, Table.ofList_entries]

/-- Just the names without a dot are found alike among the field values of every object and among
its members. -/
theorem source_ofJson_eq_iff {name : String} :
    (∀ m : Table Json, (ofJson (.object m.entries)).source name = exactSource m.entries name) ↔
      '.' ∉ name.toList := by
  constructor
  · intro h hdot
    -- a value below the first part of the name is found by the path only
    obtain ⟨value, hvalue⟩ := exists_getPath?_firstPart name
    have hne : name ≠ firstPart name := fun heq => firstPart_eq_self_iff.1 heq.symm hdot
    have hexact := h (Table.empty.insert (firstPart name) value)
    rw [ofJson_entries] at hexact
    have hnone : exactSource (Table.empty.insert (firstPart name) value).entries name = none :=
      (Table.get?_insert _ _ _ _).trans (if_neg hne)
    have hlookup : (empty.insert (firstPart name) value).getPath? name = none :=
      hexact.trans hnone
    rw [hlookup] at hvalue
    cases hvalue
  · intro h m
    rw [ofJson_entries]
    exact getPath?_of_dotFree h

/-- A map with the same members, in whatever order it keeps them, is the same source. -/
theorem exactSource_of_perm {m hashed : Table Json} (h : hashed.entries.Perm m.entries) :
    exactSource hashed.entries = exactSource m.entries :=
  funext fun name => Table.get?_of_perm h name

end FieldValues

/-- **Stores agree on plain names.** An object gives the same values under a name, kept as field
values and as the object that it is, just if the name has no dot. So with plain names at every
depth, selectors and field sets give the same keys with the same events, whether the values are kept
as field values, in a map without any order, or as the object. -/
theorem stores_agree_on_plain_names :
    (∀ name : String,
      (∀ m : Table Json, (ofJson (.object m.entries)).source name = exactSource m.entries name) ↔
        '.' ∉ name.toList) ∧
    ∀ {C : Type} (ctx : C) (m hashed : Table Json), hashed.entries.Perm m.entries →
      (∀ s : Selector C, s.PlainNames →
        s.resolve (ofJson (.object m.entries)).source ctx =
            s.resolve (exactSource m.entries) ctx ∧
          s.resolve (exactSource hashed.entries) ctx = s.resolve (exactSource m.entries) ctx) ∧
      ∀ fields : FieldSet C, fields.PlainNames →
        fields.contentKeys (ofJson (.object m.entries)).source ctx =
            fields.contentKeys (exactSource m.entries) ctx ∧
          fields.contentKeys (exactSource hashed.entries) ctx =
            fields.contentKeys (exactSource m.entries) ctx := by
  refine ⟨fun name => FieldValues.source_ofJson_eq_iff, fun ctx m hashed hperm => ?_⟩
  rw [FieldValues.exactSource_of_perm hperm]
  refine ⟨fun s hs => ⟨resolve_congr fun f hf => ?_, rfl⟩,
    fun fields hfields => ⟨contentKeys_congr fun f hf => ?_, rfl⟩⟩
  · exact (FieldValues.source_ofJson_eq_iff.2 (hs.dot_notMem hf) m).symm
  · exact (FieldValues.source_ofJson_eq_iff.2 (hfields.dot_notMem hf) m).symm

/-! ### Names that look like numbers -/

/-- A field without a name, and one whose name is a number. -/
def oddNames : Table Json where
  entries := [("", .null), ("0", .string "zero")]
  distinct := by decide

/-- The members in the other order. -/
def oddNamesHashed : Table Json where
  entries := [("0", .string "zero"), ("", .null)]
  distinct := by decide

/-- Asks for both fields, the second one in the outcome of the first. -/
def oddSelector : Selector Unit :=
  .sequence [.branch (known "") (some (.sequence [.branch (known "0") (some (.key "both"))]))]

def oddFields : FieldSet Unit := .ofList [("label", ⟨some oddSelector⟩)]

theorem resolve_oddNames :
    '.' ∉ "0".toList ∧ (ofJson (.object oddNames.entries)).source "0" = some (.string "zero") ∧
    oddNamesHashed.entries.Perm oddNames.entries ∧ oddSelector.PlainNames ∧
    (oddSelector.resolve (ofJson (.object oddNames.entries)).source ()).value = some "both" ∧
    (oddSelector.resolve (exactSource oddNamesHashed.entries) ()).value = some "both" ∧
    oddFields.PlainNames ∧
    (oddFields.contentKeys (exactSource oddNamesHashed.entries) ()).value =
      [("label", "both")] := by
  obtain ⟨hnames, hstores⟩ := stores_agree_on_plain_names
  have hperm : oddNamesHashed.entries.Perm oddNames.entries := List.Perm.swap _ _ _
  have hdot : '.' ∉ "0".toList := by decide
  have hconditions : oddSelector.conditions = [known "", known "0"] := rfl
  have hselector : oddSelector.PlainNames := by
    rw [Selector.PlainNames, hconditions]
    decide
  have hfields : oddFields.PlainNames := List.forall_mem_singleton.2 (by rintro _ ⟨⟩; exact hselector)
  obtain ⟨hresolve, hcontent⟩ := hstores () oddNames oddNamesHashed hperm
  obtain ⟨hvalues, hhashed⟩ := hresolve oddSelector hselector
  have hkey : (oddSelector.resolve (exactSource oddNames.entries) ()).value = some "both" :=
    value_resolve _ () oddSelector
  have hlabel : (oddFields.contentKeys (exactSource oddNames.entries) ()).value =
      [("label", "both")] := by
    have hentries : oddFields.entries = [("label", ⟨some oddSelector⟩)] := rfl
    simp [FieldSet.contentKeys, hentries, FieldOptions.resolveKey, hkey]
  exact ⟨hdot, (hnames "0").2 hdot oddNames, hperm, hselector, by rw [hvalues, hkey],
    by rw [hhashed, hkey], hfields, by rw [(hcontent oddFields hfields).2, hlabel]⟩

end FormRouting
