import FormRouting.Proofs.Accepted.StepMap
import FormRouting.Proofs.Repeated.Value

/-!
# Conditions that repeat names

A condition that can be read writes none of its parts twice; only names that mean
nothing can be repeated, and names inside its value. So it is read from the value of
a text as it is read from the text.

* `Tree.MergesTo`: the tree of the value that a tree stands for.
* `Decode.ReadsValue`: a decoder that only sees the value; `readsValue_string` and its
  like for every kind of part, `PartsRead.of_mergesTo` for all parts together.
* `lookup_reverse_of_conditionEntries`: a part is written once.
* `condition_of_list`, `condition_of_record`: **a condition that is read from a text
  is read from its value.**
-/

namespace FormRouting

variable {C α : Type}

/-! ## Members of values -/

namespace Json

theorem lookup_fields (members : List (String × Json)) (name : String) :
    (fields members).lookup name = (members.lookup name).map toTree := by
  induction members with
  | nil => rfl
  | cons m rest ih =>
    rw [fields_cons, List.lookup_cons, List.lookup_cons, ih]
    cases name == m.1 <;> rfl

end Json

theorem Tree.StandsFor.hasDistinctNames {t : Tree} {v : Json} (h : t.StandsFor v) :
    v.HasDistinctNames :=
  hasDistinctNames_of_toJson? h.value

/-- **The tree of the value** that a tree stands for. -/
def Tree.MergesTo (t u : Tree) : Prop := ∃ v : Json, t.StandsFor v ∧ v.toTree = u

theorem Json.forall₂_mergesTo {items : List Tree} {values : List Json}
    (h : List.Forall₂ Tree.StandsFor items values) :
    List.Forall₂ Tree.MergesTo items (itemsToTree values) := by
  rw [itemsToTree_eq_map, List.forall₂_map_right_iff]
  exact h.imp fun t v ht => ⟨v, ht, rfl⟩

theorem Tree.rel_mergesTo {t? : Option Tree} {v? : Option Json}
    (h : Option.Rel StandsFor t? v?) : Option.Rel MergesTo t? (v?.map Json.toTree) := by
  cases h with
  | none => exact .none
  | some h => exact .some ⟨_, h, rfl⟩

namespace Decode

open ConditionParts

/-! ## Parts -/

/-- **A tree is read as the value that it stands for.** -/
def ReadsValue (decode : Tree → Decoded α) : Prop :=
  ∀ ⦃t u : Tree⦄ ⦃a : α⦄, t.MergesTo u → decode t = .ok a → decode u = .ok a

theorem readsValue_string : ReadsValue string := by
  rintro t _ s ⟨v, h, rfl⟩ hs
  cases h.text with
  | string s' =>
    rw [Tree.StandsFor.string_iff.1 h, Json.toTree]
    exact hs
  | _ => cases hs

theorem readsValue_operator : ReadsValue (operator (C := C)) := by
  rintro t _ op ⟨v, h, rfl⟩ hop
  cases h.text with
  | null =>
    rw [Tree.StandsFor.null_iff.1 h, Json.toTree]
    exact hop
  | string s =>
    rw [Tree.StandsFor.string_iff.1 h, Json.toTree]
    exact hop
  | _ => cases hop

theorem readsValue_predicate : ReadsValue (Decode.predicate (C := C)) := by
  intro t u p h hp
  obtain ⟨name, hname, hne, rfl⟩ := predicate_eq_ok_iff.1 hp
  exact predicate_eq_ok_iff.2 ⟨name, readsValue_string h hname, hne, rfl⟩

theorem readsValue_json : ReadsValue json := by
  rintro t _ w ⟨v, h, rfl⟩ hw
  have hclean := Json.isClean_toTree h.hasDistinctNames
  have hvalue := Json.toJson?_toTree h.hasDistinctNames
  have hwv : w = v := by
    unfold json at hw
    obtain ⟨_, -, hw⟩ := bind_eq_ok_iff.1 hw
    rw [h.value] at hw
    exact (Except.ok.inj hw).symm
  rw [hwv]
  simp only [json, plain, hclean.obstacle, hvalue]
  rfl

theorem ReadsValue.optional {decode : Tree → Decoded α} (hdecode : ReadsValue decode) :
    ReadsValue (Decode.optional decode) := by
  rintro t _ a ⟨v, h, rfl⟩ ha
  by_cases ht : t = .null
  · subst ht
    rw [Tree.StandsFor.null_iff.1 h, Json.toTree]
    exact ha
  · rw [optional_of_ne_null _ ht, map_eq_ok_iff] at ha
    obtain ⟨b, hb, rfl⟩ := ha
    rw [optional_of_ne_null _ (Json.toTree_ne_null (h.ne_null ht)), hdecode ⟨v, h, rfl⟩ hb]
    rfl

/-- A part is left out of both or of none. -/
theorem ReadsValue.part {decode : Tree → Decoded α} (hdecode : ReadsValue decode) {default a : α}
    {t? u? : Option Tree} (h : Option.Rel Tree.MergesTo t? u?)
    (ha : part default decode t? = .ok a) : Decode.part default decode u? = .ok a := by
  cases h with
  | none => exact ha
  | some h => exact hdecode h ha

/-- **All five parts** are read as the values that they stand for. -/
theorem PartsRead.of_mergesTo {parts parts' : Nat → Option Tree} {c : Condition C}
    {next : Option String} (h : PartsRead parts c next)
    (hrel : ∀ i, Option.Rel Tree.MergesTo (parts i) (parts' i)) : PartsRead parts' c next where
  field := readsValue_string.part (hrel 0) h.field
  operator := readsValue_operator.part (hrel 1) h.operator
  value := readsValue_json.optional.part (hrel 2) h.value
  predicate := readsValue_predicate.optional.part (hrel 3) h.predicate
  outcome := readsValue_string.optional.part (hrel 4) h.outcome

/-! ## Lists -/

/-- **A list that is read as a condition** can still be read as it. -/
theorem condition_of_list {items items' : List Tree}
    (hall : List.Forall₂ Tree.MergesTo items items') {c : Condition C} {next : Option String}
    (h : condition .choice string (.list items) = .ok (c, next)) :
    condition .choice string (.list items') = .ok (c, next) := by
  obtain ⟨hlength, hparts⟩ := partsRead_list_iff.1 h
  exact partsRead_list_iff.2 ⟨hall.length_eq ▸ hlength,
    hparts.of_mergesTo fun i => rel_getElem? hall i⟩

/-! ## Records -/

/-- What has been read is not written again. -/
theorem lookup_eq_none_of_reads {decode : Tree → Decoded α} {name : String} {t : Tree}
    {rest : List (String × Tree)} {parts read parts' : ConditionParts C α} {place : Option Nat}
    (hn : name ∈ conditionNames)
    (hplace : field? .choice conditionFields (.string name) = .ok place)
    (hread : parts.Reads decode t place read) (h : Filled decode rest read parts') :
    rest.lookup name = none := by
  simp only [conditionNames, List.mem_cons, List.not_mem_nil, or_false] at hn
  rcases hn with rfl | rfl | rfl | rfl | rfl | rfl
  · obtain rfl : some 0 = place := Except.ok.inj hplace
    cases hread
    exact h.field.of_some.1
  · obtain rfl : some 1 = place := Except.ok.inj hplace
    cases hread
    exact h.operator.of_some.1
  · obtain rfl : some 2 = place := Except.ok.inj hplace
    cases hread
    exact h.value.of_some.1
  · obtain rfl : some 3 = place := Except.ok.inj hplace
    cases hread
    exact h.predicate.of_some.1
  · obtain rfl : some 4 = place := Except.ok.inj hplace
    cases hread
    exact (Option.or_eq_none_iff.1 h.outcome.of_some.1).1
  · obtain rfl : some 4 = place := Except.ok.inj hplace
    cases hread
    exact (Option.or_eq_none_iff.1 h.outcome.of_some.1).2

/-- **A part is written once**, so the last field of its name is the first one. -/
theorem lookup_reverse_of_conditionEntries {decode : Tree → Decoded α}
    {fields : List (String × Tree)} {parts parts' : ConditionParts C α}
    (h : conditionEntries .choice decode parts (Tree.named fields) = .ok parts') {name : String}
    (hn : name ∈ conditionNames) : fields.reverse.lookup name = fields.lookup name := by
  induction fields generalizing parts with
  | nil => rfl
  | cons e rest ih =>
    obtain ⟨place, read, hplace, hreads, hrest⟩ := reads_of_conditionEntries h
    rw [List.reverse_cons, List.lookup_append, ih hrest]
    by_cases he : name = e.1
    · subst he
      rw [lookup_eq_none_of_reads hn hplace hreads (filled_of_conditionEntries hrest),
        Option.none_or, List.lookup_cons_self, List.lookup_cons_self]
    · rw [List.lookup_cons, List.lookup_cons, beq_false_of_ne he]
      simp

theorem lookup_reverse_of_record {fields : List (String × Tree)} {c : Condition C}
    {next : Option String} (h : condition .choice string (Tree.ofFields fields) = .ok (c, next))
    {name : String} (hn : name ∈ conditionNames) :
    fields.reverse.lookup name = fields.lookup name := by
  obtain ⟨parts, hparts, -⟩ := map_eq_ok_iff.1 h
  exact lookup_reverse_of_conditionEntries hparts hn

/-- The fields of a condition are merged one by one. -/
theorem rel_namedParts {fields others : List (String × Tree)}
    (h : ∀ name ∈ conditionNames,
      Option.Rel Tree.MergesTo (fields.lookup name) (others.lookup name)) (i : Nat) :
    Option.Rel Tree.MergesTo (namedParts fields i) (namedParts others i) := by
  simp only [conditionNames, List.forall_mem_cons] at h
  obtain ⟨hfield, hop, hvalue, hfn, hnext, hkey, -⟩ := h
  rcases i with _ | _ | _ | _ | i
  · exact hfield
  · exact hop
  · exact hvalue
  · exact hfn
  · -- the outcome stands under its first name, or else under the second one
    simp only [namedParts]
    generalize fields.lookup "next" = t?, others.lookup "next" = u? at hnext ⊢
    cases hnext with
    | none => rwa [Option.none_or, Option.none_or]
    | some h => exact .some h

/-- **A record that is read as a condition** can still be read as it, because only names that mean
nothing are repeated. -/
theorem condition_of_record {fields : List (String × Tree)} {members : List (String × Json)}
    (hall : List.Forall₂ (fun f m => f.1 = m.1 ∧ f.2.StandsFor m.2) fields members)
    (hd : (Json.object (Table.ofList members).entries).HasDistinctNames) {c : Condition C}
    {next : Option String}
    (h : condition .choice string (Tree.ofFields fields) = .ok (c, next)) :
    condition .choice string (Json.object (Table.ofList members).entries).toTree =
      .ok (c, next) := by
  obtain ⟨hparts, hone⟩ := partsRead_of_record h
  have hrel : ∀ name ∈ conditionNames, Option.Rel Tree.MergesTo (fields.lookup name)
      ((Json.fields (Table.ofList members).entries).lookup name) := by
    intro name hn
    have hget := Table.rel_get?_ofList hall name
    rw [lookup_reverse_of_record h hn] at hget
    rw [Json.lookup_fields]
    exact Tree.rel_mergesTo hget
  -- the outcome still stands under one name only
  have hleft : ∀ name ∈ conditionNames, fields.lookup name = none →
      (Json.fields (Table.ofList members).entries).lookup name = none := by
    intro name hn hnone
    have hname := hrel name hn
    rw [hnone] at hname
    generalize (Json.fields (Table.ofList members).entries).lookup name = u? at hname ⊢
    cases hname
    rfl
  have hone' := hone.imp (hleft "next" (by decide)) (hleft "key" (by decide))
  simp only [Json.HasDistinctNames] at hd
  have hnames := Json.names_fields (Table.ofList members).entries ▸ hd.1
  have hjson := Json.isJson_of_mem_fields hd.2
  rw [Json.toTree_object]
  exact (condition_ofFields_iff hnames hjson).2
    (written_of_partsRead hnames hjson (hparts.of_mergesTo (rel_namedParts hrel)) hone')

end Decode

end FormRouting
