import FormRouting.Json.Text
import FormRouting.Proofs.Repeated.Insertion
import FormRouting.Proofs.Written.Value

/-!
# Values of texts that repeat names

A text can repeat the names of an object at any depth, its value cannot. The tree of
the text stands for the value, and the value has a tree of its own, in which entries
of the same name are merged.

* `Tree.FromText`: what a text can be read as. `ReadsText.value_succ` and its like are
  the steps of the reader, `readsText` its whole run, `fromText_read` a whole text.
* `Tree.StandsFor`: the tree of a text that has a value; `of_list`, `of_record`: what
  stands for its items and its fields.
* `hasDistinctNames_of_toJson?`: no value repeats a name.
* `StandsFor.toTree_eq`: where no name is repeated, the tree of the text is that of the
  value.
-/

namespace FormRouting

/-- **What a JSON text can be read as.** Nothing is tagged, and every number has a decimal. -/
inductive Tree.FromText : Tree → Prop where
  | null : FromText .null
  | bool (b : Bool) : FromText (.bool b)
  | number (n : Number) : FromText (.number n)
  | string (s : String) : FromText (.string s)
  | fault (reason : Fault) (passing : Option Fault) : FromText (.fault reason passing)
  | list {items : List Tree} (h : ∀ t ∈ items, FromText t) : FromText (.list items)
  | record {entries : List (Tree × Tree)} (names : ∀ e ∈ entries, FromText e.1)
      (values : ∀ e ∈ entries, FromText e.2) : FromText (.record entries)

theorem Tree.FromText.of_mem_items {items : List Tree} (h : FromText (.list items)) :
    ∀ t ∈ items, t.FromText := by
  cases h with
  | list hitems => exact hitems

theorem Tree.FromText.of_mem_fields {fields : List (String × Tree)}
    (h : FromText (ofFields fields)) : ∀ f ∈ fields, f.2.FromText := by
  cases h with
  | record _ hvalues => exact fun f hf => hvalues (.string f.1, f.2) (List.mem_map_of_mem hf)

namespace JsonText

/-! ## Reading a text -/

theorem fromText_readString (fuel : Nat) (reversed : List Char) (paired : Bool) (cs : List Char) :
    (readString fuel reversed paired cs).1.FromText := by
  fun_induction readString fuel reversed paired cs with
  | _ => first | assumption | exact .string _ | exact .fault _ _

theorem fromText_readNumber (negative : Bool) (cs : List Char) :
    (readNumber negative cs).1.FromText := by
  unfold readNumber
  extract_lets whole rest join parts
  clear_value parts
  split
  · exact .fault _ _
  split
  · exact .fault _ _
  · split
    · exact .fault _ _
    split
    · exact .number _
    · exact .fault _ _

theorem fromText_readWord (word : List Char) {value : Tree} (h : value.FromText) (cs : List Char) :
    (readWord word value cs).1.FromText := by
  unfold readWord
  split
  · exact h
  split
  · exact .fault _ _
  · exact .fault _ _

theorem fromText_limitDepth (depth : Nat) {reading : Reading Tree} (h : reading.1.FromText) :
    (limitDepth depth reading).1.FromText := by
  unfold limitDepth
  split
  · exact h
  · exact .fault _ _

/-- With so much fuel, the readers give what a text can be read as. -/
structure ReadsText (fuel : Nat) : Prop where
  value : ∀ depth cs, (readValue fuel depth cs).1.FromText
  items : ∀ depth cs, ∀ t ∈ (readItems fuel depth cs).1, t.FromText
  entries : ∀ depth cs, ∀ e ∈ (readEntries fuel depth cs).1, e.1.FromText ∧ e.2.FromText

namespace ReadsText

variable {fuel : Nat} (h : ReadsText fuel) (depth : Nat) (cs : List Char)

include h

theorem value_succ : (readValue (fuel + 1) depth cs).1.FromText := by
  unfold readValue
  split
  · exact .fault _ _
  · exact fromText_readString _ _ _ _
  · refine fromText_limitDepth _ ?_
    split
    · exact .list (List.forall_mem_nil _)
    · exact .list (List.forall_mem_singleton.2 (.fault _ _))
    · exact .list (h.items _ _)
  · refine fromText_limitDepth _ ?_
    split
    · exact .record (List.forall_mem_nil _) (List.forall_mem_nil _)
    · exact .record (fun e he => (h.entries _ _ e he).1) fun e he => (h.entries _ _ e he).2
  · exact fromText_readWord _ .null _
  · exact fromText_readWord _ (.bool _) _
  · exact fromText_readWord _ (.bool _) _
  · exact fromText_readNumber _ _
  · split
    · exact fromText_readNumber _ _
    · exact .fault _ _

theorem items_succ : ∀ t ∈ (readItems (fuel + 1) depth cs).1, t.FromText := by
  have hitem := h.value depth cs
  unfold readItems
  generalize readValue fuel depth cs = reading at hitem ⊢
  obtain ⟨item, _ | rest⟩ := reading
  · exact List.forall_mem_singleton.2 hitem
  · dsimp only
    split
    · exact List.forall_mem_singleton.2 hitem
    · split
      · exact List.forall_mem_cons.2 ⟨hitem, List.forall_mem_singleton.2 (.fault _ _)⟩
      · exact List.forall_mem_cons.2 ⟨hitem, h.items _ _⟩
    · exact List.forall_mem_cons.2 ⟨hitem, List.forall_mem_singleton.2 (.fault _ _)⟩

theorem entries_succ :
    ∀ e ∈ (readEntries (fuel + 1) depth cs).1, e.1.FromText ∧ e.2.FromText := by
  unfold readEntries
  split
  · next rest _ =>
    have hname := fromText_readString (rest.length + 1) [] true rest
    generalize readString (rest.length + 1) [] true rest = reading at hname ⊢
    obtain ⟨name, _ | rest⟩ := reading
    · exact List.forall_mem_singleton.2 ⟨hname, .null⟩
    · dsimp only
      split
      · next rest _ =>
        have hvalue := h.value depth rest
        generalize readValue fuel depth rest = reading at hvalue ⊢
        obtain ⟨value, _ | rest⟩ := reading
        · exact List.forall_mem_singleton.2 ⟨hname, hvalue⟩
        · dsimp only
          split
          · exact List.forall_mem_singleton.2 ⟨hname, hvalue⟩
          · exact List.forall_mem_cons.2 ⟨⟨hname, hvalue⟩, h.entries _ _⟩
          · exact List.forall_mem_cons.2
              ⟨⟨hname, hvalue⟩, List.forall_mem_singleton.2 ⟨.fault _ _, .null⟩⟩
      · exact List.forall_mem_singleton.2 ⟨hname, .fault _ _⟩
  · exact List.forall_mem_singleton.2 ⟨.fault _ _, .null⟩

end ReadsText

theorem readsText (fuel : Nat) : ReadsText fuel := by
  induction fuel with
  | zero =>
    refine ⟨fun depth cs => ?_, fun depth cs => ?_, fun depth cs => ?_⟩
    · exact .fault _ _
    · exact List.forall_mem_singleton.2 (.fault _ _)
    · exact List.forall_mem_singleton.2 ⟨.fault _ _, .null⟩
  | succ fuel ih => exact ⟨ih.value_succ, ih.items_succ, ih.entries_succ⟩

theorem fromText_read (text : String) : (read text).root.FromText := by
  have hroot := (readsText (2 * text.toList.length + 1)).value 0 text.toList
  unfold read
  dsimp only
  generalize readValue (2 * text.toList.length + 1) 0 text.toList = reading at hroot ⊢
  obtain ⟨root, _ | rest⟩ := reading <;> exact hroot

end JsonText

/-! ## Values -/

namespace Tree

theorem itemsToJson?_eq_some_iff {items : List Tree} {values : List Json} :
    itemsToJson? items = some values ↔
      List.Forall₂ (fun t v => t.toJson? = some v) items values := by
  induction items generalizing values with
  | nil => simp [itemsToJson?, eq_comm]
  | cons t rest ih =>
    simp only [itemsToJson?, Option.bind_eq_some_iff, Option.map_eq_some_iff, ih,
      List.forall₂_cons_left_iff]
    constructor
    · rintro ⟨v, hv, others, hothers, rfl⟩
      exact ⟨v, others, hv, hothers, rfl⟩
    · rintro ⟨v, others, hv, hothers, rfl⟩
      exact ⟨v, hv, others, hothers, rfl⟩

/-- The names of a record that stands for an object are strings. -/
theorem entriesToJson?_eq_some_iff {entries : List (Tree × Tree)}
    {members : List (String × Json)} :
    entriesToJson? entries = some members ↔
      ∃ fields, entries = named fields ∧
        List.Forall₂ (fun f m => f.1 = m.1 ∧ f.2.toJson? = some m.2) fields members := by
  induction entries generalizing members with
  | nil =>
    constructor
    · rintro ⟨⟩
      exact ⟨[], rfl, .nil⟩
    · rintro ⟨fields, hfields, hall⟩
      obtain rfl := List.map_eq_nil_iff.1 hfields.symm
      cases hall
      rfl
  | cons e rest ih =>
    obtain ⟨name, t⟩ := e
    cases name with
    | string k =>
      simp only [entriesToJson?, Option.bind_eq_some_iff, Option.map_eq_some_iff, ih]
      constructor
      · rintro ⟨v, hv, others, ⟨fields, rfl, hothers⟩, rfl⟩
        exact ⟨(k, t) :: fields, rfl, .cons ⟨rfl, hv⟩ hothers⟩
      · rintro ⟨fields, hfields, hall⟩
        obtain ⟨f, others, rfl, hf, hothers⟩ := List.map_eq_cons_iff.1 hfields.symm
        cases hf
        cases hall with
        | @cons _ m _ members hm hmembers =>
          obtain ⟨k, v⟩ := m
          obtain ⟨rfl, hv⟩ := hm
          exact ⟨v, hv, members, ⟨others, hothers.symm, hmembers⟩, rfl⟩
    | _ =>
      constructor
      · rintro ⟨⟩
      · rintro ⟨fields, hfields, -⟩
        obtain ⟨f, others, rfl, hf, -⟩ := List.map_eq_cons_iff.1 hfields.symm
        cases hf

end Tree

theorem Json.ofMembers_eq (members : List (String × Json)) :
    ofMembers members = .object (Table.ofList members).entries := by
  rw [ofMembers, Table.entries_ofList]

/-- **The tree of a text that is a value.** -/
structure Tree.StandsFor (t : Tree) (v : Json) : Prop where
  text : t.FromText
  value : t.toJson? = some v

namespace Tree.StandsFor

variable {t : Tree} {v : Json}

theorem null_iff : StandsFor .null v ↔ v = .null := by
  constructor
  · rintro ⟨-, h⟩
    exact (Option.some.inj h).symm
  · rintro rfl
    exact ⟨.null, rfl⟩

theorem string_iff {s : String} : StandsFor (.string s) v ↔ v = .string s := by
  constructor
  · rintro ⟨-, h⟩
    exact (Option.some.inj h).symm
  · rintro rfl
    exact ⟨.string s, rfl⟩

/-- Only `null` stands for `null`. -/
theorem ne_null (h : t.StandsFor v) (ht : t ≠ .null) : v ≠ .null := by
  rintro rfl
  obtain ⟨htext, hvalue⟩ := h
  cases htext with
  | null => exact ht rfl
  | list h =>
    obtain ⟨values, -, hv⟩ := Option.map_eq_some_iff.1 hvalue
    cases hv
  | record names values =>
    obtain ⟨members, -, hv⟩ := Option.map_eq_some_iff.1 hvalue
    cases hv
  | bool _ | number _ | string _ | fault _ _ => cases hvalue

/-- The items of a list stand for those of an array. -/
theorem of_list {items : List Tree} (h : StandsFor (.list items) v) :
    ∃ values, v = .array values ∧ List.Forall₂ StandsFor items values := by
  obtain ⟨htext, hvalue⟩ := h
  obtain ⟨values, hvalues, rfl⟩ := Option.map_eq_some_iff.1 hvalue
  refine ⟨values, rfl, forall₂_imp_of_mem (itemsToJson?_eq_some_iff.1 hvalues) ?_⟩
  exact fun t ht v hv => ⟨htext.of_mem_items t ht, hv⟩

/-- **The fields of a record stand for what is written in the text**; of the same name the object
keeps the last one, at the place of the first one. -/
theorem of_record {entries : List (Tree × Tree)} (h : StandsFor (.record entries) v) :
    ∃ fields members, entries = named fields ∧ v = .object (Table.ofList members).entries ∧
      List.Forall₂ (fun f m => f.1 = m.1 ∧ f.2.StandsFor m.2) fields members := by
  obtain ⟨htext, hvalue⟩ := h
  obtain ⟨members, hmembers, rfl⟩ := Option.map_eq_some_iff.1 hvalue
  obtain ⟨fields, rfl, hall⟩ := entriesToJson?_eq_some_iff.1 hmembers
  refine ⟨fields, members, rfl, Json.ofMembers_eq members, forall₂_imp_of_mem hall ?_⟩
  exact fun f hf m hm => ⟨hm.1, htext.of_mem_fields f hf, hm.2⟩

end Tree.StandsFor

/-! ## Distinct names -/

namespace Json

/-- Members that are written one after the other end up under distinct names. -/
theorem hasDistinctNames_ofMembers {members : List (String × Json)}
    (h : ∀ m ∈ members, m.2.HasDistinctNames) : (ofMembers members).HasDistinctNames := by
  rw [ofMembers_eq]
  simp only [HasDistinctNames]
  exact ⟨Table.keys_nodup _,
    membersHaveDistinctNames_iff.2 fun m hm => h m (Table.mem_of_mem_ofList hm)⟩

end Json

namespace Tree

mutual

/-- **No value repeats a name**, whatever the tree that stands for it. -/
theorem hasDistinctNames_of_toJson? {t : Tree} {v : Json} (h : t.toJson? = some v) :
    v.HasDistinctNames := by
  cases t with
  | list items =>
    obtain ⟨values, hvalues, rfl⟩ := Option.map_eq_some_iff.1 h
    simp only [Json.HasDistinctNames]
    exact allHaveDistinctNames_of_itemsToJson? hvalues
  | record entries =>
    obtain ⟨members, hmembers, rfl⟩ := Option.map_eq_some_iff.1 h
    exact Json.hasDistinctNames_ofMembers (hasDistinctNames_of_entriesToJson? hmembers)
  | tagged tag body => cases h
  | fault reason passing => cases h
  | null | bool _ | number _ | nonFinite _ | string _ =>
    cases h
    simp only [Json.HasDistinctNames]

theorem allHaveDistinctNames_of_itemsToJson? {items : List Tree} {values : List Json}
    (h : itemsToJson? items = some values) : Json.AllHaveDistinctNames values := by
  match items with
  | [] =>
    cases h
    simp only [Json.AllHaveDistinctNames]
  | t :: rest =>
    obtain ⟨v, hv, h⟩ := Option.bind_eq_some_iff.1 h
    obtain ⟨others, hothers, rfl⟩ := Option.map_eq_some_iff.1 h
    simp only [Json.AllHaveDistinctNames]
    exact ⟨hasDistinctNames_of_toJson? hv, allHaveDistinctNames_of_itemsToJson? hothers⟩

theorem hasDistinctNames_of_entriesToJson? {entries : List (Tree × Tree)}
    {members : List (String × Json)} (h : entriesToJson? entries = some members) :
    ∀ m ∈ members, m.2.HasDistinctNames := by
  match entries with
  | [] =>
    cases h
    exact List.forall_mem_nil _
  | (.string k, t) :: rest =>
    obtain ⟨v, hv, h⟩ := Option.bind_eq_some_iff.1 h
    obtain ⟨others, hothers, rfl⟩ := Option.map_eq_some_iff.1 h
    exact List.forall_mem_cons.2
      ⟨hasDistinctNames_of_toJson? hv, hasDistinctNames_of_entriesToJson? hothers⟩

end

/-- Names that are not repeated are distinct. -/
theorem nodup_of_repeatsName {fields : List (String × Tree)}
    (h : repeatsName (named fields) = false) : (fields.map Prod.fst).Nodup := by
  induction fields with
  | nil => exact List.nodup_nil
  | cons f rest ih =>
    have h : ((named rest).any (fun e => same (.string f.1) e.1) ||
        repeatsName (named rest)) = false := h
    obtain ⟨hany, hrest⟩ := Bool.or_eq_false_iff.1 h
    refine List.nodup_cons.2 ⟨fun hmem => ?_, ih hrest⟩
    obtain ⟨g, hg, hname⟩ := List.mem_map.1 hmem
    have hsame := List.any_eq_false.1 hany (.string g.1, g.2) (List.mem_map_of_mem hg)
    simp [same, hname] at hsame

theorem hasRepeatedName_of_mem {items : List Tree} (h : anyHasRepeatedName items = false) :
    ∀ t ∈ items, t.hasRepeatedName = false := by
  induction items with
  | nil => exact List.forall_mem_nil _
  | cons t rest ih =>
    obtain ⟨ht, hrest⟩ := Bool.or_eq_false_iff.1 h
    exact List.forall_mem_cons.2 ⟨ht, ih hrest⟩

theorem hasRepeatedName_of_mem_fields {fields : List (String × Tree)}
    (h : anyEntryHasRepeatedName (named fields) = false) :
    ∀ f ∈ fields, f.2.hasRepeatedName = false := by
  induction fields with
  | nil => exact List.forall_mem_nil _
  | cons f rest ih =>
    obtain ⟨hf, hrest⟩ := Bool.or_eq_false_iff.1 h
    exact List.forall_mem_cons.2 ⟨(Bool.or_eq_false_iff.1 hf).2, ih hrest⟩

/-- Where no name is repeated, the tree is that of the value. -/
theorem StandsFor.toTree_eq {t : Tree} {v : Json} (h : t.StandsFor v)
    (hd : t.hasRepeatedName = false) : v.toTree = t := by
  obtain ⟨htext, hvalue⟩ := h
  induction htext generalizing v with
  | @list items hitems ih =>
    simp only [hasRepeatedName] at hd
    obtain ⟨values, rfl, hall⟩ := of_list ⟨.list hitems, hvalue⟩
    have hsame : List.Forall₂ (fun t (v : Json) => v.toTree = t) items values :=
      forall₂_imp_of_mem hall fun t ht v hv =>
        ih t ht (hasRepeatedName_of_mem hd t ht) hv.value
    rw [Json.toTree, Json.itemsToTree_eq_map, map_eq_of_forall₂ hsame]
  | @record entries names hvalues _ ih =>
    obtain ⟨fields, members, rfl, rfl, hall⟩ := of_record ⟨.record names hvalues, hvalue⟩
    simp only [hasRepeatedName, Bool.or_eq_false_iff] at hd
    have hsame : List.Forall₂ (fun (f : String × Tree) (m : String × Json) =>
        (m.1, m.2.toTree) = f) fields members := by
      refine forall₂_imp_of_mem hall fun f hf m hm => ?_
      rw [ih (.string f.1, f.2) (List.mem_map_of_mem hf) (hasRepeatedName_of_mem_fields hd.2 f hf)
        hm.2.value, ← hm.1]
    obtain rfl := map_eq_of_forall₂ hsame
    have hnodup : (members.map Prod.fst).Nodup := by
      simpa [Function.comp_def] using nodup_of_repeatsName hd.1
    rw [Table.entries_ofList_of_nodup hnodup, Json.toTree_object]
    rfl
  | fault reason passing => cases hvalue
  | null | bool _ | number _ | string _ =>
    cases hvalue
    simp only [Json.toTree]

end Tree

end FormRouting
