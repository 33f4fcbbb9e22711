import FormRouting.Definition
import FormRouting.Decode.Text
import FormRouting.Proofs.Repeated.Condition

/-!
# Step maps that repeat names

A step map can be read from a text directly, or from the value of the text. Repeated
identifiers are treated alike, and so are the names inside a step, with one exception.
A record that writes a part of a condition twice is no rule in the text, but it can be
one in the value. A list around it is then no group in the text, and is read as the
parts of a condition; in the value it is a group.

* `Rule.Regroups`, `Step.Regroups`: the exception.
* `ofTree?_of_standsFor`: a rule that is read from the text is read from the value, and
  is the same one **exactly if** it is not the exception; by recursion over the tree.
* `member_of_standsFor`: the same of steps. `fills_of_stepEntries`: a step has one rule.
* `ofDefinition_of_members`, `ofList_eq_iff_not_regroups`: the members one after the
  other.
* `first_place_last_step`: **a step map keeps first places and last steps, however it
  is read.**
-/

namespace FormRouting

variable {C : Type}

/-! ## Rules -/

namespace Rule

/-- **A list that turns into a group.** It is no list of rules in the text, so it is read as the parts
of a condition; but it is one once the repeated names inside it are merged. It can stand inside other
groups. -/
inductive Regroups (C : Type) : Tree → Prop where
  | here {items : List Tree} {values : List Json}
      (none_in_text : listOfTrees? (C := C) items = none)
      (merged : Tree.itemsToJson? items = some values)
      (some_in_value : (listOfTrees? (C := C) (Json.itemsToTree values)).isSome) :
      Regroups C (.list items)
  | inside {items : List Tree} {t : Tree} (group : (listOfTrees? (C := C) items).isSome)
      (mem : t ∈ items) (h : Regroups C t) : Regroups C (.list items)

/-- Of a group, only the elements count. -/
theorem regroups_group_iff {items : List Tree} (h : (listOfTrees? (C := C) items).isSome) :
    Regroups C (.list items) ↔ ∃ t ∈ items, Regroups C t := by
  constructor
  · intro hr
    cases hr with
    | here hnone => simp [hnone] at h
    | inside _ mem ht => exact ⟨_, mem, ht⟩
  · rintro ⟨t, ht, hr⟩
    exact .inside h ht hr

/-- Of any other list, only the value counts. -/
theorem regroups_iff_of_none {items : List Tree} {values : List Json}
    (h : listOfTrees? (C := C) items = none) (hvalues : Tree.itemsToJson? items = some values) :
    Regroups C (.list items) ↔
      (listOfTrees? (C := C) (Json.itemsToTree values)).isSome := by
  constructor
  · intro hr
    cases hr with
    | here _ hmerged hsome =>
      obtain rfl := Option.some.inj (hvalues.symm.trans hmerged)
      exact hsome
    | inside hgroup => simp [h] at hgroup
  · exact .here h hvalues

/-- Where no name is repeated, every list stays what it is. -/
theorem not_regroups_of_distinct {t : Tree} (htext : t.FromText)
    (hd : t.hasRepeatedName = false) : ¬ Regroups C t := by
  intro h
  induction h with
  | @here items values hnone hmerged hsome =>
    have hlist : (Tree.list items).StandsFor (.array values) :=
      ⟨htext, by rw [Tree.toJson?, hmerged, Option.map_some]⟩
    have heq := hlist.toTree_eq hd
    rw [Json.toTree] at heq
    rw [Tree.list.inj heq, hnone] at hsome
    cases hsome
  | inside _ mem _ ih =>
    simp only [Tree.hasRepeatedName] at hd
    exact ih (htext.of_mem_items _ mem) (Tree.hasRepeatedName_of_mem hd _ mem)

mutual

/-- **A rule that is read from the text is read from its value too**, and is the same one unless a list
turns into a group. -/
theorem ofTree?_of_standsFor {t : Tree} {v : Json} (h : t.StandsFor v) {rule : Rule C}
    (hr : ofTree? t = some rule) :
    ∃ rule' : Rule C, ofTree? v.toTree = some rule' ∧ (rule' = rule ↔ ¬ Regroups C t) := by
  match t with
  | .string s =>
    rw [Tree.StandsFor.string_iff.1 h, Json.toTree]
    exact ⟨rule, hr, iff_of_true rfl nofun⟩
  | .list items =>
    obtain ⟨values, rfl, hall⟩ := h.of_list
    simp only [Json.toTree, ofTree?] at hr ⊢
    cases hgroup : listOfTrees? (C := C) items with
    | some rules =>
      rw [hgroup] at hr
      cases hr
      obtain ⟨rules', hrules', hiff⟩ := listOfTrees?_of_standsFor hall hgroup
      refine ⟨.group rules', by rw [hrules'], ?_⟩
      rw [Rule.group.injEq, hiff, regroups_group_iff (hgroup ▸ rfl)]
      simp
    | none =>
      rw [hgroup] at hr
      obtain ⟨c, next, rfl, hc⟩ := branchOfTree?_iff.1 hr
      have hvalues : Tree.itemsToJson? items = some values :=
        Tree.itemsToJson?_eq_some_iff.2 (hall.imp fun _ _ ht => ht.value)
      rw [regroups_iff_of_none hgroup hvalues]
      cases hvalue : listOfTrees? (C := C) (Json.itemsToTree values) with
      | some rules' => exact ⟨.group rules', rfl, by simp⟩
      | none =>
        have hc' := Decode.condition_of_list (Json.forall₂_mergesTo hall) hc
        exact ⟨.branch c next, branchOfTree?_iff.2 ⟨c, next, rfl, hc'⟩, by simp⟩
  | .record entries =>
    obtain ⟨fields, members, rfl, rfl, hall⟩ := h.of_record
    obtain ⟨c, next, rfl, hc⟩ := branchOfTree?_iff.1 hr
    refine ⟨.branch c next, ?_, iff_of_true rfl nofun⟩
    have hc' := Decode.condition_of_record hall h.hasDistinctNames hc
    rw [Json.toTree_object] at hc' ⊢
    exact branchOfTree?_iff.2 ⟨c, next, rfl, hc'⟩
  | .null | .bool _ | .number _ | .nonFinite _ | .tagged _ _ | .fault _ _ => cases hr

theorem listOfTrees?_of_standsFor {items : List Tree} {values : List Json}
    (hall : List.Forall₂ Tree.StandsFor items values) {rules : List (Rule C)}
    (hr : listOfTrees? items = some rules) :
    ∃ rules' : List (Rule C), listOfTrees? (Json.itemsToTree values) = some rules' ∧
      (rules' = rules ↔ ∀ t ∈ items, ¬ Regroups C t) := by
  match items with
  | [] =>
    cases hall
    cases hr
    exact ⟨[], rfl, by simp⟩
  | t :: rest =>
    cases hall with
    | @cons _ v _ others hv hothers =>
      simp only [listOfTrees?] at hr
      cases hfirst : ofTree? (C := C) t with
      | none =>
        rw [hfirst] at hr
        cases hr
      | some rule =>
        cases hrest : listOfTrees? (C := C) rest with
        | none =>
          rw [hfirst, hrest] at hr
          cases hr
        | some others =>
          rw [hfirst, hrest] at hr
          cases hr
          obtain ⟨rule', hrule', hiff⟩ := ofTree?_of_standsFor hv hfirst
          obtain ⟨others', hothers', hiffs⟩ := listOfTrees?_of_standsFor hothers hrest
          refine ⟨rule' :: others', ?_, ?_⟩
          · simp only [Json.itemsToTree, listOfTrees?, hrule', hothers']
          · rw [List.cons.injEq, hiff, hiffs, List.forall_mem_cons]

end

end Rule

/-! ## Steps -/

/-- **A step whose rule turns into another one**: as a record, or as a list of its one field. -/
inductive Step.Regroups (C : Type) : Tree → Prop where
  | record {fields : List (String × Tree)} {t : Tree} (next : fields.lookup "next" = some t)
      (h : Rule.Regroups C t) : Regroups C (Tree.ofFields fields)
  | list {items : List Tree} {t : Tree} (next : items[0]? = some t) (h : Rule.Regroups C t) :
      Regroups C (.list items)

theorem Step.regroups_ofFields_iff {fields : List (String × Tree)} :
    Step.Regroups C (Tree.ofFields fields) ↔
      ∃ t, fields.lookup "next" = some t ∧ Rule.Regroups C t := by
  constructor
  · intro h
    generalize ht : Tree.ofFields fields = t at h
    cases h with
    | record next h =>
      obtain rfl := Tree.named_injective (Tree.record.inj ht)
      exact ⟨_, next, h⟩
    | list next h => cases ht
  · rintro ⟨t, next, h⟩
    exact .record next h

theorem Step.regroups_list_iff {items : List Tree} :
    Step.Regroups C (.list items) ↔ ∃ t, items[0]? = some t ∧ Rule.Regroups C t := by
  constructor
  · intro h
    generalize ht : Tree.list items = t at h
    cases h with
    | record next h => cases ht
    | list next h =>
      obtain rfl := Tree.list.inj ht
      exact ⟨_, next, h⟩
  · rintro ⟨t, next, h⟩
    exact .list next h

/-- Where no name is repeated, every step stays what it is. -/
theorem Step.not_regroups_of_distinct {t : Tree} (htext : t.FromText)
    (hd : t.hasRepeatedName = false) : ¬ Step.Regroups C t := by
  intro h
  cases h with
  | @record fields t next h =>
    simp only [Tree.ofFields, Tree.hasRepeatedName, Bool.or_eq_false_iff] at hd
    have hmem := mem_of_lookup next
    exact Rule.not_regroups_of_distinct (htext.of_mem_fields _ hmem)
      (Tree.hasRepeatedName_of_mem_fields hd.2 _ hmem) h
  | @list items t next h =>
    simp only [Tree.hasRepeatedName] at hd
    have hmem := List.mem_of_getElem? next
    exact Rule.not_regroups_of_distinct (htext.of_mem_items t hmem)
      (Tree.hasRepeatedName_of_mem hd t hmem) h

namespace Decode

open ConditionParts

theorem ofTree?_of_rule {t : Tree} {rule : Rule C} (h : Decode.rule t = .ok rule) :
    Rule.ofTree? t = some rule := by
  unfold Decode.rule at h
  obtain ⟨_, -, h⟩ := bind_eq_ok_iff.1 h
  cases hrule : Rule.ofTree? (C := C) t with
  | none =>
    rw [hrule] at h
    cases h
  | some rule' =>
    rw [hrule] at h
    rw [Except.ok.inj h]

/-- What follows a step in the text, and what follows it in the value. -/
theorem optional_rule_of_standsFor {t : Tree} {v : Json} (h : t.StandsFor v)
    {next : Option (Rule C)} (hnext : optional Decode.rule t = .ok next) :
    ∃ next' : Option (Rule C), optional Decode.rule v.toTree = .ok next' ∧
      (next' = next ↔ ¬ Rule.Regroups C t) := by
  by_cases ht : t = .null
  · subst ht
    rw [Tree.StandsFor.null_iff.1 h, Json.toTree]
    exact ⟨next, hnext, iff_of_true rfl nofun⟩
  · rw [optional_of_ne_null _ ht, map_eq_ok_iff] at hnext
    obtain ⟨rule, hrule, rfl⟩ := hnext
    obtain ⟨rule', hrule', hiff⟩ := Rule.ofTree?_of_standsFor h (ofTree?_of_rule hrule)
    have hread : Decode.rule v.toTree = .ok rule' := by
      rw [rule_toTree_iff h.hasDistinctNames, ← Rule.ofTree?_toTree_iff rule' h.hasDistinctNames]
      exact hrule'
    refine ⟨some rule', ?_, by rw [Option.some.injEq, hiff]⟩
    rw [optional_of_ne_null _ (Json.toTree_ne_null (h.ne_null ht)), hread]
    rfl

/-- The same of a rule that can be left out. -/
theorem part_rule_of_standsFor {t? : Option Tree} {v? : Option Json}
    (h : Option.Rel Tree.StandsFor t? v?) {next : Option (Rule C)}
    (hnext : part none (optional Decode.rule) t? = .ok next) :
    ∃ next' : Option (Rule C), part none (optional Decode.rule) (v?.map Json.toTree) = .ok next' ∧
      (next' = next ↔ ¬ ∃ t, t? = some t ∧ Rule.Regroups C t) := by
  cases h with
  | none => exact ⟨next, hnext, by simp⟩
  | some h =>
    obtain ⟨next', hnext', hiff⟩ := optional_rule_of_standsFor h hnext
    exact ⟨next', hnext', by simp [hiff]⟩

/-- A step that is a record has one rule at most, whatever else is repeated. -/
theorem fills_of_stepEntries {format : Format} {fields : List (String × Tree)}
    {read : Option (Option (Rule C))} {step : Step C}
    (h : stepEntries format read (Tree.named fields) = .ok step) :
    ∃ read', Fills (optional Decode.rule) (fields.lookup "next") read read' ∧
      step = ⟨read'.getD none⟩ ∧ fields.reverse.lookup "next" = fields.lookup "next" := by
  induction fields generalizing read with
  | nil =>
    cases h
    exact ⟨read, .leftOut, rfl, rfl⟩
  | cons e rest ih =>
    obtain ⟨name, t⟩ := e
    change stepEntries format read ((.string name, t) :: Tree.named rest) = _ at h
    rw [List.reverse_cons, List.lookup_append]
    by_cases hn : name = "next"
    · subst hn
      have hf : field? format stepFields (.string "next") = .ok (some 0) := rfl
      obtain ⟨place, hplace, h⟩ := bind_eq_ok_iff.1 h
      cases hf.symm.trans hplace
      obtain rfl : read = none := by
        cases read with
        | none => rfl
        | some _ => cases h
      obtain ⟨next, hnext, hrest⟩ := bind_eq_ok_iff.1 h
      obtain ⟨read', hfills, hstep, hlast⟩ := ih hrest
      refine ⟨read', ?_, hstep, ?_⟩
      · rw [List.lookup_cons_self]
        exact hfills.of_first rfl hnext
      · rw [hlast, hfills.of_some.1, Option.none_or, List.lookup_cons_self,
          List.lookup_cons_self]
    · have hf : field? format stepFields (.string name) = .ok none := by
        simp [field?, Tree.untag, stepFields, hn]
      have hother : ("next" == name) = false := beq_false_of_ne (Ne.symm hn)
      obtain ⟨place, hplace, h⟩ := bind_eq_ok_iff.1 h
      cases hf.symm.trans hplace
      obtain ⟨_, -, hrest⟩ := bind_eq_ok_iff.1 h
      obtain ⟨read', hfills, hstep, hlast⟩ := ih hrest
      refine ⟨read', ?_, hstep, ?_⟩
      · rw [List.lookup_cons, hother]
        exact hfills
      · rw [hlast, List.lookup_cons, List.lookup_cons, hother, List.lookup_nil, Option.or_none]

/-- **A step that is read from the text is read from its value too**, and is the same one unless its
rule turns into another one. -/
theorem member_of_standsFor {t : Tree} {v : Json} (h : t.StandsFor v) {step : Step C}
    (hstep : member .jsonText t = .ok step) :
    ∃ step' : Step C, member .json v.toTree = .ok step' ∧
      (step' = step ↔ ¬ Step.Regroups C t) := by
  cases h.text with
  | null =>
    rw [Tree.StandsFor.null_iff.1 h, Json.toTree]
    exact ⟨step, hstep, iff_of_true rfl nofun⟩
  | list hitems =>
    obtain ⟨values, rfl, hall⟩ := h.of_list
    rw [member_of_ne_null (by simp), step_list_iff (by decide)] at hstep
    obtain ⟨hnext, hlength⟩ := hstep
    obtain ⟨next', hnext', hiff⟩ := part_rule_of_standsFor (rel_getElem? hall 0) hnext
    have hread : Decode.step .json (.list (Json.itemsToTree values)) = .ok (Step.mk next') := by
      rw [step_list_iff (by decide), Json.itemsToTree_eq_map, List.getElem?_map, List.length_map,
        ← hall.length_eq]
      exact ⟨hnext', hlength⟩
    rw [Json.toTree, member_of_ne_null (by simp), Step.regroups_list_iff, ← hiff]
    exact ⟨⟨next'⟩, hread, by cases step; simp⟩
  | record names hvalues =>
    obtain ⟨fields, members, rfl, rfl, hall⟩ := h.of_record
    rw [member_of_ne_null (by simp)] at hstep
    obtain ⟨read, hfills, rfl, hlast⟩ := fills_of_stepEntries hstep
    have hrel := Table.rel_get?_ofList hall "next"
    rw [hlast] at hrel
    obtain ⟨next', hnext', hiff⟩ := part_rule_of_standsFor hrel (part_of_fills hfills none)
    have hread : Decode.step .json (Json.object (Table.ofList members).entries).toTree =
        .ok (Step.mk next') := by
      rw [step_object_iff h.hasDistinctNames, Json.lookup_fields]
      exact hnext'
    rw [member_of_ne_null (Json.toTree_ne_null (by simp))]
    refine ⟨⟨next'⟩, hread, ?_⟩
    show _ ↔ ¬ Step.Regroups C (Tree.ofFields fields)
    rw [Step.regroups_ofFields_iff, ← hiff, Step.mk.injEq]
  | bool _ | number _ | string _ | fault _ _ => cases hstep

end Decode

namespace StepMap

open Table

/-- The steps of the value, one for each member of the text. -/
theorem exists_entries_of_standsFor {trees : List (String × Tree)} {members : List (String × Json)}
    (hall : List.Forall₂ (fun f m => f.1 = m.1 ∧ f.2.StandsFor m.2) trees members)
    {entries : List (String × Step C)}
    (hentries : List.Forall₂ (fun e f => e.1 = f.1 ∧ Decode.member .jsonText f.2 = .ok e.2)
      entries trees) :
    ∃ entries' : List (String × Step C),
      List.Forall₂ (fun e m => e.1 = m.1 ∧ Decode.member .json m.2.toTree = .ok e.2)
        entries' members ∧
      List.Forall₂ (fun e f => e.1 = f.1 ∧ ∀ step : Step C,
        Decode.member .jsonText f.2 = .ok step → (e.2 = step ↔ ¬ Step.Regroups C f.2))
        entries' trees := by
  induction hall generalizing entries with
  | nil => exact ⟨[], .nil, .nil⟩
  | @cons f m trees members hfm _ ih =>
    cases hentries with
    | @cons e _ entries _ hef hrest =>
      obtain ⟨entries', hvalues, htrees⟩ := ih hrest
      obtain ⟨step', hstep', hiff⟩ := Decode.member_of_standsFor hfm.2 hef.2
      refine ⟨(m.1, step') :: entries', .cons ⟨rfl, hstep'⟩ hvalues, .cons ⟨hfm.1.symm, ?_⟩ htrees⟩
      intro step hstep
      rw [← hiff, Except.ok.inj (hef.2.symm.trans hstep)]

/-- **The members of an object are read one by one**, of the same name the last one. -/
theorem ofDefinition_of_members {members : List (String × Json)}
    (hd : (Json.object (ofList members).entries).HasDistinctNames)
    {entries : List (String × Step C)}
    (h : List.Forall₂ (fun e m => e.1 = m.1 ∧ Decode.member .json m.2.toTree = .ok e.2) entries
      members) :
    ofDefinition (.object (ofList members).entries) = .ok (ofList entries) := by
  simp only [Json.HasDistinctNames] at hd
  have hread : Decode.stepMap .json (Json.object (ofList members).entries).toTree =
      .ok (ofList entries) := by
    rw [Json.toTree_object]
    refine (Decode.stepMap_ofFields_iff .json (Json.names_fields _ ▸ hd.1)).2 ?_
    rw [List.forall₂_map_right_iff]
    exact forall₂_ofList (R := fun (step : Step C) (v : Json) =>
      Decode.member .json v.toTree = .ok step) h
  rw [ofDefinition, hread]
  rfl

/-- Two maps of one text are the same **exactly if** no step that is kept turns into another one. -/
theorem ofList_eq_iff_not_regroups {trees : List (String × Tree)}
    {entries entries' : List (String × Step C)}
    (h : List.Forall₂ (fun e f => e.1 = f.1 ∧ Decode.member .jsonText f.2 = .ok e.2) entries trees)
    (h' : List.Forall₂ (fun e f => e.1 = f.1 ∧ ∀ step : Step C,
      Decode.member .jsonText f.2 = .ok step → (e.2 = step ↔ ¬ Step.Regroups C f.2))
      entries' trees) :
    ofList entries' = ofList entries ↔
      ∀ id t, trees.reverse.lookup id = some t → ¬ Step.Regroups C t := by
  have hnames : entries'.map Prod.fst = entries.map Prod.fst :=
    (Decode.names_eq h').trans (Decode.names_eq h).symm
  rw [ofList_eq_iff hnames]
  refine forall_congr' fun id => ?_
  have hread := rel_lookup (R := fun (step : Step C) t => Decode.member .jsonText t = .ok step)
    (List.forall₂_reverse_iff.2 h) id
  have hread' := rel_lookup (R := fun (step' : Step C) t => ∀ step : Step C,
    Decode.member .jsonText t = .ok step → (step' = step ↔ ¬ Step.Regroups C t))
    (List.forall₂_reverse_iff.2 h') id
  generalize entries.reverse.lookup id = step?, entries'.reverse.lookup id = step?',
    trees.reverse.lookup id = t? at hread hread' ⊢
  cases hread with
  | none =>
    cases hread'
    simp
  | some hstep =>
    cases hread' with
    | some hiff => simp [hiff _ hstep]

/-- **First place, last step.** After any insertions into an empty map, the identifiers stand in the
order of their first insertion, without repetition; under an identifier stands what was inserted
last; and there are as many steps as identifiers. A text that is an object of steps is read as if its
members were inserted one after the other. Where it has a value at all, in which a repeated name
keeps its first place and its last value, this is read as a step map with the same identifiers in the
same order. It is the same map exactly if no list inside a step that is kept turns into a group when
the repeated names inside it are merged, and so always if no name is repeated inside a member. -/
theorem first_place_last_step :
    (∀ entries : List (String × Step C),
      (ofList entries).keys = (entries.map Prod.fst).eraseDups ∧
      (ofList entries).keys.Nodup ∧
      (∀ id, (ofList entries).get? id = entries.reverse.lookup id) ∧
      (ofList entries).size = (entries.map Prod.fst).toFinset.card) ∧
    ∀ (text : String) (trees : List (String × Tree)) (entries : List (String × Step C)),
      (JsonText.read text).root = Tree.ofFields trees → (JsonText.read text).trailing = none →
      List.Forall₂ (fun e f => e.1 = f.1 ∧ Decode.member .jsonText f.2 = .ok e.2) entries trees →
      (JsonText.read text).decode (Decode.stepMap .jsonText) = .ok (ofList entries) ∧
      ∀ value, (JsonText.read text).toJson? = some value →
        (∃ members, value = .object members ∧
          members.map Prod.fst = (trees.map Prod.fst).eraseDups ∧
          ∀ id, members.lookup id = (trees.reverse.lookup id).bind Tree.toJson?) ∧
        ∃ steps : StepMap C, ofDefinition value = .ok steps ∧
          steps.keys = (ofList entries).keys ∧
          (steps = ofList entries ↔
            ∀ id t, trees.reverse.lookup id = some t → ¬ Step.Regroups C t) ∧
          ((∀ f ∈ trees, f.2.hasRepeatedName = false) → steps = ofList entries) := by
  refine ⟨fun entries => ⟨keys_ofList entries, keys_nodup _, get?_ofList entries,
    size_ofList entries⟩, fun text trees entries hroot htrailing hentries => ⟨?_, ?_⟩⟩
  · have hread : Decode.stepMap .jsonText (Tree.ofFields trees) = .ok (ofList entries) :=
      (Decode.stepMapEntries_iff .jsonText).2 ⟨entries, hentries, rfl⟩
    rw [JsonText.decode, hroot, hread, htrailing]
    rfl
  · intro value hvalue
    have hstands : (Tree.ofFields trees).StandsFor value := by
      refine ⟨hroot ▸ JsonText.fromText_read text, ?_⟩
      rwa [JsonText.toJson?, htrailing, hroot] at hvalue
    obtain ⟨fields, members, hfields, rfl, hall⟩ := hstands.of_record
    obtain rfl := Tree.named_injective hfields
    obtain ⟨entries', hvalues, htrees⟩ := exists_entries_of_standsFor hall hentries
    have hiff := ofList_eq_iff_not_regroups hentries htrees
    refine ⟨⟨_, rfl, ?_, fun id => ?_⟩, ofList entries',
      ofDefinition_of_members hstands.hasDistinctNames hvalues, ?_, hiff, fun hd => ?_⟩
    · show (ofList members).keys = _
      rw [keys_ofList, ← Decode.names_eq hall]
    · have hlast := rel_get?_ofList hall id
      show (ofList members).get? id = _
      generalize trees.reverse.lookup id = t?, (ofList members).get? id = v? at hlast ⊢
      cases hlast with
      | none => rfl
      | some h => exact h.value.symm
    · rw [keys_ofList, keys_ofList, Decode.names_eq htrees, Decode.names_eq hentries]
    · refine hiff.2 fun id t ht => ?_
      have hmem : (id, t) ∈ trees := List.mem_reverse.1 (mem_of_lookup ht)
      exact Step.not_regroups_of_distinct (hstands.text.of_mem_fields _ hmem) (hd _ hmem)

/-! ### A list with a repeated field -/

/-- The list is no group, because its record writes `field` twice. -/
def repeatedField : Tree :=
  .list [.string "x", .string ">", .ofFields [("field", .string "a"), ("field", .string "b")]]

/-- What the list is read as in a text: go on if `x` is greater than an object. -/
def repeatedFieldStep : Step Unit :=
  ⟨some (.branch
    { field := "x"
      operator := .builtIn .greater
      value := some (.object [("field", .string "b")]) } none)⟩

/-- A step with the list, which is replaced by a step that repeats a name of no meaning. -/
def replacedStepText : String :=
  "\x7b\"s\":\x7b\"next\":[\"x\",\">\",\x7b\"field\":\"a\",\"field\":\"b\"\x7d]\x7d,\"c\":null,
    \"s\":\x7b\"n\":true,\"next\":\"c\",\"n\":null\x7d\x7d"

def replacedStepTrees : List (String × Tree) :=
  [("s", .ofFields [("next", repeatedField)]), ("c", .null),
    ("s", .ofFields [("n", .bool true), ("next", .string "c"), ("n", .null)])]

def replacedSteps : List (String × Step Unit) :=
  [("s", repeatedFieldStep), ("c", .terminal), ("s", ⟨some (.target "c")⟩)]

/-- The step with the list is not kept, so the text and its value are read as the same map. -/
theorem replaced_step_read_alike :
    (JsonText.read replacedStepText).root = Tree.ofFields replacedStepTrees ∧
    (JsonText.read replacedStepText).trailing = none ∧
    List.Forall₂ (fun e f => e.1 = f.1 ∧ Decode.member .jsonText f.2 = .ok e.2) replacedSteps
      replacedStepTrees ∧
    (JsonText.read replacedStepText).decode (Decode.stepMap .jsonText) =
      .ok (ofList replacedSteps) ∧
    ∃ value, (JsonText.read replacedStepText).toJson? = some value ∧
      ofDefinition value = .ok (ofList replacedSteps) ∧
      (ofList replacedSteps).keys = ["s", "c"] := by
  have hroot : (JsonText.read replacedStepText).root = Tree.ofFields replacedStepTrees := by
    decide +kernel
  have htrailing : (JsonText.read replacedStepText).trailing = none := by decide +kernel
  have hentries : List.Forall₂ (fun e f => e.1 = f.1 ∧ Decode.member .jsonText f.2 = .ok e.2)
      replacedSteps replacedStepTrees :=
    .cons ⟨rfl, rfl⟩ (.cons ⟨rfl, rfl⟩ (.cons ⟨rfl, rfl⟩ .nil))
  have hvalue : (JsonText.read replacedStepText).toJson? =
      (Tree.ofFields replacedStepTrees).toJson? := by
    rw [JsonText.toJson?, htrailing, hroot]
    rfl
  obtain ⟨-, hread⟩ := first_place_last_step (C := Unit)
  obtain ⟨htext, hread⟩ := hread _ _ _ hroot htrailing hentries
  obtain ⟨-, steps, hsteps, -, hiff, -⟩ := hread _ (hvalue.trans rfl)
  have hkept : ∀ id t, replacedStepTrees.reverse.lookup id = some t →
      ¬ Step.Regroups Unit t := by
    intro id t ht
    by_cases hs : id = "s"
    · subst hs
      cases ht
      rw [Step.regroups_ofFields_iff]
      rintro ⟨_, ⟨⟩, h⟩
      cases h
    · by_cases hc : id = "c"
      · subst hc
        cases ht
        intro h
        cases h
      · simp [replacedStepTrees, List.lookup_cons, beq_false_of_ne hs, beq_false_of_ne hc] at ht
  exact ⟨hroot, htrailing, hentries, htext, _, hvalue.trans rfl, hiff.2 hkept ▸ hsteps, rfl⟩

/-- What the value of the list is read as: `x`, `>`, or go on if `b` is nothing. -/
def repeatedFieldGroup : Step Unit :=
  ⟨some (.group [.target "x", .target ">", .branch { field := "b" } none])⟩

def repeatedFieldText : String :=
  "\x7b\"s\":\x7b\"next\":[\"x\",\">\",\x7b\"field\":\"a\",\"field\":\"b\"\x7d]\x7d\x7d"

/-- A step without a rule, with half of a surrogate pair under a name of no meaning. -/
def unpairedText : String := "\x7b\"s\":\x7b\"n\":\"\\ud800\"\x7d\x7d"

/-- The list of a step that is kept is read as a condition from the text and as a group from its
value. What is only passed over can keep a text from having a value at all. -/
theorem text_and_value_read_apart :
    (JsonText.read repeatedFieldText).decode (Decode.stepMap .jsonText) =
        .ok (ofList [("s", repeatedFieldStep)]) ∧
      (∃ value, (JsonText.read repeatedFieldText).toJson? = some value ∧
        ofDefinition value = .ok (ofList [("s", repeatedFieldGroup)])) ∧
      ofList [("s", repeatedFieldStep)] ≠ ofList [("s", repeatedFieldGroup)] ∧
    (JsonText.read unpairedText).decode (Decode.stepMap .jsonText) =
        .ok (ofList [("s", Step.terminal (C := Unit))]) ∧
      (JsonText.read unpairedText).toJson? = none := by
  have hrepeated : (JsonText.read repeatedFieldText).root =
      .ofFields [("s", .ofFields [("next", repeatedField)])] ∧
      (JsonText.read repeatedFieldText).trailing = none := by decide +kernel
  have hunpaired : (JsonText.read unpairedText).root =
      .ofFields [("s", .ofFields [("n", .fault .malformed none)])] ∧
      (JsonText.read unpairedText).trailing = none := by decide +kernel
  have hdiffer : ofList [("s", repeatedFieldStep)] ≠ ofList [("s", repeatedFieldGroup)] := by
    intro h
    cases congrArg (fun steps => steps.entries) h
  refine ⟨?_, ⟨.object [("s", .object [("next",
    .array [.string "x", .string ">", .object [("field", .string "b")]])])], ?_, rfl⟩, hdiffer, ?_, ?_⟩
  · rw [JsonText.decode, hrepeated.1, hrepeated.2]
    rfl
  · rw [JsonText.toJson?, hrepeated.1, hrepeated.2]
    rfl
  · rw [JsonText.decode, hunpaired.1, hunpaired.2]
    rfl
  · rw [JsonText.toJson?, hunpaired.1, hunpaired.2]
    rfl

end StepMap

end FormRouting
