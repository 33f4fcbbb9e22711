import FormRouting.Proofs.ArrayLabels
import FormRouting.Proofs.Drawing
import FormRouting.Proofs.Repeated.StepMap

/-!
# Labels of written conditions

The label of an edge is made of what a definition writes in a condition: the field, the
symbol of the comparator and the value. Between the two stand the reading of the rule,
its drawing, and the text of the value. They are followed here from the JSON value on,
without the rules in between.

* `writtenEnds`: the ends of a rule as they are written, each with the number of groups
  around it; `forall₂_writtenEnds`: **they are read one by one as the leaves of the rule**,
  by recursion over the value.
* `rel_writtenRule?`: the rule of a step, as it is written and as it is read.
* `edges_eq_drawnEnds`: the edges of a definition, end by end.
* `Compares`: a written condition with a comparator and a target; `reads_compares`: what
  is read of it.
* `labels_show_written_values`: **the label has the value that is written, unless this is
  `null`**, which is shown like a missing value.
-/

namespace FormRouting

/-! ## Written rules -/

namespace Json

mutual

/-- **The ends of a written rule** from left to right, each with the number of groups around it,
where `depth` groups are around the rule. A list is a group if all its elements are rules; any other
list is an end. -/
def writtenEnds (depth : Nat) : Json → List (Nat × Json)
  | .array items =>
    if (Rule.listOfTrees? (C := Unit) (itemsToTree items)).isSome then
      writtenEndsOfItems (depth + 1) items
    else [(depth, .array items)]
  | v => [(depth, v)]

def writtenEndsOfItems (depth : Nat) : List Json → List (Nat × Json)
  | [] => []
  | v :: rest => writtenEnds depth v ++ writtenEndsOfItems depth rest

end

/-- The rule of a written step: what stands under `next`, or in the list of this one field. -/
def writtenRule? : Json → Option Json
  | .object members => Comparator.definite (members.lookup "next")
  | .array items => Comparator.definite items[0]?
  | _ => none

/-- The ends of a written step with an even number of groups around them. -/
def drawnEndsOfStep (step : Json) : List Json :=
  match step.writtenRule? with
  | none => []
  | some rule => ((rule.writtenEnds 0).filter fun e => e.1 % 2 = 0).map Prod.snd

/-- **The ends that are drawn** of the steps of a definition, each with the step it belongs to. -/
def drawnEnds (steps : List (String × Json)) : List (String × Json) :=
  steps.flatMap fun s => s.2.drawnEndsOfStep.map fun v => (s.1, v)

/-- What an end is read as. -/
def leaf? (v : Json) : Option (Leaf Unit) :=
  match Rule.ofTree? v.toTree with
  | some (.target t) => some (.target t)
  | some (.branch c next) => some (.branch c next)
  | _ => none

/-- The edge that an end of the step `source` gives. -/
def edge? (targets : Targets) (source : String) (v : Json) : Option Edge :=
  (v.leaf?.bind (Leaf.item? targets source)).bind Item.edge?

end Json

/-! ## From ends to leaves -/

namespace Rule

open Json

/-- A condition is one end. -/
theorem forall₂_end {v : Json} {c : Condition Unit} {next : Option String}
    (h : ofTree? v.toTree = some (.branch c next)) (depth : Nat) :
    List.Forall₂ (fun e l => e.1 = l.1 ∧ e.2.leaf? = some l.2) [(depth, v)]
      ((Rule.branch c next).leaves depth) := by
  rw [leaves]
  exact .cons ⟨rfl, by simp [leaf?, h]⟩ .nil

mutual

/-- **The written ends are read one by one** as the leaves of the rule. -/
theorem forall₂_writtenEnds {v : Json} {rule : Rule Unit} (h : ofTree? v.toTree = some rule)
    (depth : Nat) :
    List.Forall₂ (fun e l => e.1 = l.1 ∧ e.2.leaf? = some l.2) (v.writtenEnds depth)
      (rule.leaves depth) := by
  match v with
  | .string s =>
    have hs := h
    simp only [toTree, ofTree?, Option.some.injEq] at hs
    subst hs
    rw [writtenEnds, leaves]
    · exact .cons ⟨rfl, by simp [leaf?, h]⟩ .nil
    · simp
  | .array items =>
    have hitems := h
    simp only [toTree, ofTree?] at hitems
    rw [writtenEnds]
    -- the reader tries the list as a group first, by the same test that splits it into ends
    cases hgroup : listOfTrees? (C := Unit) (itemsToTree items) with
    | some rules =>
      rw [hgroup] at hitems
      obtain rfl := Option.some.inj hitems
      rw [if_pos (by simp), leaves]
      exact forall₂_writtenEndsOfItems hgroup (depth + 1)
    | none =>
      rw [hgroup] at hitems
      obtain ⟨c, next, rfl, -⟩ := branchOfTree?_iff.1 hitems
      rw [if_neg (by simp)]
      exact forall₂_end h depth
  | .object members =>
    have hfields := h
    simp only [toTree, ofTree?] at hfields
    obtain ⟨c, next, rfl, -⟩ := branchOfTree?_iff.1 hfields
    rw [writtenEnds]
    · exact forall₂_end h depth
    · simp
  | .null | .bool _ | .number _ => simp [toTree, ofTree?] at h

theorem forall₂_writtenEndsOfItems {items : List Json} {rules : List (Rule Unit)}
    (h : listOfTrees? (itemsToTree items) = some rules) (depth : Nat) :
    List.Forall₂ (fun e l => e.1 = l.1 ∧ e.2.leaf? = some l.2) (writtenEndsOfItems depth items)
      (leavesOfAll depth rules) := by
  match items with
  | [] =>
    simp only [itemsToTree, listOfTrees?, Option.some.injEq] at h
    subst h
    rw [writtenEndsOfItems, leavesOfAll]
    exact .nil
  | v :: rest =>
    simp only [itemsToTree, listOfTrees?] at h
    cases hfirst : ofTree? (C := Unit) v.toTree with
    | none => simp [hfirst] at h
    | some rule =>
      cases hrest : listOfTrees? (C := Unit) (itemsToTree rest) with
      | none => simp [hfirst, hrest] at h
      | some others =>
        rw [hfirst, hrest] at h
        obtain rfl := Option.some.inj h
        rw [writtenEndsOfItems, leavesOfAll]
        exact List.rel_append (forall₂_writtenEnds hfirst depth)
          (forall₂_writtenEndsOfItems hrest depth)

end

end Rule

/-! ## From steps to edges -/

namespace Json

theorem HasDistinctNames.of_mem_items {items : List Json} (h : AllHaveDistinctNames items) :
    ∀ v ∈ items, v.HasDistinctNames := by
  induction items with
  | nil => exact fun v hv => nomatch hv
  | cons w rest ih =>
    simp only [AllHaveDistinctNames] at h
    exact List.forall_mem_cons.2 ⟨h.1, ih h.2⟩

/-- What is found under a name in an object has distinct names too. -/
theorem HasDistinctNames.of_lookup {members : List (String × Json)}
    (h : (Json.object members).HasDistinctNames) {name : String} {v : Json}
    (hv : members.lookup name = some v) : v.HasDistinctNames := by
  simp only [HasDistinctNames] at h
  exact membersHaveDistinctNames_iff.1 h.2 _ (mem_of_lookup hv)

mutual

theorem hasDistinctNames_of_mem_writtenEnds {v : Json} (h : v.HasDistinctNames) {depth : Nat}
    {e : Nat × Json} (he : e ∈ v.writtenEnds depth) : e.2.HasDistinctNames := by
  match v with
  | .array items =>
    rw [writtenEnds] at he
    split at he
    · simp only [HasDistinctNames] at h
      exact hasDistinctNames_of_mem_writtenEndsOfItems h he
    · rw [List.mem_singleton.1 he]
      exact h
  | .null | .bool _ | .number _ | .string _ | .object _ =>
    simp only [writtenEnds, List.mem_singleton] at he
    rw [he]
    exact h

theorem hasDistinctNames_of_mem_writtenEndsOfItems {items : List Json}
    (h : AllHaveDistinctNames items) {depth : Nat} {e : Nat × Json}
    (he : e ∈ writtenEndsOfItems depth items) : e.2.HasDistinctNames := by
  match items with
  | [] =>
    rw [writtenEndsOfItems] at he
    cases he
  | v :: rest =>
    simp only [AllHaveDistinctNames] at h
    rw [writtenEndsOfItems, List.mem_append] at he
    rcases he with he | he
    · exact hasDistinctNames_of_mem_writtenEnds h.1 he
    · exact hasDistinctNames_of_mem_writtenEndsOfItems h.2 he

end

theorem definite_of_ne_null {v : Json} (h : v ≠ .null) : Comparator.definite (some v) = some v := by
  cases v with
  | null => exact absurd rfl h
  | _ => rfl

theorem definite_eq_some {v? : Option Json} {v : Json} (h : Comparator.definite v? = some v) :
    v? = some v := by
  cases v? with
  | none => cases h
  | some w =>
    cases w with
    | null => cases h
    | _ => exact h

theorem hasDistinctNames_of_mem_drawnEndsOfStep {step : Json} (h : step.HasDistinctNames) {v : Json}
    (hv : v ∈ step.drawnEndsOfStep) : v.HasDistinctNames := by
  have hrule : ∀ rule ∈ step.writtenRule?, rule.HasDistinctNames := by
    intro rule hrule
    cases step with
    | object members => exact h.of_lookup (definite_eq_some hrule)
    | array items =>
      simp only [HasDistinctNames] at h
      exact HasDistinctNames.of_mem_items h rule (List.mem_of_getElem? (definite_eq_some hrule))
    | null | bool _ | number _ | string _ => cases hrule
  unfold drawnEndsOfStep at hv
  cases hw : step.writtenRule? with
  | none =>
    rw [hw] at hv
    cases hv
  | some rule =>
    rw [hw] at hv
    obtain ⟨e, he, rfl⟩ := List.mem_map.1 hv
    exact hasDistinctNames_of_mem_writtenEnds (hrule rule hw) (List.mem_filter.1 he).1

end Json

namespace Decode

/-- What follows a step, as it is read and as it is written. -/
theorem rel_of_part_rule {v? : Option Json} {next : Option (Rule Unit)}
    (h : part none (optional Decode.rule) (v?.map Json.toTree) = .ok next) :
    Option.Rel (fun rule w => Rule.ofTree? w.toTree = some rule) next (Comparator.definite v?) := by
  cases v? with
  | none =>
    cases h
    exact .none
  | some v =>
    by_cases hv : v = .null
    · subst hv
      cases h
      exact .none
    · change optional Decode.rule v.toTree = .ok next at h
      rw [optional_of_ne_null _ (Json.toTree_ne_null hv), map_eq_ok_iff] at h
      obtain ⟨rule, hrule, rfl⟩ := h
      rw [Json.definite_of_ne_null hv]
      exact .some (ofTree?_of_rule hrule)

/-- **The rule of a step**, as it is read and as it is written. -/
theorem rel_writtenRule? {v : Json} (hv : v.HasDistinctNames) {step : Step Unit}
    (h : member .json v.toTree = .ok step) :
    Option.Rel (fun rule w => Rule.ofTree? w.toTree = some rule) step.next v.writtenRule? := by
  cases v with
  | null =>
    cases h
    exact .none
  | object members =>
    rw [member_of_ne_null (Json.toTree_ne_null (by simp)), step_object_iff hv,
      Json.lookup_fields] at h
    exact rel_of_part_rule h
  | array items =>
    simp only [Json.toTree] at h
    rw [member_of_ne_null (by simp), step_list_iff (by decide), Json.itemsToTree_eq_map,
      List.getElem?_map] at h
    exact rel_of_part_rule h.1
  | bool _ | number _ | string _ => cases h

/-- The drawn ends of a step are read as the leaves of even depth in its rule. -/
theorem forall₂_drawnEnds {v : Json} (hv : v.HasDistinctNames) {step : Step Unit}
    (h : member .json v.toTree = .ok step) :
    List.Forall₂ (fun w leaf => w.leaf? = some leaf) v.drawnEndsOfStep
      (step.next.elim [] fun rule => Leaf.even (rule.leaves 0)) := by
  have hrel := rel_writtenRule? hv h
  unfold Json.drawnEndsOfStep
  generalize step.next = next, v.writtenRule? = written at hrel ⊢
  cases hrel with
  | none => exact .nil
  | some hrule =>
    have hends := Rule.forall₂_writtenEnds hrule 0
    simp only [Leaf.even, Option.elim_some, List.forall₂_map_left_iff, List.forall₂_map_right_iff]
    refine (List.rel_filter ?_ hends).imp fun _ _ h => h.2
    rintro e l ⟨hdepth, -⟩
    show decide (e.1 % 2 = 0) = true ↔ decide (l.1 % 2 = 0) = true
    rw [hdepth]

end Decode

/-- Lists whose elements give the same one by one. -/
theorem filterMap_eq_of_forall₂ {α β γ : Type} {f : α → Option γ} {g : β → Option γ} {l : List α}
    {u : List β} (h : List.Forall₂ (fun a b => f a = g b) l u) : l.filterMap f = u.filterMap g := by
  induction h with
  | nil => rfl
  | cons hab _ ih => rw [List.filterMap_cons, List.filterMap_cons, hab, ih]

/-- The edges of a step, end by end. -/
theorem Step.edges_eq_drawnEnds {v : Json} (hv : v.HasDistinctNames) {step : Step Unit}
    (h : Decode.member .json v.toTree = .ok step) (targets : Targets) (source : String) :
    step.edges targets source = v.drawnEndsOfStep.filterMap (Json.edge? targets source) := by
  have hdrawn : step.drawn targets source =
      (step.next.elim [] fun rule => Leaf.even (rule.leaves 0)).filterMap
        (Leaf.item? targets source) := by
    unfold Step.drawn
    cases step.next <;> rfl
  rw [Step.edges, hdrawn, List.filterMap_filterMap]
  refine (filterMap_eq_of_forall₂ ((Decode.forall₂_drawnEnds hv h).imp fun w leaf hleaf => ?_)).symm
  rw [Json.edge?, hleaf, Option.bind_some]

namespace StepMap

open Json

variable {steps : List (String × Json)}

/-- The steps of a definition are read one by one. -/
theorem forall₂_entries {read : StepMap Unit} (h : (Json.object steps).HasDistinctNames)
    (hread : ofDefinition (.object steps) = .ok read) :
    List.Forall₂ (fun s e => s.1 = e.1 ∧ Decode.member .json s.2.toTree = .ok e.2) steps
      read.entries := by
  obtain ⟨trees, htrees, hentries⟩ := (ofDefinition_iff read h).1 hread
  rw [toTree_object] at htrees
  obtain rfl := Tree.named_injective (Tree.record.inj htrees)
  simp only [HasDistinctNames] at h
  have hmembers := List.forall₂_map_right_iff.1 ((forall₂_member_iff h.2).2 hentries)
  exact (hmembers.imp fun _ _ he => ⟨he.1.symm, he.2⟩).flip

/-- **The edges of a definition**, end by end. -/
theorem edges_eq_drawnEnds {read : StepMap Unit} (h : (Json.object steps).HasDistinctNames)
    (hread : ofDefinition (.object steps) = .ok read) :
    read.compile.graph.edges =
      (drawnEnds steps).filterMap fun e => e.2.edge? ⟨steps.map Prod.fst⟩ e.1 := by
  have hentries := forall₂_entries h hread
  have hsteps : steps.map (fun s => s.2.drawnEndsOfStep.filterMap (edge? ⟨steps.map Prod.fst⟩ s.1)) =
      read.entries.map fun e => e.2.edges ⟨steps.map Prod.fst⟩ e.1 := by
    rw [← List.forall₂_eq_eq_eq, List.forall₂_map_left_iff, List.forall₂_map_right_iff]
    refine forall₂_imp_of_mem hentries fun s hs e he => ?_
    simp only [HasDistinctNames] at h
    rw [he.1, Step.edges_eq_drawnEnds (membersHaveDistinctNames_iff.1 h.2 s hs) he.2]
  rw [edges_compile, outline, List.flatMap_map, targets, Table.keys, ← Decode.names_eq hentries,
    List.flatMap_def, ← hsteps, drawnEnds, List.filterMap_flatMap, List.flatMap_def]
  simp only [List.filterMap_map, Function.comp_def]

/-- An end of an accepted definition can be read, and no object in it repeats a name. -/
theorem of_mem_drawnEnds {read : StepMap Unit} (h : (Json.object steps).HasDistinctNames)
    (hread : ofDefinition (.object steps) = .ok read) {id : String} {v : Json}
    (hv : (id, v) ∈ drawnEnds steps) : (∃ leaf, v.leaf? = some leaf) ∧ v.HasDistinctNames := by
  obtain ⟨s, hs, hmem⟩ := List.mem_flatMap.1 hv
  obtain ⟨w, hw, heq⟩ := List.mem_map.1 hmem
  cases heq
  have hmembers : ∀ s ∈ steps, ∃ step : Step Unit, Decode.member .json s.2.toTree = .ok step :=
    ((List.forall₂_and_left _ _).1
      ((forall₂_entries h hread).imp fun s e he => ⟨⟨e.2, he.2⟩, he⟩)).1
  simp only [HasDistinctNames] at h
  have hdistinct := membersHaveDistinctNames_iff.1 h.2 s hs
  obtain ⟨step, hstep⟩ := hmembers s hs
  have hends : ∀ w ∈ s.2.drawnEndsOfStep, ∃ leaf, w.leaf? = some leaf :=
    ((List.forall₂_and_left _ _).1
      ((Decode.forall₂_drawnEnds hdistinct hstep).imp fun w leaf hl => ⟨⟨leaf, hl⟩, hl⟩)).1
  exact ⟨hends _ hw, hasDistinctNames_of_mem_drawnEndsOfStep hdistinct hw⟩

end StepMap

/-! ## Conditions with a comparator -/

namespace Json

/-- **A written condition with a comparator**: the members of an object without a predicate. The field
can be left out, and the comparator be written by its symbol or, where it is the implicit one, not at
all. The target is not empty; the value is free. -/
structure Compares (members : List (String × Json)) (field : String) (comparator : Comparator)
    (target : String) : Prop where
  field : WrittenField field (fields members |>.lookup "field")
  operator : (Operator.builtIn comparator : Operator Unit).Written (fields members |>.lookup "op")
  no_predicate : members.lookup "fn" = none ∨ members.lookup "fn" = some .null
  outcome : members.lookup "next" = some (.string target) ∨
    members.lookup "key" = some (.string target)
  target_ne : target ≠ ""

/-- **How values are shown**: a missing value and `null` by these words, a string by itself, an array by
its elements between commas, where `null` leaves its place empty, and everything else as JSON text. -/
structure ShowsValues (text : Option Json → String) : Prop where
  missing : text none = "undefined"
  null : text (some .null) = "null"
  string : ∀ s, text (some (.string s)) = s
  bool : ∀ b, text (some (.bool b)) = (Json.bool b).compact
  number : ∀ n, text (some (.number n)) = (Json.number n).compact
  object : ∀ members, text (some (.object members)) = (Json.object members).compact
  array : ∀ items, text (some (.array items)) = ",".intercalate (items.map fun
    | .null => ""
    | v => text (some v))

theorem showsValues_optionalLabel : ShowsValues optionalLabel where
  missing := rfl
  null := rfl
  string _ := rfl
  bool _ := rfl
  number _ := rfl
  object _ := rfl
  array items := by
    rw [optionalLabel, label, itemLabels_eq_map]
    refine congrArg _ (List.map_congr_left fun v _ => ?_)
    cases v <;> rfl

/-- The label of a comparison. -/
def comparisonLabel (field : String) (comparator : Comparator) (value : Option Json) : String :=
  field ++ " " ++ comparator.symbol ++ " " ++ optionalLabel value

theorem comparisonLabel_eq_iff {field : String} {comparator : Comparator} {v w : Option Json} :
    comparisonLabel field comparator v = comparisonLabel field comparator w ↔
      optionalLabel v = optionalLabel w :=
  String.append_right_inj _

/-- Only for `null` it makes a difference to the label whether a value is missing instead. -/
theorem optionalLabel_definite_iff {v? : Option Json} :
    optionalLabel (Comparator.definite v?) = optionalLabel v? ↔ v? ≠ some .null := by
  cases v? with
  | none => simp [Comparator.definite]
  | some v => cases v <;> simp [Comparator.definite, optionalLabel, label]

end Json

namespace Decode

open Json

variable {members : List (String × Json)} {field target : String} {comparator : Comparator}
  {c : Condition Unit} {next : Option String}

/-- A value is written as itself, and `null` as a missing one. -/
theorem written_definite {v? : Option Json} (h : ∀ v ∈ v?, v.HasDistinctNames) :
    WrittenOptional WrittenValue (Comparator.definite v?) (v?.map toTree) := by
  cases v? with
  | none => exact .leftOut
  | some v =>
    by_cases hv : v = .null
    · subst hv
      exact .null
    · rw [definite_of_ne_null hv]
      exact .present ⟨hv, h v rfl, rfl⟩

/-- The outcome has two names, and nothing stands under one of them. -/
theorem namedParts_outcome {fields : List (String × Tree)} {t : Tree}
    (hone : fields.lookup "next" = none ∨ fields.lookup "key" = none)
    (h : fields.lookup "next" = some t ∨ fields.lookup "key" = some t) :
    namedParts fields 4 = some t := by
  simp only [namedParts]
  rcases h with hnext | hkey
  · rw [hnext, Option.some_or]
  · rw [hkey] at hone ⊢
    rw [hone.resolve_right (Option.some_ne_none t), Option.none_or]

/-- **What is read of a condition with a comparator**: its field, its comparator, its target, and its
value unless it is `null`. -/
theorem reads_compares (hd : (Json.object members).HasDistinctNames)
    (h : Compares members field comparator target)
    (hc : condition .choice string (Json.object members).toTree = .ok (c, next)) :
    c = { field := field, operator := .builtIn comparator,
          value := Comparator.definite (members.lookup "value") } ∧ next = some target := by
  rw [toTree_object] at hc
  change condition .choice string (Tree.ofFields (fields members)) = .ok (c, next) at hc
  obtain ⟨hparts, hone⟩ := partsRead_of_record hc
  have hjson : ∀ name, ∀ t ∈ (fields members).lookup name, t.IsJson := by
    simp only [HasDistinctNames] at hd
    exact Tree.IsJson.of_lookup (isJson_of_mem_fields hd.2)
  have hfield : c.field = field :=
    Except.ok.inj (hparts.field.symm.trans ((part_string_iff (hjson _)).2 h.field))
  have hoperator : c.operator = .builtIn comparator :=
    Except.ok.inj (hparts.operator.symm.trans (part_operator_iff.2 h.operator))
  have hvalue : c.value = Comparator.definite (members.lookup "value") := by
    have hwritten : WrittenOptional WrittenValue (Comparator.definite (members.lookup "value"))
        ((fields members).lookup "value") := by
      rw [lookup_fields]
      exact written_definite fun v hv => hd.of_lookup hv
    exact Except.ok.inj (hparts.value.symm.trans ((part_json_iff (hjson _)).2 hwritten))
  have hpredicate : c.predicate = none := by
    have hwritten : WrittenOptional (Predicate.Written (C := Unit)) none
        ((fields members).lookup "fn") := by
      rw [lookup_fields]
      rcases h.no_predicate with hnone | hnull
      · rw [hnone]
        exact .leftOut
      · rw [hnull]
        exact .null
    exact Except.ok.inj (hparts.predicate.symm.trans ((part_predicate_iff (hjson _)).2 hwritten))
  have hnext : next = some target := by
    have htarget : (fields members).lookup "next" = some (.string target) ∨
        (fields members).lookup "key" = some (.string target) := by
      simp only [lookup_fields]
      exact h.outcome.imp (fun h => by rw [h]; rfl) (fun h => by rw [h]; rfl)
    have hread := hparts.outcome
    rw [namedParts_outcome hone htarget] at hread
    exact (Except.ok.inj hread).symm
  refine ⟨?_, hnext⟩
  cases c
  simp only at hfield hoperator hvalue hpredicate
  rw [hfield, hoperator, hvalue, hpredicate]

end Decode

/-- An object is an end as a condition. -/
theorem Json.condition_of_leaf? {members : List (String × Json)} {leaf : Leaf Unit}
    (h : (Json.object members).leaf? = some leaf) :
    ∃ c next, leaf = .branch c next ∧
      Decode.condition .choice Decode.string (Json.object members).toTree = .ok (c, next) := by
  unfold leaf? at h
  cases hrule : Rule.ofTree? (C := Unit) (Json.object members).toTree with
  | none =>
    rw [hrule] at h
    cases h
  | some rule =>
    have hbranch := hrule
    simp only [toTree, Rule.ofTree?] at hbranch
    obtain ⟨c, next, rfl, hc⟩ := Rule.branchOfTree?_iff.1 hbranch
    rw [hrule] at h
    exact ⟨c, next, (Option.some.inj h).symm, by simpa only [toTree] using hc⟩

/-- **The edge of a condition with a comparator.** -/
theorem Json.edge?_of_compares {members : List (String × Json)} {field target : String}
    {comparator : Comparator} (hd : (Json.object members).HasDistinctNames)
    (h : Json.Compares members field comparator target)
    (hleaf : ∃ leaf, (Json.object members).leaf? = some leaf) (targets : Targets)
    (source : String) :
    (Json.object members).edge? targets source = some ⟨source, targets.normalize target,
      some (comparisonLabel field comparator (Comparator.definite (members.lookup "value")))⟩ := by
  obtain ⟨leaf, hleaf⟩ := hleaf
  obtain ⟨c, next, rfl, hc⟩ := Json.condition_of_leaf? hleaf
  obtain ⟨rfl, rfl⟩ := Decode.reads_compares hd h hc
  have hlabelled : ∀ label, Leaf.labelled targets source label (some target) =
      .edge ⟨source, targets.normalize target, some label⟩ := fun label => by
    simp only [Leaf.labelled, h.target_ne, if_false]
  simp only [edge?, hleaf, Option.bind_some, Leaf.item?, Condition.isBlankWith, Option.isNone_some,
    Bool.and_false, Bool.false_eq_true, if_false, hlabelled, Item.edge?, comparisonLabel]

namespace StepMap

/-- **Labels show the values that are written.** The edges of an accepted definition are those of its
drawn ends, one after the other. An end that is a condition with a comparator and a target gives an
edge to this target. Its label is the field, the symbol and the value, where `null` is taken for a
missing value; so it is the label of the value that is written if and only if this is not `null`. -/
theorem labels_show_written_values {steps : List (String × Json)} {out : Compilation}
    (h : (Json.object steps).HasDistinctNames)
    (hout : compileDefinition (.object steps) = .ok out) :
    Json.ShowsValues Json.optionalLabel ∧
      out.graph.edges =
        (Json.drawnEnds steps).filterMap (fun e => e.2.edge? ⟨steps.map Prod.fst⟩ e.1) ∧
      ∀ id members field comparator target, (id, .object members) ∈ Json.drawnEnds steps →
        Json.Compares members field comparator target →
        (Json.object members).edge? ⟨steps.map Prod.fst⟩ id =
            some ⟨id, Targets.normalize ⟨steps.map Prod.fst⟩ target,
              some (Json.comparisonLabel field comparator
                (Comparator.definite (members.lookup "value")))⟩ ∧
          (Json.comparisonLabel field comparator (Comparator.definite (members.lookup "value")) =
              Json.comparisonLabel field comparator (members.lookup "value") ↔
            members.lookup "value" ≠ some .null) := by
  unfold compileDefinition at hout
  cases hread : ofDefinition (C := Unit) (.object steps) with
  | error cause =>
    rw [hread] at hout
    cases hout
  | ok read =>
    rw [hread] at hout
    obtain rfl := Except.ok.inj hout
    refine ⟨Json.showsValues_optionalLabel, edges_eq_drawnEnds h hread,
      fun id members field comparator target hmem hc => ?_⟩
    obtain ⟨hleaf, hd⟩ := of_mem_drawnEnds h hread hmem
    exact ⟨Json.edge?_of_compares hd hc hleaf _ id,
      Json.comparisonLabel_eq_iff.trans Json.optionalLabel_definite_iff⟩

/-! ### Tags, and nothing -/

/-- Some tag is `x`, or there is none. -/
def tagsCondition : List (String × Json) :=
  [("next", .string "b"), ("op", .string "in"), ("field", .string "tags"),
    ("value", .array [.string "x", .null])]

/-- The condition in a group of groups, beside one with nothing but a key. -/
def tagsSteps : List (String × Json) :=
  [("/a", .array [.array [.array [.object tagsCondition, .object [("key", .string "/a")]]]]),
    ("/b", .null)]

def tagsDrawing : Compilation where
  graph :=
    { nodes := ["/a", "/b"]
      edges := [⟨"/a", "/b", some "tags in x,"⟩, ⟨"/a", "/a", some " = undefined"⟩] }

/-- The label has the array that is written, and its empty place. -/
theorem tags_labelled :
    (Json.object tagsSteps).HasDistinctNames ∧
      compileDefinition (.object tagsSteps) = .ok tagsDrawing ∧
      ("/a", .object tagsCondition) ∈ Json.drawnEnds tagsSteps ∧
      Json.Compares tagsCondition "tags" .member "b" ∧
      (Json.object tagsCondition).edge? ⟨["/a", "/b"]⟩ "/a" =
        some ⟨"/a", "/b", some "tags in x,"⟩ := by
  have h : (Json.object tagsSteps).HasDistinctNames := by
    simp [tagsSteps, tagsCondition, Json.HasDistinctNames, Json.MembersHaveDistinctNames,
      Json.AllHaveDistinctNames]
  have hout : compileDefinition (.object tagsSteps) = .ok tagsDrawing :=
    eq_ok_of_toOption (by decide +kernel)
  have hmem : ("/a", .object tagsCondition) ∈ Json.drawnEnds tagsSteps := by
    exact List.mem_cons_self
  have hc : Json.Compares tagsCondition "tags" .member "b" :=
    ⟨.present "tags", .symbol .member, .inl rfl, .inl rfl, by decide⟩
  obtain ⟨-, -, hedge⟩ := labels_show_written_values h hout
  refine ⟨h, hout, hmem, hc, ?_⟩
  exact (hedge _ _ _ _ _ hmem hc).1

/-- The field `x` is `null`. -/
def nullCondition : List (String × Json) :=
  [("field", .string "x"), ("value", .null), ("next", .string "b")]

def nullSteps : List (String × Json) := [("a", .object [("next", .object nullCondition)])]

/-- A value that is written as `null` is not shown as `null`. -/
theorem null_shown_missing :
    (Json.object nullSteps).HasDistinctNames ∧
      ("a", .object nullCondition) ∈ Json.drawnEnds nullSteps ∧
      Json.Compares nullCondition "x" .implicit "b" ∧
      nullCondition.lookup "value" = some .null ∧
      (compileDefinition (.object nullSteps)).map (fun out => out.graph.edges) =
        .ok [⟨"a", "b", some "x = undefined"⟩] ∧
      Json.comparisonLabel "x" .implicit (some .null) = "x = null" := by
  refine ⟨?_, List.mem_cons_self, ?_, rfl, eq_ok_of_toOption (by decide +kernel), by decide⟩
  · simp [nullSteps, nullCondition, Json.HasDistinctNames, Json.MembersHaveDistinctNames]
  · exact ⟨.present "x", .leftOut, .inl rfl, .inl rfl, by decide⟩

end StepMap

end FormRouting
