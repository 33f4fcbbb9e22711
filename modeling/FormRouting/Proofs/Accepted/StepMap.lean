import FormRouting.Proofs.Accepted.Condition
import FormRouting.Proofs.Written.StepMap

/-!
# The accepted form of step maps

Which JSON values are rules, steps and definitions, said without the decoders. A list
is a group if all its elements are rules, however deep that goes; only if some element
is none can the list itself be a condition. So what a list stands for is not seen from
its elements one by one.

* `Rule.Accepted`: the grammar of rules, with the rule that a tree stands for.
* `ofTree?_toTree_iff`: a JSON value is read as a rule exactly if the grammar says so,
  by recursion over the value.
* `Step.Accepted`, `StepMap.Accepted`: the grammar of steps and of step maps.
* `stepEntries_eq_part`, `stepMapEntries_iff`: the fields of a step, and the steps one
  after the other.
* `compileDefinition_accepts_grammar`: **a JSON value is no definition if it is no
  object; else it is drawn if all its members are steps, and has a wrong rule if not.**
-/

namespace FormRouting

variable {C : Type}

/-! ## The grammar -/

namespace Rule

mutual

/-- **The grammar of rules.** A string is a target, and a list of rules the group of them. A list
that is no list of rules can be the parts of a condition in order; a record can be its fields. -/
def Accepted : Rule C → Tree → Prop
  | rule, .string s => rule = .target s
  | rule, .list items =>
    (∃ rules, rule = .group rules ∧ AllAccepted rules items) ∨
      (¬ ∃ rules : List (Rule C), AllAccepted rules items) ∧
        ∃ c next, rule = .branch c next ∧
          c.WrittenInOrder (WrittenOptional WrittenString next) items
  | rule, .record entries =>
    ∃ c next fields, rule = .branch c next ∧ entries = Tree.named fields ∧
      c.Written (WrittenOptional WrittenString next) fields
  | _, _ => False

/-- Rules one after the other. -/
def AllAccepted : List (Rule C) → List Tree → Prop
  | rules, [] => rules = []
  | rules, t :: rest =>
    ∃ rule others, rules = rule :: others ∧ Accepted rule t ∧ AllAccepted others rest

end

end Rule

/-- **The grammar of steps.** A step without a rule can be `null`. A record can have a rule under
`next`, a list as its one element. -/
inductive Step.Accepted : Step C → Tree → Prop where
  | null : Accepted .terminal .null
  | record {step : Step C} {fields : List (String × Tree)}
      (next : WrittenOptional Rule.Accepted step.next (fields.lookup "next")) :
      Accepted step (Tree.ofFields fields)
  | list {step : Step C} {items : List Tree} (length : items.length ≤ 1)
      (next : WrittenOptional Rule.Accepted step.next items[0]?) : Accepted step (.list items)

/-- **The grammar of step maps**: steps under their identifiers, in declaration order. -/
def StepMap.Accepted (steps : StepMap C) (t : Tree) : Prop :=
  ∃ trees : List (String × Tree), t = Tree.ofFields trees ∧
    List.Forall₂ (fun e f => e.1 = f.1 ∧ e.2.Accepted f.2) steps.entries trees

/-! ## The trees inside a JSON value -/

namespace Json

theorem isJson_of_mem_itemsToTree {items : List Json} (h : AllHaveDistinctNames items) :
    ∀ t ∈ itemsToTree items, t.IsJson := by
  induction items with
  | nil => simp [itemsToTree]
  | cons v rest ih =>
    simp only [AllHaveDistinctNames] at h
    simp only [itemsToTree]
    exact List.forall_mem_cons.2 ⟨⟨v, h.1, rfl⟩, ih h.2⟩

/-- The members of an object as fields of its tree. -/
def fields (members : List (String × Json)) : List (String × Tree) :=
  members.map fun m => (m.1, m.2.toTree)

theorem fields_cons (m : String × Json) (rest : List (String × Json)) :
    fields (m :: rest) = (m.1, m.2.toTree) :: fields rest := rfl

theorem names_fields (members : List (String × Json)) :
    (fields members).map Prod.fst = members.map Prod.fst := by
  simp [fields, Function.comp_def]

theorem isJson_of_mem_fields {members : List (String × Json)}
    (h : MembersHaveDistinctNames members) : ∀ e ∈ fields members, e.2.IsJson :=
  List.forall_mem_map.2 fun m hm => ⟨m.2, membersHaveDistinctNames_iff.1 h m hm, rfl⟩

end Json

/-- A record is written with its fields in one way. -/
theorem Tree.named_injective : Function.Injective Tree.named := by
  intro fields others h
  refine List.map_injective_iff.2 ?_ h
  rintro ⟨name, t⟩ ⟨name', t'⟩ he
  cases he
  rfl

/-! ## Rules -/

namespace Rule

theorem branchOfTree?_iff {t : Tree} {rule : Rule C} :
    branchOfTree? t = some rule ↔
      ∃ c next, rule = .branch c next ∧
        Decode.condition .choice Decode.string t = .ok (c, next) := by
  unfold branchOfTree?
  cases Decode.condition (C := C) .choice Decode.string t with
  | error cause => simp
  | ok result =>
    obtain ⟨c, next⟩ := result
    constructor
    · rintro ⟨⟩
      exact ⟨c, next, rfl, rfl⟩
    · rintro ⟨c, next, rfl, ⟨⟩⟩
      rfl

mutual

/-- **A JSON value is read as a rule exactly if the grammar says so.** -/
theorem ofTree?_toTree_iff (rule : Rule C) {v : Json} (h : v.HasDistinctNames) :
    ofTree? v.toTree = some rule ↔ rule.Accepted v.toTree := by
  cases v with
  | null => simp [Json.toTree, ofTree?, Accepted]
  | bool b => simp [Json.toTree, ofTree?, Accepted]
  | number n => simp [Json.toTree, ofTree?, Accepted]
  | string s => simp [Json.toTree, ofTree?, Accepted, eq_comm]
  | array items =>
    simp only [Json.HasDistinctNames] at h
    have hitems := fun rules : List (Rule C) => listOfTrees?_toTree_iff rules h
    simp only [Json.toTree, ofTree?, Accepted, ← hitems,
      ← Decode.condition_list_iff (Json.isJson_of_mem_itemsToTree h), ← branchOfTree?_iff]
    -- it is a group or not, which decides between the two forms
    cases listOfTrees? (C := C) (Json.itemsToTree items) with
    | some rules => simp [eq_comm]
    | none => simp
  | object members =>
    simp only [Json.HasDistinctNames] at h
    rw [Json.toTree_object]
    simp only [Tree.ofFields, ofTree?, Accepted, branchOfTree?_iff,
      Tree.named_injective.eq_iff]
    constructor
    · rintro ⟨c, next, rfl, hc⟩
      exact ⟨c, next, _, rfl, rfl, (Decode.condition_ofFields_iff
        (Json.names_fields members ▸ h.1) (Json.isJson_of_mem_fields h.2)).1 hc⟩
    · rintro ⟨c, next, _, rfl, rfl, hc⟩
      exact ⟨c, next, rfl, (Decode.condition_ofFields_iff
        (Json.names_fields members ▸ h.1) (Json.isJson_of_mem_fields h.2)).2 hc⟩

theorem listOfTrees?_toTree_iff (rules : List (Rule C)) {items : List Json}
    (h : Json.AllHaveDistinctNames items) :
    listOfTrees? (Json.itemsToTree items) = some rules ↔
      AllAccepted rules (Json.itemsToTree items) := by
  cases items with
  | nil => simp [Json.itemsToTree, listOfTrees?, AllAccepted, eq_comm]
  | cons v rest =>
    simp only [Json.AllHaveDistinctNames] at h
    have hfirst := fun rule : Rule C => ofTree?_toTree_iff rule h.1
    have hrest := fun others : List (Rule C) => listOfTrees?_toTree_iff others h.2
    simp only [Json.itemsToTree, listOfTrees?, AllAccepted, ← hfirst, ← hrest]
    cases ofTree? (C := C) v.toTree with
    | none => simp
    | some rule =>
      cases listOfTrees? (C := C) (Json.itemsToTree rest) with
      | none => simp
      | some others => simp [eq_comm]

end

end Rule

/-! ## Steps -/

namespace Decode

theorem rule_toTree_iff {v : Json} (h : v.HasDistinctNames) {rule : Rule C} :
    Decode.rule v.toTree = .ok rule ↔ rule.Accepted v.toTree := by
  rw [← Rule.ofTree?_toTree_iff rule h]
  simp only [Decode.rule, plain, (Json.isClean_toTree h).obstacle, bind, Except.bind]
  cases Rule.ofTree? (C := C) v.toTree with
  | none => simp [throw, throwThe, MonadExceptOf.throw]
  | some rule => simp [pure, Except.pure]

/-- The rule of a step can be left out. -/
theorem part_rule_iff {t? : Option Tree} (h : ∀ t ∈ t?, t.IsJson) {next : Option (Rule C)} :
    part none (optional Decode.rule) t? = .ok next ↔ WrittenOptional Rule.Accepted next t? := by
  refine part_optional_iff (fun rule => by simp [Rule.Accepted]) fun t ht _ rule => ?_
  obtain ⟨v, hv, rfl⟩ := h t ht
  exact rule_toTree_iff hv

/-- **The fields of a step.** All but the rule are passed over. -/
theorem stepEntries_eq_part (format : Format) {fields : List (String × Tree)}
    (hd : (fields.map Prod.fst).Nodup) (hclean : ∀ e ∈ fields, e.2.IsClean) :
    stepEntries format none (Tree.named fields) =
      (part none (optional Decode.rule) (fields.lookup "next")).map (Step.mk (C := C)) := by
  induction fields with
  | nil => rfl
  | cons e rest ih =>
    obtain ⟨name, t⟩ := e
    obtain ⟨hname, hrest⟩ := List.nodup_cons.1 hd
    obtain ⟨ht, hothers⟩ := List.forall_mem_cons.1 hclean
    show stepEntries format none ((.string name, t) :: Tree.named rest) = _
    by_cases hn : name = "next"
    · subst hn
      have hf : field? format stepFields (.string "next") = .ok (some 0) := rfl
      have hfree : ∀ e ∈ rest, e.1 ≠ "next" ∧ e.2.IsClean := by
        refine fun e he => ⟨fun heq => hname ?_, hothers e he⟩
        exact heq ▸ (List.mem_map_of_mem he : e.1 ∈ rest.map Prod.fst)
      simp only [stepEntries, hf, bind, Except.bind, List.lookup_cons_self, part]
      cases optional Decode.rule t with
      | error cause => rfl
      | ok next => exact stepEntries_others format (some next) hfree
    · have hf : field? format stepFields (.string name) = .ok none := by
        simp [field?, Tree.untag, stepFields, hn]
      rw [List.lookup_cons, beq_false_of_ne (Ne.symm hn)]
      simp only [stepEntries, hf, bind, Except.bind, skip,
        Tree.passingFault?_eq_none ht.obstacle, ih hrest hothers]

/-- What a member of a step map is read as; `null` is a step without a rule. -/
def member (format : Format) (t : Tree) : Decoded (Step C) :=
  (optional (Decode.step format) t).map fun step => step.getD .terminal

theorem member_of_ne_null {format : Format} {t : Tree} (h : t ≠ .null) :
    member (C := C) format t = Decode.step format t := by
  unfold member
  rw [optional_of_ne_null _ h]
  cases Decode.step (C := C) format t <;> rfl

/-- A step that is a record has its rule under one name. -/
theorem step_object_iff {members : List (String × Json)}
    (h : (Json.object members).HasDistinctNames) {step : Step C} :
    Decode.step .json (Json.object members).toTree = .ok step ↔
      part none (optional Decode.rule) ((Json.fields members).lookup "next") = .ok step.next := by
  simp only [Json.HasDistinctNames] at h
  rw [Json.toTree_object]
  show stepEntries .json none (Tree.named (Json.fields members)) = .ok step ↔ _
  rw [stepEntries_eq_part .json (Json.names_fields members ▸ h.1)
    fun e he => (Json.isJson_of_mem_fields h.2 e he).isClean, map_eq_ok_iff]
  constructor
  · rintro ⟨next, hnext, rfl⟩
    exact hnext
  · exact fun hnext => ⟨step.next, hnext, rfl⟩

/-- A step that is a list has its rule as its one element. -/
theorem step_list_iff {format : Format} (hf : format ≠ .yaml) {items : List Tree} {step : Step C} :
    Decode.step format (.list items) = .ok step ↔
      part none (optional Decode.rule) items[0]? = .ok step.next ∧ items.length ≤ 1 := by
  simp only [Decode.step, Tree.untag]
  rw [if_neg hf, ← List.drop_eq_nil_iff]
  simp only [bind_eq_ok_iff, Prod.exists, next_eq_ok_iff]
  constructor
  · rintro ⟨rule, _, ⟨hrule, rfl⟩, _, hend, ⟨⟩⟩
    exact ⟨hrule, listEnd_eq_ok_iff.1 hend⟩
  · rintro ⟨hrule, hend⟩
    exact ⟨step.next, _, ⟨hrule, rfl⟩, (), listEnd_eq_ok_iff.2 hend, rfl⟩

/-- **A JSON value is read as a step exactly if the grammar says so.** -/
theorem member_toTree_iff {v : Json} (h : v.HasDistinctNames) {step : Step C} :
    member .json v.toTree = .ok step ↔ step.Accepted v.toTree := by
  cases v with
  | null =>
    constructor
    · rintro ⟨⟩
      exact .null
    · rintro ⟨⟩
      rfl
  | object members =>
    rw [member_of_ne_null (Json.toTree_ne_null (by simp)), step_object_iff h]
    simp only [Json.HasDistinctNames] at h
    rw [part_rule_iff (Tree.IsJson.of_lookup (Json.isJson_of_mem_fields h.2) "next"),
      Json.toTree_object]
    constructor
    · intro hnext
      exact .record hnext
    · intro hs
      generalize ht : Tree.ofFields (members.map fun m => (m.1, m.2.toTree)) = t at hs
      cases hs with
      | null => cases ht
      | record hnext =>
        obtain rfl := Tree.named_injective (Tree.record.inj ht)
        exact hnext
      | list length next => cases ht
  | array items =>
    simp only [Json.HasDistinctNames] at h
    have hjson := Json.isJson_of_mem_itemsToTree h
    simp only [Json.toTree]
    rw [member_of_ne_null (by simp)]
    rw [step_list_iff (by decide), part_rule_iff (fun t ht => hjson t (List.mem_of_getElem? ht))]
    constructor
    · rintro ⟨hnext, hlength⟩
      exact .list hlength hnext
    · intro hs
      cases hs with
      | list hlength hnext => exact ⟨hnext, hlength⟩
  | bool _ | number _ | string _ =>
    constructor
    · rintro ⟨⟩
    · intro hs
      simp only [Json.toTree] at hs
      cases hs

/-! ## Step maps -/

/-- **Steps are added one after the other**, if all members are steps. -/
theorem stepMapEntries_iff (format : Format) {trees : List (String × Tree)}
    {done steps : StepMap C} :
    stepMapEntries format done (Tree.named trees) = .ok steps ↔
      ∃ entries : List (String × Step C),
        List.Forall₂ (fun e f => e.1 = f.1 ∧ member format f.2 = .ok e.2) entries trees ∧
          steps = entries.foldl (fun steps e => steps.insert e.1 e.2) done := by
  induction trees generalizing done with
  | nil =>
    constructor
    · rintro ⟨⟩
      exact ⟨[], .nil, rfl⟩
    · rintro ⟨entries, ⟨⟩, rfl⟩
      rfl
  | cons f rest ih =>
    obtain ⟨id, t⟩ := f
    have hcons : stepMapEntries format done (Tree.named ((id, t) :: rest)) =
        member format t >>= fun step =>
          stepMapEntries format (done.insert id step) (Tree.named rest) := by
      show stepMapEntries format done ((.string id, t) :: Tree.named rest) = _
      simp only [stepMapEntries, string, Tree.untag, bind, Except.bind, member]
      cases optional (Decode.step (C := C) format) t <;> rfl
    rw [hcons, bind_eq_ok_iff]
    simp only [ih]
    constructor
    · rintro ⟨step, hstep, entries, hentries, rfl⟩
      exact ⟨(id, step) :: entries, .cons ⟨rfl, hstep⟩ hentries, rfl⟩
    · rintro ⟨entries, hentries, rfl⟩
      cases hentries with
      | @cons e _ others _ he hothers =>
        obtain ⟨id', step⟩ := e
        obtain ⟨rfl, hstep⟩ := he
        exact ⟨step, hstep, others, hothers, rfl⟩

/-- Names of related lists are the same. -/
theorem names_eq {α β : Type} {related : String × α → String × β → Prop}
    {entries : List (String × α)} {others : List (String × β)}
    (h : List.Forall₂ (fun e f => e.1 = f.1 ∧ related e f) entries others) :
    entries.map Prod.fst = others.map Prod.fst := by
  induction h with
  | nil => rfl
  | cons he _ ih => rw [List.map_cons, List.map_cons, he.1, ih]

/-- Where names are distinct, every step keeps its place. -/
theorem stepMap_ofFields_iff (format : Format) {trees : List (String × Tree)}
    (hd : (trees.map Prod.fst).Nodup) {steps : StepMap C} :
    stepMap format (Tree.ofFields trees) = .ok steps ↔
      List.Forall₂ (fun e f => e.1 = f.1 ∧ member format f.2 = .ok e.2) steps.entries trees := by
  show stepMapEntries format Table.empty (Tree.named trees) = .ok steps ↔ _
  rw [stepMapEntries_iff]
  constructor
  · rintro ⟨entries, hentries, rfl⟩
    have hnames : (([] ++ entries).map Prod.fst).Nodup := by
      rw [List.nil_append, names_eq hentries]
      exact hd
    rw [Table.entries_foldl_insert, Table.empty, foldl_putEntry hnames, List.nil_append]
    exact hentries
  · intro h
    exact ⟨steps.entries, h, steps.ofList_entries.symm⟩

end Decode

namespace StepMap

variable {members : List (String × Json)}

/-- Every member is read as the step that the grammar says. -/
theorem forall₂_member_iff (h : Json.MembersHaveDistinctNames members)
    {entries : List (String × Step C)} :
    List.Forall₂ (fun e f => e.1 = f.1 ∧ Decode.member .json f.2 = .ok e.2) entries
        (Json.fields members) ↔
      List.Forall₂ (fun e f => e.1 = f.1 ∧ e.2.Accepted f.2) entries (Json.fields members) := by
  induction members generalizing entries with
  | nil => simp [Json.fields]
  | cons m rest ih =>
    simp only [Json.MembersHaveDistinctNames] at h
    simp only [Json.fields_cons, List.forall₂_cons_right_iff, Decode.member_toTree_iff h.1, ih h.2]

/-- There are steps for all members if there is one for each. -/
theorem exists_entries_iff :
    (∃ entries : List (String × Step C),
      List.Forall₂ (fun e f => e.1 = f.1 ∧ e.2.Accepted f.2) entries (Json.fields members)) ↔
        ∀ m ∈ members, ∃ step : Step C, step.Accepted m.2.toTree := by
  induction members with
  | nil => simp [Json.fields]
  | cons m rest ih =>
    simp only [Json.fields_cons, List.forall₂_cons_right_iff, List.forall_mem_cons, ← ih]
    constructor
    · rintro ⟨-, e, others, he, hothers, rfl⟩
      exact ⟨⟨e.2, he.2⟩, others, hothers⟩
    · rintro ⟨⟨step, hstep⟩, others, hothers⟩
      exact ⟨(m.1, step) :: others, (m.1, step), others, ⟨rfl, hstep⟩, hothers, rfl⟩

/-- An object stands for a step map exactly if all its members are steps. -/
theorem exists_accepted_iff (hd : (members.map Prod.fst).Nodup) :
    (∃ steps : StepMap C, steps.Accepted (Json.object members).toTree) ↔
      ∀ m ∈ members, ∃ step : Step C, step.Accepted m.2.toTree := by
  rw [← exists_entries_iff, Json.toTree_object]
  constructor
  · rintro ⟨steps, trees, htrees, hentries⟩
    obtain rfl := Tree.named_injective (Tree.record.inj htrees)
    exact ⟨steps.entries, hentries⟩
  · rintro ⟨entries, hentries⟩
    have hnames := Decode.names_eq hentries
    rw [Json.names_fields] at hnames
    exact ⟨⟨entries, hnames ▸ hd⟩, _, rfl, hentries⟩

/-- **A JSON value is read as a step map exactly if the grammar says so.** -/
theorem ofDefinition_iff (steps : StepMap C) {definition : Json}
    (h : definition.HasDistinctNames) :
    ofDefinition definition = .ok steps ↔ steps.Accepted definition.toTree := by
  have hread : ofDefinition definition = .ok steps ↔
      definition.isObject = true ∧ Decode.stepMap .json definition.toTree = .ok steps := by
    unfold ofDefinition
    cases definition.isObject <;> cases Decode.stepMap (C := C) .json definition.toTree <;> simp
  rw [hread]
  cases definition with
  | object members =>
    simp only [Json.HasDistinctNames] at h
    rw [Json.toTree_object, Decode.stepMap_ofFields_iff .json (Json.names_fields members ▸ h.1)]
    constructor
    · rintro ⟨-, hentries⟩
      exact ⟨_, rfl, (forall₂_member_iff h.2).1 hentries⟩
    · rintro ⟨trees, htrees, hentries⟩
      obtain rfl := Tree.named_injective (Tree.record.inj htrees)
      exact ⟨rfl, (forall₂_member_iff h.2).2 hentries⟩
  | _ =>
    constructor
    · rintro ⟨⟨⟩, -⟩
    · rintro ⟨trees, htrees, -⟩
      simp [Json.toTree, Tree.ofFields] at htrees

end StepMap

/-- **Exactly the grammar of step maps is accepted.** A JSON value is no definition if and only if it
is no object. An object has a wrong rule if and only if some member is no step; else it is drawn as
the step map that it stands for, and it stands for one at most. -/
theorem compileDefinition_accepts_grammar (definition : Json) (h : definition.HasDistinctNames) :
    (StepMap.compileDefinition definition = .error .invalidDefinition ↔
      ∀ members, definition ≠ .object members) ∧
    ∀ members, definition = .object members →
      ((∃ cause, StepMap.compileDefinition definition = .error (.invalidRule cause)) ↔
        ∃ m ∈ members, ∀ step : Step Unit, ¬ step.Accepted m.2.toTree) ∧
      ((∀ m ∈ members, ∃ step : Step Unit, step.Accepted m.2.toTree) →
        ∃ steps : StepMap Unit, steps.Accepted definition.toTree ∧
          StepMap.compileDefinition definition = .ok steps.compile) ∧
      ∀ steps : StepMap Unit,
        StepMap.ofDefinition definition = .ok steps ↔ steps.Accepted definition.toTree := by
  refine ⟨?_, ?_⟩
  · unfold StepMap.compileDefinition StepMap.ofDefinition
    cases definition with
    | object members =>
      simp only [Json.isObject, if_true]
      cases Decode.stepMap (C := Unit) .json (Json.object members).toTree <;> simp [Except.map]
    | _ => simp [Json.isObject, Except.map]
  · rintro members rfl
    have hiff : ∀ steps : StepMap Unit, _ := fun steps => StepMap.ofDefinition_iff steps h
    simp only [Json.HasDistinctNames] at h
    have hexists := StepMap.exists_accepted_iff (C := Unit) h.1
    refine ⟨?_, ?_, hiff⟩
    · -- an object that is not read has a wrong rule
      have hwrong : (∃ cause, StepMap.compileDefinition (.object members) =
          .error (.invalidRule cause)) ↔
            ¬ ∃ steps : StepMap Unit, StepMap.ofDefinition (.object members) = .ok steps := by
        unfold StepMap.compileDefinition StepMap.ofDefinition
        simp only [Json.isObject, if_true]
        cases Decode.stepMap (C := Unit) .json (Json.object members).toTree <;> simp [Except.map]
      rw [hwrong]
      simp only [hiff, hexists]
      push Not
      rfl
    · intro hall
      obtain ⟨steps, hsteps⟩ := hexists.2 hall
      refine ⟨steps, hsteps, ?_⟩
      rw [StepMap.compileDefinition, (hiff steps).2 hsteps]
      rfl

/-! ### A list in a list -/

/-- The outer list of the rule is a group, because the inner one can be a condition. -/
def nestedLists : List (String × Json) :=
  [("a", .array [.array [.string "b",
    .array [.string "age", .string ">", .number (.int 18), .null, .string "b"]]]), ("b", .null)]

/-- The inner list is no condition, so the outer one is no group; nor is it a condition. -/
def brokenLists : List (String × Json) :=
  [("a", .array [.array [.string "b", .array [.string "age", .number (.int 18)]]])]

/-- From `a` to `b` in any case, and once more if the age is above 18. -/
def nestedSteps : StepMap Unit where
  entries :=
    [("a", ⟨some (.group [.target "b",
      .branch { field := "age", operator := .builtIn .greater, value := some (.number (.int 18)) }
        (some "b")])⟩), ("b", .terminal)]
  distinct := by decide

/-- The nested lists are drawn as what they stand for; in the broken ones a member is no step. -/
theorem nested_lists_accepted :
    ((Json.object nestedLists).HasDistinctNames ∧
      nestedSteps.Accepted (Json.object nestedLists).toTree) ∧
    (Json.object brokenLists).HasDistinctNames ∧
      (∃ m ∈ brokenLists, ∀ step : Step Unit, ¬ step.Accepted m.2.toTree) ∧
      StepMap.compileDefinition (.array []) = .error .invalidDefinition := by
  have hnested : (Json.object nestedLists).HasDistinctNames := by
    simp [nestedLists, Json.HasDistinctNames, Json.MembersHaveDistinctNames,
      Json.AllHaveDistinctNames]
  have hbroken : (Json.object brokenLists).HasDistinctNames := by
    simp [brokenLists, Json.HasDistinctNames, Json.MembersHaveDistinctNames,
      Json.AllHaveDistinctNames]
  have hempty : (Json.array []).HasDistinctNames := by
    simp [Json.HasDistinctNames, Json.AllHaveDistinctNames]
  obtain ⟨-, -, hread⟩ := (compileDefinition_accepts_grammar _ hnested).2 _ rfl
  obtain ⟨hwrong, -⟩ := (compileDefinition_accepts_grammar _ hbroken).2 _ rfl
  refine ⟨⟨hnested, (hread nestedSteps).1 rfl⟩, hbroken, hwrong.1 ⟨.noForm .rule, rfl⟩, ?_⟩
  exact (compileDefinition_accepts_grammar _ hempty).1.2 fun members => nofun

end FormRouting
