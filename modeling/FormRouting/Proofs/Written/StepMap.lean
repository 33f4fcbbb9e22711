import Mathlib.Data.List.Forall2
import FormRouting.Load
import FormRouting.Proofs.Written.Condition

/-!
# The written form of step maps

A target is written as a string, a group as a list and a condition as a record; a
step as a record that may have a rule, or as `null` without one; a step map as the
record of its steps. No form is taken for another one, whatever is nested in what,
so what is written down in this way is read back as it was, from a JSON value as
well as from a YAML document.

* `Rule.Written`, `Step.Written`, `StepMap.Written`: what writes a rule, a step, a map.
* `ofTree?_of_written`: a written rule is read back, by recursion over the rule.
* `step_of_written`, `stepMapEntries_of_written`: the fields of a step, and the steps
  one after the other.
* `written_steps_read_back`: **every declarative step map can be written, and however
  it is written it is read back.**
-/

namespace FormRouting

variable {C : Type}

/-! ## The written form -/

namespace Rule

mutual

/-- **What writes a rule.** -/
def Written : Rule C → Tree → Prop
  | .target id, t => t = .string id
  | .group rules, t => ∃ items, t = .list items ∧ AllWritten rules items
  | .branch c next, t =>
    ∃ fields, t = Tree.ofFields fields ∧ c.Written (WrittenOptional WrittenString next) fields

/-- What writes rules, one after the other. -/
def AllWritten : List (Rule C) → List Tree → Prop
  | [], items => items = []
  | rule :: rest, items => ∃ t others, items = t :: others ∧ Written rule t ∧ AllWritten rest others

end

mutual

/-- A rule as it can be written: all its conditions can. -/
def Declarative : Rule C → Prop
  | .target _ => True
  | .group rules => AllDeclarative rules
  | .branch c _ => c.Declarative

def AllDeclarative : List (Rule C) → Prop
  | [] => True
  | rule :: rest => Declarative rule ∧ AllDeclarative rest

end

end Rule

/-- What writes a step: its rule under `next`, and anything that can be read under other names.
A step without a rule can be `null`. -/
inductive Step.Written : Step C → Tree → Prop where
  | null : Written .terminal .null
  | record {step : Step C} {fields : List (String × Tree)} (distinct : (fields.map Prod.fst).Nodup)
      (next : WrittenOptional Rule.Written step.next (fields.lookup "next"))
      (others : ∀ e ∈ fields, e.1 ≠ "next" → e.2.IsClean) : Written step (Tree.ofFields fields)

/-- What writes a step map: the steps under their identifiers, in declaration order. -/
def StepMap.Written (steps : StepMap C) (t : Tree) : Prop :=
  ∃ trees : List (String × Tree), t = Tree.ofFields trees ∧
    List.Forall₂ (fun e f => e.1 = f.1 ∧ e.2.Written f.2) steps.entries trees

/-- A step map as it can be written: all its rules can. -/
def StepMap.Declarative (steps : StepMap C) : Prop :=
  ∀ e ∈ steps.entries, ∀ rule, e.2.next = some rule → rule.Declarative

/-! ## Rules -/

namespace Rule

mutual

theorem isClean_of_written {rule : Rule C} {t : Tree} (h : rule.Written t) : t.IsClean := by
  cases rule with
  | target id =>
    simp only [Written] at h
    exact h ▸ Tree.isClean_string id
  | group rules =>
    simp only [Written] at h
    obtain ⟨items, rfl, hitems⟩ := h
    exact Tree.isClean_list (isClean_of_allWritten hitems)
  | branch c next =>
    simp only [Written] at h
    obtain ⟨fields, rfl, hfields⟩ := h
    refine hfields.isClean fun t => isClean_of_writtenOptional fun id t hid => ?_
    exact (show t = .string id from hid) ▸ Tree.isClean_string id

theorem isClean_of_allWritten {rules : List (Rule C)} {items : List Tree}
    (h : AllWritten rules items) : ∀ t ∈ items, t.IsClean := by
  cases rules with
  | nil =>
    simp only [AllWritten] at h
    simp [h]
  | cons rule rest =>
    simp only [AllWritten] at h
    obtain ⟨t, others, rfl, ht, hothers⟩ := h
    exact List.forall_mem_cons.2 ⟨isClean_of_written ht, isClean_of_allWritten hothers⟩

end

theorem ne_null_of_written {rule : Rule C} {t : Tree} (h : rule.Written t) : t ≠ .null := by
  cases rule with
  | target id =>
    simp only [Written] at h
    simp [h]
  | group rules =>
    simp only [Written] at h
    obtain ⟨items, rfl, -⟩ := h
    simp
  | branch c next =>
    simp only [Written] at h
    obtain ⟨fields, rfl, -⟩ := h
    simp [Tree.ofFields]

/-- A written condition is read as a branch. -/
theorem branchOfTree?_of_written {c : Condition C} {next : Option String}
    {fields : List (String × Tree)} (h : c.Written (WrittenOptional WrittenString next) fields) :
    branchOfTree? (Tree.ofFields fields) = some (.branch c next) := by
  have hc := Decode.condition_of_written h (fun hn => hn.eq_none) fun t ht =>
    Decode.optional_of_written (fun _ _ => Decode.string_of_written) ht
  simp only [branchOfTree?, hc]

mutual

/-- **A written rule is read back.** A list is a group because its elements are rules; a record
is neither a target nor a group. -/
theorem ofTree?_of_written {rule : Rule C} {t : Tree} (h : rule.Written t) :
    ofTree? t = some rule := by
  cases rule with
  | target id =>
    simp only [Written] at h
    simp only [h, ofTree?]
  | group rules =>
    simp only [Written] at h
    obtain ⟨items, rfl, hitems⟩ := h
    simp only [ofTree?, listOfTrees?_of_allWritten hitems]
  | branch c next =>
    simp only [Written] at h
    obtain ⟨fields, rfl, hfields⟩ := h
    exact branchOfTree?_of_written hfields

theorem listOfTrees?_of_allWritten {rules : List (Rule C)} {items : List Tree}
    (h : AllWritten rules items) : listOfTrees? items = some rules := by
  cases rules with
  | nil =>
    simp only [AllWritten] at h
    simp only [h, listOfTrees?]
  | cons rule rest =>
    simp only [AllWritten] at h
    obtain ⟨t, others, rfl, ht, hothers⟩ := h
    simp only [listOfTrees?, ofTree?_of_written ht, listOfTrees?_of_allWritten hothers]

end

/-! ### A written form for every rule -/

mutual

/-- A rule in its fullest form. -/
def toJson : Rule C → Json
  | .target id => .string id
  | .group rules => .array (toJsons rules)
  | .branch c next => .object (c.members ((next.map Json.string).getD .null))

def toJsons : List (Rule C) → List Json
  | [] => []
  | rule :: rest => toJson rule :: toJsons rest

end

mutual

theorem written_toJson {rule : Rule C} (h : rule.Declarative) :
    rule.Written rule.toJson.toTree := by
  cases rule with
  | target id => simp only [Written, toJson, Json.toTree]
  | group rules =>
    simp only [Declarative] at h
    simp only [Written, toJson, Json.toTree]
    exact ⟨_, rfl, allWritten_toJsons h⟩
  | branch c next =>
    simp only [Declarative] at h
    simp only [Written, toJson, Json.toTree_object]
    refine ⟨_, rfl, h.written_members ?_⟩
    cases next with
    | none =>
      simp only [Option.map_none, Option.getD_none, Json.toTree]
      exact .null
    | some id =>
      simp only [Option.map_some, Option.getD_some, Json.toTree]
      exact .present rfl

theorem allWritten_toJsons {rules : List (Rule C)} (h : AllDeclarative rules) :
    AllWritten rules (Json.itemsToTree (toJsons rules)) := by
  cases rules with
  | nil => simp only [AllWritten, toJsons, Json.itemsToTree]
  | cons rule rest =>
    simp only [AllDeclarative] at h
    simp only [AllWritten, toJsons, Json.itemsToTree]
    exact ⟨_, _, rfl, written_toJson h.1, allWritten_toJsons h.2⟩

end

end Rule

/-! ## Steps -/

namespace Decode

theorem rule_of_written {rule : Rule C} {t : Tree} (h : rule.Written t) :
    t ≠ .null ∧ Decode.rule t = .ok rule := by
  refine ⟨Rule.ne_null_of_written h, ?_⟩
  simp only [Decode.rule, plain, (Rule.isClean_of_written h).obstacle, Rule.ofTree?_of_written h]
  rfl

/-- The fields of a step of which none is its rule. -/
theorem stepEntries_others (format : Format) (read : Option (Option (Rule C)))
    {fields : List (String × Tree)} (h : ∀ e ∈ fields, e.1 ≠ "next" ∧ e.2.IsClean) :
    stepEntries format read (Tree.named fields) = .ok ⟨read.getD none⟩ := by
  induction fields with
  | nil => rfl
  | cons e rest ih =>
    obtain ⟨⟨hne, hclean⟩, hrest⟩ := List.forall_mem_cons.1 h
    have hf : field? format stepFields (.string e.1) = .ok none := by
      simp [field?, Tree.untag, stepFields, hne]
    show stepEntries format read ((.string e.1, e.2) :: Tree.named rest) = _
    simp only [stepEntries, hf, bind, Except.bind, skip,
      Tree.passingFault?_eq_none hclean.obstacle, ih hrest]

/-- The fields of a step, whose rule stands anywhere among them. -/
theorem stepEntries_of_written (format : Format) {next : Option (Rule C)}
    {fields : List (String × Tree)} (hd : (fields.map Prod.fst).Nodup)
    (hnext : WrittenOptional Rule.Written next (fields.lookup "next"))
    (hothers : ∀ e ∈ fields, e.1 ≠ "next" → e.2.IsClean) :
    stepEntries format none (Tree.named fields) = .ok ⟨next⟩ := by
  induction fields with
  | nil =>
    cases hnext with
    | leftOut => rfl
  | cons e rest ih =>
    obtain ⟨name, t⟩ := e
    obtain ⟨hname, hrest⟩ := List.nodup_cons.1 hd
    obtain ⟨ht, hclean⟩ := List.forall_mem_cons.1 hothers
    show stepEntries format none ((.string name, t) :: Tree.named rest) = _
    by_cases hn : name = "next"
    · subst hn
      rw [List.lookup_cons_self] at hnext
      have hf : field? format stepFields (.string "next") = .ok (some 0) := rfl
      have hrule : optional Decode.rule t = .ok next :=
        optional_of_written (fun _ _ => rule_of_written) hnext
      -- the name is not repeated, so all that is left is passed over
      have hfree : ∀ e ∈ rest, e.1 ≠ "next" ∧ e.2.IsClean := by
        intro e he
        have hne : e.1 ≠ "next" := fun h =>
          hname (h ▸ (List.mem_map_of_mem he : e.1 ∈ rest.map Prod.fst))
        exact ⟨hne, hclean e he hne⟩
      simp only [stepEntries, hf, bind, Except.bind, hrule]
      exact stepEntries_others format (some next) hfree
    · have hf : field? format stepFields (.string name) = .ok none := by
        simp [field?, Tree.untag, stepFields, hn]
      rw [List.lookup_cons, beq_false_of_ne (Ne.symm hn)] at hnext
      simp only [stepEntries, hf, bind, Except.bind, skip,
        Tree.passingFault?_eq_none (ht hn).obstacle, ih hrest hnext hclean]

/-- **A written step is read back**, where `null` stands for a step without a rule. -/
theorem step_of_written (format : Format) {step : Step C} {t : Tree} (h : step.Written t) :
    (optional (Decode.step format) t).map (fun s => s.getD .terminal) = .ok step := by
  cases h with
  | null => rfl
  | record distinct next others =>
    have hs := stepEntries_of_written format distinct next others
    simp only [Tree.ofFields, optional, Decode.step, Tree.untag, hs, Except.map]
    rfl

/-! ## Step maps -/

/-- A step is read under its identifier and added at the end. -/
theorem stepMapEntries_cons (format : Format) {id : String} {step : Step C} {t : Tree}
    {rest : List (String × Tree)} (h : step.Written t) (done : StepMap C) :
    stepMapEntries format done (Tree.named ((id, t) :: rest)) =
      stepMapEntries format (done.insert id step) (Tree.named rest) := by
  have hs := step_of_written format h
  -- `null` and a step both give the step that is inserted
  cases ho : optional (Decode.step (C := C) format) t with
  | error cause =>
    rw [ho] at hs
    cases hs
  | ok read =>
    rw [ho] at hs
    have hr : read.getD .terminal = step := Except.ok.inj hs
    show stepMapEntries format done ((.string id, t) :: Tree.named rest) = _
    simp only [stepMapEntries, string, Tree.untag, bind, Except.bind, ho, hr]

/-- **Steps are added one after the other.** -/
theorem stepMapEntries_of_written (format : Format) {entries : List (String × Step C)}
    {trees : List (String × Tree)}
    (h : List.Forall₂ (fun e f => e.1 = f.1 ∧ e.2.Written f.2) entries trees) (done : StepMap C) :
    stepMapEntries format done (Tree.named trees) =
      .ok (entries.foldl (fun steps e => steps.insert e.1 e.2) done) := by
  induction h generalizing done with
  | nil => rfl
  | @cons e f entries trees hef _ ih =>
    obtain ⟨id, step⟩ := e
    obtain ⟨id', t⟩ := f
    obtain ⟨rfl, ht⟩ := hef
    rw [stepMapEntries_cons format ht, ih, List.foldl_cons]

/-- **A written step map is read back**, whatever the format. -/
theorem stepMap_of_written (format : Format) {steps : StepMap C} {t : Tree} (h : steps.Written t) :
    stepMap format t = .ok steps := by
  obtain ⟨trees, rfl, htrees⟩ := h
  show stepMapEntries format Table.empty (Tree.named trees) = _
  rw [stepMapEntries_of_written format htrees]
  exact congrArg Except.ok steps.ofList_entries

end Decode

theorem Step.isClean_of_written {step : Step C} {t : Tree} (h : step.Written t) : t.IsClean := by
  cases h with
  | null => exact Tree.isClean_null
  | record distinct next others =>
    refine Tree.isClean_ofFields distinct fun e he => ?_
    by_cases hn : e.1 = "next"
    · rw [← hn, lookup_of_mem distinct he] at next
      exact isClean_of_writtenOptional (fun _ _ => Rule.isClean_of_written) next
    · exact others e he hn

namespace StepMap

/-- The written steps have the identifiers of the steps, and can be read. -/
theorem names_of_written {entries : List (String × Step C)} {trees : List (String × Tree)}
    (h : List.Forall₂ (fun e f => e.1 = f.1 ∧ e.2.Written f.2) entries trees) :
    entries.map Prod.fst = trees.map Prod.fst ∧ ∀ f ∈ trees, f.2.IsClean := by
  induction h with
  | nil => simp
  | cons hef _ ih =>
    exact ⟨by simp only [List.map_cons, hef.1, ih.1],
      List.forall_mem_cons.2 ⟨Step.isClean_of_written hef.2, ih.2⟩⟩

theorem isClean_of_written {steps : StepMap C} {t : Tree} (h : steps.Written t) : t.IsClean := by
  obtain ⟨trees, rfl, htrees⟩ := h
  obtain ⟨hnames, hclean⟩ := names_of_written htrees
  exact Tree.isClean_ofFields (hnames ▸ steps.distinct) hclean

/-! ## Definitions and documents -/

/-- A definition is read like any other written form. -/
theorem ofDefinition_of_written {steps : StepMap C} {definition : Json}
    (h : steps.Written definition.toTree) : ofDefinition definition = .ok steps := by
  have hobject : definition.isObject = true := by
    obtain ⟨trees, ht, -⟩ := h
    cases definition with
    | object members => rfl
    | _ => simp [Json.toTree, Tree.ofFields] at ht
  rw [ofDefinition, if_pos hobject, Decode.stepMap_of_written .json h]

/-- Of a document whose tree writes a step map, only what comes after it can be wrong. -/
theorem load_of_written {steps : StepMap C} {text : String} {document : Yaml.Document}
    {t : Tree} (hdocument : Yaml.Document.load text = .ok document) (ht : document.tree = .ok t)
    (h : steps.Written t) : load text = document.alone steps := by
  have hnames := (isClean_of_written h).names
  have hsteps := Decode.stepMap_of_written .yaml h
  obtain ⟨trees, rfl, -⟩ := h
  simp only [Tree.ofFields] at hsteps
  simp only [load, hdocument, ht, hnames, bind, Except.bind, Bool.false_eq_true, if_false, pure,
    Except.pure, Yaml.Document.alone]
  -- what comes after the document is looked at before its steps are read
  by_cases hbroken : document.isBroken = true
  · simp only [hbroken, if_true]
  · by_cases hcontinued : document.isContinued = true
    · simp only [hbroken, hcontinued, if_true, if_false, Bool.false_eq_true]
    · simp only [hbroken, hcontinued, if_false, Bool.false_eq_true, Tree.ofFields, Tree.untag,
        hsteps]

/-- A step map as a definition, every step in its fullest form. -/
def toDefinition (steps : StepMap C) : Json :=
  .object (steps.entries.map fun e =>
    (e.1, .object [("next", (e.2.next.map Rule.toJson).getD .null)]))

/-- **Every declarative step map can be written.** -/
theorem written_toDefinition {steps : StepMap C} (h : steps.Declarative) :
    steps.Written steps.toDefinition.toTree := by
  rw [toDefinition, Json.toTree_object]
  refine ⟨_, rfl, ?_⟩
  rw [List.map_map, List.forall₂_map_right_iff, List.forall₂_same]
  rintro ⟨id, step⟩ he
  refine ⟨rfl, ?_⟩
  rw [Function.comp_apply, Json.toTree_object]
  refine .record (by simp) ?_ (by simp)
  show WrittenOptional Rule.Written step.next (some ((step.next.map Rule.toJson).getD .null).toTree)
  cases hn : step.next with
  | none =>
    simp only [Option.map_none, Option.getD_none, Json.toTree]
    exact .null
  | some rule =>
    simp only [Option.map_some, Option.getD_some]
    exact .present (Rule.written_toJson (h _ he rule hn))

end StepMap

/-- **The written form of step maps is read faithfully.** Every declarative step map can be
written, as a JSON value even. However it is written, it is read back with all its steps in their
order: as a definition, as a tree of any format, and as the first document of a YAML text. -/
theorem written_steps_read_back (steps : StepMap C) (h : steps.Declarative) :
    (∃ definition : Json, steps.Written definition.toTree) ∧
      (∀ definition : Json, steps.Written definition.toTree →
        StepMap.ofDefinition definition = .ok steps) ∧
      (∀ format t, steps.Written t → Decode.stepMap format t = .ok steps) ∧
      ∀ text document t, Yaml.Document.load text = .ok document → document.tree = .ok t →
        steps.Written t → StepMap.load text = document.alone steps :=
  ⟨⟨steps.toDefinition, StepMap.written_toDefinition h⟩,
    fun _ => StepMap.ofDefinition_of_written,
    fun format _ => Decode.stepMap_of_written format,
    fun _ _ _ => StepMap.load_of_written⟩

/-! ### Two steps -/

/-- What follows is `b` where `f` holds, else `c`; nothing follows `b`. -/
def twoSteps : StepMap Unit where
  entries :=
    [("a", ⟨some (.group [.branch { predicate := some (.reference "f") } (some "b"),
      .target "c"])⟩), ("b", .terminal)]
  distinct := by decide

/-- The two steps in writing, with a name that means nothing. -/
def twoStepsTree : Tree :=
  .ofFields [("a", .ofFields [("x", .bool true),
    ("next", .list [.ofFields [("fn", .string "f"), ("key", .string "b")], .string "c"])]),
    ("b", .null)]

theorem written_twoSteps : twoSteps.Written twoStepsTree := by
  have hcondition : ({ predicate := some (.reference "f") } : Condition Unit).Written
      (WrittenOptional WrittenString (some "b"))
      [("fn", .string "f"), ("key", .string "b")] :=
    { distinct := by decide
      field := .leftOut
      operator := .leftOut
      value := .leftOut
      predicate := .present (.name "f" (by decide))
      outcome := .inr ⟨rfl, .present rfl⟩
      others := others_of_conditionNames (by decide) }
  have hrule : Rule.Written (C := Unit)
      (.group [.branch { predicate := some (.reference "f") } (some "b"), .target "c"])
      (.list [Tree.ofFields [("fn", .string "f"), ("key", .string "b")], .string "c"]) := by
    simp only [Rule.Written, Rule.AllWritten]
    exact ⟨_, rfl, _, _, rfl, ⟨_, rfl, hcondition⟩, _, _, rfl, rfl, rfl⟩
  have hothers : ∀ e ∈ [("x", Tree.bool true),
      ("next", .list [Tree.ofFields [("fn", .string "f"), ("key", .string "b")], .string "c"])],
      e.1 ≠ "next" → e.2.IsClean :=
    List.forall_mem_cons.2 ⟨fun _ => ⟨rfl, rfl⟩,
      List.forall_mem_singleton.2 fun hn => absurd rfl hn⟩
  exact ⟨_, rfl, .cons ⟨rfl, .record (by decide) (.present hrule) hothers⟩
    (.cons ⟨rfl, .null⟩ .nil)⟩

theorem declarative_twoSteps : twoSteps.Declarative := by
  have hcondition : ({ predicate := some (.reference "f") } : Condition Unit).Declarative :=
    { predicate := fun p hp => ⟨"f", by decide, (Option.some.inj hp).symm⟩
      operator := fun p hp => nomatch hp
      value := fun v hv => nomatch hv }
  refine List.forall_mem_cons.2 ⟨?_, List.forall_mem_singleton.2 fun rule hr => nomatch hr⟩
  intro rule hr
  obtain rfl := Option.some.inj hr
  simp only [Rule.Declarative, Rule.AllDeclarative, and_true]
  exact hcondition

/-- The two steps are read from a definition and from a document. -/
theorem read_back_twoSteps :
    twoSteps.Declarative ∧
      StepMap.ofDefinition (.object [("a", .object [("x", .bool true),
        ("next", .array [.object [("fn", .string "f"), ("key", .string "b")], .string "c"])]),
        ("b", .null)]) = .ok twoSteps ∧
      StepMap.load "a: {x: true, next: [{fn: f, key: b}, c]}\nb:" = .ok twoSteps := by
  obtain ⟨-, hdefinition, -, hload⟩ := written_steps_read_back twoSteps declarative_twoSteps
  refine ⟨declarative_twoSteps, hdefinition _ written_twoSteps, ?_⟩
  have hread : ((Yaml.Document.load "a: {x: true, next: [{fn: f, key: b}, c]}\nb:").toOption.bind
      fun document => document.tree.toOption.map fun t =>
        (t, document.isBroken, document.isContinued)) = some (twoStepsTree, false, false) := by
    decide +kernel
  obtain ⟨document, hdocument, hrest⟩ := Option.bind_eq_some_iff.1 hread
  obtain ⟨t, htree, hend⟩ := Option.map_eq_some_iff.1 hrest
  simp only [Prod.mk.injEq] at hend
  obtain ⟨rfl, hbroken, hcontinued⟩ := hend
  rw [hload _ document _ (eq_ok_of_toOption hdocument) (eq_ok_of_toOption htree) written_twoSteps]
  simp [Yaml.Document.alone, hbroken, hcontinued]

end FormRouting
