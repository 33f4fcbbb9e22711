import FormRouting.Load
import FormRouting.Decode.Text
import FormRouting.Proofs.Accepted.StepMap
import FormRouting.Proofs.Binding.Callables

/-!
# Rules that are read are given by names

Decoders make predicates from names only, and a name that a comparator has gives the
comparator. So there are no other predicates in what is read, wherever it comes from: a
value, a text or a document, in a record or in a list, at any depth.

* `Condition.ByName`: what is asked of a condition; `StepMap.conditions` lists the conditions of a
  step map.
* `ConditionParts.Reads.byName`, `byName_conditionEntries`: one field of a condition, and
  all of them. `byName_condition`: **every condition that is read is given by names.**
* `Rule.byName_ofTree?`, `byName_stepMapEntries`, `Selector.byName_ofTree?`: what is put
  together from conditions, along the recursion of the decoders.
* `StepMap.IsRead.byName`, `Selector.IsRead.byName`: whole step maps and selectors.
-/

namespace FormRouting

variable {C α : Type}

/-! ## Conditions given by names -/

/-- The predicate is given by a name and nothing else. -/
def Predicate.ByName (p : Predicate C) : Prop := ∃ name, name ≠ "" ∧ p = .reference name

/-- A predicate in place of the operator is given by a name, which no comparator has. -/
def Operator.ByName (op : Operator C) : Prop :=
  ∀ p, op = .custom p → p.ByName ∧ ∀ comparator : Comparator, p.name ≠ some comparator.symbol

/-- All predicates of the condition are given by names. -/
structure Condition.ByName (c : Condition C) : Prop where
  predicate : ∀ p ∈ c.predicate, p.ByName
  operator : c.operator.ByName

namespace Rule

def ByName (rule : Rule C) : Prop := ∀ c ∈ rule.conditions, c.ByName

end Rule

namespace Step

def ByName (step : Step C) : Prop := ∀ c ∈ step.conditions, c.ByName

end Step

namespace StepMap

def conditions (steps : StepMap C) : List (Condition C) :=
  steps.entries.flatMap fun e => e.2.conditions

def ByName (steps : StepMap C) : Prop := ∀ c ∈ steps.conditions, c.ByName

end StepMap

namespace Selector

def ByName (s : Selector C) : Prop := ∀ c ∈ s.conditions, c.ByName

end Selector

/-! ## What can be read -/

/-- The step map was read: from a value, from a text of a value or from a document. -/
inductive StepMap.IsRead (steps : StepMap C) : Prop where
  | value (v : Json) (h : Decode.stepMap .json v.toTree = .ok steps)
  | text (text : String) (h : (JsonText.read text).decode (Decode.stepMap .jsonText) = .ok steps)
  | document (text : String) (h : StepMap.load text = .ok steps)

/-- The selector was read: from a value, from a text of a value or from a document. -/
inductive Selector.IsRead (s : Selector C) : Prop where
  | value (v : Json) (h : Decode.selector v.toTree = .ok s)
  | text (text : String) (h : (JsonText.read text).decode Decode.selector = .ok s)
  | document (text : String) (h : Selector.load text = .ok s)

/-! ## Reading conditions -/

theorem Operator.Written.byName {op : Operator C} {t? : Option Tree}
    (h : op.Written t?) : op.ByName := by
  cases h with
  | name name hne hs =>
    rintro _ ⟨⟩
    exact ⟨⟨name, hne, rfl⟩, fun comparator hc => hs comparator (Option.some.inj hc).symm⟩
  | leftOut | null | empty | symbol => exact fun _ hp => nomatch hp

namespace Decode

/-- What holds of everything that is read holds of an optional part. -/
theorem optional_gives {P : α → Prop} {decode : Tree → Decoded α}
    (h : ∀ t a, decode t = .ok a → P a) {t : Tree} {a? : Option α}
    (hread : optional decode t = .ok a?) : ∀ a ∈ a?, P a := by
  by_cases ht : t = .null
  · subst ht
    cases hread
    exact fun _ ha => nomatch ha
  · rw [optional_of_ne_null decode ht] at hread
    obtain ⟨b, hb, rfl⟩ := map_eq_ok_iff.1 hread
    rintro _ ⟨⟩
    exact h t b hb

/-- The same, where the part can be left out. -/
theorem part_optional_gives {P : α → Prop} {decode : Tree → Decoded α}
    (h : ∀ t a, decode t = .ok a → P a) {t? : Option Tree} {a? : Option α}
    (hread : part none (optional decode) t? = .ok a?) : ∀ a ∈ a?, P a := by
  cases t? with
  | none =>
    cases hread
    exact fun _ ha => nomatch ha
  | some t => exact optional_gives h hread

theorem byName_predicate (t : Tree) (p : Predicate C) (h : predicate t = .ok p) : p.ByName := by
  obtain ⟨name, -, hp⟩ := predicate_eq_ok_iff.1 h
  exact ⟨name, hp⟩

namespace ConditionParts

/-- All predicates among the parts are given by names. -/
structure ByName (parts : ConditionParts C α) : Prop where
  predicate : ∀ p? ∈ parts.predicate, ∀ p ∈ p?, p.ByName
  operator : ∀ op ∈ parts.operator, op.ByName

variable {decode : Tree → Decoded α} {parts parts' : ConditionParts C α}

/-- **One field.** -/
theorem Reads.byName {t : Tree} {place : Option Nat} (h : parts.Reads decode t place parts')
    (hp : parts.ByName) : parts'.ByName := by
  cases h with
  | predicate _ hread =>
    refine ⟨?_, hp.operator⟩
    rintro _ ⟨⟩
    exact optional_gives byName_predicate hread
  | operator _ hread =>
    refine ⟨hp.predicate, ?_⟩
    rintro _ ⟨⟩
    exact (operator_iff.1 hread).byName
  | field | value | outcome | skipped => exact ⟨hp.predicate, hp.operator⟩

theorem ByName.finish (h : parts.ByName) : parts.finish.1.ByName where
  predicate := by
    intro p hp
    cases hpart : parts.predicate with
    | none => simp [ConditionParts.finish, hpart] at hp
    | some p? => exact h.predicate p? hpart p (by simpa [ConditionParts.finish, hpart] using hp)
  operator := by
    cases hpart : parts.operator with
    | none => simp [ConditionParts.finish, hpart, Operator.ByName]
    | some op => simpa [ConditionParts.finish, hpart] using h.operator op hpart

end ConditionParts

/-- **All fields**, one after the other. -/
theorem byName_conditionEntries {format : Format} {decode : Tree → Decoded α}
    {entries : List (Tree × Tree)} {parts parts' : ConditionParts C α} (hp : parts.ByName)
    (h : conditionEntries format decode parts entries = .ok parts') : parts'.ByName := by
  induction entries generalizing parts with
  | nil =>
    cases h
    exact hp
  | cons e rest ih =>
    obtain ⟨name, t⟩ := e
    simp only [conditionEntries] at h
    obtain ⟨read, hread, hrest⟩ := bind_eq_ok_iff.1 h
    -- which field it is does not matter
    obtain ⟨_, -, hreads⟩ := ConditionParts.reads_of_read hread
    exact ih (hreads.byName hp) hrest

theorem byName_conditionItems {format : Format} {decode : Tree → Decoded α} {items : List Tree}
    {c : Condition C} {next : Option α}
    (h : conditionItems format decode items = .ok (c, next)) : c.ByName := by
  simp only [conditionItems, bind_eq_ok_iff, Prod.exists, next_eq_ok_iff] at h
  obtain ⟨_, _, -, _, _, ⟨hop, -⟩, _, _, -, _, _, ⟨hp, -⟩, _, _, -, _, -, hc⟩ := h
  cases hc
  exact ⟨part_optional_gives byName_predicate hp, (part_operator_iff.1 hop).byName⟩

/-- **Every condition that is read is given by names**, whatever its form and its outcome. -/
theorem byName_condition {format : Format} {decode : Tree → Decoded α} {t : Tree}
    {c : Condition C} {next : Option α} (h : condition format decode t = .ok (c, next)) :
    c.ByName := by
  cases t with
  | record entries =>
    obtain ⟨parts, hparts, hc⟩ := map_eq_ok_iff.1 h
    have hnone : ({} : ConditionParts C α).ByName :=
      ⟨by rintro _ ⟨⟩, by rintro _ ⟨⟩⟩
    have hfinish := (byName_conditionEntries hnone hparts).finish
    rwa [hc] at hfinish
  | list items => exact byName_conditionItems h
  | _ => cases h

end Decode

/-! ## Reading step maps -/

namespace Rule

theorem byName_branchOfTree? {t : Tree} {rule : Rule C} (h : branchOfTree? t = some rule) :
    rule.ByName := by
  obtain ⟨c, next, rfl, hc⟩ := branchOfTree?_iff.1 h
  simp only [ByName, conditions]
  exact List.forall_mem_singleton.2 (Decode.byName_condition hc)

mutual

theorem byName_ofTree? {t : Tree} {rule : Rule C} (h : ofTree? t = some rule) : rule.ByName := by
  cases t with
  | string s =>
    simp only [ofTree?] at h
    cases h
    simp [ByName, conditions]
  | list items =>
    simp only [ofTree?] at h
    -- a group where all elements are rules, else the parts of a condition
    cases hall : listOfTrees? (C := C) items with
    | some rules =>
      rw [hall] at h
      cases h
      simp only [ByName, conditions]
      exact byName_listOfTrees? hall
    | none =>
      rw [hall] at h
      exact byName_branchOfTree? h
  | record entries =>
    simp only [ofTree?] at h
    exact byName_branchOfTree? h
  | _ => simp [ofTree?] at h

theorem byName_listOfTrees? {items : List Tree} {rules : List (Rule C)}
    (h : listOfTrees? items = some rules) : ∀ c ∈ conditionsOfAll rules, c.ByName := by
  cases items with
  | nil =>
    simp only [listOfTrees?] at h
    cases h
    simp [conditionsOfAll]
  | cons t rest =>
    simp only [listOfTrees?] at h
    cases hrule : ofTree? (C := C) t with
    | none => simp [hrule] at h
    | some rule =>
      cases hrest : listOfTrees? (C := C) rest with
      | none => simp [hrule, hrest] at h
      | some others =>
        simp only [hrule, hrest] at h
        cases h
        simp only [conditionsOfAll]
        exact List.forall_mem_append.2 ⟨byName_ofTree? hrule, byName_listOfTrees? hrest⟩

end

end Rule

namespace Decode

theorem byName_rule (t : Tree) (rule : Rule C) (h : Decode.rule t = .ok rule) : rule.ByName := by
  unfold Decode.rule at h
  obtain ⟨_, -, h⟩ := bind_eq_ok_iff.1 h
  cases hrule : Rule.ofTree? (C := C) t with
  | none => simp [hrule, throw, throwThe, MonadExceptOf.throw] at h
  | some read =>
    rw [hrule] at h
    cases h
    exact Rule.byName_ofTree? hrule

/-- A step has the conditions of its rule. -/
theorem byName_step_mk {next : Option (Rule C)} (h : ∀ rule ∈ next, rule.ByName) :
    (Step.mk next).ByName := by
  intro c hc
  obtain ⟨rule, hrule, hc⟩ := List.mem_flatMap.1 hc
  exact h rule (Option.mem_toList.1 hrule) c hc

theorem byName_stepEntries {format : Format} {entries : List (Tree × Tree)}
    {read : Option (Option (Rule C))} {step : Step C}
    (hread : ∀ next ∈ read, ∀ rule ∈ next, rule.ByName)
    (h : stepEntries format read entries = .ok step) : step.ByName := by
  induction entries generalizing read with
  | nil =>
    cases h
    refine byName_step_mk fun rule hrule => ?_
    cases read with
    | none => cases hrule
    | some next => exact hread next rfl rule hrule
  | cons e rest ih =>
    obtain ⟨name, t⟩ := e
    simp only [stepEntries] at h
    obtain ⟨place, -, h⟩ := bind_eq_ok_iff.1 h
    cases place with
    | none =>
      obtain ⟨_, -, h⟩ := bind_eq_ok_iff.1 h
      exact ih hread h
    | some i =>
      cases read with
      | some next => cases h
      | none =>
        obtain ⟨next, hnext, h⟩ := bind_eq_ok_iff.1 h
        refine ih ?_ h
        rintro _ ⟨⟩
        exact optional_gives byName_rule hnext

theorem byName_step {format : Format} (t : Tree) (step : Step C)
    (h : Decode.step format t = .ok step) : step.ByName := by
  unfold Decode.step at h
  cases ht : t.untag with
  | record entries =>
    rw [ht] at h
    exact byName_stepEntries (by rintro _ ⟨⟩) h
  | list items =>
    rw [ht] at h
    by_cases hf : format = .yaml
    · simp only [hf, if_true] at h
      cases h
    · simp only [hf, if_false, bind_eq_ok_iff, Prod.exists, next_eq_ok_iff] at h
      obtain ⟨next, _, ⟨hnext, -⟩, _, -, hstep⟩ := h
      cases hstep
      exact byName_step_mk (part_optional_gives byName_rule hnext)
  | null =>
    rw [ht] at h
    by_cases hf : format = .yaml
    · simp only [hf, if_true] at h
      cases h
      exact byName_step_mk fun _ hr => nomatch hr
    · simp only [hf, if_false] at h
      cases h
  | _ =>
    rw [ht] at h
    cases h

/-- **One step** more, under a new identifier or in place of another step. -/
theorem byName_insert {steps : StepMap C} {step : Step C} (h : steps.ByName) (hs : step.ByName)
    (id : String) : StepMap.ByName (steps.insert id step) := by
  intro c hmem
  obtain ⟨e, he, hc⟩ := List.mem_flatMap.1 hmem
  have hget := Table.get?_eq_some_iff.2 he
  rw [Table.get?_insert] at hget
  split at hget
  · cases hget
    exact hs c hc
  · exact h c (List.mem_flatMap.2 ⟨e, Table.get?_eq_some_iff.1 hget, hc⟩)

/-- **All steps**, one after the other. -/
theorem byName_stepMapEntries {format : Format} {entries : List (Tree × Tree)}
    {done steps : StepMap C} (hdone : done.ByName)
    (h : stepMapEntries format done entries = .ok steps) : steps.ByName := by
  induction entries generalizing done with
  | nil =>
    cases h
    exact hdone
  | cons e rest ih =>
    obtain ⟨name, t⟩ := e
    simp only [stepMapEntries] at h
    obtain ⟨id, -, h⟩ := bind_eq_ok_iff.1 h
    obtain ⟨step?, hstep, h⟩ := bind_eq_ok_iff.1 h
    refine ih (byName_insert hdone ?_ id) h
    cases step? with
    | none => exact byName_step_mk (by rintro _ ⟨⟩)
    | some step => exact optional_gives byName_step hstep step rfl

theorem byName_stepMap {format : Format} {t : Tree} {steps : StepMap C}
    (h : stepMap format t = .ok steps) : steps.ByName := by
  unfold stepMap at h
  cases ht : t.untag with
  | record entries =>
    rw [ht] at h
    exact byName_stepMapEntries (by rintro _ ⟨⟩) h
  | _ =>
    rw [ht] at h
    cases h

/-- A text that is read has been decoded. -/
theorem decoded_of_text {text : JsonText} {decoder : Tree → Decoded α} {a : α}
    (h : text.decode decoder = .ok a) : decoder text.root = .ok a := by
  unfold JsonText.decode at h
  obtain ⟨b, hb, h⟩ := bind_eq_ok_iff.1 h
  split at h
  · cases h
  · cases h
    exact hb

end Decode

theorem StepMap.decoded_of_load {text : String} {steps : StepMap C}
    (h : StepMap.load text = .ok steps) : ∃ tree, Decode.stepMap .yaml tree = .ok steps := by
  unfold StepMap.load at h
  obtain ⟨document, -, h⟩ := Decode.bind_eq_ok_iff.1 h
  obtain ⟨tree, -, h⟩ := Decode.bind_eq_ok_iff.1 h
  split at h
  · cases h
  · obtain ⟨tree', -, h⟩ := Decode.bind_eq_ok_iff.1 h
    split at h
    · split at h
      · next hread =>
        cases h
        exact ⟨_, hread⟩
      · cases h
    · cases h

/-- **A step map that was read is given by names.** -/
theorem StepMap.IsRead.byName {steps : StepMap C} (h : steps.IsRead) : steps.ByName := by
  cases h with
  | value v h => exact Decode.byName_stepMap h
  | text text h => exact Decode.byName_stepMap (Decode.decoded_of_text h)
  | document text h =>
    obtain ⟨_, htree⟩ := StepMap.decoded_of_load h
    exact Decode.byName_stepMap htree

/-! ## Reading selectors -/

theorem Condition.byName_ofTree? {t : Tree} {c : Condition C} (h : ofTree? t = some c) :
    c.ByName := by
  unfold ofTree? at h
  split at h
  · next hread =>
    cases h
    exact Decode.byName_condition hread
  · cases h

namespace Selector

theorem byName_branch {t : Tree} {c : Condition C} {outcome : Option (Selector C)}
    (hc : Condition.ofTree? t = some c) (ho : ∀ c' ∈ conditionsOfOutcome outcome, c'.ByName) :
    ∀ c' ∈ conditionsOfEntry (.branch c outcome), c'.ByName := by
  simp only [conditionsOfEntry]
  exact List.forall_mem_cons.2 ⟨Condition.byName_ofTree? hc, ho⟩

mutual

theorem byName_ofTree? {t : Tree} {s : Selector C} (h : ofTree? t = some s) : s.ByName := by
  cases t with
  | string k =>
    simp only [ofTree?] at h
    cases h
    simp [ByName, conditions]
  | list items =>
    simp only [ofTree?] at h
    split at h
    · cases h
      simp [ByName, conditions]
    · obtain ⟨entries, hentries, rfl⟩ := Option.map_eq_some_iff.1 h
      simp only [ByName, conditions]
      exact byName_listOfTrees? hentries
  | record entries =>
    simp only [ofTree?] at h
    obtain ⟨f, -, rfl⟩ := Option.map_eq_some_iff.1 h
    simp [ByName, conditions]
  | _ => simp [ofTree?] at h

theorem byName_entryOfTree? {t : Tree} {e : Entry C} (h : Entry.ofTree? t = some e) :
    ∀ c ∈ conditionsOfEntry e, c.ByName := by
  cases t with
  | string k =>
    simp only [Entry.ofTree?] at h
    cases h
    simp [conditionsOfEntry]
  | list items =>
    simp only [Entry.ofTree?] at h
    split at h
    · cases h
      simp [conditionsOfEntry]
    · split at h
      · next hc ho =>
        cases h
        exact byName_branch hc (byName_outcomeOfItems? ho)
      · cases h
  | record entries =>
    simp only [Entry.ofTree?] at h
    split at h
    · cases h
      simp [conditionsOfEntry]
    · split at h
      · next hc ho =>
        cases h
        exact byName_branch hc (byName_outcomeOfEntries? ho)
      · cases h
  | _ => simp [Entry.ofTree?] at h

theorem byName_listOfTrees? {items : List Tree} {entries : List (Entry C)}
    (h : Entry.listOfTrees? items = some entries) :
    ∀ c ∈ conditionsOfEntries entries, c.ByName := by
  cases items with
  | nil =>
    simp only [Entry.listOfTrees?] at h
    cases h
    simp [conditionsOfEntries]
  | cons t rest =>
    simp only [Entry.listOfTrees?] at h
    cases hentry : Entry.ofTree? (C := C) t with
    | none => simp [hentry] at h
    | some entry =>
      cases hrest : Entry.listOfTrees? (C := C) rest with
      | none => simp [hentry, hrest] at h
      | some others =>
        simp only [hentry, hrest] at h
        cases h
        simp only [conditionsOfEntries]
        exact List.forall_mem_append.2
          ⟨byName_entryOfTree? hentry, byName_listOfTrees? hrest⟩

theorem byName_outcomeOfItems? {items : List Tree} {outcome : Option (Selector C)}
    (h : outcomeOfItems? items = some outcome) :
    ∀ c ∈ conditionsOfOutcome outcome, c.ByName := by
  match items with
  | [_, _, _, _, t] =>
    simp only [outcomeOfItems?] at h
    split at h
    · cases h
      simp [conditionsOfOutcome]
    · obtain ⟨s, hs, rfl⟩ := Option.map_eq_some_iff.1 h
      simp only [conditionsOfOutcome]
      exact byName_ofTree? hs
  | [] | [_] | [_, _] | [_, _, _] | [_, _, _, _] | _ :: _ :: _ :: _ :: _ :: _ :: _ =>
    simp only [outcomeOfItems?] at h
    cases h
    simp [conditionsOfOutcome]

theorem byName_outcomeOfEntries? {entries : List (Tree × Tree)} {outcome : Option (Selector C)}
    (h : outcomeOfEntries? entries = some outcome) :
    ∀ c ∈ conditionsOfOutcome outcome, c.ByName := by
  match entries with
  | [] =>
    simp only [outcomeOfEntries?] at h
    cases h
    simp [conditionsOfOutcome]
  | (name, t) :: rest =>
    simp only [outcomeOfEntries?] at h
    split at h
    · split at h
      · cases h
        simp [conditionsOfOutcome]
      · obtain ⟨s, hs, rfl⟩ := Option.map_eq_some_iff.1 h
        simp only [conditionsOfOutcome]
        exact byName_ofTree? hs
    · exact byName_outcomeOfEntries? h

end

end Selector

theorem Decode.byName_selector {t : Tree} {s : Selector C} (h : Decode.selector t = .ok s) :
    s.ByName := by
  unfold Decode.selector at h
  obtain ⟨_, -, h⟩ := bind_eq_ok_iff.1 h
  split at h
  · next hread =>
    cases h
    exact Selector.byName_ofTree? hread
  · cases h

/-- **A selector that was read is given by names.** -/
theorem Selector.IsRead.byName {s : Selector C} (h : s.IsRead) : s.ByName := by
  cases h with
  | value v h => exact Decode.byName_selector h
  | text text h => exact Decode.byName_selector (Decode.decoded_of_text h)
  | document text h =>
    unfold Selector.load at h
    obtain ⟨document, -, h⟩ := Decode.bind_eq_ok_iff.1 h
    obtain ⟨tree, -, h⟩ := Decode.bind_eq_ok_iff.1 h
    by_cases hob : tree.obstacle?.isSome = true
    · rw [if_pos hob] at h
      cases h
    · rw [if_neg hob] at h
      cases hread : Selector.ofTree? (C := C) tree with
      | none =>
        rw [hread] at h
        cases h
      | some read =>
        rw [hread] at h
        -- the document is read as the selector or not at all
        simp only [Yaml.Document.alone] at h
        split at h
        · cases h
        · split at h
          · cases h
          · cases h
            exact Selector.byName_ofTree? hread

end FormRouting
