import FormRouting.Decode.Condition
import FormRouting.Proofs.Written.Value

/-!
# The written form of conditions

A condition is written as a record of named fields. Which fields there may be and
what may stand under them is said here without the decoder; their order is free,
and fields of other names may stand between them.

* `Condition.Written`: the fields that write a condition.
* `Condition.Written.part`: what a field of such a record can be.
* `ConditionParts.Hold`: the parts that a decoder holds are those of the fields it has
  read; `hold_read` for one field, `hold_conditionEntries` for all fields of a record.
* `condition_of_written`: **a written condition is read back.**
* `Condition.Declarative.written_members`: every declarative condition can be written.
-/

namespace FormRouting

variable {C α : Type}

/-- A part that may be absent is left out then, or `null`. -/
inductive WrittenOptional (written : α → Tree → Prop) : Option α → Option Tree → Prop where
  | leftOut : WrittenOptional written none none
  | null : WrittenOptional written none (some .null)
  | present {a : α} {t : Tree} (h : written a t) : WrittenOptional written (some a) (some t)

/-- A step is written by its identifier, a key by itself. -/
def WrittenString (s : String) (t : Tree) : Prop := t = .string s

/-- The field of a condition is its name, or left out where it is empty. -/
inductive WrittenField : String → Option Tree → Prop where
  | leftOut : WrittenField "" none
  | present (field : String) : WrittenField field (some (.string field))

/-- The value of a condition, which is not `null`. -/
structure WrittenValue (v : Json) (t : Tree) : Prop where
  ne_null : v ≠ .null
  distinct : v.HasDistinctNames
  eq : t = v.toTree

/-- A predicate is written by its name. -/
inductive Predicate.Written : Predicate C → Tree → Prop where
  | name (name : String) (h : name ≠ "") : Written (.reference name) (.string name)

/-- A comparator is written by its symbol, and the implicit one also by nothing. Every other name is
that of a predicate. -/
inductive Operator.Written : Operator C → Option Tree → Prop where
  | leftOut : Written (.builtIn .implicit) none
  | null : Written (.builtIn .implicit) (some .null)
  | empty : Written (.builtIn .implicit) (some (.string ""))
  | symbol (c : Comparator) : Written (.builtIn c) (some (.string c.symbol))
  | name (name : String) (h : name ≠ "") (hs : ∀ c : Comparator, c.symbol ≠ name) :
      Written (.custom (.reference name)) (some (.string name))

/-- The names of a condition's fields. The last two name the same one. -/
def conditionNames : List String := ["field", "op", "value", "fn", "next", "key"]

/-- **The fields of a written condition**, in any order. `outcome` tells how its outcome may be
written. -/
structure Condition.Written (c : Condition C) (outcome : Option Tree → Prop)
    (fields : List (String × Tree)) : Prop where
  distinct : (fields.map Prod.fst).Nodup
  field : WrittenField c.field (fields.lookup "field")
  operator : c.operator.Written (fields.lookup "op")
  value : WrittenOptional WrittenValue c.value (fields.lookup "value")
  predicate : WrittenOptional Predicate.Written c.predicate (fields.lookup "fn")
  outcome :
    fields.lookup "key" = none ∧ outcome (fields.lookup "next") ∨
      fields.lookup "next" = none ∧ outcome (fields.lookup "key")
  /-- A field of another name holds anything that can be read. -/
  others : ∀ e ∈ fields, e.1 ∉ conditionNames → e.2.IsClean

/-- Where every field has a name of its own, there is no other. -/
theorem others_of_conditionNames {fields : List (String × Tree)}
    (h : ∀ e ∈ fields, e.1 ∈ conditionNames) :
    ∀ e ∈ fields, e.1 ∉ conditionNames → e.2.IsClean :=
  fun e he hn => absurd (h e he) hn

/-! ## What is left out -/

theorem WrittenOptional.eq_none {written : α → Tree → Prop} {a : Option α}
    (h : WrittenOptional written a none) : a = none := by
  cases h with
  | leftOut => rfl

theorem WrittenField.eq_empty {field : String} (h : WrittenField field none) : field = "" := by
  cases h with
  | leftOut => rfl

theorem Operator.Written.eq_implicit {op : Operator C} (h : op.Written none) :
    op = .builtIn .implicit := by
  cases h with
  | leftOut => rfl

/-! ## What is written can be read -/

theorem isClean_of_writtenOptional {written : α → Tree → Prop}
    (hw : ∀ a t, written a t → t.IsClean) {a : Option α} {t : Tree}
    (h : WrittenOptional written a (some t)) : t.IsClean := by
  cases h with
  | null => exact Tree.isClean_null
  | present h => exact hw _ _ h

theorem isClean_of_writtenField {field : String} {t : Tree} (h : WrittenField field (some t)) :
    t.IsClean := by
  cases h with
  | present => exact Tree.isClean_string _

theorem WrittenValue.isClean {v : Json} {t : Tree} (h : WrittenValue v t) : t.IsClean :=
  h.eq ▸ Json.isClean_toTree h.distinct

theorem Predicate.Written.isClean {p : Predicate C} {t : Tree} (h : p.Written t) : t.IsClean := by
  cases h with
  | name name hn => exact Tree.isClean_string _

theorem Operator.Written.isClean {op : Operator C} {t : Tree} (h : op.Written (some t)) :
    t.IsClean := by
  cases h with
  | null => exact Tree.isClean_null
  | empty => exact Tree.isClean_string _
  | symbol c => exact Tree.isClean_string _
  | name name hn hs => exact Tree.isClean_string _

namespace Decode

theorem optional_of_ne_null (decode : Tree → Decoded α) {t : Tree} (h : t ≠ .null) :
    optional decode t = (decode t).map some := by
  cases t with
  | null => exact absurd rfl h
  | _ => rfl

/-- An optional part is read as the part where it is present, and as nothing where it is `null`. -/
theorem optional_of_written {decode : Tree → Decoded α} {written : α → Tree → Prop}
    (hw : ∀ a t, written a t → t ≠ .null ∧ decode t = .ok a) {a : Option α} {t : Tree}
    (h : WrittenOptional written a (some t)) : optional decode t = .ok a := by
  cases h with
  | null => rfl
  | present h =>
    obtain ⟨hne, hd⟩ := hw _ _ h
    rw [optional_of_ne_null decode hne, hd]
    rfl

theorem string_of_writtenField {field : String} {t : Tree} (h : WrittenField field (some t)) :
    string t = .ok field := by
  cases h with
  | present => rfl

theorem string_of_written {s : String} {t : Tree} (h : WrittenString s t) :
    t ≠ .null ∧ string t = .ok s := by
  rw [h]
  exact ⟨by simp, rfl⟩

theorem json_of_written {v : Json} {t : Tree} (h : WrittenValue v t) :
    t ≠ .null ∧ json t = .ok v := by
  obtain ⟨hne, hd, rfl⟩ := h
  refine ⟨Json.toTree_ne_null hne, ?_⟩
  simp only [json, plain, (Json.isClean_toTree hd).obstacle, Json.toJson?_toTree hd]
  rfl

theorem predicate_of_written {p : Predicate C} {t : Tree} (h : p.Written t) :
    t ≠ .null ∧ predicate t = .ok p := by
  cases h with
  | name name hn =>
    refine ⟨by simp, ?_⟩
    have he : name.isEmpty = false := by simpa [String.isEmpty_iff] using hn
    simp only [predicate, string, Tree.untag, bind, Except.bind, he]
    rfl

theorem ofSymbol?_symbol (c : Comparator) : Comparator.ofSymbol? c.symbol = some c := by
  cases c <;> decide

theorem ofSymbol?_eq_none {name : String} (h : ∀ c : Comparator, c.symbol ≠ name) :
    Comparator.ofSymbol? name = none :=
  List.find?_eq_none.2 fun c _ hc => h c (beq_iff_eq.1 hc)

theorem symbol_ne_empty (c : Comparator) : c.symbol.isEmpty = false := by
  cases c <;> decide

theorem operator_of_written {op : Operator C} {t : Tree} (h : op.Written (some t)) :
    operator t = .ok op := by
  cases h with
  | null => rfl
  | empty => rfl
  | symbol c => simp [operator, symbol_ne_empty, ofSymbol?_symbol]
  | name name hn hs =>
    have he : name.isEmpty = false := by simpa [String.isEmpty_iff] using hn
    simp [operator, he, ofSymbol?_eq_none hs]

end Decode

/-! ## What a field can be -/

/-- What can stand under a name in a written condition. -/
inductive Condition.WrittenPart (c : Condition C) (outcome : Option Tree → Prop) :
    String → Tree → Prop where
  | field {t : Tree} (h : WrittenField c.field (some t)) : WrittenPart c outcome "field" t
  | operator {t : Tree} (h : c.operator.Written (some t)) : WrittenPart c outcome "op" t
  | value {t : Tree} (h : WrittenOptional WrittenValue c.value (some t)) :
      WrittenPart c outcome "value" t
  | predicate {t : Tree} (h : WrittenOptional Predicate.Written c.predicate (some t)) :
      WrittenPart c outcome "fn" t
  | next {t : Tree} (h : outcome (some t)) : WrittenPart c outcome "next" t
  | key {t : Tree} (h : outcome (some t)) : WrittenPart c outcome "key" t
  | other {name : String} {t : Tree} (hn : name ∉ conditionNames) (h : t.IsClean) :
      WrittenPart c outcome name t

namespace Condition.Written

variable {c : Condition C} {outcome : Option Tree → Prop} {fields : List (String × Tree)}

theorem part (h : c.Written outcome fields) {name : String} {t : Tree} (he : (name, t) ∈ fields) :
    c.WrittenPart outcome name t := by
  have hl : fields.lookup name = some t := lookup_of_mem h.distinct he
  by_cases hn : name ∈ conditionNames
  · simp only [conditionNames, List.mem_cons, List.not_mem_nil, or_false] at hn
    rcases hn with rfl | rfl | rfl | rfl | rfl | rfl
    · exact .field (hl ▸ h.field)
    · exact .operator (hl ▸ h.operator)
    · exact .value (hl ▸ h.value)
    · exact .predicate (hl ▸ h.predicate)
    · rcases h.outcome with ⟨-, ho⟩ | ⟨hnone, -⟩
      · exact .next (hl ▸ ho)
      · rw [hl] at hnone
        cases hnone
    · rcases h.outcome with ⟨hnone, -⟩ | ⟨-, ho⟩
      · rw [hl] at hnone
        cases hnone
      · exact .key (hl ▸ ho)
  · exact .other hn (h.others _ he hn)

/-- A written condition can be read anywhere if its outcome can. -/
theorem isClean (h : c.Written outcome fields) (ho : ∀ t, outcome (some t) → t.IsClean) :
    (Tree.ofFields fields).IsClean := by
  refine Tree.isClean_ofFields h.distinct ?_
  rintro ⟨name, t⟩ he
  cases h.part he with
  | field h => exact isClean_of_writtenField h
  | operator h => exact h.isClean
  | value h => exact isClean_of_writtenOptional (fun _ _ h => h.isClean) h
  | predicate h => exact isClean_of_writtenOptional (fun _ _ h => h.isClean) h
  | next h => exact ho _ h
  | key h => exact ho _ h
  | other hn h => exact h

end Condition.Written

/-! ## Reading the fields -/

theorem lookup_snoc {β : Type} (entries : List (String × β)) (name other : String) (b : β) :
    (entries ++ [(name, b)]).lookup other =
      (entries.lookup other).or (if name = other then some b else none) := by
  rw [List.lookup_append]
  by_cases h : name = other
  · simp [h]
  · simp [List.lookup_cons, beq_false_of_ne (Ne.symm h), h]

namespace Decode

/-- The name of a field of conditions stands for the field, any other name for none. -/
theorem field?_of_notMem {name : String} (h : name ∉ conditionNames) :
    field? .choice conditionFields (.string name) = .ok none := by
  simp only [conditionNames, List.mem_cons, List.not_mem_nil, or_false, not_or] at h
  obtain ⟨h₁, h₂, h₃, h₄, h₅, h₆⟩ := h
  simp [field?, Tree.untag, conditionFields, h₁, h₂, h₃, h₄, h₅, h₆]

variable {c : Condition C} {o : Option α} {outcome : Option Tree → Prop}
  {decode : Tree → Decoded α} {fields done : List (String × Tree)} {parts : ConditionParts C α}

/-- The parts held after reading some fields of a condition are the parts of the condition that
these fields write. -/
structure ConditionParts.Hold (parts : ConditionParts C α) (c : Condition C) (o : Option α)
    (done : List (String × Tree)) : Prop where
  field : parts.field = (done.lookup "field").map fun _ => c.field
  operator : parts.operator = (done.lookup "op").map fun _ => c.operator
  value : parts.value = (done.lookup "value").map fun _ => c.value
  predicate : parts.predicate = (done.lookup "fn").map fun _ => c.predicate
  outcome : parts.outcome = ((done.lookup "next").or (done.lookup "key")).map fun _ => o

/-- **One field.** It is read into its part, which must not be held yet. -/
theorem hold_read (h : parts.Hold c o done) {name : String} {t : Tree}
    (hpart : c.WrittenPart outcome name t) (hfresh : name ∉ done.map Prod.fst)
    (hone : name = "next" ∨ name = "key" → (done.lookup "next").or (done.lookup "key") = none)
    (hread : ∀ t, outcome (some t) → optional decode t = .ok o) :
    ∃ parts' : ConditionParts C α, parts.read .choice decode (.string name) t = .ok parts' ∧
      parts'.Hold c o (done ++ [(name, t)]) := by
  have hnone := lookup_eq_none_of_notMem hfresh
  -- by the part that the name stands for: it is empty so far, and only it changes
  cases hpart with
  | field ht =>
    have hempty : parts.field = none := by simp [h.field, hnone]
    have hf : field? .choice conditionFields (.string "field") = .ok (some 0) := rfl
    refine ⟨{ parts with field := some c.field }, ?_, ?_⟩
    · simp only [ConditionParts.read, hf, bind, Except.bind, hempty, string_of_writtenField ht]
      rfl
    · constructor <;> simp [lookup_snoc, h.operator, h.value, h.predicate, h.outcome, hnone]
  | operator ht =>
    have hempty : parts.operator = none := by simp [h.operator, hnone]
    have hf : field? .choice conditionFields (.string "op") = .ok (some 1) := rfl
    refine ⟨{ parts with operator := some c.operator }, ?_, ?_⟩
    · simp only [ConditionParts.read, hf, bind, Except.bind, hempty, operator_of_written ht]
      rfl
    · constructor <;> simp [lookup_snoc, h.field, h.value, h.predicate, h.outcome, hnone]
  | value ht =>
    have hempty : parts.value = none := by simp [h.value, hnone]
    have hf : field? .choice conditionFields (.string "value") = .ok (some 2) := rfl
    have hv : optional json t = .ok c.value := optional_of_written (fun _ _ => json_of_written) ht
    refine ⟨{ parts with value := some c.value }, ?_, ?_⟩
    · simp only [ConditionParts.read, hf, bind, Except.bind, hempty, hv]
      rfl
    · constructor <;> simp [lookup_snoc, h.field, h.operator, h.predicate, h.outcome, hnone]
  | predicate ht =>
    have hempty : parts.predicate = none := by simp [h.predicate, hnone]
    have hf : field? .choice conditionFields (.string "fn") = .ok (some 3) := rfl
    have hp : optional Decode.predicate t = .ok c.predicate :=
      optional_of_written (fun _ _ => predicate_of_written) ht
    refine ⟨{ parts with predicate := some c.predicate }, ?_, ?_⟩
    · simp only [ConditionParts.read, hf, bind, Except.bind, hempty, hp]
      rfl
    · constructor <;> simp [lookup_snoc, h.field, h.operator, h.value, h.outcome, hnone]
  | next ht =>
    have hempty : parts.outcome = none := by simp [h.outcome, hone (.inl rfl)]
    have hf : field? .choice conditionFields (.string "next") = .ok (some 4) := rfl
    refine ⟨{ parts with outcome := some o }, ?_, ?_⟩
    · simp only [ConditionParts.read, hf, bind, Except.bind, hempty, hread t ht]
      rfl
    · constructor <;> simp [lookup_snoc, h.field, h.operator, h.value, h.predicate, hnone]
  | key ht =>
    have hempty : parts.outcome = none := by simp [h.outcome, hone (.inr rfl)]
    have hf : field? .choice conditionFields (.string "key") = .ok (some 4) := rfl
    refine ⟨{ parts with outcome := some o }, ?_, ?_⟩
    · simp only [ConditionParts.read, hf, bind, Except.bind, hempty, hread t ht]
      rfl
    · constructor <;> simp [lookup_snoc, h.field, h.operator, h.value, h.predicate, hnone]
  | other hn ht =>
    refine ⟨parts, ?_, ?_⟩
    · simp only [ConditionParts.read, field?_of_notMem hn, bind, Except.bind, skip,
        Tree.passingFault?_eq_none ht.obstacle]
      rfl
    · simp only [conditionNames, List.mem_cons, List.not_mem_nil, or_false, not_or] at hn
      constructor <;>
        simp [lookup_snoc, h.field, h.operator, h.value, h.predicate, h.outcome, hn]

/-- **All fields.** Behind the fields that have been read, the others are read one by one. -/
theorem hold_conditionEntries (hw : c.Written outcome fields)
    (hread : ∀ t, outcome (some t) → optional decode t = .ok o) {rest : List (String × Tree)}
    (hfields : fields = done ++ rest) (h : parts.Hold c o done) :
    ∃ parts' : ConditionParts C α,
      conditionEntries .choice decode parts (Tree.named rest) = .ok parts' ∧
        parts'.Hold c o fields := by
  induction rest generalizing done parts with
  | nil => exact ⟨parts, rfl, by rwa [hfields, List.append_nil]⟩
  | cons e rest ih =>
    obtain ⟨name, t⟩ := e
    have he : (name, t) ∈ fields := by simp [hfields]
    have hl : fields.lookup name = some t := lookup_of_mem hw.distinct he
    have hfresh : name ∉ done.map Prod.fst := by
      have hd := hw.distinct
      rw [hfields, List.map_append] at hd
      exact fun hmem => (List.nodup_append.1 hd).2.2 _ hmem _ List.mem_cons_self rfl
    -- the outcome stands under one of its two names only
    have hone : name = "next" ∨ name = "key" →
        (done.lookup "next").or (done.lookup "key") = none := by
      have hother : ∀ other, fields.lookup other = none → done.lookup other = none := by
        intro other hnone
        rw [hfields, List.lookup_append, Option.or_eq_none_iff] at hnone
        exact hnone.1
      have hself := lookup_eq_none_of_notMem hfresh
      rintro (rfl | rfl)
      · rcases hw.outcome with ⟨hnone, -⟩ | ⟨hnone, -⟩
        · rw [hself, hother _ hnone]; rfl
        · rw [hl] at hnone; cases hnone
      · rcases hw.outcome with ⟨hnone, -⟩ | ⟨hnone, -⟩
        · rw [hl] at hnone; cases hnone
        · rw [hself, hother _ hnone]; rfl
    obtain ⟨parts', hparts, hhold⟩ := hold_read h (hw.part he) hfresh hone hread
    obtain ⟨final, hfinal, hall⟩ := ih (by simp [hfields]) hhold
    refine ⟨final, ?_, hall⟩
    show conditionEntries .choice decode parts ((.string name, t) :: Tree.named rest) = _
    simp only [conditionEntries, hparts, bind, Except.bind, hfinal]

/-- A part that is held as soon as something is written, and is the default where nothing is. -/
theorem getD_map_const {β : Type} {written : Option Tree} {part default : β}
    (h : written = none → part = default) : (written.map fun _ => part).getD default = part := by
  cases written with
  | none => exact (h rfl).symm
  | some t => rfl

/-- With all its fields read, the parts held are the whole condition. -/
theorem finish_of_hold (hw : c.Written outcome fields) (hnone : outcome none → o = none)
    (h : parts.Hold c o fields) : parts.finish = (c, o) := by
  have hfield : parts.field.getD "" = c.field := by
    rw [h.field]
    exact getD_map_const fun hl => (hl ▸ hw.field).eq_empty
  have hoperator : parts.operator.getD (.builtIn .implicit) = c.operator := by
    rw [h.operator]
    exact getD_map_const fun hl => (hl ▸ hw.operator).eq_implicit
  have hvalue : parts.value.getD none = c.value := by
    rw [h.value]
    exact getD_map_const fun hl => (hl ▸ hw.value).eq_none
  have hpredicate : parts.predicate.getD none = c.predicate := by
    rw [h.predicate]
    exact getD_map_const fun hl => (hl ▸ hw.predicate).eq_none
  have houtcome : parts.outcome.getD none = o := by
    rw [h.outcome]
    refine getD_map_const fun hl => hnone ?_
    obtain ⟨hnext, hkey⟩ := Option.or_eq_none_iff.1 hl
    rcases hw.outcome with ⟨-, ho⟩ | ⟨-, ho⟩
    · exact hnext ▸ ho
    · exact hkey ▸ ho
  simp only [ConditionParts.finish, hfield, hoperator, hvalue, hpredicate, houtcome]

/-- **A written condition is read back**, whatever the order of its fields and whatever else the
record holds. -/
theorem condition_of_written (hw : c.Written outcome fields)
    (hnone : outcome none → o = none)
    (hread : ∀ t, outcome (some t) → optional decode t = .ok o) :
    condition .choice decode (Tree.ofFields fields) = .ok (c, o) := by
  have hstart : ({} : ConditionParts C α).Hold c o [] := ⟨rfl, rfl, rfl, rfl, rfl⟩
  obtain ⟨parts, hparts, hhold⟩ := hold_conditionEntries hw hread (List.nil_append _).symm hstart
  simp only [condition, Tree.ofFields, hparts, Except.map, finish_of_hold hw hnone hhold]

end Decode

/-! ## What can be written -/

/-- A condition as it can be written in a document: its predicates are names that nothing else
takes, and its value is not `null`. -/
structure Condition.Declarative (c : Condition C) : Prop where
  predicate : ∀ p, c.predicate = some p → ∃ name, name ≠ "" ∧ p = .reference name
  operator : ∀ p, c.operator = .custom p →
    ∃ name, name ≠ "" ∧ (∀ s : Comparator, s.symbol ≠ name) ∧ p = .reference name
  value : ∀ v, c.value = some v → v ≠ .null ∧ v.HasDistinctNames

/-- The word for an operator. -/
def Operator.word : Operator C → String
  | .builtIn comparator => comparator.symbol
  | .custom p => p.name.getD ""

/-- All fields of a condition as members of an object, with `null` for what is absent. -/
def Condition.members (c : Condition C) (outcome : Json) : List (String × Json) :=
  [("field", .string c.field), ("op", .string c.operator.word), ("value", c.value.getD .null),
    ("fn", (c.predicate.map fun p => Json.string (p.name.getD "")).getD .null), ("next", outcome)]

theorem Operator.written_word {op : Operator C}
    (h : ∀ p, op = .custom p →
      ∃ name, name ≠ "" ∧ (∀ s : Comparator, s.symbol ≠ name) ∧ p = .reference name) :
    op.Written (some (.string op.word)) := by
  cases op with
  | builtIn comparator => exact .symbol comparator
  | custom p =>
    obtain ⟨name, hn, hs, rfl⟩ := h p rfl
    exact .name name hn hs

/-- **Every declarative condition can be written**, as a JSON object even. -/
theorem Condition.Declarative.written_members {c : Condition C} (h : c.Declarative)
    {outcome : Option Tree → Prop} {o : Json} (ho : outcome (some o.toTree)) :
    c.Written outcome ((c.members o).map fun m => (m.1, m.2.toTree)) where
  distinct := by simp [members]
  field := by
    simp only [members, List.map_cons, Json.toTree]
    exact .present c.field
  operator := by
    simp only [members, List.map_cons, Json.toTree]
    exact Operator.written_word h.operator
  value := by
    have hv := h.value
    show WrittenOptional WrittenValue c.value (some (c.value.getD .null).toTree)
    cases hc : c.value with
    | none =>
      simp only [Option.getD_none, Json.toTree]
      exact .null
    | some v => exact .present ⟨(hv v hc).1, (hv v hc).2, rfl⟩
  predicate := by
    have hp := h.predicate
    show WrittenOptional Predicate.Written c.predicate
      (some ((c.predicate.map fun p => Json.string (p.name.getD "")).getD .null).toTree)
    cases hc : c.predicate with
    | none =>
      simp only [Option.map_none, Option.getD_none, Json.toTree]
      exact .null
    | some p =>
      obtain ⟨name, hn, rfl⟩ := hp p hc
      simp only [Option.map_some, Option.getD_some, Json.toTree]
      exact .present (.name name hn)
  outcome := .inl ⟨by simp [members, List.lookup_cons], ho⟩
  others := others_of_conditionNames <| List.forall_mem_map.2 fun m hm => by
    have hmem : m.1 ∈ ["field", "op", "value", "fn", "next"] :=
      List.mem_map_of_mem (f := Prod.fst) hm
    exact List.mem_append_left ["key"] hmem

end FormRouting
