import FormRouting.Decode.Selector
import FormRouting.Proofs.Written.Condition

/-!
# The written form of selectors

A key is written as a string, a key function as a record with its name under `call`, a
sequence as the list of its entries and the outcome of a condition like any selector.

A key function is a record of one field, and a list can stand for a record: a list of
one string is taken for a key function. So a sequence whose only entry is a key is the
one thing that is not read as it is written. It becomes the function of that name,
wherever in a selector it stands; everything else is read back.

* `Selector.Written`: what writes a selector.
* `Selector.asRead`: what becomes of a selector that is written and read;
  `asRead_eq_iff`: when it stays the same.
* `ofTree?_of_written`: what a written selector is read as, by recursion over it.
* `written_selectors_read`: **a declarative selector is read back from its written form
  exactly if no sequence in it is a lone key.**
-/

namespace FormRouting

variable {C : Type}

/-- A key function is written by its name. -/
inductive KeyFunction.Written : KeyFunction C → Tree → Prop where
  | call (name : String) : Written (.reference name) (.ofFields [("call", .string name)])

namespace Selector

/-! ## The written form -/

mutual

/-- **What writes a selector.** -/
def Written : Selector C → Tree → Prop
  | .key k, t => t = .string k
  | .function f, t => f.Written t
  | .sequence entries, t => ∃ items, t = .list items ∧ EntriesWritten entries items

/-- What writes entries, one after the other. The record of a condition has no field `call`. -/
def EntriesWritten : List (Entry C) → List Tree → Prop
  | [], items => items = []
  | .key k :: rest, items => ∃ others, items = .string k :: others ∧ EntriesWritten rest others
  | .function f :: rest, items =>
    ∃ t others, items = t :: others ∧ f.Written t ∧ EntriesWritten rest others
  | .branch c outcome :: rest, items =>
    ∃ fields others, items = .ofFields fields :: others ∧
      c.Written (OutcomeWritten outcome) fields ∧ fields.lookup "call" = none ∧
      EntriesWritten rest others

/-- What writes an outcome; an absent one can be left out or `null`. -/
def OutcomeWritten : Option (Selector C) → Option Tree → Prop
  | none, written => written = none ∨ written = some .null
  | some s, written => ∃ t, written = some t ∧ Written s t

end

mutual

/-- A selector as it can be written: its functions are names, and its conditions can be written. -/
def Declarative : Selector C → Prop
  | .key _ => True
  | .function f => ∃ name, f = .reference name
  | .sequence entries => EntriesDeclarative entries

def EntriesDeclarative : List (Entry C) → Prop
  | [] => True
  | .key _ :: rest => EntriesDeclarative rest
  | .function f :: rest => (∃ name, f = .reference name) ∧ EntriesDeclarative rest
  | .branch c outcome :: rest =>
    c.Declarative ∧ OutcomeDeclarative outcome ∧ EntriesDeclarative rest

def OutcomeDeclarative : Option (Selector C) → Prop
  | none => True
  | some s => Declarative s

end

/-! ## What becomes of a selector -/

mutual

/-- **A selector after it has been written and read**: a lone key becomes a function. -/
def asRead : Selector C → Selector C
  | .key k => .key k
  | .function f => .function f
  | .sequence [.key k] => .function (.reference k)
  | .sequence entries => .sequence (entriesAsRead entries)

def entriesAsRead : List (Entry C) → List (Entry C)
  | [] => []
  | .key k :: rest => .key k :: entriesAsRead rest
  | .function f :: rest => .function f :: entriesAsRead rest
  | .branch c outcome :: rest => .branch c (outcomeAsRead outcome) :: entriesAsRead rest

def outcomeAsRead : Option (Selector C) → Option (Selector C)
  | none => none
  | some s => some (asRead s)

end

mutual

/-- No sequence consists of a single key, here and at any depth. -/
def HasNoLoneKey : Selector C → Prop
  | .key _ => True
  | .function _ => True
  | .sequence entries => (∀ k, entries ≠ [.key k]) ∧ EntriesHaveNoLoneKey entries

def EntriesHaveNoLoneKey : List (Entry C) → Prop
  | [] => True
  | .key _ :: rest => EntriesHaveNoLoneKey rest
  | .function _ :: rest => EntriesHaveNoLoneKey rest
  | .branch _ outcome :: rest => OutcomeHasNoLoneKey outcome ∧ EntriesHaveNoLoneKey rest

def OutcomeHasNoLoneKey : Option (Selector C) → Prop
  | none => True
  | some s => HasNoLoneKey s

end

/-- Apart from a lone key, a sequence stays one. -/
theorem asRead_sequence {entries : List (Entry C)} (h : ∀ k, entries ≠ [.key k]) :
    asRead (.sequence entries) = .sequence (entriesAsRead entries) := by
  rw [asRead.eq_def]
  split
  · next heq => cases heq
  · next heq => cases heq
  · next k heq => exact absurd (sequence.inj heq) (h k)
  · next heq => rw [sequence.inj heq]

mutual

/-- **What is read is what was written exactly if there is no lone key.** -/
theorem asRead_eq_iff (s : Selector C) : s.asRead = s ↔ s.HasNoLoneKey := by
  cases s with
  | key k => simp only [asRead, HasNoLoneKey]
  | function f => simp only [asRead, HasNoLoneKey]
  | sequence entries =>
    by_cases h : ∃ k, entries = [.key k]
    · obtain ⟨k, rfl⟩ := h
      simp [asRead, HasNoLoneKey]
    · have hne : ∀ k, entries ≠ [.key k] := not_exists.1 h
      rw [asRead_sequence hne, sequence.injEq, entriesAsRead_eq_iff entries, HasNoLoneKey]
      exact (and_iff_right hne).symm

theorem entriesAsRead_eq_iff (entries : List (Entry C)) :
    entriesAsRead entries = entries ↔ EntriesHaveNoLoneKey entries := by
  match entries with
  | [] => simp only [entriesAsRead, EntriesHaveNoLoneKey]
  | .key k :: rest =>
    simp only [entriesAsRead, EntriesHaveNoLoneKey, List.cons.injEq, true_and,
      entriesAsRead_eq_iff rest]
  | .function f :: rest =>
    simp only [entriesAsRead, EntriesHaveNoLoneKey, List.cons.injEq, true_and,
      entriesAsRead_eq_iff rest]
  | .branch c outcome :: rest =>
    simp only [entriesAsRead, EntriesHaveNoLoneKey, List.cons.injEq, Entry.branch.injEq, true_and,
      outcomeAsRead_eq_iff outcome, entriesAsRead_eq_iff rest]

theorem outcomeAsRead_eq_iff (outcome : Option (Selector C)) :
    outcomeAsRead outcome = outcome ↔ OutcomeHasNoLoneKey outcome := by
  cases outcome with
  | none => simp only [outcomeAsRead, OutcomeHasNoLoneKey]
  | some s => simp only [outcomeAsRead, OutcomeHasNoLoneKey, Option.some.injEq, asRead_eq_iff s]

end

end Selector

/-! ## Key functions -/

namespace KeyFunction

theorem Written.isClean {f : KeyFunction C} {t : Tree} (h : f.Written t) : t.IsClean := by
  cases h with
  | call name =>
    exact Tree.isClean_ofFields (by simp)
      (List.forall_mem_singleton.2 (Tree.isClean_string name))

theorem ofTree?_of_written {f : KeyFunction C} {t : Tree} (h : f.Written t) :
    ofTree? t = some f := by
  cases h with
  | call name => rfl

/-- A record without the field `call` is not a key function: it lacks that field, or has one too
many. -/
theorem ofTree?_ofFields {fields : List (String × Tree)} (h : fields.lookup "call" = none) :
    ofTree? (C := C) (.ofFields fields) = none := by
  cases fields with
  | nil => rfl
  | cons e rest =>
    obtain ⟨name, t⟩ := e
    have hne : name ≠ "call" := by
      rintro rfl
      rw [List.lookup_cons_self] at h
      cases h
    have hf : Decode.field? .choice Decode.keyFunctionFields (.string name) = .ok none := by
      simp [Decode.field?, Tree.untag, Decode.keyFunctionFields, hne]
    show (Decode.keyFunctionEntries .choice none
      ((.string name, t) :: Tree.named rest)).toOption = none
    simp only [Decode.keyFunctionEntries, hf, Decode.string, Tree.untag]
    rfl

/-- A list of one string is a key function. -/
theorem ofTree?_singleton (name : String) :
    ofTree? (C := C) (.list [.string name]) = some (.reference name) := rfl

/-- Two elements are too many for a key function. -/
theorem ofTree?_cons_cons (t u : Tree) (rest : List Tree) :
    ofTree? (C := C) (.list (t :: u :: rest)) = none := by
  simp only [ofTree?, Decode.keyFunction]
  cases Decode.string t <;> rfl

end KeyFunction

namespace Selector

/-- The list of some written entries is a key function only if they are a lone key. -/
theorem keyFunction_ofTree?_of_written {entries : List (Entry C)} {items : List Tree}
    (h : EntriesWritten entries items) (hne : ∀ k, entries ≠ [.key k]) :
    KeyFunction.ofTree? (C := C) (.list items) = none := by
  -- one element is left to look at, and a record is no name
  match entries, items with
  | [], items =>
    simp only [EntriesWritten] at h
    subst h
    rfl
  | entry :: rest, [] => cases entry <;> simp [EntriesWritten] at h
  | _, t :: u :: others => exact KeyFunction.ofTree?_cons_cons t u others
  | .key k :: rest, [t] =>
    simp only [EntriesWritten] at h
    obtain ⟨others, heq, hrest⟩ := h
    obtain ⟨-, rfl⟩ := List.cons.inj heq
    cases rest with
    | nil => exact absurd rfl (hne k)
    | cons entry rest => cases entry <;> simp [EntriesWritten] at hrest
  | .function f :: rest, [t] =>
    simp only [EntriesWritten] at h
    obtain ⟨_, others, heq, hf, -⟩ := h
    obtain ⟨rfl, -⟩ := List.cons.inj heq
    cases hf with
    | call name => rfl
  | .branch c outcome :: rest, [t] =>
    simp only [EntriesWritten] at h
    obtain ⟨fields, others, heq, -⟩ := h
    obtain ⟨rfl, -⟩ := List.cons.inj heq
    rfl

/-! ## Conditions -/

theorem namesOutcome_string (name : String) :
    Decode.namesOutcome (.string name) = true ↔ name = "next" ∨ name = "key" := by
  by_cases h : name ∈ conditionNames
  · simp only [conditionNames, List.mem_cons, List.not_mem_nil, or_false] at h
    rcases h with rfl | rfl | rfl | rfl | rfl | rfl <;> decide
  · have hf := Decode.field?_of_notMem h
    simp only [conditionNames, List.mem_cons, List.not_mem_nil, or_false, not_or] at h
    simp [Decode.namesOutcome, hf, h]

/-- The outcome among the fields is the first one under its names. -/
theorem outcomeOfEntries?_named {fields : List (String × Tree)} {o : Option (Selector C)}
    (hread : ∀ e ∈ fields, e.1 = "next" ∨ e.1 = "key" →
      (if e.2.isNull then some none else (ofTree? e.2).map some) = some o)
    (hnone : (∀ e ∈ fields, ¬ (e.1 = "next" ∨ e.1 = "key")) → o = none) :
    outcomeOfEntries? (Tree.named fields) = some o := by
  induction fields with
  | nil =>
    rw [hnone (List.forall_mem_nil _)]
    simp only [Tree.named, List.map_nil, outcomeOfEntries?]
  | cons e rest ih =>
    obtain ⟨name, t⟩ := e
    obtain ⟨ht, hrest⟩ := List.forall_mem_cons.1 hread
    show outcomeOfEntries? ((.string name, t) :: Tree.named rest) = _
    rw [outcomeOfEntries?]
    by_cases hn : name = "next" ∨ name = "key"
    · rw [if_pos ((namesOutcome_string name).2 hn), ht hn]
    · rw [if_neg (mt (namesOutcome_string name).1 hn)]
      exact ih hrest fun h => hnone (List.forall_mem_cons.2 ⟨hn, h⟩)

/-- The outcome of a written condition is read on its own, as it is read anywhere. -/
theorem outcomeOfEntries?_of_written {c : Condition C} {outcome : Option Tree → Prop}
    {fields : List (String × Tree)} (hw : c.Written outcome fields) {o : Option (Selector C)}
    (hnone : outcome none → o = none)
    (hread : ∀ t, outcome (some t) →
      (if t.isNull then some none else (ofTree? t).map some) = some o) :
    outcomeOfEntries? (Tree.named fields) = some o := by
  refine outcomeOfEntries?_named ?_ fun h => hnone ?_
  · rintro ⟨name, t⟩ he hn
    cases hw.part he with
    | next ht => exact hread t ht
    | key ht => exact hread t ht
    | other hne _ =>
      refine absurd ?_ hne
      rcases hn with rfl | rfl <;> decide
    -- the other parts have other names
    | _ => simp at hn
  · have habsent : ∀ name, name = "next" ∨ name = "key" → fields.lookup name = none := by
      refine fun name hn => lookup_eq_none_of_notMem fun hmem => ?_
      obtain ⟨e, he, rfl⟩ := List.mem_map.1 hmem
      exact h e he hn
    rcases hw.outcome with ⟨-, ho⟩ | ⟨-, ho⟩
    · exact habsent "next" (.inl rfl) ▸ ho
    · exact habsent "key" (.inr rfl) ▸ ho

theorem ne_null_of_written {s : Selector C} {t : Tree} (h : s.Written t) : t ≠ .null := by
  cases s with
  | key k =>
    simp only [Written] at h
    simp [h]
  | function f =>
    simp only [Written] at h
    cases h with
    | call name => simp [Tree.ofFields]
  | sequence entries =>
    simp only [Written] at h
    obtain ⟨items, rfl, -⟩ := h
    simp

theorem eq_none_of_outcomeWritten {outcome : Option (Selector C)}
    (h : OutcomeWritten outcome none) : outcome = none := by
  cases outcome with
  | none => rfl
  | some s =>
    simp only [OutcomeWritten] at h
    obtain ⟨t, ht, -⟩ := h
    cases ht

/-- A written condition is read back, whatever its outcome is. -/
theorem condition_ofTree?_of_written {c : Condition C} {outcome : Option (Selector C)}
    {fields : List (String × Tree)} (h : c.Written (OutcomeWritten outcome) fields) :
    Condition.ofTree? (Tree.ofFields fields) = some c := by
  have hc : Decode.condition .choice (fun _ => .ok ()) (Tree.ofFields fields) =
      .ok (c, outcome.map fun _ => ()) := by
    refine Decode.condition_of_written h
      (fun hn => by rw [eq_none_of_outcomeWritten hn, Option.map_none]) fun t ht => ?_
    cases outcome with
    | none =>
      simp only [OutcomeWritten, reduceCtorEq, Option.some.injEq, false_or] at ht
      subst ht
      rfl
    | some s =>
      simp only [OutcomeWritten, Option.some.injEq] at ht
      obtain ⟨_, rfl, hs⟩ := ht
      rw [Decode.optional_of_ne_null _ (ne_null_of_written hs)]
      rfl
  simp only [Condition.ofTree?, hc]

/-! ## Reading -/

mutual

/-- **What a written selector is read as.** The forms do not get in each other's way, except that a
lone key is a key function first. -/
theorem ofTree?_of_written {s : Selector C} {t : Tree} (h : s.Written t) :
    ofTree? t = some s.asRead := by
  cases s with
  | key k =>
    simp only [Written] at h
    simp only [h, ofTree?, asRead]
  | function f =>
    simp only [Written] at h
    have hf := KeyFunction.ofTree?_of_written h
    cases h with
    | call name =>
      simp only [Tree.ofFields] at hf ⊢
      simp only [ofTree?, hf, asRead, Option.map_some]
  | sequence entries =>
    simp only [Written] at h
    obtain ⟨items, rfl, hitems⟩ := h
    -- the list is tried as a key function before its elements are looked at
    by_cases hlone : ∃ k, entries = [.key k]
    · obtain ⟨k, rfl⟩ := hlone
      simp only [EntriesWritten] at hitems
      obtain ⟨_, rfl, rfl⟩ := hitems
      simp only [ofTree?, KeyFunction.ofTree?_singleton, asRead]
    · have hne : ∀ k, entries ≠ [.key k] := not_exists.1 hlone
      rw [asRead_sequence hne]
      simp only [ofTree?, keyFunction_ofTree?_of_written hitems hne,
        listOfTrees?_of_written hitems, Option.map_some]

theorem listOfTrees?_of_written {entries : List (Entry C)} {items : List Tree}
    (h : EntriesWritten entries items) :
    Entry.listOfTrees? items = some (entriesAsRead entries) := by
  match entries with
  | [] =>
    simp only [EntriesWritten] at h
    simp only [h, Entry.listOfTrees?, entriesAsRead]
  | .key k :: rest =>
    simp only [EntriesWritten] at h
    obtain ⟨others, rfl, hrest⟩ := h
    simp only [Entry.listOfTrees?, Entry.ofTree?, listOfTrees?_of_written hrest, entriesAsRead]
  | .function f :: rest =>
    simp only [EntriesWritten] at h
    obtain ⟨t, others, rfl, hf, hrest⟩ := h
    have hfunction := KeyFunction.ofTree?_of_written hf
    cases hf with
    | call name =>
      simp only [Tree.ofFields] at hfunction ⊢
      simp only [Entry.listOfTrees?, Entry.ofTree?, hfunction, listOfTrees?_of_written hrest,
        entriesAsRead]
  | .branch c outcome :: rest =>
    simp only [EntriesWritten] at h
    obtain ⟨fields, others, rfl, hc, hcall, hrest⟩ := h
    -- not a key function, so a condition; its outcome is found a second time in the same fields
    have hfunction := KeyFunction.ofTree?_ofFields (C := C) hcall
    have hcondition := condition_ofTree?_of_written hc
    have houtcome : outcomeOfEntries? (Tree.named fields) = some (outcomeAsRead outcome) := by
      refine outcomeOfEntries?_of_written hc (fun hn => ?_) fun t ht => outcome_of_written ht
      rw [eq_none_of_outcomeWritten hn, outcomeAsRead]
    simp only [Tree.ofFields] at hfunction hcondition ⊢
    simp only [Entry.listOfTrees?, Entry.ofTree?, hfunction, hcondition, houtcome,
      listOfTrees?_of_written hrest, entriesAsRead]

theorem outcome_of_written {outcome : Option (Selector C)} {t : Tree}
    (h : OutcomeWritten outcome (some t)) :
    (if t.isNull then some none else (ofTree? t).map some) = some (outcomeAsRead outcome) := by
  match outcome with
  | none =>
    simp only [OutcomeWritten, reduceCtorEq, Option.some.injEq, false_or] at h
    simp only [h, Tree.isNull, if_true, outcomeAsRead]
  | some s =>
    simp only [OutcomeWritten, Option.some.injEq] at h
    obtain ⟨_, rfl, hs⟩ := h
    have hnull : t.isNull = false := by
      have hne := ne_null_of_written hs
      cases t with
      | null => exact absurd rfl hne
      | _ => rfl
    simp only [hnull, Bool.false_eq_true, if_false, ofTree?_of_written hs, Option.map_some,
      outcomeAsRead]

end

mutual

theorem isClean_of_written {s : Selector C} {t : Tree} (h : s.Written t) : t.IsClean := by
  cases s with
  | key k =>
    simp only [Written] at h
    exact h ▸ Tree.isClean_string k
  | function f =>
    simp only [Written] at h
    exact h.isClean
  | sequence entries =>
    simp only [Written] at h
    obtain ⟨items, rfl, hitems⟩ := h
    exact Tree.isClean_list (isClean_of_entriesWritten hitems)

theorem isClean_of_entriesWritten {entries : List (Entry C)} {items : List Tree}
    (h : EntriesWritten entries items) : ∀ t ∈ items, t.IsClean := by
  match entries with
  | [] =>
    simp only [EntriesWritten] at h
    simp [h]
  | .key k :: rest =>
    simp only [EntriesWritten] at h
    obtain ⟨others, rfl, hrest⟩ := h
    exact List.forall_mem_cons.2 ⟨Tree.isClean_string k, isClean_of_entriesWritten hrest⟩
  | .function f :: rest =>
    simp only [EntriesWritten] at h
    obtain ⟨t, others, rfl, hf, hrest⟩ := h
    exact List.forall_mem_cons.2 ⟨hf.isClean, isClean_of_entriesWritten hrest⟩
  | .branch c outcome :: rest =>
    simp only [EntriesWritten] at h
    obtain ⟨fields, others, rfl, hc, -, hrest⟩ := h
    exact List.forall_mem_cons.2
      ⟨hc.isClean fun _ => isClean_of_outcomeWritten, isClean_of_entriesWritten hrest⟩

theorem isClean_of_outcomeWritten {outcome : Option (Selector C)} {t : Tree}
    (h : OutcomeWritten outcome (some t)) : t.IsClean := by
  match outcome with
  | none =>
    simp only [OutcomeWritten, reduceCtorEq, Option.some.injEq, false_or] at h
    exact h ▸ Tree.isClean_null
  | some s =>
    simp only [OutcomeWritten, Option.some.injEq] at h
    obtain ⟨_, rfl, hs⟩ := h
    exact isClean_of_written hs

end

end Selector

/-- A written selector is read as what becomes of it. -/
theorem Decode.selector_of_written {s : Selector C} {t : Tree} (h : s.Written t) :
    Decode.selector t = .ok s.asRead := by
  simp only [Decode.selector, plain, (Selector.isClean_of_written h).obstacle,
    Selector.ofTree?_of_written h]
  rfl

namespace Selector

/-! ## A written form for every selector -/

/-- A key function as a value. -/
def functionToJson (f : KeyFunction C) : Json := .object [("call", .string (f.name.getD ""))]

mutual

/-- A selector in its fullest form. -/
def toJson : Selector C → Json
  | .key k => .string k
  | .function f => functionToJson f
  | .sequence entries => .array (entriesToJson entries)

def entriesToJson : List (Entry C) → List Json
  | [] => []
  | .key k :: rest => .string k :: entriesToJson rest
  | .function f :: rest => functionToJson f :: entriesToJson rest
  | .branch c outcome :: rest => .object (c.members (outcomeToJson outcome)) :: entriesToJson rest

def outcomeToJson : Option (Selector C) → Json
  | none => .null
  | some s => toJson s

end

theorem written_functionToJson {f : KeyFunction C} (h : ∃ name, f = .reference name) :
    f.Written (functionToJson f).toTree := by
  obtain ⟨name, rfl⟩ := h
  rw [functionToJson, Json.toTree_object]
  simp only [List.map_cons, List.map_nil, Json.toTree]
  exact .call name

mutual

theorem written_toJson {s : Selector C} (h : s.Declarative) : s.Written s.toJson.toTree := by
  cases s with
  | key k => simp only [Written, toJson, Json.toTree]
  | function f =>
    simp only [Declarative] at h
    simp only [Written, toJson]
    exact written_functionToJson h
  | sequence entries =>
    simp only [Declarative] at h
    simp only [Written, toJson, Json.toTree]
    exact ⟨_, rfl, entriesWritten_toJson h⟩

theorem entriesWritten_toJson {entries : List (Entry C)} (h : EntriesDeclarative entries) :
    EntriesWritten entries (Json.itemsToTree (entriesToJson entries)) := by
  match entries with
  | [] => simp only [EntriesWritten, entriesToJson, Json.itemsToTree]
  | .key k :: rest =>
    simp only [EntriesDeclarative] at h
    simp only [EntriesWritten, entriesToJson, Json.itemsToTree, Json.toTree]
    exact ⟨_, rfl, entriesWritten_toJson h⟩
  | .function f :: rest =>
    simp only [EntriesDeclarative] at h
    simp only [EntriesWritten, entriesToJson, Json.itemsToTree]
    exact ⟨_, _, rfl, written_functionToJson h.1, entriesWritten_toJson h.2⟩
  | .branch c outcome :: rest =>
    simp only [EntriesDeclarative] at h
    simp only [EntriesWritten, entriesToJson, Json.itemsToTree, Json.toTree_object]
    refine ⟨_, _, rfl, h.1.written_members (outcomeWritten_toJson h.2.1), ?_,
      entriesWritten_toJson h.2.2⟩
    simp [Condition.members, List.lookup_cons]

theorem outcomeWritten_toJson {outcome : Option (Selector C)} (h : OutcomeDeclarative outcome) :
    OutcomeWritten outcome (some (outcomeToJson outcome).toTree) := by
  match outcome with
  | none => simp [OutcomeWritten, outcomeToJson, Json.toTree]
  | some s =>
    simp only [OutcomeDeclarative] at h
    simp only [OutcomeWritten, outcomeToJson]
    exact ⟨_, rfl, written_toJson h⟩

end

end Selector

/-- **When the written form of selectors is read faithfully.** Every declarative selector can be
written, as a JSON value even. However it is written, it is read with every lone key turned into a
function, so it is read back exactly if no sequence in it is a lone key. -/
theorem written_selectors_read (s : Selector C) (h : s.Declarative) :
    (∃ definition : Json, s.Written definition.toTree) ∧
      ∀ t, s.Written t → Decode.selector t = .ok s.asRead ∧
        (Decode.selector t = .ok s ↔ s.HasNoLoneKey) := by
  refine ⟨⟨s.toJson, Selector.written_toJson h⟩, fun t ht => ?_⟩
  have hread := Decode.selector_of_written ht
  refine ⟨hread, ?_⟩
  rw [hread, Except.ok.injEq]
  exact s.asRead_eq_iff

/-- A lone key, written as the list of itself, comes back as a function. -/
theorem lone_key_read_as_function :
    (Selector.sequence [.key "default"] : Selector Unit).Declarative ∧
      (Selector.sequence [.key "default"] : Selector Unit).Written
        (Json.array [.string "default"]).toTree ∧
      Decode.selector (C := Unit) (Json.array [.string "default"]).toTree =
        .ok (.function (.reference "default")) ∧
      Decode.selector (C := Unit) (Json.array [.string "default"]).toTree ≠
        .ok (.sequence [.key "default"]) := by
  have hread : Decode.selector (C := Unit) (Json.array [.string "default"]).toTree =
      .ok (.function (.reference "default")) := rfl
  refine ⟨by simp only [Selector.Declarative, Selector.EntriesDeclarative], ?_, hread, ?_⟩
  · simp only [Selector.Written, Json.toTree, Json.itemsToTree, Selector.EntriesWritten]
    exact ⟨_, rfl, _, rfl, rfl⟩
  · rw [hread]
    simp

/-! ### A chained selector -/

/-- Two conditions, one in the outcome of the other, with a key behind each. -/
def chainedSelector : Selector Unit :=
  .sequence [
    .branch { field := "a", value := some (.bool true) } (some (.sequence [
      .branch { field := "b", operator := .custom (.reference "f") } (some (.key "both")),
      .key "only"])),
    .function (.reference "pick"),
    .key "none"]

theorem declarative_chainedSelector : chainedSelector.Declarative := by
  have ha : ({ field := "a", value := some (.bool true) } : Condition Unit).Declarative :=
    { predicate := fun p hp => nomatch hp
      operator := fun p hp => nomatch hp
      value := fun v hv => by
        obtain rfl := Option.some.inj hv
        exact ⟨by simp, by simp only [Json.HasDistinctNames]⟩ }
  have hb : ({ field := "b", operator := .custom (.reference "f") } : Condition Unit).Declarative :=
    { predicate := fun p hp => nomatch hp
      operator := fun p hp =>
        ⟨"f", by decide, fun s => by cases s <;> decide, (Operator.custom.inj hp).symm⟩
      value := fun v hv => nomatch hv }
  simp only [chainedSelector, Selector.Declarative, Selector.EntriesDeclarative,
    Selector.OutcomeDeclarative, and_true]
  exact ⟨ha, hb, _, rfl⟩

/-- The chained selector in writing, with names in some order. -/
def chainedTree : Tree :=
  .list [
    .ofFields [("key", .list [
      .ofFields [("op", .string "f"), ("key", .string "both"), ("field", .string "b")],
      .string "only"]), ("field", .string "a"), ("value", .bool true)],
    .ofFields [("call", .string "pick")],
    .string "none"]

theorem written_chainedSelector : chainedSelector.Written chainedTree := by
  have hb : ({ field := "b", operator := .custom (.reference "f") } : Condition Unit).Written
      (Selector.OutcomeWritten (C := Unit) (some (.key "both")))
      [("op", .string "f"), ("key", .string "both"), ("field", .string "b")] :=
    { distinct := by decide
      field := .present "b"
      operator := .name "f" (by decide) (fun s => by cases s <;> decide)
      value := .leftOut
      predicate := .leftOut
      outcome := .inr ⟨rfl, by
        simp only [Selector.OutcomeWritten, Selector.Written]
        exact ⟨_, rfl, rfl⟩⟩
      others := others_of_conditionNames (by decide) }
  have ha : ({ field := "a", value := some (.bool true) } : Condition Unit).Written
      (Selector.OutcomeWritten (C := Unit) (some (.sequence [
        .branch { field := "b", operator := .custom (.reference "f") } (some (.key "both")),
        .key "only"])))
      [("key", .list [
        .ofFields [("op", .string "f"), ("key", .string "both"), ("field", .string "b")],
        .string "only"]), ("field", .string "a"), ("value", .bool true)] :=
    { distinct := by decide
      field := .present "a"
      operator := .leftOut
      value := .present ⟨by simp, by simp only [Json.HasDistinctNames], by simp only [Json.toTree]⟩
      predicate := .leftOut
      outcome := .inr ⟨rfl, by
        simp only [Selector.OutcomeWritten, Selector.Written, Selector.EntriesWritten]
        exact ⟨_, rfl, _, rfl, _, _, rfl, hb, rfl, _, rfl, rfl⟩⟩
      others := others_of_conditionNames (by decide) }
  simp only [chainedSelector, Selector.Written, Selector.EntriesWritten]
  exact ⟨_, rfl, _, _, rfl, ha, rfl, _, _, rfl, .call "pick", _, rfl, rfl⟩

/-- The chained selector is read back. -/
theorem read_back_chainedSelector :
    chainedSelector.Declarative ∧
      Decode.selector (Json.array [
        .object [("key", .array [
          .object [("op", .string "f"), ("key", .string "both"), ("field", .string "b")],
          .string "only"]), ("field", .string "a"), ("value", .bool true)],
        .object [("call", .string "pick")],
        .string "none"]).toTree = .ok chainedSelector := by
  obtain ⟨-, hread⟩ := written_selectors_read chainedSelector declarative_chainedSelector
  refine ⟨declarative_chainedSelector, (hread _ written_chainedSelector).2.2 ?_⟩
  simp [chainedSelector, Selector.HasNoLoneKey, Selector.EntriesHaveNoLoneKey,
    Selector.OutcomeHasNoLoneKey]

end FormRouting
