import FormRouting.Proofs.Written.Condition

/-!
# The accepted form of conditions

Besides its written form, a record of named fields, a condition can be a list of its
parts in order, where parts at the end may be left out. A decoder takes these two
forms of a JSON value and no other.

* `Condition.WrittenInOrder`: the elements of a list that stands for a condition.
* `Decode.part`: what is read of a part that may be left out; `part_string_iff` and
  its like say for every kind of part what it can be.
* `ConditionParts.Reads`: what reading one field of a record can do.
* `ConditionParts.Filled`: what reading all of them has done; `filled_of_conditionEntries`.
* `PartsRead`: what is read of the parts, wherever they stand;
  `partsRead_of_record`, `partsRead_list_iff`.
* `condition_ofFields_iff`, `condition_list_iff`: **a JSON value is read as a condition
  exactly if it has one of the two forms.**
-/

namespace FormRouting

variable {C α : Type}

/-- **The elements of a list that stands for a condition**: its parts in order, of which the last
ones may be left out. `outcome` tells how its outcome may be written. -/
structure Condition.WrittenInOrder (c : Condition C) (outcome : Option Tree → Prop)
    (items : List Tree) : Prop where
  length : items.length ≤ 5
  field : WrittenField c.field items[0]?
  operator : c.operator.Written items[1]?
  value : WrittenOptional WrittenValue c.value items[2]?
  predicate : WrittenOptional Predicate.Written c.predicate items[3]?
  outcome : outcome items[4]?

/-! ## Trees of JSON values -/

/-- The tree stands for a JSON value, whose names are distinct at any depth. -/
def Tree.IsJson (t : Tree) : Prop := ∃ v : Json, v.HasDistinctNames ∧ v.toTree = t

namespace Tree.IsJson

variable {t : Tree}

theorem isClean (h : t.IsJson) : t.IsClean := by
  obtain ⟨v, hv, rfl⟩ := h
  exact Json.isClean_toTree hv

theorem untag (h : t.IsJson) : t.untag = t := by
  obtain ⟨v, -, rfl⟩ := h
  cases v <;> simp only [Json.toTree, Tree.untag]

/-- A field that is found in a record of JSON values is one of them. -/
theorem of_lookup {fields : List (String × Tree)} (h : ∀ e ∈ fields, e.2.IsJson) (name : String) :
    ∀ t ∈ fields.lookup name, t.IsJson := by
  intro t ht
  exact h (name, t) (mem_of_lookup ht)

end Tree.IsJson

namespace Decode

/-! ## Parts -/

/-- A computation succeeds after another one if both do. -/
theorem bind_eq_ok_iff {ε β γ : Type} {first : Except ε β} {second : β → Except ε γ} {c : γ} :
    first >>= second = .ok c ↔ ∃ b, first = .ok b ∧ second b = .ok c := by
  cases first with
  | error cause => simp [bind, Except.bind]
  | ok b => simp [bind, Except.bind]

theorem map_eq_ok_iff {β γ : Type} {first : Decoded β} {f : β → γ} {c : γ} :
    first.map f = .ok c ↔ ∃ b, first = .ok b ∧ f b = c := by
  cases first <;> simp [Except.map]

/-- What is read of a part that may be left out. -/
def part (default : α) (decode : Tree → Decoded α) : Option Tree → Decoded α
  | none => .ok default
  | some t => decode t

theorem string_iff {t : Tree} (h : t.IsJson) {s : String} :
    string t = .ok s ↔ WrittenString s t := by
  unfold string WrittenString
  rw [h.untag]
  cases t <;> simp

/-- A predicate is read from any tree that is read as a string, except the empty one. -/
theorem predicate_eq_ok_iff {t : Tree} {p : Predicate C} :
    predicate t = .ok p ↔ ∃ name, string t = .ok name ∧ name ≠ "" ∧ p = .reference name := by
  unfold predicate
  rw [bind_eq_ok_iff]
  refine exists_congr fun name => and_congr_right fun _ => ?_
  by_cases he : name = ""
  · simp [he, throw, throwThe, MonadExceptOf.throw, bind, Except.bind]
  · simp only [String.isEmpty_iff, he, if_false, pure, Except.pure, bind, Except.bind,
      Except.ok.injEq, ne_eq, not_false_eq_true, true_and]
    exact eq_comm

theorem predicate_iff {t : Tree} (h : t.IsJson) {p : Predicate C} :
    predicate t = .ok p ↔ p.Written t := by
  rw [predicate_eq_ok_iff]
  constructor
  · rintro ⟨name, hname, hne, rfl⟩
    exact (string_iff h).1 hname ▸ .name name hne
  · rintro ⟨name, hne⟩
    exact ⟨name, rfl, hne, rfl⟩

theorem operator_iff {t : Tree} {op : Operator C} : operator t = .ok op ↔ op.Written (some t) := by
  refine ⟨fun ho => ?_, operator_of_written⟩
  cases t with
  | null =>
    cases ho
    exact .null
  | string s =>
    simp only [operator] at ho
    by_cases he : s.isEmpty = true
    · rw [if_pos he] at ho
      cases ho
      rw [String.isEmpty_iff.1 he]
      exact .empty
    · rw [if_neg he] at ho
      cases hs : Comparator.ofSymbol? s with
      | some comparator =>
        simp only [hs] at ho
        cases ho
        have hsymbol : comparator.symbol = s := by simpa using List.find?_some hs
        exact hsymbol ▸ .symbol comparator
      | none =>
        simp only [hs] at ho
        cases ho
        refine .name s (fun hn => he (hn ▸ rfl)) fun comparator hc => ?_
        rw [← hc, ofSymbol?_symbol] at hs
        cases hs
  | _ => cases ho

/-- A JSON value other than `null` is read as itself. -/
theorem json_iff {t : Tree} (h : t.IsJson) (hne : t ≠ .null) {v : Json} :
    json t = .ok v ↔ WrittenValue v t := by
  refine ⟨fun hv => ?_, fun hv => (json_of_written hv).2⟩
  obtain ⟨w, hw, rfl⟩ := h
  have hne' : w ≠ .null := fun hn => hne (hn ▸ rfl)
  have hread := (json_of_written ⟨hne', hw, rfl⟩).2
  rw [hread] at hv
  cases hv
  exact ⟨hne', hw, rfl⟩

theorem optional_iff {decode : Tree → Decoded α} {written : α → Tree → Prop} {t : Tree}
    (hnull : ∀ a, ¬ written a .null) (h : t ≠ .null → ∀ a, decode t = .ok a ↔ written a t)
    {a : Option α} : optional decode t = .ok a ↔ WrittenOptional written a (some t) := by
  by_cases ht : t = .null
  · subst ht
    constructor
    · rintro ⟨⟩
      exact .null
    · intro hw
      cases hw with
      | null => rfl
      | present hw => exact absurd hw (hnull _)
  · rw [optional_of_ne_null decode ht]
    constructor
    · intro ha
      cases hd : decode t with
      | error cause =>
        rw [hd] at ha
        cases ha
      | ok b =>
        rw [hd] at ha
        cases ha
        exact .present ((h ht b).1 hd)
    · intro hw
      cases hw with
      | null => exact absurd rfl ht
      | present hw =>
        rw [(h ht _).2 hw]
        rfl

/-- An optional part can be left out. -/
theorem part_optional_iff {decode : Tree → Decoded α} {written : α → Tree → Prop}
    (hnull : ∀ a, ¬ written a .null) {t? : Option Tree}
    (h : ∀ t ∈ t?, t ≠ .null → ∀ a, decode t = .ok a ↔ written a t) {a : Option α} :
    part none (optional decode) t? = .ok a ↔ WrittenOptional written a t? := by
  cases t? with
  | none =>
    constructor
    · rintro ⟨⟩
      exact .leftOut
    · intro hw
      exact hw.eq_none ▸ rfl
  | some t => exact optional_iff hnull (h t rfl)

section

variable {t? : Option Tree} (h : ∀ t ∈ t?, t.IsJson)

include h

theorem part_string_iff {field : String} :
    part "" string t? = .ok field ↔ WrittenField field t? := by
  cases t? with
  | none =>
    constructor
    · rintro ⟨⟩
      exact .leftOut
    · intro hw
      exact hw.eq_empty ▸ rfl
  | some t =>
    refine (string_iff (h t rfl)).trans ⟨?_, ?_⟩
    · rintro rfl
      exact .present field
    · intro hw
      cases hw with
      | present => rfl

omit h in
theorem part_operator_iff {op : Operator C} :
    part (.builtIn .implicit) operator t? = .ok op ↔ op.Written t? := by
  cases t? with
  | none =>
    constructor
    · rintro ⟨⟩
      exact .leftOut
    · intro hw
      exact hw.eq_implicit ▸ rfl
  | some t => exact operator_iff

theorem part_json_iff {v : Option Json} :
    part none (optional json) t? = .ok v ↔ WrittenOptional WrittenValue v t? := by
  refine part_optional_iff (fun v hv => ?_) fun t ht hne v => json_iff (h t ht) hne
  exact Json.toTree_ne_null hv.ne_null hv.eq.symm

theorem part_predicate_iff {p : Option (Predicate C)} :
    part none (optional Decode.predicate) t? = .ok p ↔
      WrittenOptional Predicate.Written p t? :=
  part_optional_iff (fun _ hp => nomatch hp) fun t ht _ _ => predicate_iff (h t ht)

theorem part_outcome_iff {next : Option String} :
    part none (optional string) t? = .ok next ↔
      WrittenOptional WrittenString next t? :=
  part_optional_iff (fun _ hs => nomatch hs) fun t ht _ _ => string_iff (h t ht)

end

/-- **What is read of the five parts** of a condition, of which every one can be left out. -/
structure PartsRead (parts : Nat → Option Tree) (c : Condition C) (next : Option String) :
    Prop where
  field : part "" string (parts 0) = .ok c.field
  operator : part (.builtIn .implicit) Decode.operator (parts 1) = .ok c.operator
  value : part none (optional json) (parts 2) = .ok c.value
  predicate : part none (optional Decode.predicate) (parts 3) = .ok c.predicate
  outcome : part none (optional string) (parts 4) = .ok next

/-! ## Records -/

namespace ConditionParts

/-- **What reading a field can do.** A field that stands for a part is read into it, and must be the
first one; any other field is passed over. -/
inductive Reads (decode : Tree → Decoded α) (parts : ConditionParts C α) (t : Tree) :
    Option Nat → ConditionParts C α → Prop where
  | field {s : String} (empty : parts.field = none) (h : string t = .ok s) :
      Reads decode parts t (some 0) { parts with field := some s }
  | operator {op : Operator C} (empty : parts.operator = none) (h : Decode.operator t = .ok op) :
      Reads decode parts t (some 1) { parts with operator := some op }
  | value {v : Option Json} (empty : parts.value = none) (h : optional json t = .ok v) :
      Reads decode parts t (some 2) { parts with value := some v }
  | predicate {p : Option (Predicate C)} (empty : parts.predicate = none)
      (h : optional Decode.predicate t = .ok p) :
      Reads decode parts t (some 3) { parts with predicate := some p }
  | outcome {n : Nat} {o : Option α} (empty : parts.outcome = none)
      (h : optional decode t = .ok o) :
      Reads decode parts t (some (n + 4)) { parts with outcome := some o }
  | skipped : Reads decode parts t none parts

/-- A part that is read after a check that it is empty so far. -/
theorem bind_eq_ok {β γ : Type} {held : Option β} {e : DecodeError} {read : Decoded γ}
    {put : γ → ConditionParts C α} {parts : ConditionParts C α}
    (h : (if held.isSome then throw e else read >>= fun b => pure (put b)) = .ok parts) :
    held = none ∧ ∃ b, read = .ok b ∧ parts = put b := by
  cases held with
  | some b => cases h
  | none =>
    cases read with
    | error cause => cases h
    | ok b =>
      cases h
      exact ⟨rfl, b, rfl, rfl⟩

theorem reads_of_read {format : Format} {decode : Tree → Decoded α}
    {parts parts' : ConditionParts C α} {name t : Tree}
    (h : parts.read format decode name t = .ok parts') :
    ∃ place, field? format conditionFields name = .ok place ∧
      parts.Reads decode t place parts' := by
  unfold read at h
  cases hplace : field? format conditionFields name with
  | error cause =>
    rw [hplace] at h
    cases h
  | ok place =>
    refine ⟨place, rfl, ?_⟩
    rw [hplace] at h
    match place with
    | some 0 =>
      obtain ⟨hempty, s, hs, rfl⟩ := bind_eq_ok h
      exact .field hempty hs
    | some 1 =>
      obtain ⟨hempty, op, hop, rfl⟩ := bind_eq_ok h
      exact .operator hempty hop
    | some 2 =>
      obtain ⟨hempty, v, hv, rfl⟩ := bind_eq_ok h
      exact .value hempty hv
    | some 3 =>
      obtain ⟨hempty, p, hp, rfl⟩ := bind_eq_ok h
      exact .predicate hempty hp
    | some (n + 4) =>
      obtain ⟨hempty, o, ho, rfl⟩ := bind_eq_ok h
      exact .outcome hempty ho
    | none =>
      cases hskip : skip t with
      | error cause =>
        simp only [bind, Except.bind, hskip] at h
        cases h
      | ok _ =>
        simp only [bind, Except.bind, hskip] at h
        cases h
        exact .skipped

/-- A part, before and after reading a record that has `written` under the name of the part. -/
inductive Fills {β : Type} (decode : Tree → Decoded β) :
    (written : Option Tree) → (held held' : Option β) → Prop where
  | leftOut {held : Option β} : Fills decode none held held
  | read {t : Tree} {b : β} (h : decode t = .ok b) : Fills decode (some t) none (some b)

/-- **What reading a record has done**: what stands under the name of a part has been read into the
part, and the outcome stands under one of its two names only. -/
structure Filled (decode : Tree → Decoded α) (fields : List (String × Tree))
    (parts parts' : ConditionParts C α) : Prop where
  field : Fills string (fields.lookup "field") parts.field parts'.field
  operator : Fills Decode.operator (fields.lookup "op") parts.operator parts'.operator
  value : Fills (optional json) (fields.lookup "value") parts.value parts'.value
  predicate : Fills (optional Decode.predicate) (fields.lookup "fn") parts.predicate parts'.predicate
  one_outcome : fields.lookup "next" = none ∨ fields.lookup "key" = none
  outcome : Fills (optional decode) ((fields.lookup "next").or (fields.lookup "key"))
    parts.outcome parts'.outcome

/-- A part that holds something stays as it is, and nothing more stands under its name. -/
theorem Fills.of_some {β : Type} {decode : Tree → Decoded β} {written : Option Tree} {b : β}
    {held' : Option β} (h : Fills decode written (some b) held') :
    written = none ∧ held' = some b := by
  cases h with
  | leftOut => exact ⟨rfl, rfl⟩

/-- What was read first is what the part holds in the end. -/
theorem Fills.of_first {β : Type} {decode : Tree → Decoded β} {t : Tree} {b : β}
    {written : Option Tree} {held held' : Option β} (hempty : held = none)
    (hb : decode t = .ok b) (h : Fills decode written (some b) held') :
    Fills decode (some t) held held' := by
  obtain ⟨-, rfl⟩ := h.of_some
  rw [hempty]
  exact .read hb

/-- One field, and then the others. -/
theorem Filled.cons {decode : Tree → Decoded α} {name : String} {t : Tree}
    {rest : List (String × Tree)} {parts read parts' : ConditionParts C α} {place : Option Nat}
    (hplace : field? .choice conditionFields (.string name) = .ok place)
    (hread : parts.Reads decode t place read) (h : Filled decode rest read parts') :
    Filled decode ((name, t) :: rest) parts parts' := by
  by_cases hn : name ∈ conditionNames
  · simp only [conditionNames, List.mem_cons, List.not_mem_nil, or_false] at hn
    -- by the part that the name stands for; nothing else changes
    rcases hn with rfl | rfl | rfl | rfl | rfl | rfl
    · obtain rfl : some 0 = place := Except.ok.inj hplace
      cases hread with
      | field hempty hs =>
        exact ⟨h.field.of_first hempty hs, h.operator, h.value, h.predicate, h.one_outcome, h.outcome⟩
    · obtain rfl : some 1 = place := Except.ok.inj hplace
      cases hread with
      | operator hempty hop =>
        exact ⟨h.field, h.operator.of_first hempty hop, h.value, h.predicate, h.one_outcome, h.outcome⟩
    · obtain rfl : some 2 = place := Except.ok.inj hplace
      cases hread with
      | value hempty hv =>
        exact ⟨h.field, h.operator, h.value.of_first hempty hv, h.predicate, h.one_outcome, h.outcome⟩
    · obtain rfl : some 3 = place := Except.ok.inj hplace
      cases hread with
      | predicate hempty hp =>
        exact ⟨h.field, h.operator, h.value, h.predicate.of_first hempty hp, h.one_outcome, h.outcome⟩
    · obtain rfl : some 4 = place := Except.ok.inj hplace
      cases hread with
      | outcome hempty ho =>
        obtain ⟨hnext, hkey⟩ := Option.or_eq_none_iff.1 h.outcome.of_some.1
        exact ⟨h.field, h.operator, h.value, h.predicate, .inr hkey,
          h.outcome.of_first hempty ho⟩
    · obtain rfl : some 4 = place := Except.ok.inj hplace
      cases hread with
      | outcome hempty ho =>
        obtain ⟨hnext, hkey⟩ := Option.or_eq_none_iff.1 h.outcome.of_some.1
        refine ⟨h.field, h.operator, h.value, h.predicate, .inl hnext, ?_⟩
        show Fills _ ((rest.lookup "next").or (some t)) _ _
        rw [hnext]
        exact h.outcome.of_first hempty ho
  · rw [field?_of_notMem hn] at hplace
    obtain rfl : none = place := Except.ok.inj hplace
    simp only [conditionNames, List.mem_cons, List.not_mem_nil, or_false, not_or] at hn
    obtain ⟨h₁, h₂, h₃, h₄, h₅, h₆⟩ := hn
    cases hread with
    | skipped =>
      have hlookup : ∀ {other : String}, name ≠ other →
          ((name, t) :: rest).lookup other = rest.lookup other := by
        intro other hne
        rw [List.lookup_cons, beq_false_of_ne (Ne.symm hne)]
      refine ⟨?_, ?_, ?_, ?_, ?_, ?_⟩
      · exact (hlookup h₁).symm ▸ h.field
      · exact (hlookup h₂).symm ▸ h.operator
      · exact (hlookup h₃).symm ▸ h.value
      · exact (hlookup h₄).symm ▸ h.predicate
      · exact (hlookup h₅).symm ▸ (hlookup h₆).symm ▸ h.one_outcome
      · exact (hlookup h₅).symm ▸ (hlookup h₆).symm ▸ h.outcome

end ConditionParts

open ConditionParts

/-- The first field is read, and then the others. -/
theorem reads_of_conditionEntries {decode : Tree → Decoded α} {name : String} {t : Tree}
    {rest : List (String × Tree)} {parts parts' : ConditionParts C α}
    (h : conditionEntries .choice decode parts (Tree.named ((name, t) :: rest)) = .ok parts') :
    ∃ place read, field? .choice conditionFields (.string name) = .ok place ∧
      parts.Reads decode t place read ∧
      conditionEntries .choice decode read (Tree.named rest) = .ok parts' := by
  change conditionEntries .choice decode parts ((.string name, t) :: Tree.named rest) = _ at h
  simp only [conditionEntries, bind, Except.bind] at h
  cases hread : parts.read .choice decode (.string name) t with
  | error cause =>
    rw [hread] at h
    cases h
  | ok read =>
    rw [hread] at h
    obtain ⟨place, hplace, hreads⟩ := reads_of_read hread
    exact ⟨place, read, hplace, hreads, h⟩

/-- **All fields**, one after the other. -/
theorem filled_of_conditionEntries {decode : Tree → Decoded α} {fields : List (String × Tree)}
    {parts parts' : ConditionParts C α}
    (h : conditionEntries .choice decode parts (Tree.named fields) = .ok parts') :
    Filled decode fields parts parts' := by
  induction fields generalizing parts with
  | nil =>
    cases h
    exact ⟨.leftOut, .leftOut, .leftOut, .leftOut, .inl rfl, .leftOut⟩
  | cons e rest ih =>
    obtain ⟨place, read, hplace, hreads, hrest⟩ := reads_of_conditionEntries h
    exact .cons hplace hreads (ih hrest)

/-- Of a part that nothing was read into, the default is left. -/
theorem part_of_fills {β : Type} {decode : Tree → Decoded β} {written : Option Tree}
    {held : Option β} (h : Fills decode written none held) (default : β) :
    part default decode written = .ok (held.getD default) := by
  cases h with
  | leftOut => rfl
  | read h => exact h

/-- The parts of a condition that is a record. -/
def namedParts (fields : List (String × Tree)) : Nat → Option Tree
  | 0 => fields.lookup "field"
  | 1 => fields.lookup "op"
  | 2 => fields.lookup "value"
  | 3 => fields.lookup "fn"
  | _ => (fields.lookup "next").or (fields.lookup "key")

/-- **A record that is read as a condition** has one outcome at most. -/
theorem partsRead_of_record {fields : List (String × Tree)} {c : Condition C}
    {next : Option String} (h : condition .choice string (Tree.ofFields fields) = .ok (c, next)) :
    PartsRead (namedParts fields) c next ∧
      (fields.lookup "next" = none ∨ fields.lookup "key" = none) := by
  simp only [condition, Tree.ofFields] at h
  cases hentries : conditionEntries (C := C) .choice string {} (Tree.named fields) with
  | error cause =>
    rw [hentries] at h
    cases h
  | ok parts =>
    rw [hentries] at h
    cases h
    have hfilled := filled_of_conditionEntries hentries
    exact
      ⟨{ field := part_of_fills hfilled.field _
         operator := part_of_fills hfilled.operator _
         value := part_of_fills hfilled.value _
         predicate := part_of_fills hfilled.predicate _
         outcome := part_of_fills hfilled.outcome _ },
        hfilled.one_outcome⟩

/-- Of a JSON value, the parts that are read write the condition. -/
theorem written_of_partsRead {fields : List (String × Tree)} (hd : (fields.map Prod.fst).Nodup)
    (hjson : ∀ e ∈ fields, e.2.IsJson) {c : Condition C} {next : Option String}
    (h : PartsRead (namedParts fields) c next)
    (hone : fields.lookup "next" = none ∨ fields.lookup "key" = none) :
    c.Written (WrittenOptional WrittenString next) fields := by
  have hlookup := Tree.IsJson.of_lookup hjson
  refine
    { distinct := hd
      field := (part_string_iff (hlookup _)).1 h.field
      operator := part_operator_iff.1 h.operator
      value := (part_json_iff (hlookup _)).1 h.value
      predicate := (part_predicate_iff (hlookup _)).1 h.predicate
      outcome := ?_
      others := fun e he _ => (hjson e he).isClean }
  have houtcome := h.outcome
  simp only [namedParts] at houtcome
  rcases hone with hnext | hkey
  · rw [hnext, Option.none_or] at houtcome
    exact .inr ⟨hnext, (part_outcome_iff (hlookup _)).1 houtcome⟩
  · rw [hkey, Option.or_none] at houtcome
    exact .inl ⟨hkey, (part_outcome_iff (hlookup _)).1 houtcome⟩

/-- **A record is read as a condition exactly if it writes it.** -/
theorem condition_ofFields_iff {fields : List (String × Tree)}
    (hd : (fields.map Prod.fst).Nodup) (hjson : ∀ e ∈ fields, e.2.IsJson) {c : Condition C}
    {next : Option String} :
    condition .choice string (Tree.ofFields fields) = .ok (c, next) ↔
      c.Written (WrittenOptional WrittenString next) fields := by
  refine ⟨fun h => ?_, fun h => ?_⟩
  · obtain ⟨hparts, hone⟩ := partsRead_of_record h
    exact written_of_partsRead hd hjson hparts hone
  · exact condition_of_written h (fun hn => hn.eq_none) fun t ht =>
      optional_of_written (fun _ _ => string_of_written) ht

/-! ## Lists -/

/-- The part at a place of a list is read, and the elements behind it are left. -/
theorem next_eq_ok_iff {default a : α} {decode : Tree → Decoded α} {items rest : List Tree} :
    next default decode items = .ok (a, rest) ↔
      part default decode items[0]? = .ok a ∧ rest = items.drop 1 := by
  cases items with
  | nil => simp [next, part, eq_comm]
  | cons t others =>
    simp only [next, List.getElem?_cons_zero, part, List.drop_succ_cons, List.drop_zero]
    cases decode t with
    | error cause => simp [Except.map]
    | ok b => simp [Except.map, eq_comm]

/-- A list ends where no element is left, whatever the format. -/
theorem listEnd_eq_ok_iff {format : Format} {n : Nat} {rest : List Tree} :
    listEnd format n rest = .ok () ↔ rest = [] := by
  cases rest with
  | nil => simp [listEnd]
  | cons t others =>
    refine ⟨fun h => ?_, fun h => nomatch h⟩
    simp only [listEnd] at h
    split at h <;> cases h

/-- **A list is read as a condition** part by part. -/
theorem partsRead_list_iff {items : List Tree} {c : Condition C} {next : Option String} :
    condition .choice string (.list items) = .ok (c, next) ↔
      items.length ≤ 5 ∧ PartsRead (items[·]?) c next := by
  have hlength : items.drop 5 = [] ↔ items.length ≤ 5 := List.drop_eq_nil_iff
  simp only [condition, conditionItems, bind_eq_ok_iff, Prod.exists, next_eq_ok_iff]
  constructor
  · rintro ⟨field, _, ⟨hfield, rfl⟩, op, _, ⟨hop, rfl⟩, v, _, ⟨hv, rfl⟩, p, _, ⟨hp, rfl⟩, o, _,
      ⟨ho, rfl⟩, _, hend, hc⟩
    cases hc
    simp only [List.drop_drop, List.getElem?_drop] at hop hv hp ho hend
    exact ⟨hlength.1 (listEnd_eq_ok_iff.1 hend), hfield, hop, hv, hp, ho⟩
  · rintro ⟨hle, h⟩
    have hend : listEnd .choice items.length (items.drop 5) = .ok () :=
      listEnd_eq_ok_iff.2 (hlength.2 hle)
    refine ⟨c.field, _, ⟨h.field, rfl⟩, c.operator, _, ⟨?_, rfl⟩, c.value, _, ⟨?_, rfl⟩,
      c.predicate, _, ⟨?_, rfl⟩, next, _, ⟨?_, rfl⟩, (), ?_, rfl⟩ <;>
      simp only [List.drop_drop, List.getElem?_drop]
    · exact h.operator
    · exact h.value
    · exact h.predicate
    · exact h.outcome
    · exact hend

/-- **A list is read as a condition exactly if its elements are the parts in order.** -/
theorem condition_list_iff {items : List Tree} (hjson : ∀ t ∈ items, t.IsJson) {c : Condition C}
    {next : Option String} :
    condition .choice string (.list items) = .ok (c, next) ↔
      c.WrittenInOrder (WrittenOptional WrittenString next) items := by
  have hitem : ∀ i : Nat, ∀ t ∈ items[i]?, t.IsJson :=
    fun i t ht => hjson t (List.mem_of_getElem? ht)
  rw [partsRead_list_iff]
  constructor
  · rintro ⟨hlength, h⟩
    exact
      { length := hlength
        field := (part_string_iff (hitem 0)).1 h.field
        operator := part_operator_iff.1 h.operator
        value := (part_json_iff (hitem 2)).1 h.value
        predicate := (part_predicate_iff (hitem 3)).1 h.predicate
        outcome := (part_outcome_iff (hitem 4)).1 h.outcome }
  · intro h
    exact ⟨h.length,
      { field := (part_string_iff (hitem 0)).2 h.field
        operator := part_operator_iff.2 h.operator
        value := (part_json_iff (hitem 2)).2 h.value
        predicate := (part_predicate_iff (hitem 3)).2 h.predicate
        outcome := (part_outcome_iff (hitem 4)).2 h.outcome }⟩

end Decode

end FormRouting
