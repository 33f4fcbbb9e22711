import FormRouting.Proofs.Binding.Callables
import FormRouting.Proofs.FirstMatch

/-!
# Conditions that nothing decides

A condition that is left to a predicate without a function never holds, and no call is made
for it. So it can be taken out of a selector, with its outcome and at any depth, and the
key and the calls stay as they are.

* `Condition.isOpen`: what decides the condition has no function.
* `Selector.eraseOpen`: a selector without its open conditions; `isOpen_of_mem_eraseOpen`:
  none is left at any depth.
* `verdict_of_isOpen`: an open condition does not hold and makes no call.
* `Answer.Within`: the same key and the same calls, with some of the look-ups;
  `firstMatch_eraseOpen`: what the nested search gives for the erased selector.
* `eraseOpen_resolves_alike`: **open conditions can be erased**; a predicate decides alone
  which conditions are open, whatever stands beside it.
-/

namespace FormRouting

variable {C : Type}

/-! ## Erasing -/

/-- What decides the condition has no function: its predicate if it has one, else a predicate in
place of the operator. -/
def Condition.isOpen (c : Condition C) : Bool :=
  match c.predicate with
  | some p => !p.isBound
  | none =>
    match c.operator with
    | .custom p => !p.isBound
    | .builtIn _ => false

namespace Selector

mutual

/-- The selector without its open conditions, at every level; all else stays in place. -/
def eraseOpen : Selector C → Selector C
  | .key k => .key k
  | .function f => .function f
  | .sequence entries => .sequence (eraseOpenEntries entries)

def eraseOpenEntries : List (Entry C) → List (Entry C)
  | [] => []
  | .key k :: rest => .key k :: eraseOpenEntries rest
  | .function f :: rest => .function f :: eraseOpenEntries rest
  | .branch c outcome :: rest =>
    if c.isOpen then eraseOpenEntries rest
    else .branch c (eraseOpenOutcome outcome) :: eraseOpenEntries rest

def eraseOpenOutcome : Option (Selector C) → Option (Selector C)
  | none => none
  | some s => some (eraseOpen s)

end

theorem eraseOpenEntries_append (before after : List (Entry C)) :
    eraseOpenEntries (before ++ after) = eraseOpenEntries before ++ eraseOpenEntries after := by
  induction before with
  | nil => rfl
  | cons entry rest ih =>
    cases entry with
    | key k => simp only [List.cons_append, eraseOpenEntries, ih]
    | function f => simp only [List.cons_append, eraseOpenEntries, ih]
    | branch c outcome =>
      simp only [List.cons_append, eraseOpenEntries]
      split
      · exact ih
      · rw [ih, List.cons_append]

mutual

/-- No open condition is left, at any depth. -/
theorem isOpen_of_mem_eraseOpen (s : Selector C) : ∀ c ∈ s.eraseOpen.conditions, c.isOpen = false := by
  cases s with
  | key k => exact List.forall_mem_nil _
  | function f => exact List.forall_mem_nil _
  | sequence entries =>
    simp only [eraseOpen, conditions]
    exact isOpen_of_mem_eraseOpenEntries entries

theorem isOpen_of_mem_eraseOpenEntries (entries : List (Entry C)) :
    ∀ c ∈ conditionsOfEntries (eraseOpenEntries entries), c.isOpen = false := by
  match entries with
  | [] => exact List.forall_mem_nil _
  | .key k :: rest => exact isOpen_of_mem_eraseOpenEntries rest
  | .function f :: rest => exact isOpen_of_mem_eraseOpenEntries rest
  | .branch c outcome :: rest =>
    have hrest := isOpen_of_mem_eraseOpenEntries rest
    simp only [eraseOpenEntries]
    by_cases hc : c.isOpen = true
    · rw [if_pos hc]
      exact hrest
    · rw [if_neg hc]
      simp only [conditionsOfEntries, conditionsOfEntry, List.cons_append]
      refine List.forall_mem_cons.2 ⟨(Bool.not_eq_true _).mp hc, List.forall_mem_append.2 ⟨?_, hrest⟩⟩
      exact isOpen_of_mem_eraseOpenOutcome outcome

theorem isOpen_of_mem_eraseOpenOutcome (outcome : Option (Selector C)) :
    ∀ c ∈ conditionsOfOutcome (eraseOpenOutcome outcome), c.isOpen = false := by
  cases outcome with
  | none => exact List.forall_mem_nil _
  | some s =>
    simp only [eraseOpenOutcome, conditionsOfOutcome]
    exact isOpen_of_mem_eraseOpen s

end

end Selector

/-! ## The search through what is left -/

section

variable (source : Source) (ctx : C)

/-- An open condition does not hold, and makes no call. -/
theorem verdict_of_isOpen {c : Condition C} (h : c.isOpen = true) (current : Option Json) :
    c.verdict .carried ctx current = (false, []) := by
  obtain ⟨field, operator, value, predicate⟩ := c
  have hconsult : ∀ p : Predicate C, (!p.isBound) = true → ∀ operands,
      p.consult .carried ctx current operands = (false, []) := by
    rintro ⟨name, body⟩ hp operands
    cases body with
    | none => rfl
    | some body => cases hp
  cases predicate with
  | some p => exact hconsult p h _
  | none =>
    cases operator with
    | custom p => exact hconsult p h _
    | builtIn comparator => cases h

namespace Answer

/-- The same key and the same calls, with no other look-ups and in the same order. -/
structure Within (a b : Answer) : Prop where
  key : a.key = b.key
  calls : a.calls = b.calls
  lookups : a.lookups.Sublist b.lookups

theorem Within.refl (a : Answer) : Within a a := ⟨rfl, rfl, List.Sublist.refl _⟩

/-- The same test before both. -/
theorem Within.afterTest {a b : Answer} (h : Within a b) (field : String) (calls : List Call) :
    Within (.afterTest field calls a) (.afterTest field calls b) :=
  ⟨h.key, congrArg (calls ++ ·) h.calls, h.lookups.cons_cons field⟩

/-- A test without a call, before one of them only. -/
theorem Within.skip {a b : Answer} (h : Within a b) (field : String) :
    Within a (.afterTest field [] b) :=
  ⟨h.key, h.calls, h.lookups.cons field⟩

end Answer

namespace Selector

mutual

/-- **The erased selector is searched with fewer look-ups**, and all else is the same. -/
theorem firstMatch_eraseOpen (s : Selector C) :
    (s.eraseOpen.firstMatch .carried source ctx).Within (s.firstMatch .carried source ctx) := by
  cases s with
  | key k => exact .refl _
  | function f => exact .refl _
  | sequence entries =>
    simp only [eraseOpen, firstMatch]
    exact firstHit_eraseOpen entries

theorem firstHit_eraseOpen (entries : List (Entry C)) :
    (firstHit .carried source ctx (eraseOpenEntries entries)).Within
      (firstHit .carried source ctx entries) := by
  match entries with
  | [] => exact .refl _
  | .key k :: rest =>
    simp only [eraseOpenEntries, firstHit]
    exact .refl _
  | .function f :: rest =>
    simp only [eraseOpenEntries, firstHit]
    exact .refl _
  | .branch c outcome :: rest =>
    have hrest := firstHit_eraseOpen rest
    by_cases hc : c.isOpen = true
    · -- only the search through the full selector looks the field up, and it calls nothing
      simp only [eraseOpenEntries, if_pos hc, firstHit, verdict_of_isOpen ctx hc,
        if_neg Bool.false_ne_true]
      exact hrest.skip c.field
    · -- both searches test the condition, and go on in the same way
      simp only [eraseOpenEntries, if_neg hc, firstHit]
      refine Answer.Within.afterTest ?_ _ _
      split
      · exact committed_eraseOpen outcome
      · exact hrest

theorem committed_eraseOpen (outcome : Option (Selector C)) :
    (committed .carried source ctx (eraseOpenOutcome outcome)).Within
      (committed .carried source ctx outcome) := by
  cases outcome with
  | none => exact .refl _
  | some s =>
    simp only [eraseOpenOutcome, committed]
    exact firstMatch_eraseOpen s

end

end Selector

end

/-- **Open conditions can be erased.** For the selector without its open conditions, a resolution
gives the same key and makes the same calls, and looks up no other fields; no open condition is
left in it. A condition with a predicate is kept if that has a function, and erased if not, whatever
its operator and its value. -/
theorem eraseOpen_resolves_alike (s : Selector C) :
    (∀ (source : Source) (ctx : C),
      (s.eraseOpen.resolve source ctx).value = (s.resolve source ctx).value ∧
        calls (s.eraseOpen.resolve source ctx).trace = calls (s.resolve source ctx).trace ∧
        (lookups (s.eraseOpen.resolve source ctx).trace).Sublist
          (lookups (s.resolve source ctx).trace)) ∧
    (∀ c ∈ s.eraseOpen.conditions, c.isOpen = false) ∧
    ∀ (before after : List (Entry C)) (c : Condition C) (outcome : Option (Selector C))
      (p : Predicate C), c.predicate = some p →
      (p.isBound = true → (Selector.sequence (before ++ .branch c outcome :: after)).eraseOpen =
        .sequence (Selector.eraseOpenEntries before ++
          .branch c (Selector.eraseOpenOutcome outcome) :: Selector.eraseOpenEntries after)) ∧
      (p.isBound = false → (Selector.sequence (before ++ .branch c outcome :: after)).eraseOpen =
        (Selector.sequence (before ++ after)).eraseOpen) := by
  refine ⟨fun source ctx => ?_, s.isOpen_of_mem_eraseOpen, fun before after c outcome p hp => ?_⟩
  · have hwithin := s.firstMatch_eraseOpen source ctx
    simp only [value_resolve, calls_resolve, lookups_resolve]
    exact ⟨hwithin.key, hwithin.calls, hwithin.lookups⟩
  · have hopen : c.isOpen = !p.isBound := by rw [Condition.isOpen, hp]
    simp only [Selector.eraseOpen, Selector.eraseOpenEntries_append, Selector.eraseOpenEntries, hopen]
    refine ⟨fun hbound => ?_, fun hbound => ?_⟩
    · rw [hbound]
      rfl
    · rw [hbound]
      rfl

/-! ### Predicates beside operators -/

/-- The value fits, but the predicate has no function. -/
def openPredicate : Condition Unit :=
  { field := "age", value := some (.number (.int 5)), predicate := some (.reference "isChild") }

/-- The operator has no function, but the predicate has one. -/
def openOperator : Condition Unit :=
  { field := "role", operator := .custom (.reference "isStaff")
    predicate := some (.named "known" fun current _ _ => current.isSome) }

/-- The operator has no function, and there is no predicate. -/
def openAlone : Condition Unit := { field := "name", operator := .custom (.reference "isShort") }

def halfBound : Selector Unit :=
  .sequence [.branch openPredicate (some (.key "child")),
    .branch openOperator (some (.sequence [.branch openAlone (some (.key "short")), .key "staff"])),
    .key "any"]

/-- The first condition is erased and the second one decides; inside of its outcome another one is
erased, and the fallback gives the key. -/
theorem resolve_halfBound :
    ((halfBound.eraseOpen.resolve (fun _ => some (.number (.int 5))) ()).value = some "staff" ∧
      calls (halfBound.eraseOpen.resolve (fun _ => some (.number (.int 5))) ()).trace =
        [⟨some "known", some (.number (.int 5)), ⟨"role", none⟩⟩]) ∧
    (openPredicate.predicate = some (.reference "isChild") ∧
      (Predicate.reference "isChild" : Predicate Unit).isBound = false ∧
      halfBound.eraseOpen = (Selector.sequence
        [.branch openOperator
          (some (.sequence [.branch openAlone (some (.key "short")), .key "staff"])),
          .key "any"]).eraseOpen) ∧
    (openOperator.predicate = some (.named "known" fun current _ _ => current.isSome) ∧
      (Predicate.named "known" fun current (_ : Unit) _ => current.isSome).isBound = true ∧
      halfBound.eraseOpen =
        .sequence [.branch openOperator (some (.sequence [.key "staff"])), .key "any"]) := by
  obtain ⟨hresolve, -, hpredicate⟩ := eraseOpen_resolves_alike halfBound
  obtain ⟨hkey, hcalls, -⟩ := hresolve (fun _ => some (.number (.int 5))) ()
  refine ⟨⟨hkey.trans (value_resolve _ () halfBound), hcalls.trans (calls_resolve _ () halfBound)⟩,
    ⟨rfl, rfl, ?_⟩, rfl, rfl, ?_⟩
  · exact (hpredicate [] _ openPredicate _ _ rfl).2 rfl
  · exact (hpredicate [.branch openPredicate (some (.key "child"))] _ openOperator _ _ rfl).1 rfl

end FormRouting
