import FormRouting.Proofs.Binding.Complete
import FormRouting.Proofs.Binding.Untouched
import Mathlib.Data.List.Perm.Basic

/-!
# The order of binding

A binding goes through the callables of a thing in an order that only depends on its shape.
It serves one after the other and stops at the first one that it cannot serve. So the order
decides which name is reported, and which callables are bound when binding stops.

* `each_of_forall`, `each_of_first`: how one attempt for each element of a list ends, one way or
  the other (`each_cases`); `each_of_error`: where it has stopped.
* `Attempt.Follows`: an attempt on a thing that is one attempt for each of its parts.
  `Follows.map`, `Follows.both`, `Follows.each` put such attempts together.
* `bindCondition_follows`, `bindRule_follows`: a rule is bound condition by condition, the
  last one first, and a condition predicate before operator.
* `Selector.visit`, `FieldSet.visit`: the order of selectors and field sets, which leaves
  nothing out (`visit_perm`).
* `bindSelector_follows`, `bindFieldSet_follows`: they are bound in this order.
* `bind_in_order`: **what is reported, what is bound and what is left alone**, by the order.
-/

namespace FormRouting

variable {C α β γ : Type}

/-! ## One after the other -/

namespace Attempt

/-- Nothing stops it. -/
theorem each_of_forall {f : α → Attempt α} {l : List α} (h : ∀ x ∈ l, (f x).error = none) :
    each f l = ⟨l.map fun x => (f x).state, none⟩ := by
  induction l with
  | nil => rfl
  | cons x rest ih =>
    obtain ⟨hx, hrest⟩ := List.forall_mem_cons.1 h
    simp [each, both, Attempt.map, hx, ih hrest]

/-- An element stops it: what stands before that one is done, and what stands after it is as it
was. -/
theorem each_of_first {f : α → Attempt α} {before after : List α} {x : α} {e : BindError}
    (hbefore : ∀ y ∈ before, (f y).error = none) (hx : (f x).error = some e) :
    each f (before ++ x :: after) =
      ⟨before.map (fun y => (f y).state) ++ (f x).state :: after, some e⟩ := by
  induction before with
  | nil => simp [each, both, Attempt.map, hx]
  | cons y rest ih =>
    obtain ⟨hy, hrest⟩ := List.forall_mem_cons.1 hbefore
    simp [each, both, Attempt.map, hy, ih hrest]

/-- One of the two is the case. -/
theorem each_cases (f : α → Attempt α) (l : List α) :
    (∀ x ∈ l, (f x).error = none) ∨ ∃ before x after e, l = before ++ x :: after ∧
      (∀ y ∈ before, (f y).error = none) ∧ (f x).error = some e := by
  induction l with
  | nil => exact .inl (List.forall_mem_nil _)
  | cons x rest ih =>
    cases hx : (f x).error with
    | some e => exact .inr ⟨[], x, rest, e, rfl, List.forall_mem_nil _, hx⟩
    | none =>
      rcases ih with hall | ⟨before, y, after, e, rfl, hbefore, hy⟩
      · exact .inl (List.forall_mem_cons.2 ⟨hx, hall⟩)
      · exact .inr ⟨x :: before, y, after, e, rfl, List.forall_mem_cons.2 ⟨hx, hbefore⟩, hy⟩

/-- What it was that stopped it. -/
theorem each_of_error {f : α → Attempt α} {l : List α} {e : BindError}
    (h : (each f l).error = some e) :
    ∃ before x after, l = before ++ x :: after ∧ (∀ y ∈ before, (f y).error = none) ∧
      (f x).error = some e ∧
      (each f l).state = before.map (fun y => (f y).state) ++ (f x).state :: after := by
  rcases each_cases f l with hall | ⟨before, x, after, e', rfl, hbefore, hx⟩
  · rw [each_of_forall hall] at h
    cases h
  · rw [each_of_first hbefore hx] at h ⊢
    cases h
    exact ⟨before, x, after, rfl, hbefore, hx, rfl⟩

theorem each_singleton (f : α → Attempt α) (x : α) : each f [x] = (f x).map fun x => [x] := by
  simp only [each, both, Attempt.map]
  cases (f x).error <;> rfl

/-- Two lists one after the other. -/
theorem each_append (f : α → Attempt α) (l m : List α) :
    each f (l ++ m) = (both (each f l) (each f m) m).map fun (l, m) => l ++ m := by
  induction l with
  | nil => rfl
  | cons x rest ih =>
    simp only [List.cons_append, each, ih, both, Attempt.map]
    cases (f x).error with
    | some e => rfl
    | none => cases (each f rest).error <;> rfl

/-! ## Part by part -/

/-- The attempt on `x` is one attempt `f` for each of its parts, in the order in which `parts`
lists them. -/
def Follows (a : Attempt α) (f : β → Attempt β) (parts : α → List β) (x : α) : Prop :=
  a.map parts = each f (parts x)

namespace Follows

variable {f : β → Attempt β} {parts : α → List β} {a : Attempt α} {x : α}

theorem error_eq (h : a.Follows f parts x) : a.error = (each f (parts x)).error :=
  congrArg Attempt.error h

theorem parts_state (h : a.Follows f parts x) : parts a.state = (each f (parts x)).state :=
  congrArg Attempt.state h

/-- Where there are no parts, nothing is done. -/
theorem nothing (h : parts x = []) : (⟨x, none⟩ : Attempt α).Follows f parts x := by
  simp only [Follows, Attempt.map, h, each]

/-- Only the parts of a thing count. -/
theorem of_parts {y : α} (h : a.Follows f parts x) (hy : parts y = parts x) :
    a.Follows f parts y := by
  unfold Follows
  rw [hy]
  exact h

theorem map {parts' : γ → List β} (h : a.Follows f parts x) (g : α → γ)
    (hg : ∀ y, parts' (g y) = parts y) : (a.map g).Follows f parts' (g x) := by
  have hmap : (a.map g).map parts' = a.map parts := congrArg (Attempt.mk · a.error) (hg a.state)
  unfold Follows
  rw [hmap, hg]
  exact h

theorem both {b : Attempt γ} {parts' : γ → List β} {y : γ} (h : a.Follows f parts x)
    (h' : b.Follows f parts' y) :
    (a.both b y).Follows f (fun p => parts p.1 ++ parts' p.2) (x, y) := by
  unfold Follows at h h' ⊢
  rw [each_append, ← h, ← h']
  unfold Attempt.both
  cases hx : a.error <;> simp [Attempt.map, hx]

/-- The elements of a list, each of them part by part. -/
theorem each {g : α → Attempt α} (h : ∀ x, (g x).Follows f parts x) (l : List α) :
    (each g l).Follows f (fun l => l.flatMap parts) l := by
  induction l with
  | nil => rfl
  | cons x rest ih => exact ((h x).both ih).map (fun p => p.1 :: p.2) fun _ => List.flatMap_cons

end Follows

end Attempt

/-! ## Callables -/

namespace Registry

open Attempt

variable (r : Registry C)

def bindCallable : Callable C → Attempt (Callable C)
  | .predicate p => (r.bindPredicate p).map .predicate
  | .keyFunction f => (r.bindKeyFunction f).map .keyFunction

/-- A predicate is served, or its name is not registered and it is left alone. -/
theorem bindPredicate_cases (p : Predicate C) :
    (r.canServe (.predicate p) = true ∧ r.bindPredicate p = ⟨r.attach.predicate p, none⟩) ∨
      ∃ name, p = .reference name ∧ r.predicates.get? name = none ∧
        r.bindPredicate p = ⟨p, some (.unknownPredicate name)⟩ := by
  obtain ⟨name, body⟩ := p
  cases body with
  | some body => exact .inl ⟨rfl, rfl⟩
  | none =>
    cases name with
    | none => exact .inl ⟨rfl, rfl⟩
    | some name =>
      cases hg : r.predicates.get? name with
      | some body =>
        refine .inl ⟨by simp [canServe, registers, Callable.name, hg], ?_⟩
        simp [bindPredicate, Predicate.bind, attach, hg]
      | none => exact .inr ⟨name, rfl, hg, by simp [bindPredicate, hg]⟩

theorem bindKeyFunction_cases (f : KeyFunction C) :
    (r.canServe (.keyFunction f) = true ∧ r.bindKeyFunction f = ⟨r.attach.keyFunction f, none⟩) ∨
      ∃ name, f = .reference name ∧ r.keyFunctions.get? name = none ∧
        r.bindKeyFunction f = ⟨f, some (.unknownKeyFunction name)⟩ := by
  obtain ⟨name, body⟩ := f
  cases body with
  | some body => exact .inl ⟨rfl, rfl⟩
  | none =>
    cases name with
    | none => exact .inl ⟨rfl, rfl⟩
    | some name =>
      cases hg : r.keyFunctions.get? name with
      | some body =>
        refine .inl ⟨by simp [canServe, registers, Callable.name, hg], ?_⟩
        simp [bindKeyFunction, KeyFunction.bind, attach, hg]
      | none => exact .inr ⟨name, rfl, hg, by simp [bindKeyFunction, hg]⟩

/-- The callable has a name and no function, and none of its kind is registered under the name;
this is what is reported then. -/
inductive Refuses : Callable C → BindError → Prop where
  | predicate {name : String} (h : r.predicates.get? name = none) :
    Refuses (.predicate (.reference name)) (.unknownPredicate name)
  | keyFunction {name : String} (h : r.keyFunctions.get? name = none) :
    Refuses (.keyFunction (.reference name)) (.unknownKeyFunction name)

/-- A callable is served, or it is refused and left alone. -/
theorem bindCallable_cases (c : Callable C) :
    (r.canServe c = true ∧ r.bindCallable c = ⟨r.attach.apply c, none⟩) ∨
      ∃ e, r.Refuses c e ∧ r.bindCallable c = ⟨c, some e⟩ := by
  cases c with
  | predicate p =>
    rcases r.bindPredicate_cases p with ⟨hc, heq⟩ | ⟨name, rfl, hname, heq⟩
    · exact .inl ⟨hc, congrArg (Attempt.map Callable.predicate) heq⟩
    · exact .inr ⟨_, .predicate hname, congrArg (Attempt.map Callable.predicate) heq⟩
  | keyFunction f =>
    rcases r.bindKeyFunction_cases f with ⟨hc, heq⟩ | ⟨name, rfl, hname, heq⟩
    · exact .inl ⟨hc, congrArg (Attempt.map Callable.keyFunction) heq⟩
    · exact .inr ⟨_, .keyFunction hname, congrArg (Attempt.map Callable.keyFunction) heq⟩

theorem bindCallable_of_error_eq_none {c : Callable C} (h : (r.bindCallable c).error = none) :
    r.canServe c = true ∧ (r.bindCallable c).state = r.attach.apply c := by
  rcases r.bindCallable_cases c with ⟨hc, heq⟩ | ⟨e, -, heq⟩
  · exact ⟨hc, congrArg Attempt.state heq⟩
  · rw [heq] at h
    cases h

theorem bindCallable_of_error_eq_some {c : Callable C} {e : BindError}
    (h : (r.bindCallable c).error = some e) : r.Refuses c e ∧ (r.bindCallable c).state = c := by
  rcases r.bindCallable_cases c with ⟨-, heq⟩ | ⟨e', hc, heq⟩
  · rw [heq] at h
    cases h
  · rw [heq] at h
    cases h
    exact ⟨hc, congrArg Attempt.state heq⟩

/-! ## Conditions and rules -/

theorem bindCondition_follows (c : Condition C) :
    (r.bindCondition c).Follows r.bindCallable Condition.callables c := by
  have hpredicate : (r.bindOptional c.predicate).Follows r.bindCallable
      (fun p => p.toList.map Callable.predicate) c.predicate := by
    cases c.predicate with
    | none => exact .nothing rfl
    | some p => exact (each_singleton r.bindCallable (.predicate p)).symm
  have hoperator : (r.bindOperator c.operator).Follows r.bindCallable Operator.callables
      c.operator := by
    cases c.operator with
    | builtIn comparator => exact .nothing rfl
    | custom p => exact (each_singleton r.bindCallable (.predicate p)).symm
  exact (hpredicate.both hoperator).map
    (fun p => ({ c with predicate := p.1, operator := p.2 } : Condition C)) fun _ => rfl

mutual

/-- The last condition comes first. -/
theorem bindRule_follows (rule : Rule C) :
    (r.bindRule rule).Follows r.bindCondition (fun rule => rule.conditions.reverse) rule := by
  cases rule with
  | target id =>
    simp only [bindRule]
    exact .nothing (by simp [Rule.conditions])
  | branch c next =>
    simp only [bindRule]
    have hc : (r.bindCondition c).Follows r.bindCondition (fun c => [c]) c :=
      (each_singleton r.bindCondition c).symm
    exact hc.map (Rule.branch · next) fun _ => by simp [Rule.conditions]
  | group rules =>
    simp only [bindRule]
    exact (bindRules_follows rules).map Rule.group fun _ => by simp only [Rule.conditions]

theorem bindRules_follows (rules : List (Rule C)) :
    (r.bindRules rules).Follows r.bindCondition
      (fun rules => (Rule.conditionsOfAll rules).reverse) rules := by
  cases rules with
  | nil =>
    simp only [bindRules]
    exact .nothing (by simp [Rule.conditionsOfAll])
  | cons rule rest =>
    simp only [bindRules]
    refine ((bindRules_follows rest).both (bindRule_follows rule)).map (fun p => p.2 :: p.1) ?_
    intro p
    simp only [Rule.conditionsOfAll, List.reverse_append]

end

theorem bindStep_follows (step : Step C) :
    (r.bindStep step).Follows r.bindCondition (fun step => step.conditions.reverse) step := by
  obtain ⟨next⟩ := step
  cases next with
  | none => exact .nothing rfl
  | some rule =>
    exact (r.bindRule_follows rule).map (fun rule => (⟨some rule⟩ : Step C)) fun rule => by
      simp [Step.conditions]

end Registry

/-! ## The order of selectors and field sets -/

namespace Selector

mutual

/-- **The order in which the callables of a selector are bound.** In a sequence the callables of
the entries come first, from left to right, and then the outcomes of the entries, from the last
entry to the first. -/
def visit : Selector C → List (Callable C)
  | .key _ => []
  | .function f => [.keyFunction f]
  | .sequence entries => entries.flatMap Entry.ownCallables ++ visitOutcomes entries

def visitOutcomes : List (Entry C) → List (Callable C)
  | [] => []
  | .key _ :: rest => visitOutcomes rest
  | .function _ :: rest => visitOutcomes rest
  | .branch _ outcome :: rest => visitOutcomes rest ++ visitOutcome outcome

def visitOutcome : Option (Selector C) → List (Callable C)
  | none => []
  | some s => visit s

end

mutual

/-- Every callable is visited, in the order of binding instead of reading. -/
theorem visit_perm (s : Selector C) : s.visit.Perm s.callables := by
  cases s with
  | key k => simp [visit, callables]
  | function f => simp [visit, callables]
  | sequence entries =>
    simp only [visit, callables]
    exact visitOutcomes_perm entries

theorem visitOutcomes_perm (entries : List (Entry C)) :
    (entries.flatMap Entry.ownCallables ++ visitOutcomes entries).Perm
      (callablesOfEntries entries) := by
  match entries with
  | [] => simp [visitOutcomes, callablesOfEntries]
  | .key k :: rest =>
    simp only [List.flatMap_cons, Entry.ownCallables, visitOutcomes, callablesOfEntries]
    exact visitOutcomes_perm rest
  | .function f :: rest =>
    simp only [List.flatMap_cons, Entry.ownCallables, visitOutcomes, callablesOfEntries]
    exact (visitOutcomes_perm rest).cons _
  | .branch c outcome :: rest =>
    simp only [List.flatMap_cons, Entry.ownCallables, visitOutcomes, callablesOfEntries,
      List.append_assoc]
    refine List.Perm.append_left _ ?_
    rw [← List.append_assoc]
    exact ((visitOutcomes_perm rest).append (visitOutcome_perm outcome)).trans List.perm_append_comm

theorem visitOutcome_perm (outcome : Option (Selector C)) :
    (visitOutcome outcome).Perm (callablesOfOutcome outcome) := by
  cases outcome with
  | none => simp [visitOutcome, callablesOfOutcome]
  | some s =>
    simp only [visitOutcome, callablesOfOutcome]
    exact visit_perm s

end

end Selector

namespace FieldOptions

def visit (options : FieldOptions C) : List (Callable C) :=
  Selector.visitOutcome options.contentKey

end FieldOptions

namespace FieldSet

/-- The fields by ascending name. -/
def visit (fields : FieldSet C) : List (Callable C) := fields.entries.flatMap fun e => e.2.visit

theorem visit_perm (fields : FieldSet C) : fields.visit.Perm fields.callables :=
  List.Perm.flatMap_left _ fun e _ => Selector.visitOutcome_perm e.2.contentKey

end FieldSet

/-! ## Selectors and field sets are bound in order -/

namespace Registry

open Attempt

variable (r : Registry C)

theorem bindEntry_follows (entry : Entry C) :
    (r.bindEntry entry).Follows r.bindCallable Entry.ownCallables entry := by
  cases entry with
  | key k => exact .nothing rfl
  | function f => exact (each_singleton r.bindCallable (.keyFunction f)).symm
  | branch c outcome => exact (r.bindCondition_follows c).map (Entry.branch · outcome) fun _ => rfl

theorem bindEntries_follows (entries : List (Entry C)) :
    (r.bindEntries entries).Follows r.bindCallable (fun l => l.flatMap Entry.ownCallables)
      entries :=
  .each r.bindEntry_follows entries

/-- When all entries are bound, each of them is. -/
theorem state_bindEntries {entries : List (Entry C)} (h : (r.bindEntries entries).error = none) :
    (r.bindEntries entries).state = entries.map fun entry => (r.bindEntry entry).state := by
  simp only [bindEntries] at h ⊢
  rcases each_cases r.bindEntry entries with hall | ⟨before, x, after, e, rfl, hbefore, hx⟩
  · rw [each_of_forall hall]
  · rw [each_of_first hbefore hx] at h
    cases h

/-- Binding entries leaves their outcomes alone. -/
theorem visitOutcomes_bindEntries (entries : List (Entry C)) :
    Selector.visitOutcomes (r.bindEntries entries).state = Selector.visitOutcomes entries := by
  refine each_keeps (fun entry rest rest' h => ?_) entries
  cases entry <;> simp only [bindEntry, Attempt.map, Selector.visitOutcomes, h]

/-- Binding outcomes leaves the entries as they are when all of them have been bound. -/
theorem ownCallables_bindOutcomes (entries : List (Entry C)) :
    (r.bindOutcomes entries).state.flatMap Entry.ownCallables =
      entries.flatMap fun entry => (r.bindEntry entry).state.ownCallables := by
  induction entries with
  | nil => simp [bindOutcomes]
  | cons entry rest ih =>
    cases entry with
    | key k => simp only [bindOutcomes, Attempt.map, List.flatMap_cons, ih]; rfl
    | function f => simp only [bindOutcomes, Attempt.map, List.flatMap_cons, ih]; rfl
    | branch c outcome =>
      simp only [bindOutcomes, Attempt.map, List.flatMap_cons, both_state_fst, ih]; rfl

mutual

theorem bindSelector_follows (s : Selector C) :
    (r.bindSelector s).Follows r.bindCallable Selector.visit s := by
  cases s with
  | key k =>
    simp only [bindSelector]
    exact .nothing (by simp only [Selector.visit])
  | function f =>
    simp only [bindSelector]
    have hf : (r.bindKeyFunction f).Follows r.bindCallable (fun f => [.keyFunction f]) f :=
      (each_singleton r.bindCallable (.keyFunction f)).symm
    exact hf.map Selector.function fun _ => by simp only [Selector.visit]
  | sequence entries =>
    have hentries := r.bindEntries_follows entries
    have houtcomes := bindOutcomes_follows entries
    unfold Follows
    simp only [bindSelector, Selector.visit]
    rw [each_append]
    unfold Attempt.both
    rw [← hentries.error_eq]
    cases he : (r.bindEntries entries).error with
    | some e =>
      -- the outcomes are not reached
      simp only [Attempt.map, Selector.visit, hentries.parts_state, r.visitOutcomes_bindEntries]
    | none =>
      -- all entries are bound, and binding the outcomes does not change them again
      have hown : (r.bindOutcomes entries).state.flatMap Entry.ownCallables =
          (r.bindEntries entries).state.flatMap Entry.ownCallables := by
        rw [r.ownCallables_bindOutcomes, r.state_bindEntries he, List.flatMap_map]
      simp only [Attempt.map, Selector.visit, hown, hentries.parts_state,
        houtcomes.parts_state, houtcomes.error_eq]

theorem bindOutcomes_follows (entries : List (Entry C)) :
    (r.bindOutcomes entries).Follows r.bindCallable Selector.visitOutcomes entries := by
  match entries with
  | [] =>
    simp only [bindOutcomes]
    exact .nothing (by simp only [Selector.visitOutcomes])
  | .key k :: rest =>
    simp only [bindOutcomes]
    refine (bindOutcomes_follows rest).map (Entry.key k :: ·) fun _ => ?_
    simp only [Selector.visitOutcomes]
  | .function f :: rest =>
    simp only [bindOutcomes]
    refine ((bindOutcomes_follows rest).map (Entry.function (r.bindKeyFunction f).state :: ·)
      fun _ => ?_).of_parts ?_
    · simp only [Selector.visitOutcomes]
    · simp only [Selector.visitOutcomes]
  | .branch c outcome :: rest =>
    simp only [bindOutcomes]
    refine (((bindOutcomes_follows rest).both (bindOutcome_follows outcome)).map
      (fun p => Entry.branch (r.bindCondition c).state p.2 :: p.1) fun _ => ?_).of_parts ?_
    · simp only [Selector.visitOutcomes]
    · simp only [Selector.visitOutcomes]

theorem bindOutcome_follows (outcome : Option (Selector C)) :
    (r.bindOutcome outcome).Follows r.bindCallable Selector.visitOutcome outcome := by
  cases outcome with
  | none =>
    simp only [bindOutcome]
    exact .nothing (by simp only [Selector.visitOutcome])
  | some s =>
    simp only [bindOutcome]
    exact (bindSelector_follows s).map some fun _ => by simp only [Selector.visitOutcome]

end

/-- The options of a field under its name. -/
theorem named_bindOptions_follows (field : String × FieldOptions C) :
    (named r.bindOptions field).Follows r.bindCallable (fun e => e.2.visit) field :=
  (r.bindOutcome_follows field.2.contentKey).map
    (fun key => (field.1, (⟨key⟩ : FieldOptions C))) fun _ => rfl

theorem bindFieldSet_follows (fields : FieldSet C) :
    (r.bindFieldSet fields).Follows r.bindCallable FieldSet.visit fields := by
  have h : (r.bindFields fields.entries).Follows r.bindCallable
      (fun l => l.flatMap fun e => e.2.visit) fields.entries :=
    .each r.named_bindOptions_follows fields.entries
  exact h

/-- Callables are served in their order, up to the first one that is refused: what was visited, what
it has become, and what is reported. -/
inductive ServesInOrder : List (Callable C) → List (Callable C) → Option BindError → Prop where
  | all {visited : List (Callable C)} (h : ∀ c ∈ visited, r.canServe c = true) :
    ServesInOrder visited (visited.map r.attach.apply) none
  | upTo {before after : List (Callable C)} {c : Callable C} {e : BindError}
    (hbefore : ∀ c ∈ before, r.canServe c = true) (hc : r.Refuses c e) :
    ServesInOrder (before ++ c :: after) (before.map r.attach.apply ++ c :: after) (some e)

theorem each_bindCallable_servesInOrder (l : List (Callable C)) :
    r.ServesInOrder l (each r.bindCallable l).state (each r.bindCallable l).error := by
  have hserved : ∀ l' : List (Callable C), (∀ c ∈ l', (r.bindCallable c).error = none) →
      (∀ c ∈ l', r.canServe c = true) ∧
        l'.map (fun c => (r.bindCallable c).state) = l'.map r.attach.apply := by
    intro l' h
    exact ⟨fun c hc => (r.bindCallable_of_error_eq_none (h c hc)).1,
      List.map_congr_left fun c hc => (r.bindCallable_of_error_eq_none (h c hc)).2⟩
  rcases each_cases r.bindCallable l with hall | ⟨before, c, after, e, rfl, hbefore, hc⟩
  · obtain ⟨hcan, hmap⟩ := hserved l hall
    rw [each_of_forall hall, hmap]
    exact .all hcan
  · obtain ⟨hcan, hmap⟩ := hserved before hbefore
    obtain ⟨hrefused, hstate⟩ := r.bindCallable_of_error_eq_some hc
    rw [each_of_first hbefore hc, hmap, hstate]
    exact .upTo hcan hrefused

end Registry

/-- **Binding in order**, where `visit` lists the callables of a thing in the order in which they
are bound. -/
structure Attempt.InOrder (a : Attempt α) (r : Registry C) (visit : α → List (Callable C))
    (mapCallables : CallableMap C → α → α) (x : α) : Prop where
  /-- The callables are served in this order up to the first one that is refused; this one is
  reported, and it and all callables after it are as they were. -/
  served : r.ServesInOrder (visit x) (visit a.state) a.error
  /-- Without their functions, what went in and what was left behind are the same. -/
  same_but_functions : mapCallables .forget a.state = mapCallables .forget x

/-- What follows the order of callables serves them in that order. -/
theorem Attempt.Follows.inOrder {r : Registry C} {a : Attempt α} {visit : α → List (Callable C)}
    {mapCallables : CallableMap C → α → α} {x : α} (h : a.Follows r.bindCallable visit x)
    (hforget : mapCallables .forget a.state = mapCallables .forget x) :
    a.InOrder r visit mapCallables x where
  served := by
    rw [h.parts_state, h.error_eq]
    exact r.each_bindCallable_servesInOrder (visit x)
  same_but_functions := hforget

/-- **The order decides what is reported and what is left behind.** A selector is bound callable by
callable in the order of `visit`, and a field set field by field in the order of the names. The
first callable whose name is not registered among those of its kind is reported; the callables
before it are bound, and everything else is as it was. -/
theorem bind_in_order (r : Registry C) :
    (∀ s : Selector C, (r.bindSelector s).InOrder r Selector.visit Selector.mapCallables s) ∧
    (∀ fields : FieldSet C,
      (r.bindFieldSet fields).InOrder r FieldSet.visit FieldSet.mapCallables fields) :=
  ⟨fun s => (r.bindSelector_follows s).inOrder (r.forget_bindSelector s),
    fun fields => (r.bindFieldSet_follows fields).inOrder (r.forget_bindFieldSet fields)⟩

end FormRouting
