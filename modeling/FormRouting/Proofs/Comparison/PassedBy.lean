import FormRouting.Proofs.Comparison.Ordering
import FormRouting.Proofs.Dependence

/-!
# Conditions that ask for an order

A condition with a comparator of the order holds between two numbers, two strings or two
booleans only. Between any other values a scan passes it by: the field has been looked
up, and all else is as if the entry were not there.

* `resolve_value_fill_congr`: what the key depends on in a place inside a selector.
* `PassedBy`: what passing an entry by means, for a scan and for the key of the whole
  selector; `passedBy_of_miss`: a comparator that does not hold is passed by.
* `order_needs_one_kind`: **a condition that asks for an order matches two values of one
  kind, or is passed by.**
-/

namespace FormRouting

open Comparator (SameKind ordering)

variable {C : Type} {source : Source} {ctx : C}

/-! ## Passing an entry by -/

/-- The key of a selector depends on what stands in a place through the key of that alone. -/
theorem resolve_value_fill_congr {s t : Selector C}
    (h : (s.resolve source ctx).value = (t.resolve source ctx).value) (place : Place C) :
    ((place.fill s).resolve source ctx).value = ((place.fill t).resolve source ctx).value := by
  have hfill := place.resolve_fill source ctx
  cases happroach : place.approach source ctx with
  | none =>
    simp only [happroach] at hfill
    rw [hfill s t]
  | some events =>
    simp only [happroach] at hfill
    rw [hfill, hfill]
    exact h

/-- An entry that does not hit leaves no trace in the key, whatever stands around it. -/
theorem resolve_value_without {entry : Entry C} (h : entry.hits source ctx = false)
    (before after : List (Entry C)) :
    ((Selector.sequence (before ++ entry :: after)).resolve source ctx).value =
      ((Selector.sequence (before ++ after)).resolve source ctx).value := by
  by_cases hbefore : ∃ e ∈ before, e.hits source ctx = true
  · -- a hit before the entry decides in both sequences
    rw [resolve_append_of_hit hbefore, resolve_append_of_hit hbefore]
  · have hmiss : ∀ e ∈ before, e.hits source ctx = false := by simpa using hbefore
    have hentry : ∀ e ∈ [entry], e.hits source ctx = false := List.forall_mem_singleton.2 h
    have hafter := resolve_append_of_miss hentry after
    rw [List.singleton_append] at hafter
    rw [resolve_append_of_miss hmiss, resolve_append_of_miss hmiss, hafter]
    rfl

/-- **The entry is passed by**: it looks up its field, and the rest goes on as if it were not
there. -/
structure PassedBy (source : Source) (ctx : C) (entry : Entry C) (field : String) : Prop where
  scan : ∀ rest, scan source ctx (entry :: rest) =
    ⟨(scan source ctx rest).value, .lookup field :: (scan source ctx rest).trace⟩
  key : ∀ (place : Place C) (before after : List (Entry C)),
    ((place.fill (.sequence (before ++ entry :: after))).resolve source ctx).value =
      ((place.fill (.sequence (before ++ after))).resolve source ctx).value

section

variable {c : Condition C} {cmp : Comparator}

/-- A comparator tests a condition by one look-up. -/
theorem test_of_comparator (hfn : c.predicate = none) (hop : c.operator = .builtIn cmp) :
    c.test source ctx = ⟨cmp.holds (source c.field) c.value, [.lookup c.field]⟩ := by
  simp only [Condition.test, Condition.evaluate, Condition.decider, hfn, hop]

theorem passedBy_of_miss (hfn : c.predicate = none) (hop : c.operator = .builtIn cmp)
    (h : cmp.holds (source c.field) c.value = false) (outcome : Option (Selector C)) :
    PassedBy source ctx (.branch c outcome) c.field := by
  have htest : c.test source ctx = ⟨false, [.lookup c.field]⟩ := by
    rw [test_of_comparator hfn hop, h]
  have hmiss : (Entry.branch c outcome).hits source ctx = false := congrArg Traced.value htest
  refine ⟨fun rest => ?_, fun place before after => ?_⟩
  · simp only [FormRouting.scan, htest, if_neg Bool.false_ne_true, List.cons_append,
      List.nil_append]
  · exact resolve_value_fill_congr (resolve_value_without hmiss before after) place

end

/-! ## Asking for an order -/

/-- **An order needs two values of one kind.** No comparator of the order holds between other
values; a condition with one matches numbers, strings or booleans only, and is passed by
otherwise. -/
theorem order_needs_one_kind {cmp : Comparator} (hcmp : cmp ∈ ordering) :
    (∀ current expected, ¬ SameKind current expected → cmp.holds current expected = false) ∧
    ∀ {C : Type} (source : Source) (ctx : C) (c : Condition C) (outcome : Option (Selector C)),
      c.predicate = none → c.operator = .builtIn cmp →
        ((Entry.branch c outcome).hits source ctx = true → SameKind (source c.field) c.value) ∧
        (¬ SameKind (source c.field) c.value →
          PassedBy source ctx (.branch c outcome) c.field) := by
  have hnone : ∀ current expected, ¬ SameKind current expected →
      cmp.holds current expected = false := fun _ _ h =>
    Comparator.holds_of_order?_eq_none (Comparator.order?_eq_none h) hcmp
  refine ⟨hnone, fun source ctx c outcome hfn hop => ⟨fun hhit => ?_, fun h => ?_⟩⟩
  · by_contra h
    rw [Entry.hits, test_of_comparator hfn hop, hnone _ _ h] at hhit
    exact Bool.false_ne_true hhit
  · exact passedBy_of_miss hfn hop (hnone _ _ h) outcome

/-- Above five. -/
def aboveFive : Condition Unit :=
  { field := "age", operator := .builtIn .greater, value := some (.number (.int 5)) }

def ageInWords : Source := fun _ => some (.string "10")

/-- A text is not above a number, so the fallback behind the condition gives the key. -/
theorem words_pass_aboveFive :
    .greater ∈ ordering ∧ aboveFive.predicate = none ∧ aboveFive.operator = .builtIn .greater ∧
      ¬ SameKind (ageInWords "age") aboveFive.value ∧
      ((Selector.sequence [.branch aboveFive (some (.key "older")), .key "any"]).resolve
        ageInWords ()).value = some "any" := by
  have hkind : ¬ SameKind (ageInWords "age") aboveFive.value := by
    intro h
    cases h
  have hgreater : Comparator.greater ∈ ordering := by decide
  obtain ⟨-, hconditions⟩ := order_needs_one_kind hgreater
  obtain ⟨-, hpassed⟩ := hconditions ageInWords () aboveFive (some (.key "older")) rfl rfl
  refine ⟨hgreater, rfl, rfl, hkind, ?_⟩
  refine ((hpassed hkind).key .here [] [.key "any"]).trans ?_
  simp only [Place.fill, List.nil_append, resolve_sequence]
  cbv

/-- Numbers and strings are not all that is ordered: `true` is above `false`. -/
theorem booleans_are_ordered :
    ¬ ∀ cmp ∈ ordering, ∀ current expected, cmp.holds current expected = true →
      (∃ x y, current = some (.number x) ∧ expected = some (.number y)) ∨
        ∃ s t, current = some (.string s) ∧ expected = some (.string t) := by
  intro h
  have habove : Comparator.greater.holds (some (.bool true)) (some (.bool false)) = true := by
    decide
  rcases h _ (by decide) _ _ habove with ⟨x, y, htrue, -⟩ | ⟨s, t, htrue, -⟩
  · cases htrue
  · cases htrue

end FormRouting
