import FormRouting.Comparator
import FormRouting.Proofs.Comparison.Bytes

/-!
# One order for each kind

Numbers, strings and booleans are ordered, each kind by itself. For two values of one
such kind a single outcome, less, equal or greater, decides all comparators, those of
the order and those of loose equality alike.

* `SameKind`: two values of one kind that is ordered.
* `holds_of_order?`: **one outcome decides every comparator.**
* `order?_swap`, `order?_chain`: the other way round, and two steps in a row.
* `holds_orderLaws`: **the ordering comparators are one order on each kind**, and hold
  between no other values.
-/

namespace FormRouting.Comparator

/-- The comparators that ask for an order. -/
def ordering : List Comparator := [.greater, .greaterOrEqual, .less, .lessOrEqual]

/-- The comparator holds between ordered values of this outcome. Membership is not about an
order. -/
def admits : Comparator → Ordering → Bool
  | .greater, o => o.isGT
  | .greaterOrEqual, o => o.isGE
  | .less, o => o.isLT
  | .lessOrEqual, o => o.isLE
  | .equal, o | .implicit, o => o.isEq
  | .notEqual, o => o.isNe
  | .member, _ => false

/-- Two numbers, two strings or two booleans. -/
inductive SameKind : Option Json → Option Json → Prop
  | numbers (x y : Number) : SameKind (some (.number x)) (some (.number y))
  | strings (s t : String) : SameKind (some (.string s)) (some (.string t))
  | booleans (p q : Bool) : SameKind (some (.bool p)) (some (.bool q))

variable {a b c : Option Json} {o p : Ordering}

theorem SameKind.symm (h : SameKind a b) : SameKind b a := by
  cases h with
  | numbers x y => exact .numbers y x
  | strings s t => exact .strings t s
  | booleans p q => exact .booleans q p

/-! ## The outcome -/

theorem sameKind_of_order? (h : order? a b = some o) : SameKind a b := by
  unfold order? at h
  split at h
  · exact .numbers _ _
  · exact .strings _ _
  · exact .booleans _ _
  · cases h

theorem exists_order? (h : SameKind a b) : ∃ o, order? a b = some o := by
  cases h <;> exact ⟨_, rfl⟩

theorem order?_eq_none (h : ¬ SameKind a b) : order? a b = none :=
  Option.eq_none_iff_forall_ne_some.2 fun _ ho => h (sameKind_of_order? ho)

theorem order?_swap (a b : Option Json) : order? b a = (order? a b).map Ordering.swap := by
  by_cases h : SameKind a b
  · cases h <;> exact congrArg some Std.OrientedOrd.eq_swap
  · rw [order?_eq_none h, order?_eq_none (mt SameKind.symm h)]
    rfl

/-- Two steps down, or on the level, compose. -/
theorem compare_chain {α : Type} [Ord α] [Std.TransOrd α] {x y z : α}
    (hxy : (compare x y).isGE = true) (hyz : (compare y z).isGE = true) :
    compare x z = (compare x y).then (compare y z) := by
  cases h : compare x y with
  | lt => rw [h] at hxy; cases hxy
  | eq => exact Std.TransCmp.congr_left h
  | gt => exact Std.TransCmp.gt_of_gt_of_isGE h hyz

theorem order?_chain (hab : order? a b = some o) (hbc : order? b c = some p)
    (ho : o.isGE = true) (hp : p.isGE = true) : order? a c = some (o.then p) := by
  cases sameKind_of_order? hab <;> cases sameKind_of_order? hbc <;> cases hab <;> cases hbc <;>
    exact congrArg some (compare_chain ho hp)

/-! ## The comparators -/

/-- Values with an outcome are loosely equal exactly if it is "equal". -/
theorem looselyEqual_of_order? (h : order? a b = some o) : looselyEqual a b = o.isEq := by
  have hcompare : ∀ {α : Type} [Ord α] [Std.LawfulEqOrd α] (x y : α),
      (compare x y).isEq = true ↔ x = y := fun x y =>
    Ordering.isEq_iff_eq_eq.trans Std.LawfulEqOrd.compare_eq_iff_eq
  rw [Bool.eq_iff_iff]
  cases sameKind_of_order? h with
  | numbers x y =>
    cases h
    rw [hcompare]
    exact beq_iff_eq
  | strings s t =>
    cases h
    rw [hcompare]
    simp [looselyEqual, definite, Json.same]
  | booleans p q =>
    cases h
    rw [hcompare]
    simp [looselyEqual, definite, Json.same]

/-- **One outcome decides every comparator.** -/
theorem holds_of_order? (h : order? a b = some o) (c : Comparator) : c.holds a b = c.admits o := by
  cases c with
  | greater => rw [holds, h]; cases o <;> rfl
  | greaterOrEqual => rw [holds, h]; cases o <;> rfl
  | less => rw [holds, h]; cases o <;> rfl
  | lessOrEqual => rw [holds, h]; cases o <;> rfl
  | equal => exact looselyEqual_of_order? h
  | implicit => exact looselyEqual_of_order? h
  | notEqual => rw [holds, looselyEqual_of_order? h]; cases o <;> rfl
  | member => cases sameKind_of_order? h <;> rfl

/-- Without an outcome no comparator of the order holds. -/
theorem holds_of_order?_eq_none (h : order? a b = none) {c : Comparator} (hc : c ∈ ordering) :
    c.holds a b = false := by
  simp only [ordering, List.mem_cons, List.not_mem_nil, or_false] at hc
  rcases hc with rfl | rfl | rfl | rfl <;> rw [holds, h] <;> rfl

/-! ## The laws -/

/-- **What it means that the ordering comparators are one order on each kind.** -/
structure OrderLaws (holds : Comparator → Option Json → Option Json → Bool) : Prop where
  greater_swap : ∀ a b, holds .greater a b = holds .less b a
  greaterOrEqual_swap : ∀ a b, holds .greaterOrEqual a b = holds .lessOrEqual b a
  greaterOrEqual_iff : ∀ a b, holds .greaterOrEqual a b = true ↔
    holds .greater a b = true ∨ holds .lessOrEqual a b = true ∧ holds .equal a b = true
  at_most_one : ∀ a b, [greater, equal, less].countP (fun c => holds c a b) ≤ 1
  /-- Of two values of one kind one is greater, or they are equal. -/
  exactly_one : ∀ a b, SameKind a b → [greater, equal, less].countP (fun c => holds c a b) = 1
  /-- Other values are not ordered. -/
  unordered : ∀ a b, ¬ SameKind a b → ∀ c ∈ ordering, holds c a b = false
  /-- Two steps make one, a strict one if either is strict. -/
  chain : ∀ a b c, holds .greaterOrEqual a b = true → holds .greaterOrEqual b c = true →
    holds .greaterOrEqual a c = true ∧
      (holds .greater a b = true ∨ holds .greater b c = true → holds .greater a c = true)
  /-- Numbers are compared by the values of their binary64 numbers. -/
  numbers : ∀ (x y : Number) (c : Comparator),
    holds c (some (.number x)) (some (.number y)) =
      c.admits (compare x.toBinary64.units y.toBinary64.units)
  /-- Texts are compared by their bytes. -/
  strings : ∀ (s t : String) (c : Comparator),
    holds c (some (.string s)) (some (.string t)) = c.admits (compare (utf8Bytes s) (utf8Bytes t))
  /-- `false` comes before `true`. -/
  booleans : ∀ (p q : Bool) (c : Comparator),
    holds c (some (.bool p)) (some (.bool q)) = c.admits (compare p q)

theorem isGE_of_holds (h : greaterOrEqual.holds a b = true) :
    ∃ o, order? a b = some o ∧ o.isGE = true := by
  cases ho : order? a b with
  | none =>
    rw [holds_of_order?_eq_none ho (by decide)] at h
    cases h
  | some o =>
    rw [holds_of_order? ho] at h
    exact ⟨o, rfl, h⟩

/-- **The ordering comparators are one order on each kind of value**, and hold between no other
values. -/
theorem holds_orderLaws : OrderLaws holds where
  greater_swap a b := by
    simp only [holds, order?_swap a b]
    rcases order? a b with _ | (_ | _ | _) <;> rfl
  greaterOrEqual_swap a b := by
    simp only [holds, order?_swap a b]
    rcases order? a b with _ | (_ | _ | _) <;> rfl
  greaterOrEqual_iff a b := by
    cases h : order? a b with
    | none => simp [holds, h]
    | some o =>
      simp only [holds_of_order? h]
      cases o <;> decide
  at_most_one a b := by
    cases h : order? a b with
    | none =>
      have hgreater : greater.holds a b = false := holds_of_order?_eq_none h (by decide)
      have hless : less.holds a b = false := holds_of_order?_eq_none h (by decide)
      simp only [List.countP_cons, List.countP_nil, hgreater, hless]
      cases equal.holds a b <;> decide
    | some o =>
      simp only [holds_of_order? h]
      cases o <;> decide
  exactly_one a b h := by
    obtain ⟨o, ho⟩ := exists_order? h
    simp only [holds_of_order? ho]
    cases o <;> decide
  unordered a b h _ := holds_of_order?_eq_none (order?_eq_none h)
  chain a b c hab hbc := by
    obtain ⟨o, ho, hoge⟩ := isGE_of_holds hab
    obtain ⟨p, hp, hpge⟩ := isGE_of_holds hbc
    simp only [holds_of_order? ho, holds_of_order? hp,
      holds_of_order? (order?_chain ho hp hoge hpge)]
    clear hab hbc ho hp
    revert o p
    decide
  numbers x y := holds_of_order? rfl
  strings s t := holds_of_order? (congrArg some (compare_utf8Bytes s t).symm)
  booleans p q := holds_of_order? rfl

end FormRouting.Comparator
