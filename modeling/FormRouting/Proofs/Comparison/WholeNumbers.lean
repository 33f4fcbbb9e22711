import FormRouting.Proofs.Comparison.LooseEquality
import FormRouting.Proofs.Comparison.Rounding

/-!
# Comparing whole numbers

Two whole numbers are compared as the binary64 numbers nearest to them. That is their
own order up to 53 significant binary digits. Beyond, the order is never turned round,
but neighbours can fall together, and then they are equal. Membership does not round.

* `holds_whole`: **every comparator of the order sees the rounded numbers only.**
* `compare_nearest_eq_iff`: they are ordered like the numbers themselves unless two of
  them have fallen together.
* `holds_wholeNumberLaws`: **what comparing whole numbers gives**, in full.
* `neighbours_fall_together`: the first two that do.
-/

namespace FormRouting.Comparator

open Binary64 (nearest nearest_isNearest isNearest_iff ofInt_units Fits53 IsNearest)

/-- A whole number as a value. -/
def whole (n : Int) : Json := .number (.int n)

variable {a b : Int}

/-! ## Order -/

theorem order?_whole (a b : Int) :
    order? (some (whole a)) (some (whole b)) = some (compare (nearest a) (nearest b)) := by
  rw [whole, whole, order?, Number.toBinary64, Number.toBinary64, ofInt_units, ofInt_units,
    ← cmp_eq_compare, cmp_mul_pos_right (by positivity), cmp_eq_compare]

/-- **Every comparator of the order sees the rounded numbers only.** -/
theorem holds_whole (a b : Int) (c : Comparator) :
    c.holds (some (whole a)) (some (whole b)) = c.admits (compare (nearest a) (nearest b)) :=
  holds_of_order? (order?_whole a b) c

theorem equal_whole_iff : equal.holds (some (whole a)) (some (whole b)) = true ↔
    nearest a = nearest b := by
  rw [holds_whole, admits, Ordering.isEq_iff_eq_eq, compare_eq_iff_eq]

theorem nearest_le (h : a ≤ b) : nearest a ≤ nearest b := by
  rcases h.lt_or_eq with hlt | rfl
  · exact (nearest_isNearest a).mono (nearest_isNearest b) hlt
  · exact le_rfl

theorem nearest_of_fits53 (h : Fits53 a) : nearest a = a :=
  (nearest_isNearest a).eq_of_fits53 h

/-- The rounded numbers are ordered like the numbers unless two of them have fallen together. -/
theorem compare_nearest_eq_iff :
    compare (nearest a) (nearest b) = compare a b ↔ (nearest a = nearest b → a = b) := by
  -- rounding keeps `≤`, so different numbers stay in order or fall together
  rcases lt_trichotomy a b with h | rfl | h
  · rw [compare_lt_iff_lt.2 h, compare_lt_iff_lt]
    have := nearest_le h.le
    omega
  · simp
  · rw [compare_gt_iff_gt.2 h, compare_gt_iff_gt]
    have := nearest_le h.le
    omega

/-- The comparators tell apart what outcome they were given. -/
theorem eq_of_admits_eq {o p : Ordering} (h : ∀ c : Comparator, c.admits o = c.admits p) :
    o = p := by
  have hgreater := h greater
  have hless := h less
  revert hgreater hless
  cases o <;> cases p <;> decide

/-! ## Membership -/

theorem member_whole_iff {bs : List Int} :
    member.holds (some (whole a)) (some (.array (bs.map whole))) = true ↔ a ∈ bs := by
  rw [member_iff]
  constructor
  · rintro ⟨item, hitem, hsame⟩
    obtain ⟨b, hb, rfl⟩ := List.mem_map.1 hitem
    obtain rfl : b = a := by simpa [whole, Json.same, Number.same] using hsame
    exact hb
  · intro ha
    exact ⟨_, List.mem_map_of_mem ha, Json.same_refl _⟩

/-! ## The laws -/

/-- **What comparing a whole number with others gives.** -/
structure WholeNumberLaws (holds : Comparator → Option Json → Option Json → Bool) (a : Int) :
    Prop where
  exists_nearest : ∃ r, IsNearest a r
  /-- Every comparator of the order sees the nearest numbers only. -/
  rounded : ∀ b r s, IsNearest a r → IsNearest b s → ∀ c,
    holds c (some (whole a)) (some (whole b)) = c.admits (compare r s)
  /-- The numbers are compared as they are exactly if they have not fallen together. -/
  exact_iff : ∀ b, (∀ c, holds c (some (whole a)) (some (whole b)) = c.admits (compare a b)) ↔
    (nearest a = nearest b → a = b)
  /-- Numbers of 53 digits never fall together. -/
  exact : Fits53 a → ∀ b, Fits53 b → ∀ c,
    holds c (some (whole a)) (some (whole b)) = c.admits (compare a b)
  /-- No order is ever turned round. -/
  notReversed : ∀ b, a ≤ b → holds .lessOrEqual (some (whole a)) (some (whole b)) = true ∧
    holds .greater (some (whole a)) (some (whole b)) = false
  /-- Membership is by the numbers themselves. -/
  member : ∀ bs : List Int,
    holds .member (some (whole a)) (some (.array (bs.map whole))) = true ↔ a ∈ bs
  /-- It is equality with an item exactly if `a` has not fallen together with other items only. -/
  member_iff_equal : ∀ bs : List Int,
    (holds .member (some (whole a)) (some (.array (bs.map whole))) = true ↔
      ∃ b ∈ bs, holds .equal (some (whole a)) (some (whole b)) = true) ↔
        ((∃ b ∈ bs, nearest a = nearest b) → a ∈ bs)

theorem holds_wholeNumberLaws (a : Int) : WholeNumberLaws holds a where
  exists_nearest := ⟨_, nearest_isNearest a⟩
  rounded b r s hr hs c := by
    rw [holds_whole, isNearest_iff.1 hr, isNearest_iff.1 hs]
  exact_iff b := by
    rw [← compare_nearest_eq_iff]
    simp only [holds_whole]
    exact ⟨eq_of_admits_eq, fun h c => by rw [h]⟩
  exact ha b hb c := by
    rw [holds_whole, nearest_of_fits53 ha, nearest_of_fits53 hb]
  notReversed b h := by
    have hle : (compare (nearest a) (nearest b)).isLE = true :=
      Std.isLE_compare.2 (nearest_le h)
    simp only [holds_whole]
    revert hle
    cases compare (nearest a) (nearest b) <;> decide
  member bs := member_whole_iff
  member_iff_equal bs := by
    simp only [member_whole_iff, equal_whole_iff]
    -- a member is equal to itself, so only the other direction says something
    exact ⟨Iff.mpr, fun h => ⟨fun ha => ⟨a, ha, rfl⟩, h⟩⟩

/-- The first two whole numbers that fall together: they are equal, not one above the other, and
still neither is a member of a list of the other. -/
theorem neighbours_fall_together :
    equal.holds (some (whole 9007199254740993)) (some (whole 9007199254740992)) = true ∧
      implicit.holds (some (whole 9007199254740993)) (some (whole 9007199254740992)) = true ∧
      greater.holds (some (whole 9007199254740993)) (some (whole 9007199254740992)) = false ∧
      notEqual.holds (some (whole 9007199254740993)) (some (whole 9007199254740992)) = false ∧
      member.holds (some (whole 9007199254740993))
        (some (.array [whole 9007199254740992])) = false := by
  decide +kernel

end FormRouting.Comparator
