import FormRouting.Proofs.Comparison.Ordering
import FormRouting.Proofs.Comparison.SameValue
import Mathlib.Logic.Relation

/-!
# Loose equality

Loose equality has three regimes: a missing value and `null` are one, numbers are equal
by their binary64 numbers, and all else has to be the same value, in which whole numbers
and floating-point ones stay apart.

* `essence`: what loose equality sees of a value; `looselyEqual_eq`: it is sameness of
  what it sees, in every regime.
* `order?_congr`, `holds_congr`: loosely equal values may stand for each other.
* `member_iff`: membership is sameness with an item.
* `holds_equalityLaws`: **loose equality is an equivalence and a congruence, and
  membership refines it.**
-/

namespace FormRouting.Comparator

variable {a b c e : Option Json} {o : Ordering}

/-- What loose equality sees of a value: a missing one is `null`, and a number is its binary64
number. -/
def essence : Option Json → Json
  | none => .null
  | some (.number x) => .number (.float x.toBinary64)
  | some v => v

/-- **Loose equality is sameness** of what it sees. -/
theorem looselyEqual_eq (a b : Option Json) :
    looselyEqual a b = (essence a).same (essence b) := by
  rcases a with _ | (_ | _ | _ | _ | _ | _) <;> rcases b with _ | (_ | _ | _ | _ | _ | _) <;>
    simp [looselyEqual, definite, essence, Json.same, Number.same]

theorem looselyEqual_equivalence : Equivalence fun a b => looselyEqual a b = true := by
  simp only [looselyEqual_eq]
  exact Json.same_equivalence.comap essence

/-! ## Standing for each other -/

theorem looselyEqual_number_iff {x : Number} : looselyEqual (some (.number x)) b = true ↔
    ∃ y, b = some (.number y) ∧ x.toBinary64.units = y.toBinary64.units := by
  rcases b with _ | (_ | _ | _ | _ | _ | _) <;> simp [looselyEqual, definite, Json.same,
    Binary64.same_iff]

theorem looselyEqual_string_iff {s : String} :
    looselyEqual (some (.string s)) b = true ↔ b = some (.string s) := by
  rcases b with _ | (_ | _ | _ | _ | _ | _) <;> simp [looselyEqual, definite, Json.same,
    eq_comm (a := s)]

theorem looselyEqual_bool_iff {p : Bool} :
    looselyEqual (some (.bool p)) b = true ↔ b = some (.bool p) := by
  rcases b with _ | (_ | _ | _ | _ | _ | _) <;> simp [looselyEqual, definite, Json.same,
    eq_comm (a := p)]

theorem order?_of_looselyEqual (h : looselyEqual a b = true) (ho : order? a e = some o) :
    order? b e = some o := by
  cases sameKind_of_order? ho with
  | numbers x z =>
    obtain ⟨y, rfl, hxy⟩ := looselyEqual_number_iff.1 h
    rw [← ho, order?, order?, hxy]
  | strings s t => rwa [looselyEqual_string_iff.1 h]
  | booleans p q => rwa [looselyEqual_bool_iff.1 h]

theorem order?_congr (h : looselyEqual a b = true) (e : Option Json) :
    order? a e = order? b e :=
  Option.ext fun _ =>
    ⟨order?_of_looselyEqual h, order?_of_looselyEqual (looselyEqual_equivalence.symm h)⟩

theorem looselyEqual_congr (h : looselyEqual a b = true) (e : Option Json) :
    looselyEqual a e = looselyEqual b e := by
  rw [Bool.eq_iff_iff]
  exact ⟨looselyEqual_equivalence.trans (looselyEqual_equivalence.symm h),
    looselyEqual_equivalence.trans h⟩

theorem looselyEqual_comm (a b : Option Json) : looselyEqual a b = looselyEqual b a := by
  rw [Bool.eq_iff_iff]
  exact ⟨looselyEqual_equivalence.symm, looselyEqual_equivalence.symm⟩

/-- **Loosely equal values may stand for each other**, on either side of every comparator but
membership. -/
theorem holds_congr (h : looselyEqual a b = true) {c : Comparator} (hc : c ≠ .member)
    (e : Option Json) : c.holds a e = c.holds b e ∧ c.holds e a = c.holds e b := by
  have hleft := order?_congr h e
  have hright : order? e a = order? e b := by rw [order?_swap a e, order?_swap b e, hleft]
  have hequal := looselyEqual_congr h e
  have hequal' : looselyEqual e a = looselyEqual e b := by
    rw [looselyEqual_comm e a, looselyEqual_comm e b, hequal]
  cases c with
  | member => exact absurd rfl hc
  | _ => simp only [holds, hleft, hright, hequal, hequal', and_self]

/-! ## Membership -/

theorem member_iff {v : Json} {xs : List Json} :
    member.holds (some v) (some (.array xs)) = true ↔ ∃ x ∈ xs, x.same v = true :=
  List.any_eq_true

theorem units_of_identity {x y : Number} (h : x.identity = y.identity) :
    x.toBinary64.units = y.toBinary64.units := by
  cases x <;> cases y <;> simp_all [Number.identity, Number.toBinary64]

/-- Apart from numbers, loose equality of present values is sameness. -/
theorem looselyEqual_iff_same {v : Json} (hv : ∀ x, v ≠ .number x) {w : Json} :
    looselyEqual (some v) (some w) = true ↔ v.same w = true := by
  have hnot : ∀ y, ¬ v.same (.number y) = true := by
    intro y h
    obtain ⟨x, hx, -⟩ := Json.number_same_iff.1 (Json.same_symm h)
    exact hv x hx
  have hv' : essence (some v) = v := by
    cases v with
    | number x => exact absurd rfl (hv x)
    | _ => rfl
  rw [looselyEqual_eq, hv']
  cases w with
  | number y => exact ⟨fun h => absurd h (hnot _), fun h => absurd h (hnot _)⟩
  | _ => rfl

theorem looselyEqual_of_same {v w : Json} (h : v.same w = true) :
    looselyEqual (some v) (some w) = true := by
  by_cases hv : ∃ x, v = .number x
  · obtain ⟨x, rfl⟩ := hv
    obtain ⟨y, rfl, hxy⟩ := Json.number_same_iff.1 h
    exact looselyEqual_number_iff.2 ⟨y, rfl, units_of_identity hxy⟩
  · exact (looselyEqual_iff_same (not_exists.1 hv)).2 h

/-! ## The laws -/

/-- **What it means that loose equality is an equality.** -/
structure EqualityLaws (holds : Comparator → Option Json → Option Json → Bool) : Prop where
  equivalence : Equivalence fun a b => holds .equal a b = true
  /-- Equal values may stand for each other. -/
  congruence : ∀ a b, holds .equal a b = true → ∀ c, c ≠ .member → ∀ e,
    holds c a e = holds c b e ∧ holds c e a = holds c e b
  equal_of_member : ∀ v xs, holds .member (some v) (some (.array xs)) = true →
    ∃ x ∈ xs, holds .equal (some v) (some x) = true
  /-- Among whole numbers and floating-point ones equality does not make a member. -/
  member_of_equal : ∀ v xs, (∀ n, v ≠ .number n) →
    (∃ x ∈ xs, holds .equal (some v) (some x) = true) →
      holds .member (some v) (some (.array xs)) = true
  missing : ∀ b, holds .member none b = false

/-- **Loose equality is an equivalence and a congruence, and membership refines it.** -/
theorem holds_equalityLaws : EqualityLaws holds where
  equivalence := looselyEqual_equivalence
  congruence _ _ h _ hc e := holds_congr h hc e
  equal_of_member v xs h := by
    obtain ⟨x, hx, hsame⟩ := member_iff.1 h
    exact ⟨x, hx, looselyEqual_of_same (Json.same_symm hsame)⟩
  member_of_equal v xs hv h := by
    obtain ⟨x, hx, hequal⟩ := h
    exact member_iff.2 ⟨x, hx, Json.same_symm ((looselyEqual_iff_same hv).1 hequal)⟩
  missing _ := rfl

/-- Equality of numbers does not make a member. -/
example : equal.holds (some (.number (.int 5))) (some (.number (.float (.ofInt 5)))) = true ∧
    member.holds (some (.number (.int 5)))
      (some (.array [.number (.float (.ofInt 5))])) = false := by
  decide +kernel

end FormRouting.Comparator
