import FormRouting.Json.Value
import Mathlib.Data.List.Forall2

/-!
# The same value

`Json.same` looks through values to any depth: arrays item by item, objects up to the
order of their members, numbers up to the sign of zero. It is an equivalence.

* `Json.induction`: what holds of a value if it holds of its items and members holds
  of all values.
* `null_same_iff` to `object_same_iff`: what is the same as a value of each kind.
* `Json.same_equivalence`: **sameness is reflexive, symmetric and transitive.**
-/

namespace FormRouting

theorem Binary64.same_iff {x y : Binary64} : x.same y = true ↔ x.units = y.units :=
  beq_iff_eq

/-- Which number a number is: whole numbers and floating-point ones are kept apart. -/
def Number.identity : Number → Int ⊕ Int
  | .int n => .inl n
  | .float x => .inr x.units

theorem Number.same_iff {x y : Number} : x.same y = true ↔ x.identity = y.identity := by
  cases x <;> cases y <;> simp [Number.same, Number.identity, Binary64.same_iff]

namespace Json

/-- What holds of a value whenever it holds of its items or its members holds of every value. -/
theorem induction {P : Json → Prop} (null : P .null) (bool : ∀ b, P (.bool b))
    (number : ∀ n, P (.number n)) (string : ∀ s, P (.string s))
    (array : ∀ items, (∀ x ∈ items, P x) → P (.array items))
    (object : ∀ members, (∀ m ∈ members, P m.2) → P (.object members)) (v : Json) : P v :=
  @Json.rec P (fun items => ∀ x ∈ items, P x) (fun members => ∀ m ∈ members, P m.2)
    (fun m => P m.2) null bool number string array object
    (fun _ h => nomatch h) (fun _ _ hx hrest => List.forall_mem_cons.2 ⟨hx, hrest⟩)
    (fun _ h => nomatch h) (fun _ _ hm hrest => List.forall_mem_cons.2 ⟨hm, hrest⟩)
    (fun _ _ hv => hv) v

/-! ## What is the same as a value -/

/-- The same items in the same order. -/
theorem sameItems_iff {xs ys : List Json} :
    sameItems xs ys = true ↔ List.Forall₂ (fun x y => x.same y = true) xs ys := by
  induction xs generalizing ys with
  | nil => cases ys <;> simp [sameItems]
  | cons x xs ih => cases ys <;> simp [sameItems, ih]

theorem membersIn_iff {ms ns : List (String × Json)} :
    membersIn ms ns = true ↔ ∀ m ∈ ms, ∃ n ∈ ns, n.1 = m.1 ∧ m.2.same n.2 = true := by
  induction ms with
  | nil => simp [membersIn]
  | cons m ms ih =>
    rw [membersIn, Bool.and_eq_true, List.any_eq_true, ih, List.forall_mem_cons]
    simp only [Bool.and_eq_true, beq_iff_eq]

theorem memberOf_iff {ms : List (String × Json)} {n : String × Json} :
    memberOf ms n = true ↔ ∃ m ∈ ms, n.1 = m.1 ∧ m.2.same n.2 = true := by
  induction ms with
  | nil => simp [memberOf]
  | cons m ms ih =>
    obtain ⟨name, v⟩ := m
    rw [memberOf, Bool.or_eq_true, ih, List.exists_mem_cons_iff, Bool.and_eq_true, beq_iff_eq]

variable {v : Json}

theorem null_same_iff : Json.null.same v = true ↔ v = .null := by
  cases v <;> simp [same]

theorem bool_same_iff {b : Bool} : (Json.bool b).same v = true ↔ v = .bool b := by
  cases v <;> simp [same, eq_comm (a := b)]

theorem number_same_iff {x : Number} :
    (Json.number x).same v = true ↔ ∃ y, v = .number y ∧ x.identity = y.identity := by
  cases v <;> simp [same, Number.same_iff]

theorem string_same_iff {s : String} : (Json.string s).same v = true ↔ v = .string s := by
  cases v <;> simp [same, eq_comm (a := s)]

theorem array_same_iff {xs : List Json} :
    (Json.array xs).same v = true ↔
      ∃ ys, v = .array ys ∧ List.Forall₂ (fun x y => x.same y = true) xs ys := by
  cases v <;> simp [same, sameItems_iff]

/-- Each member of one object has its like in the other. -/
theorem object_same_iff {ms : List (String × Json)} :
    (Json.object ms).same v = true ↔
      ∃ ns, v = .object ns ∧ (∀ m ∈ ms, ∃ n ∈ ns, n.1 = m.1 ∧ m.2.same n.2 = true) ∧
        ∀ n ∈ ns, ∃ m ∈ ms, n.1 = m.1 ∧ m.2.same n.2 = true := by
  cases v <;> simp [same, membersIn_iff, memberOf_iff]

/-! ## An equivalence -/

theorem same_refl (v : Json) : v.same v = true := by
  induction v using induction with
  | null => exact null_same_iff.2 rfl
  | bool b => exact bool_same_iff.2 rfl
  | number x => exact number_same_iff.2 ⟨x, rfl, rfl⟩
  | string s => exact string_same_iff.2 rfl
  | array xs ih => exact array_same_iff.2 ⟨xs, rfl, List.forall₂_same.2 ih⟩
  | object ms ih =>
    exact object_same_iff.2
      ⟨ms, rfl, fun m hm => ⟨m, hm, rfl, ih m hm⟩, fun m hm => ⟨m, hm, rfl, ih m hm⟩⟩

theorem same_symm {v w : Json} (h : v.same w = true) : w.same v = true := by
  induction v using induction generalizing w with
  | null => rw [null_same_iff.1 h]; exact same_refl _
  | bool b => rw [bool_same_iff.1 h]; exact same_refl _
  | number x =>
    obtain ⟨y, rfl, hxy⟩ := number_same_iff.1 h
    exact number_same_iff.2 ⟨x, rfl, hxy.symm⟩
  | string s => rw [string_same_iff.1 h]; exact same_refl _
  | array xs ih =>
    obtain ⟨ys, rfl, hxy⟩ := array_same_iff.1 h
    refine array_same_iff.2 ⟨xs, rfl, ?_⟩
    clear h
    induction hxy with
    | nil => exact .nil
    | cons hx _ ihrest =>
      obtain ⟨ihx, ihxs⟩ := List.forall_mem_cons.1 ih
      exact .cons (ihx hx) (ihrest ihxs)
  | object ms ih =>
    obtain ⟨ns, rfl, hms, hns⟩ := object_same_iff.1 h
    refine object_same_iff.2 ⟨ms, rfl, fun n hn => ?_, fun m hm => ?_⟩
    · obtain ⟨m, hm, hname, hsame⟩ := hns n hn
      exact ⟨m, hm, hname.symm, ih m hm hsame⟩
    · obtain ⟨n, hn, hname, hsame⟩ := hms m hm
      exact ⟨n, hn, hname.symm, ih m hm hsame⟩

theorem same_trans {u v w : Json} (huv : u.same v = true) (hvw : v.same w = true) :
    u.same w = true := by
  induction u using induction generalizing v w with
  | null => rwa [null_same_iff.1 huv] at hvw
  | bool b => rwa [bool_same_iff.1 huv] at hvw
  | number x =>
    obtain ⟨y, rfl, hxy⟩ := number_same_iff.1 huv
    obtain ⟨z, rfl, hyz⟩ := number_same_iff.1 hvw
    exact number_same_iff.2 ⟨z, rfl, hxy.trans hyz⟩
  | string s => rwa [string_same_iff.1 huv] at hvw
  | array xs ih =>
    obtain ⟨ys, rfl, hxy⟩ := array_same_iff.1 huv
    obtain ⟨zs, rfl, hyz⟩ := array_same_iff.1 hvw
    refine array_same_iff.2 ⟨zs, rfl, ?_⟩
    clear huv hvw
    induction hxy generalizing zs with
    | nil => exact hyz
    | cons hx _ ihrest =>
      obtain ⟨ihx, ihxs⟩ := List.forall_mem_cons.1 ih
      cases hyz with
      | cons hy hys => exact .cons (ihx hx hy) (ihrest ihxs _ hys)
  | object ms ih =>
    obtain ⟨ns, rfl, hms, hns⟩ := object_same_iff.1 huv
    obtain ⟨ps, rfl, hns', hps⟩ := object_same_iff.1 hvw
    refine object_same_iff.2 ⟨ps, rfl, fun m hm => ?_, fun p hp => ?_⟩
    · obtain ⟨n, hn, hmn, hsame⟩ := hms m hm
      obtain ⟨p, hp, hnp, hsame'⟩ := hns' n hn
      exact ⟨p, hp, hnp.trans hmn, ih m hm hsame hsame'⟩
    · obtain ⟨n, hn, hnp, hsame'⟩ := hps p hp
      obtain ⟨m, hm, hmn, hsame⟩ := hns n hn
      exact ⟨m, hm, hnp.trans hmn, ih m hm hsame hsame'⟩

/-- **Sameness is an equivalence**, at any depth. -/
theorem same_equivalence : Equivalence fun v w : Json => v.same w = true :=
  ⟨same_refl, same_symm, same_trans⟩

end Json

end FormRouting
