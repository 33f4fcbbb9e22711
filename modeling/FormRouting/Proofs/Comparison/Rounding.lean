import FormRouting.Binary64
import Mathlib.Data.Nat.Log
import Mathlib.Tactic.Linarith
import Mathlib.Tactic.Ring

/-!
# Whole numbers as binary64 numbers

The binary64 number of a whole number `n` is a whole number again, the nearest one to
`n` with at most 53 significant binary digits.

* `Fits53`: the whole numbers that are binary64 numbers.
* `IsNearest`: the nearest of these, half way the one with the even last digit.
* `IsNearest.eq_of_fits53`, `IsNearest.mono`, `IsNearest.unique`: what this says already
  fixes the exact numbers, the order and the number itself.
* `roundDiv_nearest`, `roundDiv_even`: rounding to a multiple of a unit.
* `ofInt_units`, `nearest_isNearest`: **conversion rounds to the nearest.**
-/

namespace FormRouting.Binary64

/-- A whole number with at most 53 significant binary digits. -/
def Fits53 (z : Int) : Prop := ∃ (s : Int) (k : Nat), s.natAbs < 2 ^ 53 ∧ z = s * 2 ^ k

/-- **The nearest number of 53 digits.** Between two that are equally near it is the one whose last
digit is even; half of the gap is then `n - r`. -/
structure IsNearest (n r : Int) : Prop where
  fits53 : Fits53 r
  nearest : ∀ z, Fits53 z → (n - r).natAbs ≤ (n - z).natAbs
  even : ∀ z, Fits53 z → z ≠ r → (n - r).natAbs = (n - z).natAbs → 4 * (n - r) ∣ r

theorem Fits53.neg {z : Int} (h : Fits53 z) : Fits53 (-z) := by
  obtain ⟨s, k, hs, rfl⟩ := h
  exact ⟨-s, k, by rwa [Int.natAbs_neg], by ring⟩

theorem Fits53.mul_two_pow {z : Int} (h : Fits53 z) (k : Nat) : Fits53 (z * 2 ^ k) := by
  obtain ⟨s, j, hs, rfl⟩ := h
  exact ⟨s, j + k, hs, by rw [pow_add, mul_assoc]⟩

/-- Up to `2 ^ 53` every whole number fits. -/
theorem fits53_of_natAbs_le {z : Int} (h : z.natAbs ≤ 2 ^ 53) : Fits53 z := by
  by_cases hlt : z.natAbs < 2 ^ 53
  · exact ⟨z, 0, hlt, by ring⟩
  · have hz : z = 2 ^ 53 ∨ z = -2 ^ 53 := by omega
    rcases hz with rfl | rfl
    · exact ⟨1, 53, by decide, by ring⟩
    · exact ⟨-1, 53, by decide, by ring⟩

namespace IsNearest

variable {n r m s : Int}

theorem neg (h : IsNearest n r) : IsNearest (-n) (-r) where
  fits53 := h.fits53.neg
  nearest z hz := by
    have := h.nearest (-z) hz.neg
    omega
  even z hz hne heq := by
    have := h.even (-z) hz.neg (by omega) (by omega)
    rwa [show 4 * (-n - -r) = -(4 * (n - r)) by ring, Int.neg_dvd, Int.dvd_neg]

/-- A number that fits is its own nearest. -/
theorem eq_of_fits53 (h : IsNearest n r) (hn : Fits53 n) : r = n := by
  have := h.nearest n hn
  omega

/-- Rounding never turns an order round. -/
theorem mono (hn : IsNearest n r) (hm : IsNearest m s) (h : n < m) : r ≤ s := by
  have h1 := hn.nearest s hm.fits53
  have h2 := hm.nearest r hn.fits53
  omega

/-- There is one nearest number: of two on either side of `n`, one has an odd last digit. -/
theorem unique (h : IsNearest n r) (h' : IsNearest n s) : r = s := by
  by_contra hne
  have hrs : (n - r).natAbs = (n - s).natAbs :=
    Nat.le_antisymm (h.nearest s h'.fits53) (h'.nearest r h.fits53)
  obtain ⟨p, hp⟩ := h.even s h'.fits53 (Ne.symm hne) hrs
  obtain ⟨q, hq⟩ := h'.even r h.fits53 hne hrs.symm
  have hgap : n - s = -(n - r) := by omega
  have hd : n - r ≠ 0 := by omega
  have hodd : 2 * (n - r) * (2 * (p + q) + 1) = 0 := by
    rw [hgap] at hq
    linarith
  rcases Int.mul_eq_zero.1 hodd with h0 | h0 <;> omega

end IsNearest

/-! ## Rounding to a multiple of a unit -/

variable {m u : Nat}

/-- The remainder after rounding is at most half a unit, and half of one only behind an even
multiple. -/
theorem roundDiv_spec (hu : 0 < u) :
    2 * ((m : Int) - roundDiv m u * u).natAbs ≤ u ∧
      (2 * ((m : Int) - roundDiv m u * u).natAbs = u → roundDiv m u % 2 = 0) := by
  have hdiv : (u : Int) * (m / u : Nat) + (m % u : Nat) = m := by
    exact_mod_cast Nat.div_add_mod m u
  have hmod : m % u < u := Nat.mod_lt m hu
  unfold roundDiv
  simp only
  split_ifs with h
  · have hsum : ((m / u + 1 : Nat) : Int) * u = u * (m / u : Nat) + u := by push_cast; ring
    rw [hsum]
    omega
  · have hsum : ((m / u : Nat) : Int) * u = u * (m / u : Nat) := by ring
    rw [hsum]
    omega

/-- Another multiple is a unit away from the rounded one. -/
theorem unit_le_of_ne {q t : Int} (h : t ≠ q) (u : Nat) : (u : Int) ≤ (q * u - t * u).natAbs := by
  have hne : 1 ≤ (q - t).natAbs := by omega
  have hmul : (q * u - t * u).natAbs = (q - t).natAbs * u := by
    rw [← Int.sub_mul, Int.natAbs_mul, Int.natAbs_natCast]
  rw [hmul]
  exact_mod_cast Nat.le_mul_of_pos_left u hne

theorem roundDiv_nearest (hu : 0 < u) (t : Int) :
    ((m : Int) - roundDiv m u * u).natAbs ≤ (m - t * u).natAbs := by
  by_cases ht : t = roundDiv m u
  · rw [ht]
  · have hhalf := (roundDiv_spec (m := m) hu).1
    have haway := unit_le_of_ne ht u
    omega

/-- Where another multiple is equally near, rounding has gone to the even one. -/
theorem roundDiv_even (hu : 0 < u) {t : Int} (ht : t ≠ roundDiv m u)
    (h : ((m : Int) - roundDiv m u * u).natAbs = (m - t * u).natAbs) :
    2 * ((m : Int) - roundDiv m u * u).natAbs = u ∧ roundDiv m u % 2 = 0 := by
  obtain ⟨hhalf, heven⟩ := roundDiv_spec (m := m) hu
  have haway := unit_le_of_ne ht u
  have heq : 2 * ((m : Int) - roundDiv m u * u).natAbs = u := by omega
  exact ⟨heq, heven heq⟩

/-- The unit does not matter for the multiple. -/
theorem roundDiv_scale (m u : Nat) {c : Nat} (hc : 0 < c) :
    roundDiv (m * c) (u * c) = roundDiv m u := by
  unfold roundDiv
  simp only [Nat.mul_div_mul_right _ _ hc, Nat.mul_mod_mul_right, ← Nat.mul_assoc, gt_iff_lt,
    Nat.mul_lt_mul_right hc, Nat.mul_left_inj (Nat.pos_iff_ne_zero.1 hc)]

theorem roundDiv_mul (q : Nat) (hu : 0 < u) : roundDiv (q * u) u = q := by
  unfold roundDiv
  simp [Nat.mul_div_cancel q hu, Nat.ne_of_lt hu]

/-! ## Rounding to 53 digits -/

/-- The last place of the 53 leading binary digits of `m`; one where `m` has fewer digits. -/
def lastPlace (m : Nat) : Nat := 2 ^ (m.log2 + 1 - 53)

theorem lastPlace_pos (m : Nat) : 0 < lastPlace m := Nat.two_pow_pos _

theorem lt_lastPlace (m : Nat) : m < 2 ^ 53 * lastPlace m := by
  rw [lastPlace, ← Nat.pow_add]
  calc m < 2 ^ (m.log2 + 1) := Nat.lt_log2_self
    _ ≤ 2 ^ (53 + (m.log2 + 1 - 53)) := Nat.pow_le_pow_right (by decide) (by omega)

theorem lastPlace_le (h : lastPlace m ≠ 1) : 2 ^ 52 * lastPlace m ≤ m := by
  have hlarge : 53 ≤ m.log2 := by
    by_contra hsmall
    exact h (by rw [lastPlace, Nat.sub_eq_zero_of_le (by omega)]; rfl)
  have hm : m ≠ 0 := by
    rintro rfl
    exact absurd hlarge (by decide)
  rw [lastPlace, ← Nat.pow_add, show 52 + (m.log2 + 1 - 53) = m.log2 by omega]
  exact Nat.log2_self_le hm

/-- `m` to its 53 leading digits. -/
def nearestNat (m : Nat) : Nat := roundDiv m (lastPlace m) * lastPlace m

/-- A number of 53 digits is a multiple of the last place of `m`, or has fewer digits than `m`. -/
theorem Fits53.multiple_or_lt {z : Int} (h : Fits53 z) (m : Nat) :
    (∃ t : Int, z = t * lastPlace m) ∨ lastPlace m ≠ 1 ∧ z < 2 ^ 52 * lastPlace m := by
  obtain ⟨s, j, hs, rfl⟩ := h
  rw [lastPlace, Nat.cast_pow, Nat.cast_ofNat]
  by_cases hj : m.log2 + 1 - 53 ≤ j
  · refine .inl ⟨s * 2 ^ (j - (m.log2 + 1 - 53)), ?_⟩
    rw [mul_assoc, ← pow_add, Nat.sub_add_cancel hj]
  · refine .inr ⟨Nat.ne_of_gt (Nat.one_lt_two_pow (by omega)), ?_⟩
    have hs' : s < 2 ^ 53 := by omega
    calc s * 2 ^ j < 2 ^ 53 * 2 ^ j := mul_lt_mul_of_pos_right hs' (by positivity)
      _ = 2 ^ 52 * 2 ^ (j + 1) := by ring
      _ ≤ 2 ^ 52 * 2 ^ (m.log2 + 1 - 53) := by gcongr <;> omega

theorem roundDiv_lastPlace_le (m : Nat) : roundDiv m (lastPlace m) ≤ 2 ^ 53 := by
  have hhalf := (roundDiv_spec (m := m) (lastPlace_pos m)).1
  have hlt := lt_lastPlace m
  by_contra hq
  have hle : (2 ^ 53 + 1) * lastPlace m ≤ roundDiv m (lastPlace m) * lastPlace m :=
    Nat.mul_le_mul_right _ (by omega)
  rw [Nat.add_mul, Nat.one_mul] at hle
  zify at hlt hle
  omega

theorem nearestNat_isNearest (m : Nat) : IsNearest m (nearestNat m) := by
  have hu := lastPlace_pos m
  -- a number with fewer digits than `m` is farther away than the least number with as many digits
  have hfar : ∀ z : Int, lastPlace m ≠ 1 → z < 2 ^ 52 * lastPlace m →
      ((m : Int) - roundDiv m (lastPlace m) * lastPlace m).natAbs < ((m : Int) - z).natAbs := by
    intro z hu1 hz
    have hleast := roundDiv_nearest (m := m) hu (2 ^ 52)
    have hle : 2 ^ 52 * (lastPlace m : Int) ≤ m := by exact_mod_cast lastPlace_le hu1
    omega
  rw [nearestNat, Nat.cast_mul]
  refine ⟨?_, fun z hz => ?_, fun z hz hne heq => ?_⟩
  · rw [lastPlace, Nat.cast_pow, Nat.cast_ofNat, ← lastPlace]
    exact (fits53_of_natAbs_le (by exact_mod_cast roundDiv_lastPlace_le m)).mul_two_pow _
  · rcases hz.multiple_or_lt m with ⟨t, rfl⟩ | ⟨hu1, hlt⟩
    · exact roundDiv_nearest hu t
    · exact (hfar z hu1 hlt).le
  · rcases hz.multiple_or_lt m with ⟨t, rfl⟩ | ⟨hu1, hlt⟩
    · have ht : t ≠ roundDiv m (lastPlace m) := fun h => hne (by rw [h])
      obtain ⟨hhalf, heven⟩ := roundDiv_even hu ht heq
      obtain ⟨q, hq⟩ := Nat.dvd_of_mod_eq_zero heven
      generalize roundDiv m (lastPlace m) = d at hhalf hq ⊢
      subst hq
      have hmul : ((2 * q : Nat) : Int) * lastPlace m = q * (2 * lastPlace m) := by push_cast; ring
      have hgap : 4 * ((m : Int) - (2 * q : Nat) * lastPlace m) = 2 * lastPlace m ∨
          4 * ((m : Int) - (2 * q : Nat) * lastPlace m) = -(2 * lastPlace m) := by omega
      rcases hgap with hgap | hgap <;> rw [hgap, hmul]
      · exact Int.dvd_mul_left _ _
      · exact Int.neg_dvd.2 (Int.dvd_mul_left _ _)
    · exact absurd heq (hfar z hu1 hlt).ne

/-! ## Conversion -/

/-- The whole number that stands for `n`. -/
def nearest (n : Int) : Int :=
  if n < 0 then -(nearestNat n.natAbs : Int) else nearestNat n.natAbs

theorem nearest_isNearest (n : Int) : IsNearest n (nearest n) := by
  have h := nearestNat_isNearest n.natAbs
  unfold nearest
  split_ifs with hn
  · rw [Int.ofNat_natAbs_of_nonpos hn.le] at h
    simpa using h.neg
  · rwa [Int.natAbs_of_nonneg (by omega)] at h

/-- What `nearest` gives is all that "nearest" can mean. -/
theorem isNearest_iff {n r : Int} : IsNearest n r ↔ nearest n = r :=
  ⟨(nearest_isNearest n).unique, fun h => h ▸ nearest_isNearest n⟩

/-- Rounding in smaller units, `k` binary digits below one, gives the same number. -/
theorem roundDiv_shifted {m : Nat} (hm : m ≠ 0) {k : Nat} (hk : 52 ≤ k) :
    roundDiv (m * 2 ^ k) (2 ^ ((m * 2 ^ k).log2 + 1 - 53)) * 2 ^ ((m * 2 ^ k).log2 + 1 - 53) =
      nearestNat m * 2 ^ k := by
  have hlog : (m * 2 ^ k).log2 = m.log2 + k := by
    obtain ⟨hlow, hhigh⟩ := (Nat.log2_eq_iff hm).1 rfl
    refine (Nat.log2_eq_iff (Nat.mul_ne_zero hm (Nat.two_pow_pos k).ne')).2 ⟨?_, ?_⟩
    · rw [Nat.pow_add]
      exact Nat.mul_le_mul_right _ hlow
    · rw [Nat.add_right_comm, Nat.pow_add]
      exact Nat.mul_lt_mul_of_pos_right hhigh (Nat.two_pow_pos k)
  rw [hlog, nearestNat, lastPlace]
  by_cases hlarge : 53 ≤ m.log2 + 1
  · have hexp : m.log2 + k + 1 - 53 = m.log2 + 1 - 53 + k := by omega
    rw [hexp, Nat.pow_add, roundDiv_scale _ _ (Nat.two_pow_pos k), mul_assoc]
  · -- all digits are kept, in both units
    obtain ⟨j, hj⟩ : ∃ j, k = j + (m.log2 + k + 1 - 53) := ⟨52 - m.log2, by omega⟩
    generalize m.log2 + k + 1 - 53 = i at hj
    have hone : m.log2 + 1 - 53 = 0 := by omega
    have hself : roundDiv m 1 = m := by simpa using roundDiv_mul m Nat.one_pos
    rw [hone, pow_zero, hself, mul_one, hj, Nat.pow_add, ← mul_assoc,
      roundDiv_mul _ (Nat.two_pow_pos i)]

/-- A carry into the next binary digit does not change the value. -/
theorem units_round (negative : Bool) (m : Nat) {k : Nat} (hk : 1074 = k) :
    (round negative m 1).units = (if negative then -1 else 1) *
      ((roundDiv (m * 2 ^ k) (2 ^ ((m * 2 ^ k).log2 + 1 - 53)) *
        2 ^ ((m * 2 ^ k).log2 + 1 - 53) : Nat) : Int) := by
  unfold round
  rw [hk]
  simp only [Nat.pow_eq, Nat.div_one, Nat.one_mul]
  generalize (m * 2 ^ k).log2 + 1 - 53 = e
  generalize roundDiv (m * 2 ^ k) (2 ^ e) = q
  by_cases hq : q = 2 ^ 53
  · have hcarry : 2 ^ 52 * 2 ^ (e + 1) = 2 ^ 53 * 2 ^ e := by ring
    rw [if_pos hq, hq, ← hcarry]
    cases negative <;> simp [units]
  · rw [if_neg hq]
    cases negative <;> simp [units]

/-- **Conversion rounds to the nearest**: the binary64 number of `n` is `nearest n`. -/
theorem ofInt_units (n : Int) : (ofInt n).units = nearest n * 2 ^ 1074 := by
  -- the exponent is kept as a variable, so that nothing evaluates the power
  generalize hk : 1074 = k
  have hround : (round (decide (n < 0)) n.natAbs 1).units =
      (if decide (n < 0) = true then -1 else 1) * ((nearestNat n.natAbs * 2 ^ k : Nat) : Int) := by
    rw [units_round _ _ hk]
    by_cases hn : n.natAbs = 0
    · simp [hn, nearestNat, roundDiv]
    · rw [roundDiv_shifted hn (by omega)]
  rw [ofInt, hround, nearest]
  by_cases hneg : n < 0 <;> simp [hneg]

end FormRouting.Binary64
