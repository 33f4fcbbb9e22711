import Mathlib.Order.Defs.LinearOrder

/-!
# Texts in the order of their bytes

Texts are compared character by character, by code point. Their UTF-8 bytes, compared
one by one, are in the same order: where two characters differ, the bytes of the
smaller one are the smaller ones at the first byte in which they differ.

* `utf8EncodeChar_lt`: two characters, whatever bytes stand behind them.
* `compare_utf8Bytes`: **texts and their bytes compare alike.**
-/

namespace FormRouting

/-- The bytes of a text in UTF-8. -/
def utf8Bytes (s : String) : List UInt8 := s.toUTF8.data.toList

theorem utf8Bytes_eq (s : String) : utf8Bytes s = s.toList.flatMap String.utf8EncodeChar := by
  obtain ⟨l, rfl⟩ : ∃ l, s = String.ofList l := ⟨s.toList, String.ofList_toList.symm⟩
  rw [utf8Bytes, String.toUTF8_eq_toByteArray, String.toByteArray_ofList, String.toList_ofList,
    List.utf8Encode, List.data_toByteArray]

theorem utf8EncodeChar_lt {c d : Char} (h : c < d) (u v : List UInt8) :
    String.utf8EncodeChar c ++ u < String.utf8EncodeChar d ++ v := by
  have hlt : c.val.toNat < d.val.toNat := h
  have hmax : d.val.toNat < 0x110000 := by
    have := d.valid
    omega
  unfold String.utf8EncodeChar
  generalize c.val.toNat = m at hlt
  generalize d.val.toNat = n at hlt hmax
  simp only
  -- one case for each pair of lengths
  split_ifs <;>
    simp (disch := omega) only [List.cons_append, List.nil_append, List.cons_lt_cons_iff,
      UInt8.lt_iff_toNat_lt, ← UInt8.toNat_inj, UInt8.toNat_ofNat', Nat.mod_eq_of_lt] <;>
    omega

theorem flatMap_utf8EncodeChar_lt {k l : List Char} (h : k < l) :
    k.flatMap String.utf8EncodeChar < l.flatMap String.utf8EncodeChar := by
  replace h : List.Lex (· < ·) k l := h
  induction h with
  | @nil d l =>
    obtain ⟨x, xs, hd⟩ := List.exists_cons_of_ne_nil (String.utf8EncodeChar_ne_nil (c := d))
    rw [List.flatMap_cons, hd]
    exact List.nil_lt_cons _ _
  | rel hcd => exact utf8EncodeChar_lt hcd _ _
  | cons _ ih => exact List.append_left_lt ih

theorem compare_eq_lt_of_lt {u v : List UInt8} (h : u < v) : compare u v = .lt := by
  replace h : List.Lex (· < ·) u v := h
  induction h with
  | nil => rfl
  | rel hxy => rw [List.compare_cons_cons, Std.compare_eq_lt.2 hxy]; rfl
  | cons _ ih => rw [List.compare_cons_cons, Std.compare_self, ih]; rfl

/-- **Texts and their bytes compare alike.** -/
theorem compare_utf8Bytes (s t : String) : compare (utf8Bytes s) (utf8Bytes t) = compare s t := by
  have hlt : ∀ {s t : String}, compare s t = .lt → compare (utf8Bytes s) (utf8Bytes t) = .lt := by
    intro s t h
    have hst : s < t := compareOfLessAndEq_eq_lt.1 h
    rw [utf8Bytes_eq, utf8Bytes_eq]
    exact compare_eq_lt_of_lt (flatMap_utf8EncodeChar_lt hst)
  cases h : compare s t with
  | lt => exact hlt h
  | eq => rw [Std.LawfulEqOrd.eq_of_compare h, Std.compare_self]
  | gt => exact Std.OrientedCmp.gt_of_lt (hlt (Std.OrientedCmp.lt_of_gt h))

end FormRouting
