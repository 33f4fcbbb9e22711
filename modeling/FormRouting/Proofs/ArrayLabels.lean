import FormRouting.Json.Label
import FormRouting.Proofs.Comparison.SameValue

/-!
# Arrays in labels

An array is shown by its elements between commas, and so is every array inside it. What
comes out has no brackets: it is the label of one flat list, and how deep an element
stood in the array is not seen in it.

* `leaves`: the flat list, from left to right; `leafText`: what stands between two commas.
* `intercalate_flatMap`: lists that are joined one by one and then joined are joined as
  one list, if none of them is empty; by `leaves_ne_nil` none is.
* `itemLabel_eq_intercalate`: the text of an element, by induction over the value.
* `Spliced`: an inner array gives way to its elements; `leaves_of_spliced`.
* `array_label_is_flat`: **the label of an array is its flat list between commas.**
-/

namespace FormRouting.Json

mutual

/-- **The leaves of a value**, from left to right. Arrays are flattened at every depth, but an array
without elements is a leaf, and so is an object, whatever it holds. -/
def leaves : Json → List Json
  | .array (v :: rest) => leavesOfItems (v :: rest)
  | v => [v]

def leavesOfItems : List Json → List Json
  | [] => []
  | v :: rest => leaves v ++ leavesOfItems rest

end

/-- A leaf between two commas. `null` and an array without elements leave the place empty. -/
def leafText : Json → String
  | .null => ""
  | .array _ => ""
  | .string s => s
  | .bool b => (Json.bool b).compact
  | .number n => (Json.number n).compact
  | .object members => (Json.object members).compact

/-! ## Leaves -/

theorem leavesOfItems_eq_flatMap (items : List Json) : leavesOfItems items = items.flatMap leaves := by
  induction items with
  | nil => rw [leavesOfItems, List.flatMap_nil]
  | cons v rest ih => rw [leavesOfItems, ih, List.flatMap_cons]

theorem leaves_array {items : List Json} (h : items ≠ []) :
    (Json.array items).leaves = items.flatMap leaves := by
  cases items with
  | nil => exact absurd rfl h
  | cons v rest => rw [leaves, leavesOfItems_eq_flatMap]

/-- A value has at least one leaf, so that it keeps its place between commas. -/
theorem leaves_ne_nil (v : Json) : v.leaves ≠ [] := by
  induction v using Json.induction with
  | array items ih =>
    cases items with
    | nil => simp [leaves]
    | cons v rest =>
      rw [leaves, leavesOfItems]
      exact List.append_ne_nil_of_left_ne_nil (ih v List.mem_cons_self) _
  | null | bool _ | number _ | string _ | object _ _ => simp [leaves]

/-! ## Joining -/

/-- **Joined one by one and then joined**: the same as joined once. -/
theorem intercalate_flatMap {α : Type} {sep : String} {parts : α → List String} {l : List α}
    (h : ∀ a ∈ l, parts a ≠ []) :
    sep.intercalate (l.map fun a => sep.intercalate (parts a)) =
      sep.intercalate (l.flatMap parts) := by
  induction l with
  | nil => rfl
  | cons a rest ih =>
    obtain ⟨ha, hrest⟩ := List.forall_mem_cons.1 h
    rw [List.map_cons, List.flatMap_cons]
    cases rest with
    | nil => rw [List.map_nil, String.intercalate_singleton, List.flatMap_nil, List.append_nil]
    | cons b others =>
      -- a separator follows the parts of `a` on both sides only if something comes after them
      have hne : (b :: others).flatMap parts ≠ [] := by
        rw [List.flatMap_cons]
        exact List.append_ne_nil_of_left_ne_nil (hrest b List.mem_cons_self) _
      rw [String.intercalate_cons_of_ne_nil (by simp), ih hrest,
        String.intercalate_append_of_ne_nil ha hne]

/-- The text of an element of an array. -/
def itemLabel : Json → String
  | .null => ""
  | v => v.label

theorem itemLabels_eq_map (items : List Json) : itemLabels items = items.map itemLabel := by
  induction items with
  | nil => rw [itemLabels, List.map_nil]
  | cons v rest ih => cases v <;> simp only [itemLabels, itemLabel, ih, List.map_cons]

/-- **An element is shown by its leaves between commas.** -/
theorem itemLabel_eq_intercalate (v : Json) :
    v.itemLabel = ",".intercalate (v.leaves.map leafText) := by
  induction v using Json.induction with
  | array items ih =>
    have hitems : (Json.array items).itemLabel = ",".intercalate (items.map itemLabel) := by
      simp only [itemLabel, label, itemLabels_eq_map]
    rw [hitems]
    obtain rfl | hne := eq_or_ne items []
    · rfl
    · rw [List.map_congr_left ih, intercalate_flatMap fun v _ => by simp [leaves_ne_nil],
        leaves_array hne, List.map_flatMap]
  | null | bool _ | number _ | string _ | object _ _ => simp [itemLabel, label, leaves, leafText]

/-! ## Elements in place of their array -/

/-- **An array that gives way to its elements.** The second value is the first one with some inner
array that is not empty replaced, at any depth, by the elements of that array. -/
inductive Spliced : Json → Json → Prop where
  | here (before after : List Json) {inner : List Json} (h : inner ≠ []) :
      Spliced (.array (before ++ .array inner :: after)) (.array (before ++ inner ++ after))
  | inside (before after : List Json) {v w : Json} (h : Spliced v w) :
      Spliced (.array (before ++ v :: after)) (.array (before ++ w :: after))

/-- The flat list does not change. -/
theorem leaves_of_spliced {v w : Json} (h : Spliced v w) : v.leaves = w.leaves := by
  induction h with
  | here before after hne =>
    rw [leaves_array (by simp), leaves_array (by simp [hne])]
    simp only [List.flatMap_append, List.flatMap_cons, leaves_array hne, List.append_assoc]
  | inside before after _ ih =>
    rw [leaves_array (by simp), leaves_array (by simp)]
    simp only [List.flatMap_append, List.flatMap_cons, ih]

theorem label_of_spliced {v w : Json} (h : Spliced v w) : v.label = w.label := by
  have harrays : v.itemLabel = v.label ∧ w.itemLabel = w.label := by
    cases h <;> exact ⟨rfl, rfl⟩
  rw [← harrays.1, ← harrays.2, itemLabel_eq_intercalate, itemLabel_eq_intercalate,
    leaves_of_spliced h]

/-- **The label of an array is flat.** It is the texts of the leaves between commas, however deep the
leaves stand in it; so nothing changes where an inner array that is not empty is replaced by its
elements. -/
theorem array_label_is_flat :
    (∀ items : List Json, optionalLabel (some (.array items)) =
      ",".intercalate ((Json.array items).leaves.map leafText)) ∧
    ∀ v w : Json, Spliced v w → optionalLabel (some v) = optionalLabel (some w) := by
  refine ⟨fun items => ?_, fun v w h => label_of_spliced h⟩
  exact itemLabel_eq_intercalate (.array items)

/-! ### Arrays in arrays -/

/-- Two levels of arrays, with places that stay empty and an array inside an object. -/
def nestedArrays : Json :=
  .array [.string "a", .array [.null, .array [], .array [.bool true, .string "b,c"]],
    .object [("k", .array [.number (.int 1)])], .null]

/-- The same values, the innermost array replaced by its elements. -/
def lessNestedArrays : Json :=
  .array [.string "a", .array [.null, .array [], .bool true, .string "b,c"],
    .object [("k", .array [.number (.int 1)])], .null]

/-- Both have one label, in which three places are empty. -/
theorem nested_arrays_labelled_alike :
    Spliced nestedArrays lessNestedArrays ∧
      optionalLabel (some nestedArrays) = optionalLabel (some lessNestedArrays) ∧
      optionalLabel (some nestedArrays) = "a,,,true,b,c,\x7b\"k\":[1]\x7d," := by
  have h : Spliced nestedArrays lessNestedArrays :=
    .inside [.string "a"] [.object [("k", .array [.number (.int 1)])], .null]
      (.here [.null, .array []] [] (by simp))
  refine ⟨h, array_label_is_flat.2 _ _ h, ?_⟩
  rfl

end FormRouting.Json
