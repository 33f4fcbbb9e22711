import FormRouting.FieldValues
import Mathlib.Data.List.TakeWhile
import Mathlib.Data.Nat.Digits.Defs

/-!
# Looking up a path

A path is cut at its dots, and there is only one way to cut it. A value stored under the
whole path comes first. Without one, the first segment is the name of a stored value, and
every further segment leads to the member of an object or to the element of an array, as
long as there is one.

* `Decomposes`: the segments of a path; `decomposes_iff`: there are no others. `firstPart`: the
  first one.
* `WritesIndex`: a segment that denotes an element; `index?_eq_some_iff`: which one it is.
* `Enters`, `Reaches`: one step into a value, and the steps along segments.
* `navigate_eq_some_iff`, `navigate_eq_none_iff`: navigation arrives where the steps lead, or
  comes to a step that does not exist.
* `getPath?_append_dot`: a path that goes on behind another one;
  `exists_getPath?_firstPart`: a value under the first part can be enough for any path.
* `getPath?_is_navigation`: **a path gives what is stored under it, else what navigation
  reaches from its first segment; and a longer path goes on from a shorter one.**
-/

namespace FormRouting

/-! ## Indices -/

namespace Digit

/-- The digits below ten are the ten digit characters. -/
theorem value?_ten_eq_some_iff {c : Char} {d : Nat} :
    value? 10 c = some d ↔ d < 10 ∧ c = Nat.digitChar d := by
  constructor
  · intro h
    unfold value? at h
    by_cases hc : '0' ≤ c ∧ c ≤ '9'
    · have hlow : 48 ≤ c.toNat := hc.1
      have hhigh : c.toNat ≤ 57 := hc.2
      have hvalue : decimal c = c.toNat - 48 := rfl
      have hlt : c.toNat - 48 < 10 := by omega
      simp only [if_pos hc, hvalue, if_pos hlt, Option.some.injEq] at h
      subst h
      refine ⟨hlt, Char.toNat_inj.1 ?_⟩
      rw [Nat.toNat_digitChar_of_lt_ten hlt]
      omega
    · -- a letter is worth ten at least
      simp only [if_neg hc] at h
      split at h <;> grind
  · rintro ⟨hd, rfl⟩
    revert d
    decide

/-- Digits behind the number `n`, the highest digit first. -/
theorem extend?_ten_eq_some_iff {n m : Nat} {cs : List Char} :
    extend? 10 n cs = some m ↔ ∃ digits : List Nat, (∀ d ∈ digits, d < 10) ∧
      cs = digits.map Nat.digitChar ∧ m = digits.foldl (fun n d => d + 10 * n) n := by
  induction cs generalizing n with
  | nil =>
    constructor
    · rintro ⟨⟩
      exact ⟨[], List.forall_mem_nil _, rfl, rfl⟩
    · rintro ⟨digits, -, hnil, rfl⟩
      rw [List.map_eq_nil_iff.1 hnil.symm]
      rfl
  | cons c rest ih =>
    simp only [extend?, Option.bind_eq_some_iff, value?_ten_eq_some_iff, ih]
    constructor
    · rintro ⟨d, ⟨hd, rfl⟩, digits, hdigits, rfl, rfl⟩
      refine ⟨d :: digits, List.forall_mem_cons.2 ⟨hd, hdigits⟩, rfl, ?_⟩
      rw [List.foldl_cons, Nat.mul_comm, Nat.add_comm]
    · rintro ⟨digits, hdigits, hcs, rfl⟩
      obtain ⟨d, digits, rfl, rfl, rfl⟩ := List.map_eq_cons_iff.1 hcs.symm
      obtain ⟨hd, hdigits⟩ := List.forall_mem_cons.1 hdigits
      refine ⟨d, ⟨hd, rfl⟩, digits, hdigits, rfl, ?_⟩
      rw [List.foldl_cons, Nat.mul_comm, Nat.add_comm]

/-- A whole number is written by its decimal digits, with zeros or not. -/
theorem number?_ten_eq_some_iff {n : Nat} {cs : List Char} :
    number? 10 cs = some n ↔ ∃ digits : List Nat, digits ≠ [] ∧ (∀ d ∈ digits, d < 10) ∧
      cs = digits.map Nat.digitChar ∧ n = Nat.ofDigits 10 digits.reverse := by
  have hvalue : ∀ digits : List Nat,
      digits.foldl (fun n d => d + 10 * n) 0 = Nat.ofDigits 10 digits.reverse := by
    intro digits
    rw [Nat.ofDigits_eq_foldr, List.foldr_reverse]
    rfl
  unfold number?
  cases cs with
  | nil => simp [eq_comm]
  | cons c rest =>
    simp only [List.isEmpty_cons, Bool.false_eq_true, if_false, extend?_ten_eq_some_iff, hvalue]
    constructor
    · rintro ⟨digits, hdigits, hcs, hn⟩
      exact ⟨digits, fun h => by simp [h] at hcs, hdigits, hcs, hn⟩
    · rintro ⟨digits, -, hdigits, hcs, hn⟩
      exact ⟨digits, hdigits, hcs, hn⟩

theorem digitChar_ne_plus {d : Nat} (hd : d < 10) : Nat.digitChar d ≠ '+' := by
  revert d
  decide

end Digit

namespace FieldValues

/-- The segment writes the index `n` of an element: by at least one decimal digit, the highest
first, with a plus sign before them or not; and the index fits into 64 bits. -/
def WritesIndex (segment : String) (n : Nat) : Prop :=
  ∃ digits : List Nat, digits ≠ [] ∧ (∀ d ∈ digits, d < 10) ∧
    (segment.toList = digits.map Nat.digitChar ∨
      segment.toList = '+' :: digits.map Nat.digitChar) ∧
    n = Nat.ofDigits 10 digits.reverse ∧ n < 2 ^ 64

theorem index?_eq_some_iff {segment : String} {n : Nat} :
    index? segment = some n ↔ WritesIndex segment n := by
  unfold index? WritesIndex
  simp only [Option.bind_eq_some_iff, Option.ite_none_right_eq_some, Option.some.injEq]
  constructor
  · rintro ⟨m, hm, hlt, rfl⟩
    obtain ⟨digits, hne, hdigits, hcs, rfl⟩ := Digit.number?_ten_eq_some_iff.1 hm
    refine ⟨digits, hne, hdigits, ?_, rfl, hlt⟩
    split at hcs
    · next rest hplus => exact .inr (hplus.trans (congrArg _ hcs))
    · exact .inl hcs
  · rintro ⟨digits, hne, hdigits, hsegment, rfl, hlt⟩
    refine ⟨_, Digit.number?_ten_eq_some_iff.2 ⟨digits, hne, hdigits, ?_, rfl⟩, hlt, rfl⟩
    rcases hsegment with hsegment | hsegment
    · -- the first digit is no plus sign
      split
      · next rest hplus =>
        obtain ⟨d, digits, rfl, hd, -⟩ := List.map_eq_cons_iff.1 (hsegment.symm.trans hplus)
        exact absurd hd (Digit.digitChar_ne_plus (hdigits d List.mem_cons_self))
      · exact hsegment
    · simp only [hsegment]

/-! ## Segments -/

/-- The path consists of these segments, with a dot between any two and none inside of one. -/
def Decomposes (path : String) (parts : List String) : Prop :=
  parts ≠ [] ∧ (∀ part ∈ parts, '.' ∉ part.toList) ∧ ".".intercalate parts = path

theorem splitDots_eq_splitOn (cs : List Char) : splitDots cs = cs.splitOn '.' := by
  induction cs with
  | nil => rfl
  | cons c rest ih =>
    rw [splitDots, List.splitOn_cons_eq_if_modifyHead, ih]
    by_cases hc : c = '.'
    · simp [hc]
    · simp only [if_neg hc, beq_eq_false_iff_ne.2 hc, Bool.false_eq_true, if_false]
      cases hrest : rest.splitOn '.' with
      | nil => exact absurd hrest (List.splitOn_ne_nil _ _)
      | cons s others => rfl

theorem segments_eq (path : String) :
    segments path = (path.toList.splitOn '.').map String.ofList := by
  rw [segments, splitDots_eq_splitOn]

theorem toList_segments (path : String) :
    (segments path).map String.toList = path.toList.splitOn '.' := by
  rw [segments_eq, List.map_map]
  simp

/-- The part of a path before its first dot; all of it where there is none. -/
def firstPart (path : String) : String := String.ofList (path.toList.takeWhile (· ≠ '.'))

theorem head?_splitDots (cs : List Char) :
    (splitDots cs).head? = some (cs.takeWhile (· ≠ '.')) := by
  induction cs with
  | nil => rfl
  | cons c rest ih =>
    rw [splitDots]
    by_cases hc : c = '.'
    · rw [if_pos hc, List.takeWhile_cons_of_neg (by simpa using hc)]
      rfl
    · rw [if_neg hc, List.takeWhile_cons_of_pos (by simpa using hc)]
      cases hrest : splitDots rest with
      | nil => rw [hrest] at ih; cases ih
      | cons s others =>
        rw [hrest] at ih
        rw [← Option.some.inj ih]
        rfl

/-- The first segment is the part before the first dot. -/
theorem exists_segments_eq (path : String) : ∃ rest, segments path = firstPart path :: rest := by
  have hhead := head?_splitDots path.toList
  cases hsplit : splitDots path.toList with
  | nil => rw [hsplit] at hhead; cases hhead
  | cons first rest =>
    rw [hsplit] at hhead
    refine ⟨rest.map String.ofList, ?_⟩
    rw [segments, hsplit, List.map_cons, Option.some.inj hhead]
    rfl

theorem firstPart_eq_self_iff {path : String} : firstPart path = path ↔ '.' ∉ path.toList := by
  constructor
  · intro h hdot
    rw [← h, firstPart, String.toList_ofList] at hdot
    simpa using List.mem_takeWhile_imp hdot
  · intro h
    have hall : ∀ c ∈ path.toList, decide (c ≠ '.') = true := fun c hc =>
      decide_eq_true fun heq => h (heq ▸ hc)
    rw [firstPart, List.takeWhile_eq_self_iff.2 hall, String.ofList_toList]

/-- No dot is left inside of a segment. -/
theorem dot_notMem_splitDots {cs part : List Char} (h : part ∈ splitDots cs) : '.' ∉ part := by
  fun_induction splitDots cs generalizing part with
  | case1 =>
    rw [List.mem_singleton.1 h]
    exact List.not_mem_nil
  | case2 rest ih =>
    rcases List.mem_cons.1 h with rfl | h
    · exact List.not_mem_nil
    · exact ih h
  | case3 c rest hc hrest =>
    rw [List.mem_singleton.1 h, List.mem_singleton]
    exact Ne.symm hc
  | case4 c rest hc s others hrest ih =>
    rw [hrest] at ih
    rcases List.mem_cons.1 h with rfl | h
    · exact List.not_mem_cons_of_ne_of_not_mem (Ne.symm hc) (ih List.mem_cons_self)
    · exact ih (List.mem_cons_of_mem _ h)

theorem decomposes_segments (path : String) : Decomposes path (segments path) := by
  obtain ⟨rest, hsegments⟩ := exists_segments_eq path
  refine ⟨fun hnil => ?_, fun part hpart => ?_, String.toList_inj.1 ?_⟩
  · exact List.cons_ne_nil _ _ (hsegments.symm.trans hnil)
  · obtain ⟨cs, hcs, rfl⟩ := List.mem_map.1 hpart
    rw [String.toList_ofList]
    exact dot_notMem_splitDots hcs
  · rw [String.toList_intercalate, toList_segments]
    exact List.intercalate_splitOn '.'

/-- A path has no other segments than its own. -/
theorem decomposes_iff {path : String} {parts : List String} :
    Decomposes path parts ↔ parts = segments path := by
  constructor
  · rintro ⟨hne, hdots, rfl⟩
    have hlists : ∀ cs ∈ parts.map String.toList, '.' ∉ cs := List.forall_mem_map.2 hdots
    have hsplit := List.splitOn_intercalate '.' hlists (mt List.map_eq_nil_iff.1 hne)
    have hdot : ".".toList = ['.'] := rfl
    rw [segments_eq, String.toList_intercalate, hdot, hsplit, List.map_map]
    simp
  · rintro rfl
    exact decomposes_segments path

theorem segments_of_dotFree {path : String} (h : '.' ∉ path.toList) : segments path = [path] := by
  rw [segments_eq, List.splitOn_eq_singleton h, List.map_singleton, String.ofList_toList]

/-- Behind a dot, the segments of the rest follow. -/
theorem segments_append_dot (p q : String) :
    segments (p ++ "." ++ q) = segments p ++ segments q := by
  have hlist : (p ++ "." ++ q).toList = p.toList ++ '.' :: q.toList := by simp
  rw [segments_eq, hlist, List.splitOn_append_cons_self, List.map_append, ← segments_eq,
    ← segments_eq]

/-! ## Steps into a value -/

/-- **One step into a value**: to the member of an object with that very name, or to the element of
an array whose index is written. There is no step into any other value. -/
inductive Enters : Json → String → Json → Prop where
  | member {members : List (String × Json)} {name : String} {value : Json}
      (h : members.lookup name = some value) : Enters (.object members) name value
  | item {items : List Json} {segment : String} {index : Nat} {value : Json}
      (hindex : WritesIndex segment index) (h : items[index]? = some value) :
      Enters (.array items) segment value

/-- Step after step along segments. -/
inductive Reaches : Json → List String → Json → Prop where
  | here (value : Json) : Reaches value [] value
  | step {value next last : Json} {segment : String} {rest : List String}
      (h : Enters value segment next) (hrest : Reaches next rest last) :
      Reaches value (segment :: rest) last

/-- On the way along the segments there comes one that leads nowhere. -/
def BreaksOff (value : Json) (path : List String) : Prop :=
  ∃ before segment after last, path = before ++ segment :: after ∧ Reaches value before last ∧
    ∀ next, ¬ Enters last segment next

theorem enter_eq_some_iff {value next : Json} {segment : String} :
    enter value segment = some next ↔ Enters value segment next := by
  cases value with
  | array items =>
    simp only [enter, Option.bind_eq_some_iff, index?_eq_some_iff, Json.item?]
    constructor
    · rintro ⟨index, hindex, h⟩
      exact .item hindex h
    · rintro (_ | ⟨hindex, h⟩)
      exact ⟨_, hindex, h⟩
  | object members =>
    simp only [enter, Json.member?]
    constructor
    · exact .member
    · rintro (h | _)
      exact h
  | null | bool | number | string =>
    constructor
    · intro h
      cases h
    · intro h
      cases h

/-- **Navigation arrives where the steps lead.** -/
theorem navigate_eq_some_iff {value last : Json} {path : List String} :
    navigate path value = some last ↔ Reaches value path last := by
  induction path generalizing value with
  | nil =>
    constructor
    · rintro ⟨⟩
      exact .here _
    · rintro ⟨⟩
      rfl
  | cons segment rest ih =>
    simp only [navigate, Option.bind_eq_some_iff, enter_eq_some_iff, ih]
    constructor
    · rintro ⟨next, h, hrest⟩
      exact .step h hrest
    · rintro (_ | ⟨h, hrest⟩)
      exact ⟨_, h, hrest⟩

theorem navigate_append (before after : List String) (value : Json) :
    navigate (before ++ after) value = (navigate before value).bind (navigate after) := by
  induction before generalizing value with
  | nil => rfl
  | cons segment rest ih =>
    simp only [List.cons_append, navigate, Option.bind_assoc, ih]

/-- **Navigation gives nothing just where a step is missing.** -/
theorem navigate_eq_none_iff {value : Json} {path : List String} :
    navigate path value = none ↔ BreaksOff value path := by
  constructor
  · intro h
    induction path generalizing value with
    | nil => cases h
    | cons segment rest ih =>
      rw [navigate] at h
      -- the first step is missing, or one behind it
      cases hnext : enter value segment with
      | none =>
        refine ⟨[], segment, rest, value, rfl, .here value, fun next hstep => ?_⟩
        rw [enter_eq_some_iff.2 hstep] at hnext
        cases hnext
      | some next =>
        rw [hnext, Option.bind_some] at h
        obtain ⟨before, s, after, last, rfl, hlast, hnone⟩ := ih h
        exact ⟨segment :: before, s, after, last, rfl, .step (enter_eq_some_iff.1 hnext) hlast, hnone⟩
  · rintro ⟨before, segment, after, last, rfl, hlast, hnone⟩
    have henter : enter last segment = none :=
      Option.eq_none_iff_forall_ne_some.2 fun next h => hnone next (enter_eq_some_iff.1 h)
    rw [navigate_append, navigate_eq_some_iff.2 hlast, Option.bind_some, navigate, henter]
    rfl

/-- Objects inside each other, one for each segment. -/
def nested : List String → Json
  | [] => .null
  | segment :: rest => .object [(segment, nested rest)]

theorem navigate_nested (path : List String) : navigate path (nested path) = some .null := by
  induction path with
  | nil => rfl
  | cons segment rest ih =>
    have henter : enter (nested (segment :: rest)) segment = some (nested rest) :=
      List.lookup_cons_self
    rw [navigate, henter, Option.bind_some, ih]

/-! ## Look-ups -/

section

variable {values : FieldValues}

theorem get?_insert (values : FieldValues) (name other : String) (value : Json) :
    (values.insert name value).get? other = if other = name then some value else values.get? other :=
  values.fields.get?_insert name other value

theorem getPath?_of_stored {path : String} {value : Json} (h : values.get? path = some value) :
    values.getPath? path = some value := by
  rw [getPath?, h]

/-- What is not stored under its path is looked up from the first segment on. -/
theorem getPath?_of_segments {path first : String} {rest : List String}
    (h : values.get? path = none) (hsegments : segments path = first :: rest) :
    values.getPath? path = (values.get? first).bind (navigate rest) := by
  rw [getPath?, h, hsegments]

theorem getPath?_of_dotFree {name : String} (h : '.' ∉ name.toList) :
    values.getPath? name = values.get? name := by
  cases hstored : values.get? name with
  | some value => exact getPath?_of_stored hstored
  | none => rw [getPath?_of_segments hstored (segments_of_dotFree h), hstored]; rfl

/-- **A longer path goes on from a shorter one**, unless a value stored under one of them hides what
the segments lead to. -/
theorem getPath?_append_dot {p q : String} (hpq : values.get? (p ++ "." ++ q) = none)
    (hp : '.' ∉ p.toList ∨ values.get? p = none) :
    values.getPath? (p ++ "." ++ q) = (values.getPath? p).bind (navigate (segments q)) := by
  obtain ⟨rest, hsegments⟩ := exists_segments_eq p
  have hlonger : segments (p ++ "." ++ q) = firstPart p :: (rest ++ segments q) := by
    rw [segments_append_dot, hsegments, List.cons_append]
  have hshorter : values.getPath? p = (values.get? (firstPart p)).bind (navigate rest) := by
    rcases hp with hp | hp
    · -- a path without dots is its own first segment, and no step follows
      obtain ⟨hfirst, rfl⟩ := List.cons.inj (hsegments.symm.trans (segments_of_dotFree hp))
      rw [hfirst, getPath?_of_dotFree hp]
      exact (Option.bind_fun_some _).symm
    · exact getPath?_of_segments hp hsegments
  rw [getPath?_of_segments hpq hlonger, hshorter, Option.bind_assoc]
  exact Option.bind_congr fun start _ => navigate_append rest (segments q) start

end

/-- Whatever the path, a value under its first part alone can be enough for a look-up. -/
theorem exists_getPath?_firstPart (path : String) :
    ∃ value, ((empty.insert (firstPart path) value).getPath? path).isSome = true := by
  obtain ⟨rest, hsegments⟩ := exists_segments_eq path
  refine ⟨nested rest, ?_⟩
  cases hstored : (empty.insert (firstPart path) (nested rest)).get? path with
  | some value => rw [getPath?_of_stored hstored]; rfl
  | none =>
    rw [getPath?_of_segments hstored hsegments, get?_insert, if_pos rfl, Option.bind_some,
      navigate_nested]
    rfl

/-- **A path gives what is stored under it, else what navigation reaches.** There is one way to cut
a path into segments. If nothing is stored under the whole path, the steps along the segments lead
from the value stored under the first one to the value of the path; there is none just where
nothing is stored under the first segment or a step is missing. And a longer path goes on from what
a shorter one gives, if the longer one is not stored itself and the shorter one has no dot or is
not stored itself. -/
theorem getPath?_is_navigation (values : FieldValues) :
    (∀ path, ∃! parts, Decomposes path parts) ∧
    (∀ path value, values.get? path = some value → values.getPath? path = some value) ∧
    (∀ path first rest, values.get? path = none → Decomposes path (first :: rest) →
      (∀ value, values.getPath? path = some value ↔
        ∃ start, values.get? first = some start ∧ Reaches start rest value) ∧
      (values.getPath? path = none ↔
        ∀ start, values.get? first = some start → BreaksOff start rest)) ∧
    (∀ p q parts, values.get? (p ++ "." ++ q) = none →
      '.' ∉ p.toList ∨ values.get? p = none → Decomposes q parts →
      (∀ value, values.getPath? (p ++ "." ++ q) = some value ↔
        ∃ start, values.getPath? p = some start ∧ Reaches start parts value) ∧
      (values.getPath? p = none → values.getPath? (p ++ "." ++ q) = none)) := by
  refine ⟨fun path => ?_, fun path value => getPath?_of_stored, fun path first rest hpath hparts => ?_,
    fun p q parts hpq hp hparts => ?_⟩
  · exact ⟨segments path, decomposes_segments path, fun parts => decomposes_iff.1⟩
  · have hlookup := getPath?_of_segments hpath (decomposes_iff.1 hparts).symm
    constructor
    · intro value
      simp only [hlookup, Option.bind_eq_some_iff, navigate_eq_some_iff]
    · simp only [hlookup, Option.bind_eq_none_iff, navigate_eq_none_iff]
  · obtain rfl := decomposes_iff.1 hparts
    have hlonger := getPath?_append_dot hpq hp
    constructor
    · intro value
      simp only [hlonger, Option.bind_eq_some_iff, navigate_eq_some_iff]
    · intro hnone
      rw [hlonger, hnone]
      rfl

/-! ### An order of two items -/

/-- The first item is also stored under its whole path. -/
def penAndInk : FieldValues :=
  ofList [("order", .object [("items", .array [.string "pen", .string "ink"])]),
    ("order.items.0", .string "pencil")]

/-- The second item is reached through the order, and from the list of the items; the first one is
hidden. -/
theorem getPath?_penAndInk :
    (penAndInk.get? "order.items.0" = some (.string "pencil") ∧
      penAndInk.getPath? "order.items.0" = some (.string "pencil")) ∧
    (penAndInk.get? "order.items.+01" = none ∧
      Decomposes "order.items.+01" ["order", "items", "+01"] ∧
      penAndInk.getPath? "order.items.+01" = some (.string "ink")) ∧
    (penAndInk.get? ("order" ++ "." ++ "items.+01") = none ∧ '.' ∉ "order".toList ∧
      Decomposes "items.+01" ["items", "+01"] ∧
      penAndInk.getPath? ("order" ++ "." ++ "items.+01") = some (.string "ink")) := by
  obtain ⟨-, hstored, hreached, hlonger⟩ := getPath?_is_navigation penAndInk
  have hfirst : penAndInk.get? "order.items.0" = some (.string "pencil") := rfl
  have hpath : penAndInk.get? "order.items.+01" = none := rfl
  have hparts : Decomposes "order.items.+01" ["order", "items", "+01"] :=
    decomposes_iff.2 (by decide)
  have hlongerPath : penAndInk.get? ("order" ++ "." ++ "items.+01") = none := rfl
  have hrest : Decomposes "items.+01" ["items", "+01"] := decomposes_iff.2 (by decide)
  have hdot : '.' ∉ "order".toList := by decide
  have hone : WritesIndex "+01" 1 := index?_eq_some_iff.1 (by decide)
  have hsteps : Reaches (.object [("items", .array [.string "pen", .string "ink"])])
      ["items", "+01"] (.string "ink") :=
    .step (.member rfl) (.step (.item hone rfl) (.here _))
  exact ⟨⟨hfirst, hstored _ _ hfirst⟩,
    ⟨hpath, hparts, ((hreached _ _ _ hpath hparts).1 _).2 ⟨_, rfl, hsteps⟩⟩,
    hlongerPath, hdot, hrest, ((hlonger _ _ _ hlongerPath (.inl hdot) hrest).1 _).2
      ⟨_, getPath?_of_stored rfl, hsteps⟩⟩

end FieldValues

end FormRouting
