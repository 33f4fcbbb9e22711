import FormRouting.Decode.Record

/-!
# Records and values as trees

The trees that stand for documents: records whose names are strings, and JSON
values. They hold no tag, no fault and no repeated name, so nothing stands in the
way of reading them, and a value is read back from its tree.

* `Tree.ofFields`: a record of named fields.
* `Tree.IsClean`: a tree that can be read anywhere.
* `Tree.isEqual_iff`: whether two trees are equal can be computed.
* `isClean_toTree`, `toJson?_toTree`: the tree of a JSON value is clean and stands for
  that value.
-/

namespace FormRouting

/-! ## Records -/

namespace Tree

/-- Fields as entries of a record. -/
def named (fields : List (String × Tree)) : List (Tree × Tree) :=
  fields.map fun e => (.string e.1, e.2)

/-- A record of named fields. -/
def ofFields (fields : List (String × Tree)) : Tree := .record (named fields)

/-- No tag, no fault and no repeated name anywhere. -/
structure IsClean (t : Tree) : Prop where
  obstacle : t.obstacle? = none
  names : t.hasRepeatedName = false

theorem isClean_null : IsClean .null := ⟨rfl, rfl⟩

theorem isClean_string (s : String) : IsClean (.string s) := ⟨rfl, rfl⟩

theorem isClean_list {items : List Tree} (h : ∀ t ∈ items, t.IsClean) : IsClean (.list items) := by
  have hall : obstacleInItems? items = none ∧ anyHasRepeatedName items = false := by
    induction items with
    | nil => simp [obstacleInItems?, anyHasRepeatedName]
    | cons t rest ih =>
      obtain ⟨ht, hrest⟩ := List.forall_mem_cons.1 h
      simp [obstacleInItems?, anyHasRepeatedName, ht.obstacle, ht.names, ih hrest]
  exact ⟨by simp only [obstacle?, hall.1], by simp only [hasRepeatedName, hall.2]⟩

/-- Distinct names are not repeated. -/
theorem repeatsName_named {fields : List (String × Tree)} (h : (fields.map Prod.fst).Nodup) :
    repeatsName (named fields) = false := by
  induction fields with
  | nil => rfl
  | cons e rest ih =>
    obtain ⟨he, hrest⟩ := List.nodup_cons.1 h
    have hany : (named rest).any (fun x => same (.string e.1) x.1) = false := by
      simp only [named, List.any_map, List.any_eq_false, Function.comp_apply, same, beq_iff_eq]
      exact fun x hx heq => he (heq ▸ List.mem_map_of_mem hx)
    show ((named rest).any (fun x => same (.string e.1) x.1) || repeatsName (named rest)) = false
    rw [hany, ih hrest, Bool.or_self]

theorem isClean_ofFields {fields : List (String × Tree)} (hd : (fields.map Prod.fst).Nodup)
    (h : ∀ e ∈ fields, e.2.IsClean) : IsClean (ofFields fields) := by
  have hall : obstacleInEntries? (named fields) = none ∧
      anyEntryHasRepeatedName (named fields) = false := by
    clear hd
    induction fields with
    | nil => simp [named, obstacleInEntries?, anyEntryHasRepeatedName]
    | cons e rest ih =>
      obtain ⟨he, hrest⟩ := List.forall_mem_cons.1 h
      obtain ⟨hobstacle, hnames⟩ := ih hrest
      have hcons : named (e :: rest) = (.string e.1, e.2) :: named rest := rfl
      simp [hcons, obstacleInEntries?, anyEntryHasRepeatedName, obstacle?, hasRepeatedName,
        he.obstacle, he.names, hobstacle, hnames]
  exact ⟨by simp only [ofFields, obstacle?, hall.1],
    by simp only [ofFields, hasRepeatedName, hall.2, repeatsName_named hd, Bool.or_self]⟩

mutual

/-- Where no obstacle is, nothing stops who passes over. -/
theorem passingFault?_eq_none {t : Tree} (h : t.obstacle? = none) : t.passingFault? = none := by
  cases t with
  | list items =>
    simp only [obstacle?] at h
    simp only [passingFault?, passingFaultInItems?_eq_none h]
  | record entries =>
    simp only [obstacle?] at h
    simp only [passingFault?, passingFaultInEntries?_eq_none h]
  | tagged tag body => simp [obstacle?] at h
  | fault reason passing => simp [obstacle?] at h
  | null => simp only [passingFault?]
  | bool b => simp only [passingFault?]
  | number n => simp only [passingFault?]
  | nonFinite x => simp only [passingFault?]
  | string s => simp only [passingFault?]

theorem passingFaultInItems?_eq_none {items : List Tree} (h : obstacleInItems? items = none) :
    passingFaultInItems? items = none := by
  match items with
  | [] => simp only [passingFaultInItems?]
  | t :: rest =>
    simp only [obstacleInItems?, Option.or_eq_none_iff] at h
    simp only [passingFaultInItems?, passingFault?_eq_none h.1, passingFaultInItems?_eq_none h.2,
      Option.none_or]

theorem passingFaultInEntries?_eq_none {entries : List (Tree × Tree)}
    (h : obstacleInEntries? entries = none) : passingFaultInEntries? entries = none := by
  match entries with
  | [] => simp only [passingFaultInEntries?]
  | (k, v) :: rest =>
    simp only [obstacleInEntries?, Option.or_eq_none_iff] at h
    simp only [passingFaultInEntries?, passingFault?_eq_none h.1.1, passingFault?_eq_none h.1.2,
      passingFaultInEntries?_eq_none h.2, Option.none_or]

end

/-! ## Equality -/

mutual

/-- Equality of trees, with the entries of a record in their order. -/
def isEqual : Tree → Tree → Bool
  | .null, .null => true
  | .bool a, .bool b => a == b
  | .number a, .number b => a == b
  | .nonFinite a, .nonFinite b => a == b
  | .string a, .string b => a == b
  | .list a, .list b => areEqual a b
  | .record a, .record b => entriesAreEqual a b
  | .tagged s a, .tagged t b => s == t && isEqual a b
  | .fault r p, .fault s q => r == s && p == q
  | _, _ => false

def areEqual : List Tree → List Tree → Bool
  | [], [] => true
  | x :: xs, y :: ys => isEqual x y && areEqual xs ys
  | _, _ => false

def entriesAreEqual : List (Tree × Tree) → List (Tree × Tree) → Bool
  | [], [] => true
  | (k, v) :: rest, (l, w) :: others => isEqual k l && isEqual v w && entriesAreEqual rest others
  | _, _ => false

end

mutual

theorem isEqual_iff {a b : Tree} : a.isEqual b = true ↔ a = b := by
  cases a <;> cases b <;> simp [isEqual, isEqual_iff, areEqual_iff, entriesAreEqual_iff]

theorem areEqual_iff {xs ys : List Tree} : areEqual xs ys = true ↔ xs = ys := by
  cases xs <;> cases ys <;> simp [areEqual, isEqual_iff, areEqual_iff]

theorem entriesAreEqual_iff {xs ys : List (Tree × Tree)} :
    entriesAreEqual xs ys = true ↔ xs = ys := by
  cases xs <;> cases ys <;>
    simp [entriesAreEqual, isEqual_iff, entriesAreEqual_iff, Prod.ext_iff]

end

instance : DecidableEq Tree := fun _ _ => decidable_of_iff _ isEqual_iff

end Tree

/-- A result can be compared without its errors. -/
theorem eq_ok_of_toOption {ε α : Type} {x : Except ε α} {a : α} (h : x.toOption = some a) :
    x = .ok a := by
  cases x with
  | error e => cases h
  | ok b => exact congrArg Except.ok (Option.some.inj h)

/-! ## JSON values -/

namespace Json

mutual

/-- The names of an object are distinct, here and at any depth. -/
def HasDistinctNames : Json → Prop
  | .array items => AllHaveDistinctNames items
  | .object members => (members.map Prod.fst).Nodup ∧ MembersHaveDistinctNames members
  | _ => True

def AllHaveDistinctNames : List Json → Prop
  | [] => True
  | v :: rest => HasDistinctNames v ∧ AllHaveDistinctNames rest

def MembersHaveDistinctNames : List (String × Json) → Prop
  | [] => True
  | (_, v) :: rest => HasDistinctNames v ∧ MembersHaveDistinctNames rest

end

theorem membersHaveDistinctNames_iff {members : List (String × Json)} :
    MembersHaveDistinctNames members ↔ ∀ m ∈ members, m.2.HasDistinctNames := by
  induction members with
  | nil => simp [MembersHaveDistinctNames]
  | cons m rest ih => simp [MembersHaveDistinctNames, ih]

theorem itemsToTree_eq_map (items : List Json) : itemsToTree items = items.map toTree := by
  induction items with
  | nil => simp only [itemsToTree, List.map_nil]
  | cons v rest ih => rw [itemsToTree, ih, List.map_cons]

theorem membersToTree_eq_named (members : List (String × Json)) :
    membersToTree members = Tree.named (members.map fun m => (m.1, m.2.toTree)) := by
  induction members with
  | nil => simp [membersToTree, Tree.named]
  | cons m rest ih =>
    rw [membersToTree, ih]
    rfl

/-- The tree of an object is the record of its members. -/
theorem toTree_object (members : List (String × Json)) :
    (object members).toTree = Tree.ofFields (members.map fun m => (m.1, m.2.toTree)) := by
  rw [toTree, membersToTree_eq_named]
  rfl

theorem toTree_ne_null {v : Json} (h : v ≠ .null) : v.toTree ≠ .null := by
  cases v <;> simp [toTree] at h ⊢

mutual

theorem isClean_toTree {v : Json} (h : v.HasDistinctNames) : v.toTree.IsClean := by
  cases v with
  | null => exact ⟨rfl, rfl⟩
  | bool b => exact ⟨rfl, rfl⟩
  | number n => exact ⟨rfl, rfl⟩
  | string s => exact ⟨rfl, rfl⟩
  | array items =>
    simp only [HasDistinctNames] at h
    simp only [toTree]
    exact Tree.isClean_list (isClean_itemsToTree h)
  | object members =>
    simp only [HasDistinctNames] at h
    rw [toTree_object]
    refine Tree.isClean_ofFields (by simpa [Function.comp_def] using h.1) ?_
    exact List.forall_mem_map.2 (isClean_membersToTree h.2)

theorem isClean_itemsToTree {items : List Json} (h : AllHaveDistinctNames items) :
    ∀ t ∈ itemsToTree items, t.IsClean := by
  match items with
  | [] => simp [itemsToTree]
  | v :: rest =>
    simp only [AllHaveDistinctNames] at h
    simp only [itemsToTree]
    exact List.forall_mem_cons.2 ⟨isClean_toTree h.1, isClean_itemsToTree h.2⟩

theorem isClean_membersToTree {members : List (String × Json)}
    (h : MembersHaveDistinctNames members) : ∀ m ∈ members, m.2.toTree.IsClean := by
  match members with
  | [] => exact List.forall_mem_nil _
  | (k, v) :: rest =>
    simp only [MembersHaveDistinctNames] at h
    exact List.forall_mem_cons.2 ⟨isClean_toTree h.1, isClean_membersToTree h.2⟩

end

mutual

theorem toJson?_toTree {v : Json} (h : v.HasDistinctNames) : v.toTree.toJson? = some v := by
  cases v with
  | null => simp only [toTree, Tree.toJson?]
  | bool b => simp only [toTree, Tree.toJson?]
  | number n => simp only [toTree, Tree.toJson?]
  | string s => simp only [toTree, Tree.toJson?]
  | array items =>
    simp only [HasDistinctNames] at h
    simp only [toTree, Tree.toJson?, itemsToJson?_itemsToTree h, Option.map_some]
  | object members =>
    simp only [HasDistinctNames] at h
    simp only [toTree, Tree.toJson?, entriesToJson?_membersToTree h.2, Option.map_some, ofMembers]
    rw [foldl_putEntry (by simpa using h.1), List.nil_append]

theorem itemsToJson?_itemsToTree {items : List Json} (h : AllHaveDistinctNames items) :
    Tree.itemsToJson? (itemsToTree items) = some items := by
  match items with
  | [] => simp only [itemsToTree, Tree.itemsToJson?]
  | v :: rest =>
    simp only [AllHaveDistinctNames] at h
    simp only [itemsToTree, Tree.itemsToJson?, toJson?_toTree h.1, itemsToJson?_itemsToTree h.2,
      Option.bind_some, Option.map_some]

theorem entriesToJson?_membersToTree {members : List (String × Json)}
    (h : MembersHaveDistinctNames members) :
    Tree.entriesToJson? (membersToTree members) = some members := by
  match members with
  | [] => simp only [membersToTree, Tree.entriesToJson?]
  | (k, v) :: rest =>
    simp only [MembersHaveDistinctNames] at h
    simp only [membersToTree, Tree.entriesToJson?, toJson?_toTree h.1,
      entriesToJson?_membersToTree h.2, Option.bind_some, Option.map_some]

end

end Json

end FormRouting
