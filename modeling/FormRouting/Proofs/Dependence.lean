import FormRouting.Proofs.FirstMatch

/-!
# What a resolution depends on

A resolution learns about the form by looking up fields and in no other way. Which
field is looked up next depends on what the earlier ones gave; still two sources
that agree on the fields looked up with one of them give the same run, event by
event. And a scan never sees what stands behind its hit.

* `AgreeOn`: two sources have the same values for some fields.
* `scan_congr`, `advance_congr`, `loop_congr`: one scan, one turn of the loop, and a
  whole run are the same for both sources; `contentKeys_congr`: so are content keys.
* `Entry.hits`: an entry ends the scan; `scan_append_of_hit`, `scan_append_of_miss`:
  entries before other entries.
* `Place`: a place for a selector inside a selector; `resolve_fill`: a resolution
  comes to the place in one way, whatever stands there, or never.
* `resolve_depends_on_lookups`: **a resolution depends on the fields that it looked
  up, and on nothing behind a hit.**
-/

namespace FormRouting

variable {C : Type} {source other : Source} {ctx : C}

/-- The sources have the same values for the fields. -/
def AgreeOn (fields : List String) (source other : Source) : Prop :=
  ∀ f ∈ fields, source f = other f

theorem AgreeOn.mono {fields fewer : List String} (h : AgreeOn fields source other)
    (hsub : fewer ⊆ fields) : AgreeOn fewer source other :=
  fun f hf => h f (hsub hf)

/-! ## Two sources in lockstep -/

theorem test_congr {c : Condition C} (h : source c.field = other c.field) :
    c.test other ctx = c.test source ctx := by
  unfold Condition.test
  rw [h]

/-- A tested condition has looked up its field first. -/
theorem lookups_test (c : Condition C) :
    lookups (c.test source ctx).trace =
      c.field :: lookups (c.evaluate (source c.field) ctx).trace := rfl

/-- **One scan.** -/
theorem scan_congr {entries : List (Entry C)}
    (h : AgreeOn (lookups (scan source ctx entries).trace) source other) :
    scan other ctx entries = scan source ctx entries := by
  induction entries with
  | nil => rfl
  | cons entry rest ih =>
    cases entry with
    | key k => rfl
    | function f => rfl
    | branch c outcome =>
      -- the field of the condition is looked up before anything depends on it
      have hfield : source c.field = other c.field := by
        refine h _ ?_
        simp only [scan]
        split <;> simp only [lookups_append, lookups_test, List.cons_append, List.mem_cons_self]
      simp only [scan] at h ⊢
      rw [test_congr hfield]
      by_cases hv : (c.test source ctx).value = true
      · rw [if_pos hv, if_pos hv]
      · rw [if_neg hv] at h
        rw [if_neg hv, if_neg hv, ih (h.mono ?_)]
        rw [lookups_append]
        exact List.subset_append_right _ _

namespace Resolution

/-- **One turn of the loop.** -/
theorem advance_congr {r : Resolution C}
    (h : AgreeOn (lookups (r.advance source ctx).past) source other) :
    r.advance other ctx = r.advance source ctx := by
  unfold advance at h ⊢
  cases hc : r.cursor with
  | scanning entries =>
    simp only [hc] at h ⊢
    rw [scan_congr (h.mono ?_)]
    intro f hf
    rw [lookups_append, List.mem_append, lookups, List.filterMap_reverse, List.mem_reverse]
    exact .inl hf
  | key k => rfl
  | function f => rfl
  | miss => rfl

theorem loop_at_rest {r : Resolution C} (h : r.cursor.isAtRest = true) :
    r.loop source ctx = r := by
  rw [loop, dif_pos h]

theorem loop_advance {r : Resolution C} (h : ¬ r.cursor.isAtRest = true) :
    r.loop source ctx = (r.advance source ctx).loop source ctx := by
  rw [loop, dif_neg h]

/-- What was observed before is only carried along. -/
theorem loop_past (source : Source) (ctx : C) (r : Resolution C) (earlier : List Event) :
    loop source ctx ⟨r.cursor, r.past ++ earlier⟩ =
      ⟨(r.loop source ctx).cursor, (r.loop source ctx).past ++ earlier⟩ := by
  fun_induction loop source ctx r with
  | case1 r h => exact loop_at_rest h
  | case2 r h _ ih =>
    have hadvance : advance source ctx ⟨r.cursor, r.past ++ earlier⟩ =
        ⟨(r.advance source ctx).cursor, (r.advance source ctx).past ++ earlier⟩ := by
      cases hc : r.cursor <;> simp only [advance, hc, List.append_assoc]
    have hscanning : ¬ (⟨r.cursor, r.past ++ earlier⟩ : Resolution C).cursor.isAtRest = true := h
    rw [loop_advance hscanning, hadvance, ih]

/-- A run forgets nothing. -/
theorem past_subset_loop (r : Resolution C) : r.past ⊆ (r.loop source ctx).past := by
  have h := loop_past source ctx ⟨r.cursor, []⟩ r.past
  rw [List.nil_append] at h
  rw [h]
  exact List.subset_append_right _ _

/-- **A whole run.** -/
theorem loop_congr {r : Resolution C}
    (h : AgreeOn (lookups (r.loop source ctx).past) source other) :
    r.loop other ctx = r.loop source ctx := by
  fun_induction loop source ctx r with
  | case1 r hrest => exact loop_at_rest hrest
  | case2 r hrest _ ih =>
    -- what this turn looks up is still there at the end of the run
    have hturn : lookups (r.advance source ctx).past ⊆
        lookups ((r.advance source ctx).loop source ctx).past :=
      List.filterMap_subset _ (past_subset_loop _)
    rw [loop_advance hrest, advance_congr (h.mono hturn), ih h]

theorem trace_finish (ctx : C) (r : Resolution C) :
    ∃ last, (r.finish ctx).trace = r.past.reverse ++ last := by
  unfold finish
  cases r.cursor <;> exact ⟨_, rfl⟩

end Resolution

/-- A selector gives the same key with the same events for sources that agree on what it looks up
with one of them. -/
theorem resolve_congr {s : Selector C}
    (h : AgreeOn (lookups (s.resolve source ctx).trace) source other) :
    s.resolve other ctx = s.resolve source ctx := by
  unfold Selector.resolve at h ⊢
  obtain ⟨last, hlast⟩ :=
    Resolution.trace_finish ctx ((Resolution.start s).loop source ctx)
  rw [Resolution.loop_congr (h.mono ?_)]
  intro f hf
  rw [hlast, lookups_append, List.mem_append, lookups, List.filterMap_reverse, List.mem_reverse]
  exact .inl hf

/-- What is looked up for a content key is what its selector looks up. -/
theorem lookups_resolveKey (options : FieldOptions C) (name : String) (source : Source) (ctx : C) :
    lookups (options.resolveKey name source ctx).trace =
      options.contentKey.toList.flatMap fun s => lookups (s.resolve source ctx).trace := by
  obtain ⟨contentKey⟩ := options
  cases contentKey with
  | none => rfl
  | some s =>
    have hremoved : lookups
        ((s.resolve source ctx).trace ++ [.notice (.contentKeyRemoved name)]) =
          lookups (s.resolve source ctx).trace :=
      congrArg Answer.lookups (ofTraced_removed none _ name)
    simp only [FieldOptions.resolveKey, Option.toList_some, List.flatMap_singleton]
    split
    · split
      · exact hremoved
      · rfl
    · exact hremoved

/-- What is looked up for the content keys is what the selectors look up, field after field. -/
theorem lookups_contentKeys (fields : FieldSet C) (source : Source) (ctx : C) :
    lookups (fields.contentKeys source ctx).trace =
      fields.entries.flatMap fun e =>
        e.2.contentKey.toList.flatMap fun s => lookups (s.resolve source ctx).trace := by
  have hfield : ∀ e : String × FieldOptions C,
      (e.2.resolveKey e.1 source ctx).trace.filterMap Event.lookup? =
        e.2.contentKey.toList.flatMap fun s => lookups (s.resolve source ctx).trace :=
    fun e => lookups_resolveKey e.2 e.1 source ctx
  rw [lookups, FieldSet.contentKeys]
  simp only [List.flatMap_map, List.filterMap_flatMap, hfield]

theorem resolveKey_congr {options : FieldOptions C} {name : String}
    (h : AgreeOn (lookups (options.resolveKey name source ctx).trace) source other) :
    options.resolveKey name other ctx = options.resolveKey name source ctx := by
  rw [lookups_resolveKey] at h
  obtain ⟨contentKey⟩ := options
  cases contentKey with
  | none => rfl
  | some s =>
    rw [Option.toList_some, List.flatMap_singleton] at h
    simp only [FieldOptions.resolveKey, resolve_congr h]

/-- Field after field, the content keys are the same too. -/
theorem contentKeys_congr {fields : FieldSet C}
    (h : AgreeOn (lookups (fields.contentKeys source ctx).trace) source other) :
    fields.contentKeys other ctx = fields.contentKeys source ctx := by
  have hresults : ∀ e ∈ fields.entries,
      (e.1, e.2.resolveKey e.1 other ctx) = (e.1, e.2.resolveKey e.1 source ctx) := by
    intro e he
    rw [resolveKey_congr (h.mono ?_)]
    intro f hf
    rw [lookups_resolveKey] at hf
    rw [lookups_contentKeys]
    exact List.mem_flatMap.2 ⟨e, he, hf⟩
  simp only [FieldSet.contentKeys, List.map_congr_left hresults]

/-! ## Entries before other entries -/

/-- The entry ends a scan: a fallback always does, a condition if it holds. -/
def Entry.hits (source : Source) (ctx : C) : Entry C → Bool
  | .key _ => true
  | .function _ => true
  | .branch c _ => (c.test source ctx).value

/-- A scan does not see what stands behind a hit. -/
theorem scan_append_of_hit {xs : List (Entry C)} (h : ∃ e ∈ xs, e.hits source ctx = true)
    (ys : List (Entry C)) : scan source ctx (xs ++ ys) = scan source ctx xs := by
  induction xs with
  | nil => simp at h
  | cons entry rest ih =>
    cases entry with
    | key k => rfl
    | function f => rfl
    | branch c outcome =>
      simp only [List.cons_append, scan]
      by_cases hv : (c.test source ctx).value = true
      · rw [if_pos hv, if_pos hv]
      · obtain ⟨e, he, hhit⟩ := h
        have hrest : e ∈ rest := by
          rcases List.mem_cons.1 he with rfl | he
          · exact absurd hhit hv
          · exact he
        rw [if_neg hv, if_neg hv, ih ⟨e, hrest, hhit⟩]

/-- A scan of entries without a hit selects nothing, and goes on with what stands behind them. -/
theorem scan_append_of_miss {xs : List (Entry C)} (h : ∀ e ∈ xs, e.hits source ctx = false)
    (ys : List (Entry C)) :
    (scan source ctx xs).value = .miss ∧
      scan source ctx (xs ++ ys) =
        ⟨(scan source ctx ys).value, (scan source ctx xs).trace ++ (scan source ctx ys).trace⟩ := by
  induction xs with
  | nil => exact ⟨rfl, rfl⟩
  | cons entry rest ih =>
    obtain ⟨hentry, hrest⟩ := List.forall_mem_cons.1 h
    cases entry with
    | key k => cases hentry
    | function f => cases hentry
    | branch c outcome =>
      have hv : ¬ (c.test source ctx).value = true := by
        rw [show (c.test source ctx).value = false from hentry]
        exact Bool.false_ne_true
      obtain ⟨hmiss, happend⟩ := ih hrest
      simp only [List.cons_append, scan]
      rw [if_neg hv, if_neg hv, happend]
      exact ⟨hmiss, by rw [List.append_assoc]⟩

/-- A result behind the events of a trace. -/
def Traced.behind {α : Type} (trace : List Event) (result : Traced α) : Traced α :=
  ⟨result.value, trace ++ result.trace⟩

/-- The key from where a cursor stands. -/
def Cursor.resolve (cursor : Cursor C) (source : Source) (ctx : C) : Traced (Option String) :=
  (Resolution.loop source ctx ⟨cursor, []⟩).finish ctx

/-- A sequence is scanned, and the resolution goes on from the hit. -/
theorem resolve_sequence (entries : List (Entry C)) :
    (Selector.sequence entries).resolve source ctx =
      .behind (scan source ctx entries).trace
        ((scan source ctx entries).value.resolve source ctx) := by
  have hloop := Resolution.loop_past source ctx ⟨(scan source ctx entries).value, []⟩
    (scan source ctx entries).trace.reverse
  have hstart : (Resolution.start (.sequence entries)).loop source ctx =
      Resolution.loop source ctx
        ⟨(scan source ctx entries).value, [] ++ (scan source ctx entries).trace.reverse⟩ := by
    rw [Resolution.loop_advance (by simp [Resolution.start, Cursor.ofSelector, Cursor.isAtRest])]
    simp only [Resolution.start, Cursor.ofSelector, Resolution.advance, List.append_nil,
      List.nil_append]
  unfold Selector.resolve Cursor.resolve
  rw [hstart, hloop]
  -- finishing puts what was observed before in front
  cases hc : (Resolution.loop source ctx ⟨(scan source ctx entries).value, []⟩).cursor <;>
    simp only [Resolution.finish, hc, Traced.after, Traced.behind, List.reverse_append,
      List.reverse_reverse, List.append_assoc]

theorem resolve_append_of_hit {xs : List (Entry C)} (h : ∃ e ∈ xs, e.hits source ctx = true)
    (ys : List (Entry C)) :
    (Selector.sequence (xs ++ ys)).resolve source ctx =
      (Selector.sequence xs).resolve source ctx := by
  rw [resolve_sequence, resolve_sequence, scan_append_of_hit h]

theorem resolve_append_of_miss {xs : List (Entry C)} (h : ∀ e ∈ xs, e.hits source ctx = false)
    (ys : List (Entry C)) :
    (Selector.sequence (xs ++ ys)).resolve source ctx =
      .behind ((Selector.sequence xs).resolve source ctx).trace
        ((Selector.sequence ys).resolve source ctx) := by
  obtain ⟨hmiss, happend⟩ := scan_append_of_miss h ys
  have hxs : ((Selector.sequence xs).resolve source ctx).trace = (scan source ctx xs).trace := by
    rw [resolve_sequence, hmiss, Cursor.resolve, Resolution.loop_at_rest rfl]
    exact List.append_nil _
  rw [hxs, resolve_sequence, resolve_sequence, happend]
  simp only [Traced.behind, List.append_assoc]

/-! ## Places inside a selector -/

/-- A place for a selector inside a selector, at any level: the outcome of a condition between
other entries, again and again. -/
inductive Place (C : Type) where
  | here
  | outcome (before : List (Entry C)) (condition : Condition C) (inside : Place C)
      (after : List (Entry C))

namespace Place

/-- The whole selector, with `s` in the place. -/
def fill : Place C → Selector C → Selector C
  | .here, s => s
  | .outcome before c inside after, s =>
    .sequence (before ++ .branch c (some (inside.fill s)) :: after)

/-- What is observed on the way to the place; nothing where a resolution does not come there. -/
def approach (source : Source) (ctx : C) : Place C → Option (List Event)
  | .here => some []
  | .outcome before c inside _ =>
    if before.any (Entry.hits source ctx) then none
    else if (c.test source ctx).value then
      (inside.approach source ctx).map fun events =>
        (scan source ctx before).trace ++
          ((c.test source ctx).trace ++ .notice (.matched c.field) :: events)
    else none

/-- A condition that holds behind entries without a hit hands over to its outcome. -/
theorem resolve_committed {before : List (Entry C)} {c : Condition C}
    (hbefore : ∀ e ∈ before, e.hits source ctx = false) (hc : (c.test source ctx).value = true)
    (s : Selector C) (after : List (Entry C)) :
    (Selector.sequence (before ++ .branch c (some s) :: after)).resolve source ctx =
      .behind ((scan source ctx before).trace ++
        ((c.test source ctx).trace ++ [.notice (.matched c.field)])) (s.resolve source ctx) := by
  have hscan : scan source ctx (.branch c (some s) :: after) =
      ⟨.ofSelector s, (c.test source ctx).trace ++ [.notice (.matched c.field)]⟩ := by
    simp only [scan, if_pos hc, Cursor.ofOutcome]
  rw [resolve_sequence, (scan_append_of_miss hbefore _).2, hscan]
  rfl

/-- **A resolution comes to a place in one way**, whatever selector stands there, and goes on with
that selector; or it never comes there, and then the selector in the place does not matter. -/
theorem resolve_fill (source : Source) (ctx : C) (place : Place C) :
    match place.approach source ctx with
    | some events => ∀ s : Selector C,
      (place.fill s).resolve source ctx = .behind events (s.resolve source ctx)
    | none => ∀ s t : Selector C,
      (place.fill s).resolve source ctx = (place.fill t).resolve source ctx := by
  induction place with
  | here => exact fun s => rfl
  | outcome before c inside after ih =>
    by_cases hhit : before.any (Entry.hits source ctx) = true
    · -- an entry before the place decides
      simp only [approach, if_pos hhit]
      have hbefore := List.any_eq_true.1 hhit
      intro s t
      simp only [fill, resolve_append_of_hit hbefore]
    · have hbefore : ∀ e ∈ before, e.hits source ctx = false := by
        simpa using hhit
      by_cases hc : (c.test source ctx).value = true
      · simp only [approach, if_neg hhit, if_pos hc, fill, resolve_committed hbefore hc]
        cases happroach : inside.approach source ctx with
        | none =>
          simp only [happroach] at ih
          intro s t
          simp only [ih s t]
        | some events =>
          simp only [happroach] at ih
          intro s
          simp only [ih s, Traced.behind, List.append_assoc, List.cons_append, List.nil_append]
      · -- the scan passes the condition by
        simp only [approach, if_neg hhit, if_neg hc]
        intro s t
        have hscan : ∀ u : Selector C, scan source ctx (.branch c (some (inside.fill u)) :: after) =
            ⟨(scan source ctx after).value,
              (c.test source ctx).trace ++ (scan source ctx after).trace⟩ := by
          intro u
          simp only [scan, if_neg hc]
        simp only [fill, resolve_sequence, (scan_append_of_miss hbefore _).2, hscan]

end Place

/-- **A resolution depends on what it looked up, and on nothing behind a hit.** Sources that agree
on the fields looked up with one of them give the same key with the same events. And wherever a
sequence stands in a selector: behind a hit its entries do not matter; without a hit, what the first
entries look up and call comes before what the others do, and the others give the key. -/
theorem resolve_depends_on_lookups (source : Source) (ctx : C) :
    (∀ (s : Selector C) (other : Source),
      AgreeOn (lookups (s.resolve source ctx).trace) source other →
        s.resolve other ctx = s.resolve source ctx) ∧
    ∀ (place : Place C) (xs ys : List (Entry C)),
      let whole := (place.fill (.sequence (xs ++ ys))).resolve source ctx
      let first := (Selector.sequence xs).resolve source ctx
      let second := (Selector.sequence ys).resolve source ctx
      ((∃ e ∈ xs, e.hits source ctx = true) →
        whole = (place.fill (.sequence xs)).resolve source ctx) ∧
      ((∀ e ∈ xs, e.hits source ctx = false) →
        match place.approach source ctx with
        | some events => whole = ⟨second.value, events ++ (first.trace ++ second.trace)⟩
        | none => ∀ s : Selector C, whole = (place.fill s).resolve source ctx) := by
  refine ⟨fun s other h => resolve_congr h, fun place xs ys => ⟨fun hhit => ?_, fun hmiss => ?_⟩⟩
  · have hfill := place.resolve_fill source ctx
    cases happroach : place.approach source ctx with
    | none =>
      simp only [happroach] at hfill
      exact hfill _ _
    | some events =>
      simp only [happroach] at hfill
      rw [hfill, hfill, resolve_append_of_hit hhit]
  · have hfill := place.resolve_fill source ctx
    cases happroach : place.approach source ctx with
    | none =>
      simp only [happroach] at hfill
      exact hfill _
    | some events =>
      simp only [happroach] at hfill
      rw [hfill, resolve_append_of_miss hmiss]
      rfl

/-! ### Two fields -/

/-- Holds where the field has a value. -/
def known (field : String) : Condition Unit :=
  { field, predicate := some (.named "known" fun current _ _ => current.isSome) }

/-- Where the age is known, the name is not looked up. -/
def byAge : List (Entry Unit) := [.branch (known "age") (some (.key "aged"))]

def byName : List (Entry Unit) := [.branch (known "name") (some (.key "named"))]

def ageOnly : Source := fun f => if f = "age" then some .null else none

def ageAndName : Source := fun _ => some .null

/-- The age decides alone, so the name does not matter; and inside the outcome of a condition on the
age, entries about the name miss and leave the key to a fallback behind them. -/
theorem resolve_by_age :
    (AgreeOn (lookups ((Selector.sequence (byAge ++ byName)).resolve ageOnly ()).trace) ageOnly
        ageAndName ∧
      (Selector.sequence (byAge ++ byName)).resolve ageAndName () =
        (Selector.sequence (byAge ++ byName)).resolve ageOnly ()) ∧
    ((∃ e ∈ byAge, e.hits ageOnly () = true) ∧
      (Selector.sequence (byAge ++ byName)).resolve ageOnly () =
        (Selector.sequence byAge).resolve ageOnly ()) ∧
    (∀ e ∈ byName, e.hits ageOnly () = false) ∧
      ((Place.outcome [] (known "age") .here byName).fill
          (.sequence (byName ++ [.key "fallback"]))).resolve ageOnly () =
        ⟨some "fallback",
          [.lookup "age", .call (some "known") (some .null) ⟨"age", none⟩, .notice (.matched "age"),
            .lookup "name", .call (some "known") none ⟨"name", none⟩]⟩ := by
  obtain ⟨hagree, hplace⟩ := resolve_depends_on_lookups ageOnly ()
  have hlookups : lookups ((Selector.sequence (byAge ++ byName)).resolve ageOnly ()).trace =
      ["age"] := congrArg Answer.lookups (ofTraced_resolve ageOnly () _)
  have hsources : AgreeOn (lookups ((Selector.sequence (byAge ++ byName)).resolve ageOnly ()).trace)
      ageOnly ageAndName := hlookups ▸ List.forall_mem_singleton.2 rfl
  have hhit : ∃ e ∈ byAge, e.hits ageOnly () = true := ⟨_, List.mem_cons_self, rfl⟩
  have hmiss : ∀ e ∈ byName, e.hits ageOnly () = false := List.forall_mem_singleton.2 rfl
  refine ⟨⟨hsources, hagree _ _ hsources⟩, ⟨hhit, (hplace .here byAge byName).1 hhit⟩, hmiss, ?_⟩
  refine ((hplace (.outcome [] (known "age") .here byName) byName [.key "fallback"]).2 hmiss).trans ?_
  simp only [resolve_sequence]
  cbv

end FormRouting
