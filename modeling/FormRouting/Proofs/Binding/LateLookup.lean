import FormRouting.Proofs.Binding.Complete
import FormRouting.Proofs.FirstMatch

/-!
# Eager binding is late lookup

Functions can be attached to names before a selector is resolved, or be looked up
by name at the moment when they are needed. Binding visits every callable of the
selector, a resolution only some of them and in another order; still the two ways
choose the same key, look up the same fields and call the same predicates.

* `Registry.lookup`: what a callable stands for when its name is looked up late.
* `firstMatch_attach`: a bound selector is searched like the open one with late lookup.
* `Resolution.AllBound`: nothing that a resolution can still reach is open;
  `allBound_advance`, `allBound_loop`: one turn, and a whole run, keep it.
* `ofTraced_resolveKey`, `contentKeys_eq_answers`: the content keys of a field set
  are those of the nested search.
* `bind_resolves_late`: **a bound selector, or field set, is resolved as the open one
  is with late lookup, and never misses a function.**
-/

namespace FormRouting

variable {C : Type}

/-- A callable stands for the function it carries; without one, for the function that is
registered under its name. -/
def Registry.lookup (r : Registry C) : Assignment C where
  predicate p := p.body.or (p.name.bind r.predicates.get?)
  keyFunction f := f.body.or (f.name.bind r.keyFunctions.get?)

/-- The notice of a callable that is needed and has no function. -/
def Event.isUnbound : Event → Bool
  | .notice (.unboundPredicate _ _) => true
  | .notice (.unboundKeyFunction _) => true
  | _ => false

namespace FieldOptions

/-- The content key of a field by the nested search; an empty key is no key. -/
def firstMatch (assigned : Assignment C) (source : Source) (ctx : C) (options : FieldOptions C) :
    Answer :=
  match options.contentKey with
  | none => .immediate none
  | some s =>
    let answer := s.firstMatch assigned source ctx
    { answer with key := answer.key.filter fun key => !key.isEmpty }

end FieldOptions

/-- The answers of the fields by ascending name. -/
def FieldSet.answers (assigned : Assignment C) (source : Source) (ctx : C) (fields : FieldSet C) :
    List (String × Answer) :=
  fields.entries.map fun e => (e.1, e.2.firstMatch assigned source ctx)

variable (source : Source) (ctx : C)

/-! ## The nested search through bound selectors -/

section

variable (r : Registry C)

/-- A bound condition is decided like the open one with late lookup. -/
theorem verdict_attach (c : Condition C) (current : Option Json) :
    (c.mapCallables r.attach).verdict .carried ctx current = c.verdict r.lookup ctx current := by
  cases c with
  | mk field operator value predicate =>
    cases predicate with
    | some p => rfl
    | none => cases operator <;> rfl

namespace Selector

mutual

theorem firstMatch_attach (s : Selector C) :
    (s.mapCallables r.attach).firstMatch .carried source ctx =
      s.firstMatch r.lookup source ctx := by
  cases s with
  | key k => simp only [mapCallables, firstMatch]
  | function f =>
    simp only [mapCallables, firstMatch]
    rfl
  | sequence entries => simp only [mapCallables, firstMatch, firstHit_attach entries]

theorem firstHit_attach (entries : List (Entry C)) :
    firstHit .carried source ctx (mapCallablesOfEntries r.attach entries) =
      firstHit r.lookup source ctx entries := by
  match entries with
  | [] => simp only [mapCallablesOfEntries, firstHit]
  | .key k :: rest => simp only [mapCallablesOfEntries, firstHit]
  | .function f :: rest =>
    simp only [mapCallablesOfEntries, firstHit]
    rfl
  | .branch c outcome :: rest =>
    have hfield : (c.mapCallables r.attach).field = c.field := rfl
    simp only [mapCallablesOfEntries, firstHit, verdict_attach, hfield,
      committed_attach outcome, firstHit_attach rest]

theorem committed_attach (outcome : Option (Selector C)) :
    committed .carried source ctx (mapCallablesOfOutcome r.attach outcome) =
      committed r.lookup source ctx outcome := by
  cases outcome with
  | none => simp only [mapCallablesOfOutcome, committed]
  | some s => simp only [mapCallablesOfOutcome, committed, firstMatch_attach s]

end

end Selector

theorem answers_attach (fields : FieldSet C) :
    (fields.mapCallables r.attach).answers .carried source ctx =
      fields.answers r.lookup source ctx := by
  have hoptions : ∀ options : FieldOptions C,
      (options.mapCallables r.attach).firstMatch .carried source ctx =
        options.firstMatch r.lookup source ctx := by
    rintro ⟨_ | s⟩
    · simp only [FieldOptions.mapCallables, Selector.mapCallablesOfOutcome, FieldOptions.firstMatch]
    · simp only [FieldOptions.mapCallables, Selector.mapCallablesOfOutcome, FieldOptions.firstMatch,
        Selector.firstMatch_attach]
  simp only [FieldSet.answers, FieldSet.mapCallables, List.map_map, Function.comp_def, hoptions]

end

/-! ## Nothing is missing -/

/-- Everything in the list has a function. -/
abbrev EveryBound (callables : List (Callable C)) : Prop := ∀ c ∈ callables, c.isBound = true

/-- No event tells of a missing function. -/
abbrev NoneUnbound (trace : List Event) : Prop := ∀ e ∈ trace, e.isUnbound = false

theorem noneUnbound_callPredicate {c : Condition C} {p : Predicate C} (h : p.isBound = true)
    (current : Option Json) : NoneUnbound (c.callPredicate p current ctx).trace := by
  cases p with
  | mk name body =>
    cases body with
    | some body => exact List.forall_mem_singleton.2 rfl
    | none => cases h

theorem noneUnbound_test {c : Condition C} (h : EveryBound c.callables) :
    NoneUnbound (c.test source ctx).trace := by
  refine List.forall_mem_cons.2 ⟨rfl, ?_⟩
  obtain ⟨field, operator, value, predicate⟩ := c
  cases predicate with
  | some p => exact noneUnbound_callPredicate ctx (h (.predicate p) List.mem_cons_self) _
  | none =>
    cases operator with
    | custom p => exact noneUnbound_callPredicate ctx (h (.predicate p) List.mem_cons_self) _
    | builtIn comparator => exact List.forall_mem_nil _

theorem noneUnbound_call {f : KeyFunction C} (h : f.isBound = true) :
    NoneUnbound (f.call ctx).trace := by
  cases f with
  | mk name body =>
    cases body with
    | some body => exact List.forall_mem_nil _
    | none => cases h

/-- What can still be called from where a cursor stands. -/
def Cursor.callables : Cursor C → List (Callable C)
  | .scanning entries => Selector.callablesOfEntries entries
  | .key _ => []
  | .function f => [.keyFunction f]
  | .miss => []

theorem callables_ofSelector (s : Selector C) : (Cursor.ofSelector s).callables = s.callables := by
  cases s <;> simp only [Cursor.ofSelector, Cursor.callables, Selector.callables]

theorem callables_ofOutcome (outcome : Option (Selector C)) :
    (Cursor.ofOutcome outcome).callables = Selector.callablesOfOutcome outcome := by
  cases outcome with
  | none => simp only [Cursor.ofOutcome, Cursor.callables, Selector.callablesOfOutcome]
  | some s => simp only [Cursor.ofOutcome, Selector.callablesOfOutcome, callables_ofSelector]

/-- A scan of bound entries misses nothing and moves to a place where nothing is open. -/
theorem scan_bound {entries : List (Entry C)}
    (h : EveryBound (Selector.callablesOfEntries entries)) :
    NoneUnbound (scan source ctx entries).trace ∧
      EveryBound (scan source ctx entries).value.callables := by
  induction entries with
  | nil => exact ⟨List.forall_mem_nil _, List.forall_mem_nil _⟩
  | cons entry rest ih =>
    cases entry with
    | key k => exact ⟨List.forall_mem_nil _, List.forall_mem_nil _⟩
    | function f =>
      simp only [Selector.callablesOfEntries, List.forall_mem_cons] at h
      exact ⟨List.forall_mem_nil _, List.forall_mem_singleton.2 h.1⟩
    | branch c outcome =>
      simp only [Selector.callablesOfEntries, List.forall_mem_append] at h
      obtain ⟨hc, houtcome, hrest⟩ := h
      have htest := noneUnbound_test source ctx hc
      simp only [scan]
      by_cases hv : (c.test source ctx).value = true
      · rw [if_pos hv, callables_ofOutcome]
        exact ⟨List.forall_mem_append.2 ⟨htest, List.forall_mem_singleton.2 rfl⟩, houtcome⟩
      · rw [if_neg hv]
        exact ⟨List.forall_mem_append.2 ⟨htest, (ih hrest).1⟩, (ih hrest).2⟩

namespace Resolution

/-- No function was missing so far, and none is missing from here on. -/
structure AllBound (state : Resolution C) : Prop where
  past : NoneUnbound state.past
  cursor : EveryBound state.cursor.callables

theorem allBound_advance {state : Resolution C} (h : state.AllBound) :
    (state.advance source ctx).AllBound := by
  unfold advance
  cases hc : state.cursor with
  | scanning entries =>
    have hentries : EveryBound (Selector.callablesOfEntries entries) := by
      have := h.cursor
      rwa [hc] at this
    obtain ⟨htrace, hcursor⟩ := scan_bound source ctx hentries
    refine ⟨List.forall_mem_append.2 ⟨fun e he => htrace e ?_, h.past⟩, hcursor⟩
    exact List.mem_reverse.1 he
  | key k => exact h
  | function f => exact h
  | miss => exact h

theorem allBound_loop {state : Resolution C} (h : state.AllBound) :
    (state.loop source ctx).AllBound := by
  fun_induction loop source ctx state with
  | case1 state hrest => exact h
  | case2 state hrest _ ih => exact ih (allBound_advance source ctx h)

theorem noneUnbound_finish {state : Resolution C} (h : state.AllBound) :
    NoneUnbound (state.finish ctx).trace := by
  have hpast : NoneUnbound state.past.reverse := fun e he => h.past e (List.mem_reverse.1 he)
  have hcursor := h.cursor
  unfold finish
  cases hc : state.cursor with
  | scanning entries => exact List.forall_mem_append.2 ⟨hpast, List.forall_mem_nil _⟩
  | key k => exact List.forall_mem_append.2 ⟨hpast, List.forall_mem_nil _⟩
  | function f =>
    rw [hc] at hcursor
    have hf : f.isBound = true := hcursor (.keyFunction f) List.mem_cons_self
    exact List.forall_mem_append.2 ⟨hpast, noneUnbound_call ctx hf⟩
  | miss => exact List.forall_mem_append.2 ⟨hpast, List.forall_mem_nil _⟩

end Resolution

/-- **Resolving a selector without open callables never misses a function.** -/
theorem noneUnbound_resolve {s : Selector C} (h : EveryBound s.callables) :
    NoneUnbound (s.resolve source ctx).trace := by
  have hstart : (Resolution.start s).AllBound :=
    ⟨List.forall_mem_nil _, (callables_ofSelector s).symm ▸ h⟩
  exact Resolution.noneUnbound_finish ctx (Resolution.allBound_loop source ctx hstart)

/-! ## Content keys -/

/-- A field shows the answer of the nested search. -/
theorem ofTraced_resolveKey (options : FieldOptions C) (name : String) :
    Answer.ofTraced (options.resolveKey name source ctx) =
      options.firstMatch .carried source ctx := by
  unfold FieldOptions.resolveKey FieldOptions.firstMatch
  cases options.contentKey with
  | none => rfl
  | some s =>
    simp only [← ofTraced_resolve]
    cases hv : (s.resolve source ctx).value with
    | none =>
      rw [ofTraced_removed]
      simp [Answer.ofTraced, hv]
    | some key =>
      dsimp only
      by_cases hk : key.isEmpty = true
      · rw [if_pos hk, ofTraced_removed]
        simp [Answer.ofTraced, hv, Option.filter, hk]
      · rw [if_neg hk]
        simp [Answer.ofTraced, hv, Option.filter, hk]

/-- What resolving a field set shows, field after field. -/
theorem contentKeys_eq_answers (fields : FieldSet C) :
    (fields.contentKeys source ctx).value =
        ((fields.answers .carried source ctx).filterMap fun a =>
          a.2.key.map fun key => (a.1, key)) ∧
      lookups (fields.contentKeys source ctx).trace =
        (fields.answers .carried source ctx).flatMap (fun a => a.2.lookups) ∧
      calls (fields.contentKeys source ctx).trace =
        (fields.answers .carried source ctx).flatMap fun a => a.2.calls := by
  have hanswers : fields.answers .carried source ctx =
      fields.entries.map fun e => (e.1, Answer.ofTraced (e.2.resolveKey e.1 source ctx)) := by
    simp only [FieldSet.answers, ofTraced_resolveKey]
  rw [hanswers]
  unfold FieldSet.contentKeys lookups calls
  simp only [List.filterMap_map, List.flatMap_map, List.filterMap_flatMap]
  exact ⟨rfl, rfl, rfl⟩

theorem noneUnbound_resolveKey {options : FieldOptions C} (h : EveryBound options.callables)
    (name : String) : NoneUnbound (options.resolveKey name source ctx).trace := by
  obtain ⟨contentKey⟩ := options
  cases contentKey with
  | none => exact List.forall_mem_nil _
  | some s =>
    have hs : EveryBound s.callables := by
      simpa only [FieldOptions.callables, Selector.callablesOfOutcome] using h
    have htrace := noneUnbound_resolve source ctx hs
    have hremoved : NoneUnbound
        ((s.resolve source ctx).trace ++ [.notice (.contentKeyRemoved name)]) :=
      List.forall_mem_append.2 ⟨htrace, List.forall_mem_singleton.2 rfl⟩
    simp only [FieldOptions.resolveKey]
    split
    · split
      · exact hremoved
      · exact htrace
    · exact hremoved

theorem noneUnbound_contentKeys {fields : FieldSet C} (h : EveryBound fields.callables) :
    NoneUnbound (fields.contentKeys source ctx).trace := by
  intro event hevent
  simp only [FieldSet.contentKeys, List.flatMap_map, List.mem_flatMap] at hevent
  obtain ⟨e, he, hevent⟩ := hevent
  have hoptions : EveryBound e.2.callables := fun c hc => h c (List.mem_flatMap.2 ⟨e, he, hc⟩)
  exact noneUnbound_resolveKey source ctx hoptions e.1 event hevent

/-! ## Binding first, or looking up late -/

/-- **Eager binding is late lookup.** Once a selector has been bound, it is resolved to the key,
with the look-ups and with the predicate calls, of the nested search through the open selector
that looks names up when it needs them; and no function is ever missing. The same holds of the
content keys of a field set, field by field. -/
theorem bind_resolves_late (r : Registry C) :
    (∀ s : Selector C, (∀ c ∈ s.callables, c.IsMade) → (r.bindSelector s).error = none →
      ∀ (source : Source) (ctx : C),
        Answer.ofTraced ((r.bindSelector s).state.resolve source ctx) =
            s.firstMatch r.lookup source ctx ∧
          NoneUnbound ((r.bindSelector s).state.resolve source ctx).trace) ∧
    (∀ fields : FieldSet C, (∀ c ∈ fields.callables, c.IsMade) →
      (r.bindFieldSet fields).error = none → ∀ (source : Source) (ctx : C),
        let result := (r.bindFieldSet fields).state.contentKeys source ctx
        let answers := fields.answers r.lookup source ctx
        result.value = (answers.filterMap fun a => a.2.key.map fun key => (a.1, key)) ∧
          lookups result.trace = answers.flatMap (fun a => a.2.lookups) ∧
          calls result.trace = answers.flatMap (fun a => a.2.calls) ∧
          NoneUnbound result.trace) := by
  constructor
  · intro s hmade hok source ctx
    have hserves := r.bindSelector_serves s
    have hbound := (hserves.isComplete Selector.callables_mapCallables
      Selector.mapCallables_mapCallables hmade).all_bound hok
    refine ⟨?_, noneUnbound_resolve source ctx hbound⟩
    rw [ofTraced_resolve, hserves.state_eq hok, Selector.firstMatch_attach]
  · intro fields hmade hok source ctx
    have hserves := r.bindFieldSet_serves fields
    have hbound := (hserves.isComplete FieldSet.callables_mapCallables
      FieldSet.mapCallables_mapCallables hmade).all_bound hok
    have hanswers := contentKeys_eq_answers source ctx (r.bindFieldSet fields).state
    have hattach : (r.bindFieldSet fields).state.answers .carried source ctx =
        fields.answers r.lookup source ctx := by
      rw [hserves.state_eq hok, answers_attach]
    rw [hattach] at hanswers
    obtain ⟨hvalue, hlookups, hcalls⟩ := hanswers
    exact ⟨hvalue, hlookups, hcalls, noneUnbound_contentKeys source ctx hbound⟩

/-- Both conditions of the small selector hold, one call each, and the innermost outcome gives the
key. -/
theorem resolve_small_rules :
    ((∀ c ∈ smallSelector.callables, c.IsMade) ∧
      (smallRegistry.bindSelector smallSelector).error = none ∧
      Answer.ofTraced ((smallRegistry.bindSelector smallSelector).state.resolve
          (fun _ => some (.bool true)) ()) =
        ⟨some "picked", ["age", "name"],
          [⟨none, some (.bool true), ⟨"age", none⟩⟩,
            ⟨some "isAdult", some (.bool true), ⟨"name", none⟩⟩]⟩) ∧
    ((∀ c ∈ smallFields.callables, c.IsMade) ∧
      (smallRegistry.bindFieldSet smallFields).error = none ∧
      ((smallRegistry.bindFieldSet smallFields).state.contentKeys
          (fun _ => some (.bool true)) ()).value = [("f", "picked")]) := by
  obtain ⟨hselector, hfields⟩ := bind_resolves_late smallRegistry
  have hl : (smallRegistry.bindSelector smallSelector).error = none := by decide +kernel
  have hf : (smallRegistry.bindFieldSet smallFields).error = none := by decide +kernel
  refine ⟨⟨isMade_smallSelector, hl, ?_⟩, isMade_smallSelector, hf, ?_⟩
  · rw [(hselector smallSelector isMade_smallSelector hl _ ()).1]
    rfl
  · rw [(hfields smallFields isMade_smallSelector hf _ ()).1]
    rfl

end FormRouting
