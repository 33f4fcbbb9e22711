import FormRouting.Resolution
import Mathlib.Logic.Function.Iterate

/-!
# Resolution is first match

A selector can be read as a nested search: the first entry of a sequence that hits
decides, and its outcome is searched in the same way. Resolution does not recurse;
it moves a cursor from scan to scan. Both choose the same key, look up the same
fields and call the same predicates, in the same order.

* `Selector.firstMatch`: the nested search, with what it asks for on the way.
* `answer_scan`, `answer_advance`: a scan, and one turn of the loop, keep the
  answer that the search gives from there on.
* `answer_loop`, `loop_eq_iterate`: a whole run, and how many turns it takes.
* `ofTraced_resolve`: key, look-ups and calls of a resolution; `value_resolve`,
  `lookups_resolve` and `calls_resolve` are its parts.
* `resolve_is_firstMatch`: **resolution ends and gives the answer of the search.**
-/

namespace FormRouting

variable {C : Type}

/-- Which function a callable stands for, if any. -/
structure Assignment (C : Type) where
  predicate : Predicate C → Option (Predicate.Body C)
  keyFunction : KeyFunction C → Option (KeyFunction.Body C)

/-- Every callable stands for the function it carries itself. -/
def Assignment.carried : Assignment C := ⟨Predicate.body, KeyFunction.body⟩

/-- A chosen key with the fields looked up and the predicates called for it, in order. -/
structure Answer where
  key : Option String
  lookups : List String
  calls : List Call

namespace Answer

/-- A key for which nothing is asked. -/
def immediate (key : Option String) : Answer := ⟨key, [], []⟩

/-- An answer for which `field` was looked up and `calls` were made before. -/
def afterTest (field : String) (calls : List Call) (a : Answer) : Answer :=
  ⟨a.key, field :: a.lookups, calls ++ a.calls⟩

/-- What a result shows. -/
def ofTraced (result : Traced (Option String)) : Answer :=
  ⟨result.value, FormRouting.lookups result.trace, FormRouting.calls result.trace⟩

/-- An answer behind the events of a trace. -/
def behind (trace : List Event) (a : Answer) : Answer :=
  ⟨a.key, FormRouting.lookups trace ++ a.lookups, FormRouting.calls trace ++ a.calls⟩

end Answer

/-! ## The nested search -/

section

variable (assigned : Assignment C) (source : Source) (ctx : C)

/-- What a predicate says, and its call. Where it stands for no function it is not called and says
no. -/
def Predicate.consult (p : Predicate C) (current : Option Json) (operands : Operands) :
    Bool × List Call :=
  match assigned.predicate p with
  | some body => (body current ctx operands, [⟨p.name, current, operands⟩])
  | none => (false, [])

/-- Whether a condition holds for a current value, and the call that decides it: its predicate if
it has one, else a predicate in place of the operator, else the comparator without any call. -/
def Condition.verdict (c : Condition C) (current : Option Json) : Bool × List Call :=
  match c.predicate with
  | some p => p.consult assigned ctx current ⟨c.field, c.value⟩
  | none =>
    match c.operator with
    | .custom p => p.consult assigned ctx current ⟨c.field, c.value⟩
    | .builtIn comparator => (comparator.holds current c.value, [])

/-- The key of a key function; none where it stands for no function. -/
def KeyFunction.result (f : KeyFunction C) : Option String :=
  match assigned.keyFunction f with
  | some body => body ctx
  | none => none

namespace Selector

mutual

/-- **The nested search.** A key and a key function decide at once, a sequence by its first hit. -/
def firstMatch : Selector C → Answer
  | .key k => .immediate (some k)
  | .function f => .immediate (f.result assigned ctx)
  | .sequence entries => firstHit entries

/-- The search through entries. A condition looks up its field once and is decided once. If it
holds, its outcome decides alone; if not, the entries behind it do. -/
def firstHit : List (Entry C) → Answer
  | [] => .immediate none
  | .key k :: _ => .immediate (some k)
  | .function f :: _ => .immediate (f.result assigned ctx)
  | .branch c outcome :: rest =>
    let verdict := c.verdict assigned ctx (source c.field)
    .afterTest c.field verdict.2 (if verdict.1 then committed outcome else firstHit rest)

/-- The outcome of a condition that holds; without one there is no key. -/
def committed : Option (Selector C) → Answer
  | none => .immediate none
  | some s => firstMatch s

end

end Selector

end

/-! ## Events -/

theorem lookups_append (a b : List Event) : lookups (a ++ b) = lookups a ++ lookups b :=
  List.filterMap_append

theorem calls_append (a b : List Event) : calls (a ++ b) = calls a ++ calls b :=
  List.filterMap_append

theorem behind_append (a b : List Event) (answer : Answer) :
    Answer.behind (a ++ b) answer = Answer.behind a (Answer.behind b answer) := by
  unfold Answer.behind
  rw [lookups_append, calls_append, List.append_assoc, List.append_assoc]

theorem ofTraced_after (past : List Event) (result : Traced (Option String)) :
    Answer.ofTraced (Traced.after past result) =
      Answer.behind past.reverse (Answer.ofTraced result) := by
  unfold Answer.ofTraced Traced.after Answer.behind
  rw [lookups_append, calls_append]

/-- The notice of a removed content key shows in no answer. -/
theorem ofTraced_removed (key : Option String) (trace : List Event) (name : String) :
    Answer.ofTraced ⟨key, trace ++ [.notice (.contentKeyRemoved name)]⟩ =
      Answer.ofTraced ⟨key, trace⟩ := by
  unfold Answer.ofTraced
  rw [lookups_append, calls_append]
  simp [lookups, calls, Event.lookup?, Event.call?]

variable (source : Source) (ctx : C)

/-- A call of a key function shows nothing but its key. -/
theorem ofTraced_call (f : KeyFunction C) :
    Answer.ofTraced (f.call ctx) = .immediate (f.result .carried ctx) := by
  cases f with
  | mk name body => cases body <;> rfl

theorem callPredicate_eq (c : Condition C) (p : Predicate C) (current : Option Json) :
    (c.callPredicate p current ctx).value = (p.consult .carried ctx current c.operands).1 ∧
      lookups (c.callPredicate p current ctx).trace = [] ∧
      calls (c.callPredicate p current ctx).trace =
        (p.consult .carried ctx current c.operands).2 := by
  cases p with
  | mk name body => cases body <;> exact ⟨rfl, rfl, rfl⟩

/-- Evaluating a condition gives its verdict and makes the call of the verdict. -/
theorem evaluate_eq_verdict (c : Condition C) (current : Option Json) :
    (c.evaluate current ctx).value = (c.verdict .carried ctx current).1 ∧
      lookups (c.evaluate current ctx).trace = [] ∧
      calls (c.evaluate current ctx).trace = (c.verdict .carried ctx current).2 := by
  unfold Condition.evaluate Condition.decider Condition.verdict
  cases hp : c.predicate with
  | some p => exact callPredicate_eq ctx c p current
  | none =>
    cases ho : c.operator with
    | custom p => exact callPredicate_eq ctx c p current
    | builtIn comparator => exact ⟨rfl, rfl, rfl⟩

/-- A tested condition has looked up its field, once, and then been decided. -/
theorem behind_test (c : Condition C) (answer : Answer) :
    Answer.behind (c.test source ctx).trace answer =
      .afterTest c.field (c.verdict .carried ctx (source c.field)).2 answer := by
  obtain ⟨-, hl, hc⟩ := evaluate_eq_verdict ctx c (source c.field)
  have hlookup : lookups (c.test source ctx).trace = [c.field] := by
    show c.field :: lookups (c.evaluate (source c.field) ctx).trace = _
    rw [hl]
  have hcalls : calls (c.test source ctx).trace = (c.verdict .carried ctx (source c.field)).2 := hc
  unfold Answer.behind Answer.afterTest
  rw [hlookup, hcalls]
  rfl

/-! ## One turn of the loop -/

/-- The answer of the search from where a cursor stands. -/
def Cursor.answer (source : Source) (ctx : C) : Cursor C → Answer
  | .scanning entries => Selector.firstHit .carried source ctx entries
  | .key k => .immediate (some k)
  | .function f => .immediate (f.result .carried ctx)
  | .miss => .immediate none

theorem answer_ofSelector (s : Selector C) :
    (Cursor.ofSelector s).answer source ctx = s.firstMatch .carried source ctx := by
  cases s <;> simp only [Cursor.ofSelector, Cursor.answer, Selector.firstMatch]

theorem answer_ofOutcome (outcome : Option (Selector C)) :
    (Cursor.ofOutcome outcome).answer source ctx =
      Selector.committed .carried source ctx outcome := by
  cases outcome with
  | none => simp only [Cursor.ofOutcome, Cursor.answer, Selector.committed]
  | some s => simp only [Cursor.ofOutcome, Selector.committed, answer_ofSelector]

/-- **A scan keeps the answer.** The search through the entries is the search from the hit, behind
what the scan has asked for. -/
theorem answer_scan (entries : List (Entry C)) :
    Selector.firstHit .carried source ctx entries =
      Answer.behind (scan source ctx entries).trace
        ((scan source ctx entries).value.answer source ctx) := by
  induction entries with
  | nil => simp only [Selector.firstHit, scan]; rfl
  | cons entry rest ih =>
    cases entry with
    | key k => simp only [Selector.firstHit, scan]; rfl
    | function f => simp only [Selector.firstHit, scan]; rfl
    | branch c outcome =>
      have hv : (c.test source ctx).value = (c.verdict .carried ctx (source c.field)).1 :=
        (evaluate_eq_verdict ctx c (source c.field)).1
      simp only [Selector.firstHit, scan, ← hv]
      by_cases h : (c.test source ctx).value = true
      · rw [if_pos h, if_pos h, behind_append, behind_test, answer_ofOutcome]
        rfl
      · rw [if_neg h, if_neg h, behind_append, behind_test, ih]

namespace Resolution

/-- The answer of the search from a state of the loop, behind what it has asked for so far. -/
def answer (source : Source) (ctx : C) (r : Resolution C) : Answer :=
  Answer.behind r.past.reverse (r.cursor.answer source ctx)

/-- **One turn of the loop keeps the answer.** -/
theorem answer_advance (r : Resolution C) :
    (r.advance source ctx).answer source ctx = r.answer source ctx := by
  unfold advance
  cases hc : r.cursor with
  | scanning entries =>
    simp only [answer, hc]
    rw [List.reverse_append, List.reverse_reverse, behind_append, ← answer_scan]
    rfl
  | key k => rfl
  | function f => rfl
  | miss => rfl

/-! ## A whole run -/

theorem answer_loop (r : Resolution C) :
    (r.loop source ctx).answer source ctx = r.answer source ctx := by
  fun_induction loop source ctx r with
  | case1 r h => rfl
  | case2 r h _ ih => rw [ih, answer_advance]

/-- The loop comes to rest, after at most as many turns as sequences lie inside each other. -/
theorem loop_eq_iterate (r : Resolution C) :
    ∃ n ≤ r.cursor.depth, r.loop source ctx = (advance source ctx)^[n] r ∧
      (r.loop source ctx).cursor.isAtRest = true := by
  fun_induction loop source ctx r with
  | case1 r h => exact ⟨0, Nat.zero_le _, rfl, h⟩
  | case2 r h hlt ih =>
    obtain ⟨n, hn, heq, hrest⟩ := ih
    exact ⟨n + 1, by omega, by rw [heq, Function.iterate_succ_apply], hrest⟩

/-- At rest, the answer is what finishing shows. -/
theorem ofTraced_finish {r : Resolution C} (h : r.cursor.isAtRest = true) :
    Answer.ofTraced (r.finish ctx) = r.answer source ctx := by
  unfold finish answer
  cases hc : r.cursor with
  | scanning entries => rw [hc] at h; cases h
  | key k => exact ofTraced_after _ _
  | function f => simp only [ofTraced_after, ofTraced_call, Cursor.answer]
  | miss => exact ofTraced_after _ _

end Resolution

/-- Resolution and search agree on the key, the look-ups and the calls. -/
theorem ofTraced_resolve (s : Selector C) :
    Answer.ofTraced (s.resolve source ctx) = s.firstMatch .carried source ctx := by
  obtain ⟨-, -, -, hrest⟩ := Resolution.loop_eq_iterate source ctx (Resolution.start s)
  unfold Selector.resolve
  rw [Resolution.ofTraced_finish source ctx hrest, Resolution.answer_loop, ← answer_ofSelector]
  rfl

theorem value_resolve (s : Selector C) :
    (s.resolve source ctx).value = (s.firstMatch .carried source ctx).key :=
  congrArg Answer.key (ofTraced_resolve source ctx s)

theorem lookups_resolve (s : Selector C) :
    lookups (s.resolve source ctx).trace = (s.firstMatch .carried source ctx).lookups :=
  congrArg Answer.lookups (ofTraced_resolve source ctx s)

theorem calls_resolve (s : Selector C) :
    calls (s.resolve source ctx).trace = (s.firstMatch .carried source ctx).calls :=
  congrArg Answer.calls (ofTraced_resolve source ctx s)

/-- **Resolution is first match.** The loop comes to rest, after at most as many scans as sequences
lie inside each other, and its key, its look-ups and its predicate calls are those of the nested
search. -/
theorem resolve_is_firstMatch (s : Selector C) :
    (∃ n ≤ s.depth,
      ((Resolution.advance source ctx)^[n] (Resolution.start s)).cursor.isAtRest = true ∧
        s.resolve source ctx =
          ((Resolution.advance source ctx)^[n] (Resolution.start s)).finish ctx) ∧
      Answer.ofTraced (s.resolve source ctx) = s.firstMatch .carried source ctx := by
  refine ⟨?_, ofTraced_resolve source ctx s⟩
  obtain ⟨n, hn, heq, hrest⟩ := Resolution.loop_eq_iterate source ctx (Resolution.start s)
  have hdepth : (Resolution.start s).cursor.depth = s.depth := Cursor.depth_ofSelector s
  refine ⟨n, hdepth ▸ hn, heq ▸ hrest, ?_⟩
  rw [← heq]
  rfl

end FormRouting
