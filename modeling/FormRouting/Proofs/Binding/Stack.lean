import FormRouting.Compilation
import FormRouting.Proofs.Binding.Order

/-!
# Binding from a stack

The binders are recursive, but binding does not have to be. Rules and selectors can be bound
by a loop over a stack of what is still to be bound: the thing on top is taken off and opened,
its own callables are bound, and the things inside it go on top of the stack, the last one
last. The loop stops at the first callable that cannot be served, and then closes all that is
still open.

* `Opening`: a thing that has been opened. `Opener`: a way to open things.
* `Opener.run`: the loop, `Opener.bind`: the loop for one thing.
* `run_eq_each`: a loop binds what is on the stack, one thing after the other, if binding a
  thing means to open it and to bind what is inside.
* `bindRule_opens`, `bindSelector_opens`: the binders do that.
* `bind_eq_loop`: **binding is a loop over a stack.**
-/

namespace FormRouting

variable {C α β : Type}

/-! ## The loop -/

/-- A thing that has been opened: its own callables have been bound, or one of them was not
served. -/
structure Opening (α : Type) where
  /-- What is inside and still to be bound, as it stands there. -/
  inside : List α
  /-- The thing with what has become of the things inside it. -/
  close : List α → α
  error : Option BindError

namespace Opening

/-- What is inside goes on top of a stack, and the last one at the very top. -/
def onTop (opening : Opening α) (stack : List α) : List α := opening.inside.reverse ++ stack

/-- Close a thing with the first elements of a list, the first of all for the last place. -/
def closeFirst (opening : Opening α) (l : List α) : List α :=
  opening.close (l.take opening.inside.length).reverse :: l.drop opening.inside.length

/-- Bind what is inside from the last to the first, and close. -/
def bindInside (opening : Opening α) (f : α → Attempt α) : Attempt α :=
  match opening.error with
  | some e => ⟨opening.close opening.inside, some e⟩
  | none => (Attempt.each f opening.inside.reverse).map fun done => opening.close done.reverse

theorem closeFirst_append (opening : Opening α) {l : List α}
    (h : l.length = opening.inside.length) (rest : List α) :
    opening.closeFirst (l ++ rest) = opening.close l.reverse :: rest := by
  rw [closeFirst, ← h, List.take_left, List.drop_left]

end Opening

/-- The elements of a list taken together. -/
def sizeOfAll (size : α → Nat) : List α → Nat
  | [] => 0
  | x :: rest => size x + sizeOfAll size rest

theorem sizeOfAll_append (size : α → Nat) (l m : List α) :
    sizeOfAll size (l ++ m) = sizeOfAll size l + sizeOfAll size m := by
  induction l with
  | nil => simp [sizeOfAll]
  | cons x rest ih => simp only [List.cons_append, sizeOfAll, ih]; omega

theorem sizeOfAll_reverse (size : α → Nat) (l : List α) :
    sizeOfAll size l.reverse = sizeOfAll size l := by
  induction l with
  | nil => rfl
  | cons x rest ih => simp only [List.reverse_cons, sizeOfAll_append, sizeOfAll, ih]; omega

/-- A way to open things that have smaller things of their kind inside. -/
structure Opener (α : Type) where
  openUp : α → Opening α
  size : α → Nat
  size_inside_lt : ∀ x, sizeOfAll size (openUp x).inside < size x

theorem Attempt.length_state_each (f : α → Attempt α) (l : List α) :
    (each f l).state.length = l.length := by
  rcases each_cases f l with hall | ⟨before, x, after, e, rfl, hbefore, hx⟩
  · rw [each_of_forall hall, List.length_map]
  · rw [each_of_first hbefore hx]
    simp

namespace Opener

open Attempt

/-- **The loop.** The first of the pending things is on top of the stack; `close` closes all that
is open with what has become of the pending things. -/
def run (o : Opener α) (pending : List α) (close : List α → β) : Attempt β :=
  match pending with
  | [] => ⟨close [], none⟩
  | x :: rest =>
    match (o.openUp x).error with
    | some e => ⟨close ((o.openUp x).close (o.openUp x).inside :: rest), some e⟩
    | none =>
      run o ((o.openUp x).onTop rest) fun done => close ((o.openUp x).closeFirst done)
termination_by sizeOfAll o.size pending
decreasing_by
  have := o.size_inside_lt x
  simp only [Opening.onTop, sizeOfAll_append, sizeOfAll_reverse, sizeOfAll]
  omega

/-- Bind one thing by the loop. -/
def bind (o : Opener α) (x : α) : Attempt α := o.run [x] fun done => done.headD x

variable {o : Opener α} {f : α → Attempt α}

/-- **The loop binds one pending thing after the other.** -/
theorem run_eq_each (hf : ∀ x, f x = (o.openUp x).bindInside f) (pending : List α)
    (close : List α → β) : o.run pending close = (each f pending).map close := by
  fun_induction Opener.run o pending close with
  | case1 close => rfl
  | case2 close x rest e he =>
    have hx : f x = ⟨(o.openUp x).close (o.openUp x).inside, some e⟩ := by
      rw [hf, Opening.bindInside, he]
    simp only [each, both, Attempt.map, hx]
  | case3 close x rest he ih =>
    have hx : f x = (each f (o.openUp x).inside.reverse).map
        fun done => (o.openUp x).close done.reverse := by
      rw [hf, Opening.bindInside, he]
    -- what was on top of the stack is closed with as many things as were inside it
    have hlength : (each f (o.openUp x).inside.reverse).state.length =
        (o.openUp x).inside.length := by
      rw [length_state_each, List.length_reverse]
    have hclose := (o.openUp x).closeFirst_append hlength
    rw [ih, Opening.onTop, each_append]
    simp only [each, both, Attempt.map, hx]
    cases (each f (o.openUp x).inside.reverse).error <;> simp only [hclose]

theorem bind_eq (hf : ∀ x, f x = (o.openUp x).bindInside f) (x : α) : o.bind x = f x := by
  rw [Opener.bind, run_eq_each hf, each_singleton]
  rfl

end Opener

/-! ## Rules -/

theorem Rule.totalSize_eq (rules : List (Rule C)) : totalSize rules = sizeOfAll size rules := by
  induction rules with
  | nil => simp only [totalSize, sizeOfAll]
  | cons rule rest ih => simp only [totalSize, sizeOfAll, ih]

namespace Registry

open Attempt

variable (r : Registry C)

def openRule : Rule C → Opening (Rule C)
  | .target id => ⟨[], fun _ => .target id, none⟩
  | .branch c next =>
    ⟨[], fun _ => .branch (r.bindCondition c).state next, (r.bindCondition c).error⟩
  | .group rules => ⟨rules, .group, none⟩

def ruleOpener : Opener (Rule C) where
  openUp := r.openRule
  size := Rule.size
  size_inside_lt rule := by
    cases rule with
    | target id => simp [openRule, sizeOfAll, Rule.size]
    | branch c next => simp [openRule, sizeOfAll, Rule.size]
    | group rules => simp [openRule, Rule.size, Rule.totalSize_eq]

theorem bindRules_eq_each (rules : List (Rule C)) :
    r.bindRules rules = (each r.bindRule rules.reverse).map List.reverse := by
  induction rules with
  | nil => simp only [bindRules]; rfl
  | cons rule rest ih =>
    rw [List.reverse_cons, each_append, each_singleton]
    simp only [bindRules, ih, both, Attempt.map]
    cases (each r.bindRule rest.reverse).error <;> simp

theorem bindRule_opens (rule : Rule C) :
    r.bindRule rule = (r.openRule rule).bindInside r.bindRule := by
  cases rule with
  | target id => simp only [bindRule]; rfl
  | branch c next =>
    simp only [bindRule, openRule, Opening.bindInside, Attempt.map, List.reverse_nil, each]
    cases (r.bindCondition c).error <;> rfl
  | group rules =>
    simp only [bindRule, openRule, Opening.bindInside, bindRules_eq_each]
    rfl

end Registry

/-! ## Selectors -/

namespace Entry

/-- The selectors that entries hand over to. -/
def outcomes : List (Entry C) → List (Selector C)
  | [] => []
  | .key _ :: rest => outcomes rest
  | .function _ :: rest => outcomes rest
  | .branch _ none :: rest => outcomes rest
  | .branch _ (some s) :: rest => s :: outcomes rest

/-- The entries with these selectors to hand over to. -/
def withOutcomes : List (Entry C) → List (Selector C) → List (Entry C)
  | [], _ => []
  | .key k :: rest, l => .key k :: withOutcomes rest l
  | .function f :: rest, l => .function f :: withOutcomes rest l
  | .branch c none :: rest, l => .branch c none :: withOutcomes rest l
  | .branch c (some s) :: rest, l => .branch c (some (l.headD s)) :: withOutcomes rest l.tail

theorem withOutcomes_outcomes (entries : List (Entry C)) :
    withOutcomes entries (outcomes entries) = entries := by
  fun_induction outcomes entries with
  | case1 => rfl
  | case2 k rest ih => simp only [withOutcomes, ih]
  | case3 f rest ih => simp only [withOutcomes, ih]
  | case4 c rest ih => simp only [withOutcomes, ih]
  | case5 c s rest ih => simp only [withOutcomes, List.headD_cons, List.tail_cons, ih]

end Entry

namespace Selector

mutual

/-- The number of selectors in a selector, itself included. -/
def size : Selector C → Nat
  | .key _ => 1
  | .function _ => 1
  | .sequence entries => totalSize entries + 1

def totalSize : List (Entry C) → Nat
  | [] => 0
  | .key _ :: rest => totalSize rest
  | .function _ :: rest => totalSize rest
  | .branch _ none :: rest => totalSize rest
  | .branch _ (some s) :: rest => size s + totalSize rest

end

theorem totalSize_eq (entries : List (Entry C)) :
    totalSize entries = sizeOfAll size (Entry.outcomes entries) := by
  fun_induction Entry.outcomes entries with
  | case1 => simp only [totalSize, sizeOfAll]
  | case2 k rest ih => simp only [totalSize, ih]
  | case3 f rest ih => simp only [totalSize, ih]
  | case4 c rest ih => simp only [totalSize, ih]
  | case5 c s rest ih => simp only [totalSize, sizeOfAll, ih]

end Selector

namespace Registry

open Attempt

variable (r : Registry C)

def openSelector : Selector C → Opening (Selector C)
  | .key k => ⟨[], fun _ => .key k, none⟩
  | .function f =>
    ⟨[], fun _ => .function (r.bindKeyFunction f).state, (r.bindKeyFunction f).error⟩
  | .sequence entries =>
    ⟨Entry.outcomes entries,
      fun done => .sequence (Entry.withOutcomes (r.bindEntries entries).state done),
      (r.bindEntries entries).error⟩

def selectorOpener : Opener (Selector C) where
  openUp := r.openSelector
  size := Selector.size
  size_inside_lt s := by
    cases s with
    | key k => simp [openSelector, sizeOfAll, Selector.size]
    | function f => simp [openSelector, sizeOfAll, Selector.size]
    | sequence entries => simp [openSelector, Selector.size, Selector.totalSize_eq]

theorem outcomes_bindEntries (entries : List (Entry C)) :
    Entry.outcomes (r.bindEntries entries).state = Entry.outcomes entries := by
  refine each_keeps (fun entry rest rest' h => ?_) entries
  cases entry with
  | key k => simp only [bindEntry, Entry.outcomes, h]
  | function f => simp only [bindEntry, Attempt.map, Entry.outcomes, h]
  | branch c outcome =>
    cases outcome <;> simp only [bindEntry, Attempt.map, Entry.outcomes, h]

theorem bindOutcomes_eq_each (entries : List (Entry C)) :
    r.bindOutcomes entries = (each r.bindSelector (Entry.outcomes entries).reverse).map fun done =>
      Entry.withOutcomes (entries.map fun entry => (r.bindEntry entry).state) done.reverse := by
  fun_induction Entry.outcomes entries with
  | case1 => simp only [bindOutcomes]; rfl
  | case2 k rest ih => simp only [bindOutcomes, ih]; rfl
  | case3 f rest ih => simp only [bindOutcomes, ih]; rfl
  | case4 c rest ih =>
    simp only [bindOutcomes, bindOutcome, ih, both, Attempt.map]
    cases (each r.bindSelector (Entry.outcomes rest).reverse).error <;>
      simp [Entry.withOutcomes, bindEntry, Attempt.map]
  | case5 c s rest ih =>
    rw [List.reverse_cons, each_append, each_singleton]
    simp only [bindOutcomes, bindOutcome, ih, both, Attempt.map]
    cases (each r.bindSelector (Entry.outcomes rest).reverse).error <;>
      simp [Entry.withOutcomes, bindEntry, Attempt.map]

theorem bindSelector_opens (s : Selector C) :
    r.bindSelector s = (r.openSelector s).bindInside r.bindSelector := by
  cases s with
  | key k => simp only [bindSelector]; rfl
  | function f =>
    simp only [bindSelector, openSelector, Opening.bindInside, Attempt.map, List.reverse_nil, each]
    cases (r.bindKeyFunction f).error <;> rfl
  | sequence entries =>
    simp only [bindSelector, openSelector, Opening.bindInside]
    cases he : (r.bindEntries entries).error with
    | some e =>
      have hkeep := Entry.withOutcomes_outcomes (r.bindEntries entries).state
      rw [r.outcomes_bindEntries] at hkeep
      simp only [hkeep]
    | none =>
      simp only [bindOutcomes_eq_each, r.state_bindEntries he]
      rfl

end Registry

/-- **Binding is a loop over a stack.** Whether it succeeds or stops, a rule or a selector is bound
like by the loop: with the same result, and the same thing left behind. -/
theorem bind_eq_loop (r : Registry C) :
    (∀ rule : Rule C, r.bindRule rule = r.ruleOpener.bind rule) ∧
    (∀ s : Selector C, r.bindSelector s = r.selectorOpener.bind s) :=
  ⟨fun rule => (Opener.bind_eq r.bindRule_opens rule).symm,
    fun s => (Opener.bind_eq r.bindSelector_opens s).symm⟩

end FormRouting
