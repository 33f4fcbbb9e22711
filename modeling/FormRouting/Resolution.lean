import FormRouting.FieldSet
import FormRouting.FieldValues

/-!
# Choosing a key

A resolution holds a cursor and the events so far, the latest first. While the
cursor is on a sequence, its entries are scanned and the first hit takes the
cursor's place. A condition looks up its field once and is evaluated once; a hit
commits, so nothing behind it is looked at even if its outcome gives no key.

* `Resolution.advance`, `Resolution.loop`: one scan, and scans until the cursor rests.
* `Selector.resolve`: the key of a selector, with what was observed.
* `FieldSet.contentKeys`: the keys of the fields that declare a selector.
-/

namespace FormRouting

variable {C : Type}

/-- Look up the field of a condition and evaluate it. -/
def Condition.test (c : Condition C) (source : Source) (ctx : C) : Traced Bool :=
  let verdict := c.evaluate (source c.field) ctx
  ⟨verdict.value, .lookup c.field :: verdict.trace⟩

/-- Call a key function; without a function there is no key. -/
def KeyFunction.call (f : KeyFunction C) (ctx : C) : Traced (Option String) :=
  match f.body with
  | some body => ⟨body ctx, []⟩
  | none => ⟨none, [.notice (.unboundKeyFunction f.name)]⟩

/-- A result reached after the events `past`, the latest first. -/
def Traced.after {α : Type} (past : List Event) (result : Traced α) : Traced α :=
  ⟨result.value, past.reverse ++ result.trace⟩

/-- Where a resolution stands. -/
inductive Cursor (C : Type) where
  /-- Entries that are still to be scanned. -/
  | scanning (entries : List (Entry C))
  | key (key : String)
  | function (f : KeyFunction C)
  /-- Nothing is selected. -/
  | miss
deriving Inhabited

namespace Selector

mutual

/-- How many sequences lie inside each other. -/
def depth : Selector C → Nat
  | .key _ => 0
  | .function _ => 0
  | .sequence entries => entriesDepth entries + 1

def entriesDepth : List (Entry C) → Nat
  | [] => 0
  | .branch _ outcome :: rest => max (outcomeDepth outcome) (entriesDepth rest)
  | _ :: rest => entriesDepth rest

def outcomeDepth : Option (Selector C) → Nat
  | none => 0
  | some s => depth s

end

end Selector

namespace Cursor

def ofSelector : Selector C → Cursor C
  | .key k => .key k
  | .function f => .function f
  | .sequence entries => .scanning entries

/-- Where a condition that holds leads; without an outcome, nowhere. -/
def ofOutcome : Option (Selector C) → Cursor C
  | none => .miss
  | some s => ofSelector s

/-- No entries are left to scan. -/
def isAtRest : Cursor C → Bool
  | .scanning _ => false
  | _ => true

/-- How many scans may follow. -/
def depth : Cursor C → Nat
  | .scanning entries => Selector.entriesDepth entries + 1
  | _ => 0

theorem depth_ofSelector (s : Selector C) : (ofSelector s).depth = s.depth := by
  cases s <;> simp [ofSelector, depth, Selector.depth]

theorem depth_ofOutcome (outcome : Option (Selector C)) :
    (ofOutcome outcome).depth = Selector.outcomeDepth outcome := by
  cases outcome with
  | none => simp [ofOutcome, depth, Selector.outcomeDepth]
  | some s => simp only [ofOutcome, Selector.outcomeDepth, depth_ofSelector]

end Cursor

/-- Scan entries up to the first hit. -/
def scan (source : Source) (ctx : C) : List (Entry C) → Traced (Cursor C)
  | [] => ⟨.miss, []⟩
  | .key k :: _ => ⟨.key k, []⟩
  | .function f :: _ => ⟨.function f, []⟩
  | .branch c outcome :: rest =>
    let verdict := c.test source ctx
    if verdict.value then
      ⟨.ofOutcome outcome, verdict.trace ++ [.notice (.matched c.field)]⟩
    else
      let hit := scan source ctx rest
      ⟨hit.value, verdict.trace ++ hit.trace⟩

theorem depth_scan_le (source : Source) (ctx : C) (entries : List (Entry C)) :
    (scan source ctx entries).value.depth ≤ Selector.entriesDepth entries := by
  induction entries with
  | nil => simp [scan, Cursor.depth]
  | cons entry rest ih =>
    cases entry with
    | key k => simp [scan, Cursor.depth]
    | function f => simp [scan, Cursor.depth]
    | branch c outcome =>
      simp only [scan, Selector.entriesDepth]
      split
      · rw [Cursor.depth_ofOutcome]; exact Nat.le_max_left _ _
      · exact Nat.le_trans ih (Nat.le_max_right _ _)

/-- A resolution under way: where it stands, and the events so far, the latest first. -/
structure Resolution (C : Type) where
  cursor : Cursor C
  past : List Event

namespace Resolution

def start (s : Selector C) : Resolution C := ⟨.ofSelector s, []⟩

/-- Scan the entries under the cursor and move to the hit. -/
def advance (source : Source) (ctx : C) (r : Resolution C) : Resolution C :=
  match r.cursor with
  | .scanning entries =>
    let hit := scan source ctx entries
    ⟨hit.value, hit.trace.reverse ++ r.past⟩
  | _ => r

theorem depth_advance_lt (source : Source) (ctx : C) {r : Resolution C}
    (h : r.cursor.isAtRest = false) : (r.advance source ctx).cursor.depth < r.cursor.depth := by
  cases hc : r.cursor with
  | scanning entries =>
    simp only [advance, hc, Cursor.depth]
    exact Nat.lt_succ_of_le (depth_scan_le source ctx entries)
  | key k => simp [hc, Cursor.isAtRest] at h
  | function f => simp [hc, Cursor.isAtRest] at h
  | miss => simp [hc, Cursor.isAtRest] at h

/-- Advance until no entries are left to scan. -/
def loop (source : Source) (ctx : C) (r : Resolution C) : Resolution C :=
  if h : r.cursor.isAtRest then r
  else
    have := depth_advance_lt source ctx ((Bool.not_eq_true _).mp h)
    loop source ctx (r.advance source ctx)
termination_by r.cursor.depth

/-- The key at the end of a resolution. -/
def finish (ctx : C) (r : Resolution C) : Traced (Option String) :=
  match r.cursor with
  | .key k => Traced.after r.past ⟨some k, []⟩
  | .function f => Traced.after r.past (f.call ctx)
  | .scanning _ => Traced.after r.past ⟨none, []⟩
  | .miss => Traced.after r.past ⟨none, []⟩

end Resolution

/-- The key that a selector gives for the current values, with everything observed on the way. -/
def Selector.resolve (s : Selector C) (source : Source) (ctx : C) : Traced (Option String) :=
  ((Resolution.start s).loop source ctx).finish ctx

namespace FieldOptions

/-- The content key of a field, if it declares one that is not empty. -/
def resolveKey (options : FieldOptions C) (name : String) (source : Source) (ctx : C) :
    Traced (Option String) :=
  match options.contentKey with
  | none => ⟨none, []⟩
  | some s =>
    let result := s.resolve source ctx
    match result.value with
    | some key =>
      if key.isEmpty then ⟨none, result.trace ++ [.notice (.contentKeyRemoved name)]⟩
      else ⟨some key, result.trace⟩
    | none => ⟨none, result.trace ++ [.notice (.contentKeyRemoved name)]⟩

end FieldOptions

namespace FieldSet

/-- The content keys in effect, by ascending name; a field whose selector gives no key has none. -/
def contentKeys (fields : FieldSet C) (source : Source) (ctx : C) :
    Traced (List (String × String)) :=
  let results := fields.entries.map fun e => (e.1, e.2.resolveKey e.1 source ctx)
  ⟨results.filterMap fun r => r.2.value.map fun key => (r.1, key),
    results.flatMap fun r => r.2.trace⟩

end FieldSet

end FormRouting
