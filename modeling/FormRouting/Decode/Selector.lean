import FormRouting.Decode.Condition
import FormRouting.FieldSet

/-!
# Decoding selectors and field sets

A selector is read as a key, else as a key function, else as a sequence of
entries; an entry as a key, else as a key function, else as a condition whose
outcome is a selector.

A key function is a record of one field. Like every record it can be written as a
list, so a list of one string is a key function and not a sequence.

* `Selector.ofTree?`: the selector that a tree stands for.
* `Decode.fieldSet`: the fields of a form.
-/

namespace FormRouting

variable {C : Type}

namespace Decode

def keyFunctionFields : List (List String) := [["call"]]

/-- A key function written with names; `read` is its name once that has been read. -/
def keyFunctionEntries (format : Format) (read : Option String) :
    List (Tree × Tree) → Decoded (KeyFunction C)
  | [] =>
    match read with
    | some name => .ok (.reference name)
    | none => .error (.missingField "call")
  | (name, value) :: rest => do
    match ← field? format keyFunctionFields name with
    | some _ =>
      if read.isSome then throw (.duplicateField "call")
      let function ← string value
      keyFunctionEntries format (some function) rest
    | none => throw (.unknownField (← string name) "call")

/-- A reference to a key function; no other field is allowed. -/
def keyFunction (format : Format) (t : Tree) : Decoded (KeyFunction C) :=
  match t with
  | .record entries => keyFunctionEntries format none entries
  | .list [] => .error .noKeyFunctionName
  | .list (name :: rest) => do
    let name ← string name
    listEnd format (rest.length + 1) rest
    return .reference name
  | other => .error (.mismatch .keyFunction other)

/-- The name stands for the outcome of a condition. -/
def namesOutcome (name : Tree) : Bool :=
  match field? .choice conditionFields name with
  | .ok (some 4) => true
  | _ => false

end Decode

/-- A key function in a place where other forms are possible. -/
def KeyFunction.ofTree? (t : Tree) : Option (KeyFunction C) :=
  (Decode.keyFunction .choice t).toOption

/-- A condition whose outcome is read on its own. -/
def Condition.ofTree? (t : Tree) : Option (Condition C) :=
  match Decode.condition .choice (fun _ => .ok ()) t with
  | .ok (condition, _) => some condition
  | .error _ => none

/-- `null` for a missing value. -/
def Tree.isNull : Tree → Bool
  | .null => true
  | _ => false

mutual

/-- The first form that fits, in the order key, function, sequence. -/
def Selector.ofTree? : Tree → Option (Selector C)
  | .string s => some (.key s)
  | .list items =>
    match KeyFunction.ofTree? (.list items) with
    | some f => some (.function f)
    | none => (Entry.listOfTrees? items).map .sequence
  | .record entries => (KeyFunction.ofTree? (.record entries)).map .function
  | _ => none

/-- The first form that fits, in the order key, function, condition. -/
def Entry.ofTree? : Tree → Option (Entry C)
  | .string s => some (.key s)
  | .list items =>
    match KeyFunction.ofTree? (.list items) with
    | some f => some (.function f)
    | none =>
      match Condition.ofTree? (.list items), Selector.outcomeOfItems? items with
      | some c, some outcome => some (.branch c outcome)
      | _, _ => none
  | .record entries =>
    match KeyFunction.ofTree? (.record entries) with
    | some f => some (.function f)
    | none =>
      match Condition.ofTree? (.record entries), Selector.outcomeOfEntries? entries with
      | some c, some outcome => some (.branch c outcome)
      | _, _ => none
  | _ => none

def Entry.listOfTrees? : List Tree → Option (List (Entry C))
  | [] => some []
  | t :: rest =>
    match Entry.ofTree? t, Entry.listOfTrees? rest with
    | some entry, some entries => some (entry :: entries)
    | _, _ => none

/-- The outcome of a condition that is written as a list: the fifth element. -/
def Selector.outcomeOfItems? : List Tree → Option (Option (Selector C))
  | [_, _, _, _, t] => if t.isNull then some none else (Selector.ofTree? t).map some
  | _ => some none

/-- The outcome of a condition that is written with names. -/
def Selector.outcomeOfEntries? : List (Tree × Tree) → Option (Option (Selector C))
  | [] => some none
  | (name, t) :: rest =>
    if Decode.namesOutcome name then
      if t.isNull then some none else (Selector.ofTree? t).map some
    else Selector.outcomeOfEntries? rest

end

namespace Decode

def selector (t : Tree) : Decoded (Selector C) := do
  plain t
  match Selector.ofTree? t with
  | some s => return s
  | none => throw (.noForm .selector)

def optionsFields : List (List String) := [["contentKey", "content_key"]]

/-- The options of a field written with names; `read` is the content key once that has been
read. -/
def optionsEntries (format : Format) (read : Option (Option (Selector C))) :
    List (Tree × Tree) → Decoded (FieldOptions C)
  | [] => .ok ⟨read.getD none⟩
  | (name, value) :: rest => do
    match ← field? format optionsFields name with
    | some _ =>
      if read.isSome then throw (.duplicateField "contentKey")
      let key ← optional selector value
      optionsEntries format (some key) rest
    | none =>
      skip value
      optionsEntries format read rest

/-- The options of a field. In a YAML document they are never written as a list. -/
def fieldOptions (format : Format) (t : Tree) : Decoded (FieldOptions C) :=
  match t with
  | .record entries => optionsEntries format none entries
  | .list items =>
    if format = .yaml then .error (.mismatch .fieldOptions (.list items))
    else do
      let (key, rest) ← next none (optional selector) items
      listEnd format items.length rest
      return ⟨key⟩
  | other => .error (.mismatch .fieldOptions other)

/-- Fields under their names, added to `fields` one after the other. -/
def fieldSetEntries (format : Format) (fields : FieldSet C) :
    List (Tree × Tree) → Decoded (FieldSet C)
  | [] => .ok fields
  | (name, value) :: rest => do
    let name ← string name
    let options ← fieldOptions format value
    fieldSetEntries format (fields.insert name options) rest

def fieldSet (format : Format) (t : Tree) : Decoded (FieldSet C) :=
  match t with
  | .record entries => fieldSetEntries format FieldSet.empty entries
  | other => .error (.mismatch .map other)

end Decode

end FormRouting
