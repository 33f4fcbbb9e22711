import FormRouting.Decode.Error

/-!
# Decoding parts

The parts that all decoders share: strings, optional values, JSON values, and
records, which are written as named entries or as a list of their fields in
order.
-/

namespace FormRouting

/-- The kind of document that a tree comes from. -/
inductive Format where
  /-- A JSON value. -/
  | json
  /-- A JSON text, whose tree can hold faults. -/
  | jsonText
  /-- A YAML document; nodes can be tagged, and a record is not written as a list. -/
  | yaml
  /-- A part of any document that can have one of several forms. -/
  | choice
deriving DecidableEq, Inhabited

/-- A decoder's result. -/
abbrev Decoded (α : Type) := Except DecodeError α

namespace Decode

variable {α : Type}

def string (t : Tree) : Decoded String :=
  match t.untag with
  | .string s => .ok s
  | other => .error (.mismatch .string other)

/-- `null` for a missing value. -/
def optional (decode : Tree → Decoded α) : Tree → Decoded (Option α)
  | .null => .ok none
  | t => (decode t).map some

/-- A tree without tags and faults. -/
def plain (t : Tree) : Decoded Unit :=
  match t.obstacle? with
  | some .tag => .error .tagged
  | some (.fault reason) => .error (.unreadable reason)
  | none => .ok ()

def json (t : Tree) : Decoded Json := do
  plain t
  match t.toJson? with
  | some v => return v
  | none => throw (.mismatch .string t)

/-- Pass over a part that nobody reads. -/
def skip (t : Tree) : Decoded Unit :=
  match t.passingFault? with
  | some reason => .error (.unreadable reason)
  | none => .ok ()

/-- The field that a name stands for: its place among the fields, each of which has one or more
names. In a part with several forms a number can stand for the place itself. -/
def field? (format : Format) (fields : List (List String)) (name : Tree) : Decoded (Option Nat) :=
  match name.untag with
  | .string s => .ok (fields.findIdx? fun names => names.contains s)
  | .number (.int n) =>
    if format = .choice ∧ 0 ≤ n then .ok (if n < fields.length then some n.toNat else none)
    else .error (.mismatch .fieldName (.number (.int n)))
  | other => .error (.mismatch .fieldName other)

/-- The next element of a list that stands for a record; a default after its end. -/
def next (default : α) (decode : Tree → Decoded α) : List Tree → Decoded (α × List Tree)
  | [] => .ok (default, [])
  | t :: rest => (decode t).map fun v => (v, rest)

/-- The end of a list of `length` elements that stands for a record. A text is read no further
than the last field, so the next element breaks it. -/
def listEnd (format : Format) (length : Nat) : List Tree → Decoded Unit
  | [] => .ok ()
  | rest =>
    match format, rest with
    | .jsonText, [.fault .unclosed _] => .error (.unreadable .unclosed)
    | .jsonText, _ => .error (.unreadable .malformed)
    | _, _ => .error (.tooLong length)

end Decode

end FormRouting
