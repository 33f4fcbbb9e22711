import FormRouting.Decode.Record
import FormRouting.FieldValues

/-!
# Decoding field values
-/

namespace FormRouting.Decode

/-- Values under their names, added to `values` one after the other. -/
def fieldValuesEntries (values : FieldValues) : List (Tree × Tree) → Decoded FieldValues
  | [] => .ok values
  | (name, value) :: rest => do
    let name ← string name
    let value ← json value
    fieldValuesEntries (values.insert name value) rest

/-- Field values are written as a record. -/
def fieldValues (t : Tree) : Decoded FieldValues :=
  match t with
  | .record entries => fieldValuesEntries .empty entries
  | other => .error (.mismatch .map other)

end FormRouting.Decode
