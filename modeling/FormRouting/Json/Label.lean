import FormRouting.Json.Printer

/-!
# Values in labels

How the value of a condition is shown on an edge: strings without quotes, arrays
as their elements between commas, everything else as JSON text.
-/

namespace FormRouting.Json

mutual

/-- The text of a value in a label. -/
def label : Json → String
  | .null => "null"
  | .string s => s
  | .array items => ",".intercalate (itemLabels items)
  | .bool b => (Json.bool b).compact
  | .number n => (Json.number n).compact
  | .object members => (Json.object members).compact

/-- The texts of an array's elements; `null` leaves its place empty. -/
def itemLabels : List Json → List String
  | [] => []
  | .null :: rest => "" :: itemLabels rest
  | v :: rest => label v :: itemLabels rest

end

/-- The text of a value that may be missing. -/
def optionalLabel : Option Json → String
  | none => "undefined"
  | some v => v.label

end FormRouting.Json
