import FormRouting.Tree
import FormRouting.Decimal.Text
import FormRouting.Text.Shown

/-!
# Decoding errors

Why a tree is not what it should be. The words depend a little on the format of
the document: how a missing value is called and how a floating-point number is
written.
-/

namespace FormRouting

/-- What a decoder wanted to find. -/
inductive Expected where
  | string
  | map
  | operator
  | condition
  | step
  | fieldOptions
  | keyFunction
  | stepMap
  | fieldName
deriving DecidableEq, Inhabited

/-- What a decoder found instead. -/
inductive Found where
  | null
  | bool (value : Bool)
  | number (value : Number)
  | nonFinite (value : NonFinite)
  | string (value : String)
  | list
  | record
deriving DecidableEq, Inhabited

/-- A thing that can be written in several forms. -/
inductive Choice where
  | rule
  | selector
deriving DecidableEq, Inhabited

inductive DecodeError where
  | wrongKind (found : Found) (expected : Expected)
  /-- A list that stands for a record has too many elements. -/
  | tooLong (length : Nat)
  /-- An empty list stands for a key function. -/
  | noKeyFunctionName
  | missingField (name : String)
  | unknownField (name expected : String)
  | duplicateField (name : String)
  | emptyPredicateName
  /-- None of the forms fits. -/
  | noForm (choice : Choice)
  /-- A tag stands where one of several forms should. -/
  | tagged
  /-- The text itself cannot be read. -/
  | unreadable (reason : Fault)
deriving DecidableEq, Inhabited

/-- Where the words of an error come from. -/
inductive Wording where
  | json
  | yaml
deriving DecidableEq, Inhabited

namespace Expected

def text : Expected → String
  | .string => "a string"
  | .map => "a map"
  | .operator => "a comparator symbol or a predicate name"
  | .condition => "struct Condition"
  | .step => "struct Step"
  | .fieldOptions => "struct FieldOptions"
  | .keyFunction => "struct KeyFnRef"
  | .stepMap => "a map of step definitions"
  | .fieldName => "field identifier"

end Expected

namespace Found

/-- A floating-point value with a decimal mark even where it has no decimal. -/
private def nonFiniteText : NonFinite → String
  | .notANumber => "NaN.0"
  | .infinity false => "inf.0"
  | .infinity true => "-inf.0"

def text (w : Wording) : Found → String
  | .null => if w = .json then "null" else "unit value"
  | .bool b => "boolean `" ++ toString b ++ "`"
  | .number (.int n) => "integer `" ++ toString n ++ "`"
  | .number (.float x) =>
    "floating point `" ++ (if w = .json then x.text else x.positionalText) ++ "`"
  | .nonFinite x => "floating point `" ++ nonFiniteText x ++ "`"
  | .string s => "string " ++ showString s
  | .list => "sequence"
  | .record => "map"

end Found

namespace DecodeError

private def choiceName : Choice → String
  | .rule => "NextRule"
  | .selector => "Selector"

def message (w : Wording) : DecodeError → String
  | .wrongKind found expected =>
    "invalid type: " ++ found.text w ++ ", expected " ++ expected.text
  | .tooLong n => "invalid length " ++ toString n ++ ", expected fewer elements in array"
  | .noKeyFunctionName => "invalid length 0, expected struct KeyFnRef with 1 element"
  | .missingField name => "missing field `" ++ name ++ "`"
  | .unknownField name expected =>
    "unknown field `" ++ name ++ "`, expected `" ++ expected ++ "`"
  | .duplicateField name => "duplicate field `" ++ name ++ "`"
  | .emptyPredicateName => "predicate name must not be empty"
  | .noForm choice => "data did not match any variant of untagged enum " ++ choiceName choice
  | .tagged => "untagged and internally tagged enums do not support enum input"
  | .unreadable _ => "unreadable text"

/-- A tree of the wrong kind. -/
def mismatch (expected : Expected) : Tree → DecodeError
  | .null => .wrongKind .null expected
  | .bool b => .wrongKind (.bool b) expected
  | .number n => .wrongKind (.number n) expected
  | .nonFinite x => .wrongKind (.nonFinite x) expected
  | .string s => .wrongKind (.string s) expected
  | .list _ => .wrongKind .list expected
  | .record _ => .wrongKind .record expected
  | .tagged _ _ => .tagged
  | .fault reason _ => .unreadable reason

end DecodeError

end FormRouting
