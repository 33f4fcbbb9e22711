/-!
# YAML tokens

The marks and texts that a document is made of. Blocks, which a text shows by
indentation, begin and end with tokens of their own.
-/

namespace FormRouting.Yaml

inductive Token where
  | streamEnd
  | version (major minor : Nat)
  /-- A shorthand for the beginning of tags. -/
  | tagHandle (handle lead : String)
  | documentStart
  | documentEnd
  | blockSequence
  | blockMapping
  | blockEnd
  | sequenceStart
  | sequenceEnd
  | mappingStart
  | mappingEnd
  | blockEntry
  | flowEntry
  | key
  | value
  | alias (name : String)
  | anchor (name : String)
  | tag (handle suffix : String)
  /-- A scalar is plain when it is neither quoted nor a block of its own. -/
  | scalar (plain : Bool) (text : String)
deriving DecidableEq, Inhabited

end FormRouting.Yaml
