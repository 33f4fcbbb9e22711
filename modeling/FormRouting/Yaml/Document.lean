import FormRouting.Yaml.Anchor
import FormRouting.Yaml.Lexer

/-!
# YAML documents

A text holds one document or several. A document without directives need not be
marked at its start. Only the first one is read; of what comes after it, all that
matters is whether there is anything.
-/

namespace FormRouting.Yaml

/-- The first document of a text. -/
structure Document where
  /-- The node that is the document; a text of comments and blanks has none. -/
  root : Option (Node Nat)
  /-- The text cannot be read any more right after the root. -/
  isBroken : Bool := false
  /-- Something follows the document. -/
  isContinued : Bool := false
deriving Inhabited

namespace Document

/-- The handles that the directives declare. There is at most one version, which is 1.1 or 1.2,
and no handle is declared twice. -/
def directives? (versioned : Bool) (declared : Handles) : List Token → Node.Reading Handles
  | [] => none
  | .version major minor :: rest =>
    if versioned || major != 1 || (minor != 1 && minor != 2) then none
    else directives? true declared rest
  | .tagHandle handle lead :: rest =>
    if (declared.lookup handle).isSome then none
    else directives? versioned ((handle, lead) :: declared) rest
  | rest => some (declared ++ Handles.standard, rest)

/-- The marks between documents. -/
def isOuter : Token → Bool
  | .version .. | .tagHandle .. | .documentStart | .documentEnd | .streamEnd => true
  | _ => false

/-- The node of a document, with what is left after it. A marked document can be empty. -/
def root? (tokens : List Token) : Node.Reading (Node String) :=
  -- every token costs at most three descents
  let fuel := 3 * tokens.length + 4
  match directives? false [] tokens with
  | none => none
  | some (handles, .documentStart :: t :: rest) =>
    if isOuter t then some (.empty, t :: rest) else Node.read handles fuel .block (t :: rest)
  | some (handles, rest) =>
    if rest.length = tokens.length then Node.read handles fuel .block rest else none

def ofTokens? : List Token → Option Document
  | .streamEnd :: _ => some { root := none }
  | tokens =>
    match root? tokens with
    | none => none
    | some (root, rest) =>
      (root.number? []).map fun r =>
        { root := some r.1
          isBroken := rest.isEmpty
          isContinued := (rest.dropWhile (· == .documentEnd)).head? != some .streamEnd }

/-- The first document of a text; `none` if the text breaks off before its end. -/
def ofText? (text : String) : Option Document := ofTokens? (tokens text)

end Document

end FormRouting.Yaml
