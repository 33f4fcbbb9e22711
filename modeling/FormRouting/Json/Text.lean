import FormRouting.Tree
import FormRouting.Json.Number
import FormRouting.Text.Digit

/-!
# Reading JSON text

A text is read as far as it makes sense. The result is a tree in which the place
where reading had to stop is a fault, so that whoever interprets the tree in
reading order meets the faults of the text exactly where a reader would.

Some faults only concern those who want the value: a number out of range, half of
a surrogate pair, a container inside more than 127 others. Who passes over them
goes on, perhaps to another fault.
-/

namespace FormRouting

/-- A JSON text as read: its value, and whether something follows it. -/
structure JsonText where
  root : Tree
  trailing : Option Fault
deriving Inhabited

namespace JsonText

/-- The greatest depth of containers. -/
def maxDepth : Nat := 127

def isBlank (c : Char) : Bool := c == ' ' || c == '\n' || c == '\t' || c == '\r'

def skipBlanks (cs : List Char) : List Char := cs.dropWhile isBlank

/-- What was read, and the text after it unless reading had to stop. -/
abbrev Reading (α : Type) := α × Option (List Char)

/-- A node after which nothing can be read. -/
def stop (reason : Fault) : Reading Tree := (.fault reason (some reason), none)

/-- Four hexadecimal digits. A text with fewer than four bytes left ends too early. -/
def readHex (cs : List Char) : Except Fault (Nat × List Char) :=
  match cs with
  | a :: b :: c :: d :: rest =>
    match Digit.number? 16 [a, b, c, d] with
    | some n => .ok (n, rest)
    | none => .error .malformed
  | _ => if (String.ofList cs).utf8ByteSize < 4 then .error .endOfText else .error .malformed

/-- The character for an escape after its backslash; `none` for half of a surrogate pair. -/
def readEscape (cs : List Char) : Except Fault (Option Char × List Char) :=
  match cs with
  | [] => .error .endOfText
  | '"' :: rest => .ok (some '"', rest)
  | '\\' :: rest => .ok (some '\\', rest)
  | '/' :: rest => .ok (some '/', rest)
  | 'b' :: rest => .ok (some '\x08', rest)
  | 'f' :: rest => .ok (some '\x0c', rest)
  | 'n' :: rest => .ok (some '\n', rest)
  | 'r' :: rest => .ok (some '\r', rest)
  | 't' :: rest => .ok (some '\t', rest)
  | 'u' :: rest => do
    let (high, rest) ← readHex rest
    if high < 0xD800 ∨ 0xE000 ≤ high then return (some (Char.ofNat high), rest)
    if 0xDC00 ≤ high then return (none, rest)
    match rest with
    | [] => throw .endOfText
    | ['\\'] => throw .endOfText
    | '\\' :: 'u' :: rest' =>
      let (low, rest') ← readHex rest'
      if 0xDC00 ≤ low ∧ low < 0xE000 then
        return (some (Char.ofNat (0x10000 + (high - 0xD800) * 0x400 + (low - 0xDC00))), rest')
      return (none, rest')
    | _ => return (none, rest)
  | _ => .error .malformed

/-- Half of a surrogate pair comes before every later fault. -/
def unlessHalf (paired : Bool) (reason : Fault) : Fault := if paired then reason else .malformed

/-- The rest of a string after its opening quote, as a tree. So far all surrogates are `paired`.
`fuel` bounds the characters. -/
def readString : Nat → List Char → Bool → List Char → Reading Tree
  | 0, _, _, _ => stop .endOfText
  | fuel + 1, reversed, paired, cs =>
    match cs with
    | [] => (.fault (unlessHalf paired .endOfText) (some .endOfText), none)
    | '"' :: rest =>
      if paired then (.string (String.ofList reversed.reverse), some rest)
      else (.fault .malformed none, some rest)
    | '\\' :: rest =>
      match readEscape rest with
      | .error reason => (.fault (unlessHalf paired reason) (some reason), none)
      | .ok (some c, rest) => readString fuel (c :: reversed) paired rest
      | .ok (none, rest) => readString fuel reversed false rest
    | c :: rest =>
      if c.toNat < 32 then stop .malformed else readString fuel (c :: reversed) paired rest

/-- The fault of a number that lacks a digit: the text may go on with one, but who passes over a
number does not wait for it. -/
private def missingDigit (cs : List Char) : Fault := if cs.isEmpty then .endOfText else .malformed

/-- The exponent after its mark. -/
def readExponent (cs : List Char) : Except Fault ((Bool × List Char) × List Char) :=
  let (below, cs) :=
    match cs with
    | '+' :: rest => (false, rest)
    | '-' :: rest => (true, rest)
    | _ => (false, cs)
  let digits := cs.takeWhile Char.isDigit
  if digits.isEmpty then .error (missingDigit cs)
  else .ok ((below, digits), cs.dropWhile Char.isDigit)

/-- A number after its sign. -/
def readNumber (negative : Bool) (cs : List Char) : Reading Tree :=
  let whole := cs.takeWhile Char.isDigit
  let rest := cs.dropWhile Char.isDigit
  if whole.isEmpty then (.fault (missingDigit cs) (some .malformed), none)
  else if whole.head? = some '0' ∧ 1 < whole.length then stop .malformed
  else
    let parts : Except Fault (List Char × Option (Bool × List Char) × List Char) := do
      let (fraction, rest) ←
        match rest with
        | '.' :: after =>
          let digits := after.takeWhile Char.isDigit
          if digits.isEmpty then throw (missingDigit after)
          else pure (digits, after.dropWhile Char.isDigit)
        | _ => pure ([], rest)
      match rest with
      | c :: after =>
        if c = 'e' ∨ c = 'E' then
          let (exponent, rest) ← readExponent after
          return (fraction, some exponent, rest)
        return (fraction, none, rest)
      | [] => return (fraction, none, rest)
    match parts with
    | .error reason => (.fault reason (some .malformed), none)
    | .ok (fraction, exponent, rest) =>
      match Number.ofDigits negative whole fraction exponent with
      | some n => (.number n, some rest)
      | none => (.fault .malformed none, some rest)

/-- The rest of a word such as `true`. -/
def readWord (word : List Char) (value : Tree) (cs : List Char) : Reading Tree :=
  if word.isPrefixOf cs then (value, some (cs.drop word.length))
  else if cs.isPrefixOf word then stop .endOfText
  else stop .malformed

/-- A container at a depth that cannot be taken as a value. -/
def limitDepth (depth : Nat) (reading : Reading Tree) : Reading Tree :=
  if depth < maxDepth then reading else (.fault .malformed reading.1.passingFault?, reading.2)

/-- What stands where a comma or the end of a container should. -/
private def separatorFault (cs : List Char) : Tree :=
  let reason := if cs.isEmpty then .unclosed else .malformed
  .fault reason (some reason)

/-- A place where the text ends too early. -/
private def missing : Tree := .fault .endOfText (some .endOfText)

mutual

/-- A value inside `depth` containers. `fuel` bounds the calls, of which a character costs at most
two. -/
def readValue : Nat → Nat → List Char → Reading Tree
  | 0, _, _ => stop .endOfText
  | fuel + 1, depth, cs =>
    match skipBlanks cs with
    | [] => stop .endOfText
    | '"' :: rest => readString (rest.length + 1) [] true rest
    | '[' :: rest =>
      limitDepth depth <|
        match skipBlanks rest with
        | ']' :: rest => (.list [], some rest)
        | [] => (.list [missing], none)
        | rest => let (items, after) := readItems fuel (depth + 1) rest; (.list items, after)
    | '{' :: rest =>
      limitDepth depth <|
        match skipBlanks rest with
        | '}' :: rest => (.record [], some rest)
        | rest =>
          let (entries, after) := readEntries fuel (depth + 1) rest
          (.record entries, after)
    | 'n' :: rest => readWord ['u', 'l', 'l'] .null rest
    | 't' :: rest => readWord ['r', 'u', 'e'] (.bool true) rest
    | 'f' :: rest => readWord ['a', 'l', 's', 'e'] (.bool false) rest
    | '-' :: rest => readNumber true rest
    | c :: rest => if c.isDigit then readNumber false (c :: rest) else stop .malformed

/-- The elements of an array from the next one on. -/
def readItems : Nat → Nat → List Char → Reading (List Tree)
  | 0, _, _ => ([missing], none)
  | fuel + 1, depth, cs =>
    match readValue fuel depth cs with
    | (item, none) => ([item], none)
    | (item, some rest) =>
      match skipBlanks rest with
      | ']' :: rest => ([item], some rest)
      | ',' :: rest =>
        match skipBlanks rest with
        | [] => ([item, missing], none)
        | rest => let (items, after) := readItems fuel depth rest; (item :: items, after)
      | rest => ([item, separatorFault rest], none)

/-- The members of an object from the next one on. -/
def readEntries : Nat → Nat → List Char → Reading (List (Tree × Tree))
  | 0, _, _ => ([(missing, .null)], none)
  | fuel + 1, depth, cs =>
    match skipBlanks cs with
    | '"' :: rest =>
      match readString (rest.length + 1) [] true rest with
      | (name, none) => ([(name, .null)], none)
      | (name, some rest) =>
        match skipBlanks rest with
        | ':' :: rest =>
          match readValue fuel depth rest with
          | (value, none) => ([(name, value)], none)
          | (value, some rest) =>
            match skipBlanks rest with
            | '}' :: rest => ([(name, value)], some rest)
            | ',' :: rest =>
              let (entries, after) := readEntries fuel depth rest
              ((name, value) :: entries, after)
            | rest => ([(name, value), (separatorFault rest, .null)], none)
        | rest => ([(name, separatorFault rest)], none)
    | rest => ([(separatorFault rest, .null)], none)

end

/-- Read a text from its first character to its last. -/
def read (text : String) : JsonText :=
  let cs := text.toList
  match readValue (2 * cs.length + 1) 0 cs with
  | (root, none) => ⟨root, none⟩
  | (root, some rest) => ⟨root, if (skipBlanks rest).isEmpty then none else some .malformed⟩

/-- The value of a text that is well formed as a whole. -/
def toJson? (text : JsonText) : Option Json :=
  if text.trailing.isNone then text.root.toJson? else none

end JsonText

end FormRouting
