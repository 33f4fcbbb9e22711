import FormRouting.Yaml.Cursor
import FormRouting.Yaml.Token
import FormRouting.Text.Digit

/-!
# Tags, anchors and directives

The marks that name something: an anchor or an alias, the tag of a node, and the
directives in front of a document.
-/

namespace FormRouting.Yaml.Marks

/-- A token and the place after it. -/
abbrev Reading := Option (Token × Cursor)

private def followsName (c : Char) : Bool := ['?', ':', ',', ']', '}', '%', '@', '\x60'].contains c

/-- The name of an anchor or alias after its mark. -/
def name (make : String → Token) (c : Cursor) : Reading :=
  let c := c.skip 1
  let word := c.rest.takeWhile isWordChar
  let after := c.skip word.length
  if !word.isEmpty && (after.isSpaceAt 0 || after.headIs followsName) then
    some (make (String.ofList word), after)
  else none

/-- One escaped byte of an address. -/
def octet? : List Char → Option (Nat × List Char)
  | '%' :: a :: b :: rest =>
    (Digit.number? 16 [a, b]).map fun o => (o, rest)
  | _ => none

/-- The bytes that continue a character. -/
def octets (value : Nat) : Nat → List Char → Option (Nat × List Char)
  | 0, cs => some (value, cs)
  | n + 1, cs =>
    match octet? cs with
    | some (o, rest) => if o / 64 = 2 then octets (value * 64 + o % 64) n rest else none
    | none => none

/-- A character of an address that is escaped byte by byte, and the length of the escape. -/
def addressEscape? (cs : List Char) : Option (Char × Nat) :=
  match octet? cs with
  | none => none
  | some (o, rest) =>
    let lead : Option (Nat × Nat) :=
      if o < 0x80 then some (o, 0)
      else if o / 32 = 6 then some (o % 32, 1)
      else if o / 16 = 14 then some (o % 16, 2)
      else if o / 8 = 30 then some (o % 8, 3)
      else none
    match lead with
    | none => none
    | some (value, more) =>
      match octets value more rest with
      | some (v, _) => some (Char.ofNat v, 3 * (more + 1))
      | none => none

/-- Characters of an address that are not escaped. Between angle brackets there are more. -/
def isAddressChar (bracketed : Bool) (c : Char) : Bool :=
  isWordChar c ||
    [';', '/', '?', ':', '@', '&', '=', '+', '$', '.', '!', '~', '*', '\'', '(', ')'].contains c ||
    (bracketed && [',', '[', ']'].contains c)

/-- The characters of an address. `fuel` bounds them. -/
def address (bracketed : Bool) : Nat → List Char → Cursor → Option (List Char × Cursor)
  | 0, reversed, c => some (reversed.reverse, c)
  | fuel + 1, reversed, c =>
    match c.rest with
    | [] => some (reversed.reverse, c)
    | ch :: _ =>
      if ch == '%' then
        match addressEscape? c.rest with
        | some (e, n) => address bracketed fuel (e :: reversed) (c.skip n)
        | none => none
      else if isAddressChar bracketed ch then address bracketed fuel (ch :: reversed) (c.skip 1)
      else some (reversed.reverse, c)

/-- An exclamation mark, a word, and perhaps another exclamation mark. -/
def handle (c : Cursor) : List Char × Cursor :=
  let word := (c.rest.drop 1).takeWhile isWordChar
  let after := c.skip (1 + word.length)
  if after.headIs (· == '!') then ('!' :: word ++ ['!'], after.skip 1) else ('!' :: word, after)

/-- The handle and the suffix of a tag. -/
def tagParts (c : Cursor) : Option ((String × String) × Cursor) :=
  if (c.rest.drop 1).head? == some '<' then
    match address true c.rest.length [] (c.skip 2) with
    | some (suffix, c) =>
      if !suffix.isEmpty && c.headIs (· == '>') then some (("", String.ofList suffix), c.skip 1)
      else none
    | none => none
  else
    let (start, after) := handle c
    match address false c.rest.length [] after with
    | none => none
    | some (suffix, after) =>
      if start.length > 1 ∧ start.getLast? = some '!' then
        if suffix.isEmpty then none
        else some ((String.ofList start, String.ofList suffix), after)
      else
        -- what looked like a handle is the beginning of the suffix
        let suffix := start.drop 1 ++ suffix
        if suffix.isEmpty then some (("", "!"), after)
        else some (("!", String.ofList suffix), after)

/-- The tag of a node. -/
def tag (flow : Bool) (c : Cursor) : Reading :=
  match tagParts c with
  | some ((handle, suffix), after) =>
    if after.isSpaceAt 0 || (flow && after.headIs (· == ',')) then
      some (.tag handle suffix, after)
    else none
  | none => none

/-- A number of at most nine digits. -/
def versionNumber (c : Cursor) : Option (Nat × Cursor) :=
  let digits := c.rest.takeWhile Char.isDigit
  if 9 < digits.length then none
  else (Digit.number? 10 digits).map fun n => (n, c.skip digits.length)

/-- The value of a version directive. -/
def version (c : Cursor) : Reading := do
  let (major, c) ← versionNumber (c.skipWhile isBlank)
  if !c.headIs (· == '.') then none
  else
    let (minor, c) ← versionNumber (c.skip 1)
    return (.version major minor, c)

/-- The value of a directive that declares a handle. -/
def handleDirective (c : Cursor) : Reading := do
  let c := c.skipWhile isBlank
  if !c.headIs (· == '!') then none
  else
    let (handle, c) := handle c
    if handle ≠ ['!'] ∧ ¬(handle.length > 1 ∧ handle.getLast? = some '!') then none
    else if !c.headIs isBlank then none
    else
      let c := c.skipWhile isBlank
      let (lead, c) ← address true c.rest.length [] c
      if lead.isEmpty || !c.isSpaceAt 0 then none
      else return (.tagHandle (String.ofList handle) (String.ofList lead), c)

/-- A directive up to the end of its line. -/
def directive (c : Cursor) : Reading := do
  let c := c.skip 1
  let word := c.rest.takeWhile isWordChar
  let c := c.skip word.length
  if !c.isSpaceAt 0 then none
  else
    let (token, c) ←
      if word = ['Y', 'A', 'M', 'L'] then version c
      else if word = ['T', 'A', 'G'] then handleDirective c
      else none
    let c := c.skipWhile isBlank
    let c := if c.headIs (· == '#') then c.skipWhile fun ch => !isBreak ch else c
    if !c.isSpaceAt 0 then none else return (token, c.readBreak.2)

end FormRouting.Yaml.Marks
