import FormRouting.Yaml.Cursor
import FormRouting.Text.Digit

/-!
# Block scalars

A block scalar is written on lines of its own that are indented further than what
they belong to. A literal block keeps its line breaks; a folded one joins lines
that do not begin with a blank. Its header says what happens to the breaks at its
end.
-/

namespace FormRouting.Yaml.Block

/-- What happens to the line breaks at the end. -/
inductive Chomping where
  /-- The last line keeps its break. -/
  | clip
  | strip
  | keep
deriving DecidableEq, Inhabited

/-- The header of a block. -/
structure Header where
  chomping : Chomping := .clip
  /-- How far the lines are indented beyond the parent; `0` when the lines show it themselves. -/
  increment : Nat := 0

private def chomping? (c : Cursor) : Option Chomping :=
  match c.head? with
  | some '+' => some .keep
  | some '-' => some .strip
  | _ => none

private def increment? (c : Cursor) : Option Nat :=
  c.head?.bind (Digit.value? 10)

/-- The two marks of a header, in either order. The increment is not zero. -/
def header? (c : Cursor) : Option (Header × Cursor) :=
  match chomping? c with
  | some chomping =>
    let c := c.skip 1
    match increment? c with
    | some 0 => none
    | some increment => some ({ chomping, increment }, c.skip 1)
    | none => some ({ chomping }, c)
  | none =>
    match increment? c with
    | some 0 => none
    | some increment =>
      let c := c.skip 1
      match chomping? c with
      | some chomping => some ({ chomping, increment }, c.skip 1)
      | none => some ({ increment }, c)
    | none => some ({}, c)

/-- Blank lines and the indentation after them, as read. -/
structure Breaks where
  text : List Char
  /-- The furthest column reached. -/
  widest : Nat
  after : Cursor

/-- Read blank lines and the indentation of the line after them, up to the column `indent`, or
all of it if that is `0`. A tab must not stand in the indentation. `fuel` bounds the lines. -/
def breaks (indent : Nat) : Nat → List Char → Nat → Cursor → Option Breaks
  | 0, text, widest, c => some ⟨text, widest, c⟩
  | fuel + 1, text, widest, c =>
    let spaces := (c.rest.takeWhile (· == ' ')).length
    let c := c.skip (if indent = 0 then spaces else min spaces (indent - c.column))
    let widest := max widest c.column
    if (indent = 0 || c.column < indent) && c.headIs (· == '\t') then none
    else if c.headIs isBreak then breaks indent fuel (text ++ c.breakText) widest c.skipBreak
    else some ⟨text, widest, c⟩

/-- The lines of a block, as far as they have been read. -/
structure Lines where
  text : List Char := []
  /-- The break after the last line. -/
  last : List Char := []
  /-- The blank lines after it. -/
  blank : List Char := []
  /-- The last line begins with a blank. -/
  indented : Bool := false

/-- The text before the next line. A break between two lines that do not begin with a blank is
folded. -/
def Lines.join (literal : Bool) (l : Lines) (indented : Bool) : List Char :=
  if !literal && l.last.head? == some '\n' && !l.indented && !indented then
    l.text ++ (if l.blank.isEmpty then [' '] else []) ++ l.blank
  else l.text ++ l.last ++ l.blank

/-- Read the lines that begin at the column `indent`. `fuel` bounds the lines. -/
def lines (literal : Bool) (indent : Nat) : Nat → Lines → Cursor → Option (Lines × Cursor)
  | 0, l, c => some (l, c)
  | fuel + 1, l, c =>
    if c.column = indent ∧ c.rest ≠ [] then
      let indented := c.headIs isBlank
      let line := c.rest.takeWhile fun ch => !isBreak ch
      let (last, c') := (c.skip line.length).readBreak
      match breaks indent c'.rest.length [] 0 c' with
      | none => none
      | some b =>
        lines literal indent fuel
          { text := l.join literal indented ++ line, last, blank := b.text, indented } b.after
    else some (l, c)

/-- The text of all lines under a chomping. -/
def Lines.finish (chomping : Chomping) (l : Lines) : List Char :=
  match chomping with
  | .strip => l.text
  | .clip => l.text ++ l.last
  | .keep => l.text ++ l.last ++ l.blank

/-- A block scalar after its first mark. `parent` is the column that it belongs to, or `-1`. -/
def read (literal : Bool) (parent : Int) (c : Cursor) : Option (List Char × Cursor) := do
  let (header, c) ← header? c
  let c := c.skipWhile isBlank
  let c := if c.headIs (· == '#') then c.skipWhile fun ch => !isBreak ch else c
  if !c.isSpaceAt 0 then none
  else
    let (_, c) := c.readBreak
    let indent :=
      if header.increment = 0 then 0
      else if 0 ≤ parent then parent.toNat + header.increment
      else header.increment
    let b ← breaks indent (c.rest.length + 1) [] 0 c
    let indent := if indent = 0 then max b.widest (max (parent + 1).toNat 1) else indent
    let (l, c) ← lines literal indent (b.after.rest.length + 1) { blank := b.text } b.after
    return (l.finish header.chomping, c)

end FormRouting.Yaml.Block
