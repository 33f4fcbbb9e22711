/-!
# Positions in a YAML text

What is left of a text, and how far its start is from the beginning of the text
and of its line. Besides the usual line breaks a text can have the next-line
character and the two Unicode separators.
-/

namespace FormRouting.Yaml

def isBlank (c : Char) : Bool := c == ' ' || c == '\t'

def isBreak (c : Char) : Bool :=
  c == '\n' || c == '\r' || c == '\x85' || c == '\u2028' || c == '\u2029'

/-- Letters, digits, `_` and `-`, of which names are made. -/
def isWordChar (c : Char) : Bool := c.isAlphanum || c == '_' || c == '-'

/-- Characters that a text may hold. -/
def isAllowed (c : Char) : Bool :=
  c == '\t' || c == '\n' || c == '\r' || (' ' ≤ c && c ≤ '~') || c == '\x85' ||
    ('\xa0' ≤ c && c.toNat ≤ 0xFFFD) || 0x10000 ≤ c.toNat

def byteOrderMark : Char := '\ufeff'

/-- A place in a text. -/
structure Cursor where
  rest : List Char
  index : Nat := 0
  line : Nat := 0
  column : Nat := 0
deriving Inhabited

namespace Cursor

def ofText (text : String) : Cursor := { rest := text.toList }

/-- The character at the place. -/
def head? (c : Cursor) : Option Char := c.rest.head?

/-- The character at the place, if any, has the property. -/
def headIs (c : Cursor) (p : Char → Bool) : Bool := c.rest.head?.any p

/-- The `k`-th character from the place is a blank, a break or the end. -/
def isSpaceAt (c : Cursor) (k : Nat) : Bool :=
  match c.rest[k]? with
  | some ch => isBlank ch || isBreak ch
  | none => true

/-- Past `n` characters of the line. -/
def skip (c : Cursor) (n : Nat) : Cursor :=
  { c with rest := c.rest.drop n, index := c.index + n, column := c.column + n }

/-- Past the characters of the line that have the property. -/
def skipWhile (c : Cursor) (p : Char → Bool) : Cursor := c.skip (c.rest.takeWhile p).length

/-- Past a line break. -/
def skipBreak (c : Cursor) : Cursor :=
  match c.rest with
  | '\r' :: '\n' :: rest => { rest, index := c.index + 2, line := c.line + 1, column := 0 }
  | _ :: rest => { rest, index := c.index + 1, line := c.line + 1, column := 0 }
  | [] => c

/-- The text of a line break: a line feed, except that the Unicode separators stand for
themselves. -/
def breakText (c : Cursor) : List Char :=
  match c.rest with
  | ch :: _ =>
    if ch == '\u2028' || ch == '\u2029' then [ch] else if isBreak ch then ['\n'] else []
  | [] => []

/-- The text of a line break, if there is one, and the place after it. -/
def readBreak (c : Cursor) : List Char × Cursor :=
  if c.headIs isBreak then (c.breakText, c.skipBreak) else ([], c)

/-- Three equal characters at the start of a line with nothing else after them. -/
def isMark (c : Cursor) (ch : Char) : Bool :=
  c.column == 0 && [ch, ch, ch].isPrefixOf c.rest && c.isSpaceAt 3

/-- The start or the end of a document is marked here. -/
def atDocumentMark (c : Cursor) : Bool := c.isMark '-' || c.isMark '.'

end Cursor

end FormRouting.Yaml
