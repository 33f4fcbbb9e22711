import FormRouting.Yaml.Marks
import FormRouting.Yaml.Text.Plain
import FormRouting.Yaml.Text.Quoted
import FormRouting.Yaml.Text.Block

/-!
# Tokens of a YAML text

The text is read from its start, and the indentation of its lines is turned into
block tokens. A name before a colon only turns out to be one when the colon is
found; the place of its token is remembered until then, one for each depth of
brackets, and the tokens before it are put in later.

A text that breaks off has the tokens that are certain by then: none from the
first remembered place on.
-/

namespace FormRouting.Yaml

/-- A place where a name may have begun. -/
structure NameStart where
  /-- The name has to be one: it stands at the indentation of its block. -/
  required : Bool
  /-- How many tokens come before it. -/
  token : Nat
  index : Nat
  line : Nat
  column : Nat
deriving Inhabited

structure Lexer where
  cursor : Cursor
  tokens : Array Token := #[]
  /-- The column of the innermost block, `-1` outside of all blocks. -/
  indent : Int := -1
  /-- The columns of the blocks around it. -/
  outer : List Int := []
  /-- A name may begin here. -/
  nameAllowed : Bool := true
  /-- The possible beginning of a name for every depth of brackets, the innermost first. -/
  names : List (Option NameStart) := [none]
  ended : Bool := false
deriving Inhabited

namespace Lexer

/-- The place is inside brackets. -/
def inFlow (l : Lexer) : Bool := 1 < l.names.length

/-- The longest text before the colon of a name. -/
def maxNameLength : Nat := 1024

def push (l : Lexer) (t : Token) : Lexer := { l with tokens := l.tokens.push t }

/-- Past blanks, comments and line breaks. `fuel` bounds the lines. -/
def skipSpace : Nat → Lexer → Lexer
  | 0, l => l
  | fuel + 1, l =>
    let c := l.cursor
    let c := if c.index == 0 && c.headIs (· == byteOrderMark) then c.skip 1 else c
    let tabs := l.inFlow || !l.nameAllowed
    let c := c.skipWhile fun ch => ch == ' ' || (tabs && ch == '\t')
    let c := if c.headIs (· == '#') then c.skipWhile fun ch => !isBreak ch else c
    if c.headIs isBreak then
      skipSpace fuel { l with cursor := c.skipBreak, nameAllowed := l.nameAllowed || !l.inFlow }
    else { l with cursor := c }

/-- A name must stand on one line and not be too long. -/
def isStale (c : Cursor) (n : NameStart) : Bool :=
  n.line < c.line || n.index + maxNameLength < c.index

/-- Forget the places that cannot begin a name any more. -/
def dropStale (l : Lexer) : Option Lexer :=
  let stale (n : Option NameStart) : Bool := n.any (isStale l.cursor)
  if l.names.any fun n => stale n && n.any NameStart.required then none
  else some { l with names := l.names.map fun n => if stale n then none else n }

/-- Forget the place at the current depth. -/
def dropName (l : Lexer) : Option Lexer :=
  match l.names with
  | some n :: rest => if n.required then none else some { l with names := none :: rest }
  | _ => some l

/-- Remember the place, if a name may begin here. -/
def saveName (l : Lexer) : Option Lexer :=
  if l.nameAllowed then
    let c := l.cursor
    let required := !l.inFlow && l.indent == (c.column : Int)
    let start : NameStart := ⟨required, l.tokens.size, c.index, c.line, c.column⟩
    (dropName l).map fun l => { l with names := some start :: l.names.drop 1 }
  else some l

/-- End the blocks that begin right of a column. -/
def closeBlocks (column : Int) (tokens : Array Token) (indent : Int) :
    List Int → Array Token × Int × List Int
  | [] => (tokens, indent, [])
  | next :: rest =>
    if indent > column then closeBlocks column (tokens.push .blockEnd) next rest
    else (tokens, indent, next :: rest)

/-- End the blocks that a line at this column does not belong to. -/
def unindent (l : Lexer) (column : Int) : Lexer :=
  if l.inFlow then l
  else
    let (tokens, indent, outer) := closeBlocks column l.tokens l.indent l.outer
    { l with tokens, indent, outer }

/-- Begin a block at a column, unless one begins there already. Its token is put before the
token number `place`. -/
def openBlock (l : Lexer) (column : Nat) (place : Nat) (token : Token) : Lexer :=
  if l.inFlow || (column : Int) ≤ l.indent then l
  else
    { l with
      tokens := l.tokens.insertIdxIfInBounds place token
      indent := column
      outer := l.indent :: l.outer }

/-- Add a token of `n` characters. -/
def mark (l : Lexer) (n : Nat) (token : Token) : Lexer :=
  { l.push token with cursor := l.cursor.skip n }

/-- Add a token that was read at the place. -/
def take (l : Lexer) (reading : Marks.Reading) : Option Lexer :=
  reading.map fun (token, cursor) => { l.push token with cursor }

def streamEnd (l : Lexer) : Option Lexer := do
  let l := l.unindent (-1)
  let l ← dropName l
  return { l.push .streamEnd with nameAllowed := false, ended := true }

def directive (l : Lexer) : Option Lexer := do
  let l := l.unindent (-1)
  let l ← dropName l
  take { l with nameAllowed := false } (Marks.directive l.cursor)

def documentMark (l : Lexer) (token : Token) : Option Lexer := do
  let l := l.unindent (-1)
  let l ← dropName l
  return { l.mark 3 token with nameAllowed := false }

def flowStart (l : Lexer) (token : Token) : Option Lexer := do
  let l ← saveName l
  return { l.mark 1 token with nameAllowed := true, names := none :: l.names }

def flowEnd (l : Lexer) (token : Token) : Option Lexer := do
  let l ← dropName l
  return { l.mark 1 token with
    nameAllowed := false
    names := if l.inFlow then l.names.drop 1 else l.names }

def flowEntry (l : Lexer) : Option Lexer := do
  let l ← dropName l
  return { l.mark 1 .flowEntry with nameAllowed := true }

def blockEntry (l : Lexer) : Option Lexer := do
  if !l.inFlow && !l.nameAllowed then none
  else
    let l := l.openBlock l.cursor.column l.tokens.size .blockSequence
    let l ← dropName l
    return { l.mark 1 .blockEntry with nameAllowed := true }

def explicitKey (l : Lexer) : Option Lexer := do
  if !l.inFlow && !l.nameAllowed then none
  else
    let l := l.openBlock l.cursor.column l.tokens.size .blockMapping
    let l ← dropName l
    return { l.mark 1 .key with nameAllowed := !l.inFlow }

/-- A colon. If a name may have begun, it was one. -/
def value (l : Lexer) : Option Lexer :=
  match l.names with
  | some n :: rest =>
    let l := { l with tokens := l.tokens.insertIdxIfInBounds n.token .key }
    let l := l.openBlock n.column n.token .blockMapping
    some { l.mark 1 .value with nameAllowed := false, names := none :: rest }
  | _ =>
    if !l.inFlow && !l.nameAllowed then none
    else
      let l := l.openBlock l.cursor.column l.tokens.size .blockMapping
      some { l.mark 1 .value with nameAllowed := !l.inFlow }

/-- A token that can be, or begin, a name. -/
def named (l : Lexer) (read : Cursor → Marks.Reading) : Option Lexer := do
  let l ← saveName l
  take { l with nameAllowed := false } (read l.cursor)

def blockScalar (l : Lexer) (literal : Bool) : Option Lexer := do
  let l ← dropName l
  let (text, cursor) ← Block.read literal l.indent (l.cursor.skip 1)
  return { l.push (.scalar false (String.ofList text)) with cursor, nameAllowed := true }

def quotedScalar (l : Lexer) (quote : Char) : Option Lexer := do
  let l ← saveName l
  let (text, cursor) ← Quoted.read quote l.cursor.rest.length [] (l.cursor.skip 1)
  return { l.push (.scalar false (String.ofList text)) with cursor, nameAllowed := false }

/-- After a line break a name may begin. -/
def plainScalar (l : Lexer) : Option Lexer := do
  let l ← saveName l
  let c := l.cursor
  let r ← Plain.read l.inFlow (l.indent + 1).toNat (c.rest.length + 1) [] {} c
  return { l.push (.scalar true (String.ofList r.text)) with
    cursor := r.after
    nameAllowed := r.broken }

/-- Characters that cannot begin a plain scalar, or only before a character that is no blank. -/
private def isIndicator (c : Char) : Bool :=
  ['-', '?', ':', ',', '[', ']', '{', '}', '#', '&', '*', '!', '|', '>', '\'', '"', '%', '@',
    '\x60'].contains c

/-- A plain scalar can begin here. -/
def beginsPlain (l : Lexer) (ch : Char) : Bool :=
  (!isIndicator ch && !isBlank ch && !isBreak ch) ||
    (ch == '-' && !(l.cursor.rest[1]?).any isBlank) ||
    (!l.inFlow && (ch == '?' || ch == ':') && !l.cursor.isSpaceAt 1)

/-- The next token at the place. -/
def token (l : Lexer) : Option Lexer :=
  let c := l.cursor
  match c.head? with
  | none => streamEnd l
  | some ch =>
    if c.column == 0 && ch == '%' then directive l
    else if c.isMark '-' then documentMark l .documentStart
    else if c.isMark '.' then documentMark l .documentEnd
    else if ch == '[' then flowStart l .sequenceStart
    else if ch == '{' then flowStart l .mappingStart
    else if ch == ']' then flowEnd l .sequenceEnd
    else if ch == '}' then flowEnd l .mappingEnd
    else if ch == ',' then flowEntry l
    else if ch == '-' && c.isSpaceAt 1 then blockEntry l
    else if ch == '?' && (l.inFlow || c.isSpaceAt 1) then explicitKey l
    else if ch == ':' && (l.inFlow || c.isSpaceAt 1) then value l
    else if ch == '*' then named l (Marks.name .alias)
    else if ch == '&' then named l (Marks.name .anchor)
    else if ch == '!' then named l (Marks.tag l.inFlow)
    else if ch == '|' && !l.inFlow then blockScalar l true
    else if ch == '>' && !l.inFlow then blockScalar l false
    else if ch == '\'' || ch == '"' then quotedScalar l ch
    else if beginsPlain l ch then plainScalar l
    else none

/-- Read on to the next token and add it, with the ends of blocks before it. -/
def step (l : Lexer) : Option Lexer := do
  let l := skipSpace (l.cursor.rest.length + 1) l
  let l ← dropStale l
  token (l.unindent l.cursor.column)

/-- The tokens that are certain when the text breaks off. -/
def certain (l : Lexer) : List Token :=
  let first := l.names.foldl (fun k n => n.elim k fun n => min k n.token) l.tokens.size
  l.tokens.toList.take first

/-- All tokens from the place on. `fuel` bounds their number. -/
def run : Nat → Lexer → List Token
  | 0, l => certain l
  | fuel + 1, l =>
    if l.ended then l.tokens.toList
    else
      -- a name that is too far back is no name, whatever comes next
      match dropStale l with
      | none => certain l
      | some l =>
        match step l with
        | some next => run fuel next
        | none => certain l

end Lexer

/-- The tokens of a text. A text with a character that is not allowed has none; only a text that
can be read to its end has a token for the end. -/
def tokens (text : String) : List Token :=
  let c := Cursor.ofText text
  if c.rest.all isAllowed then Lexer.run (c.rest.length + 2) { cursor := c } else []

end FormRouting.Yaml
