import FormRouting.Yaml.Text.Gap
import FormRouting.Text.Digit

/-!
# Quoted scalars

Between single quotes only the quote itself has to be doubled. Between double
quotes a backslash begins an escape; before a line break it joins the lines.
-/

namespace FormRouting.Yaml.Quoted

/-- The number written with exactly `n` hexadecimal digits. -/
def hexNumber? (n : Nat) (cs : List Char) : Option Nat :=
  if cs.length < n then none else Digit.number? 16 (cs.take n)

/-- The character for an escape of one letter. -/
def escaped? : Char → Option Char
  | '0' => some '\x00'
  | 'a' => some '\x07'
  | 'b' => some '\x08'
  | 't' => some '\t'
  | '\t' => some '\t'
  | 'n' => some '\n'
  | 'v' => some '\x0b'
  | 'f' => some '\x0c'
  | 'r' => some '\r'
  | 'e' => some '\x1b'
  | ' ' => some ' '
  | '"' => some '"'
  | '/' => some '/'
  | '\\' => some '\\'
  | 'N' => some '\x85'
  | '_' => some '\xa0'
  | 'L' => some '\u2028'
  | 'P' => some '\u2029'
  | _ => none

/-- The number of hexadecimal digits after a letter. -/
def hexLength? : Char → Option Nat
  | 'x' => some 2
  | 'u' => some 4
  | 'U' => some 8
  | _ => none

/-- The character for an escape after its backslash, and the length of the escape. -/
def escape? (cs : List Char) : Option (Char × Nat) :=
  match cs with
  | [] => none
  | letter :: rest =>
    match hexLength? letter with
    | some n =>
      match hexNumber? n rest with
      | some v => if h : v.isValidChar then some (Char.ofNatAux v h, n + 1) else none
      | none => none
    | none => (escaped? letter).map fun c => (c, 1)

/-- A word of a quoted scalar as read. -/
structure Word where
  reversed : List Char
  /-- The word ends with an escaped line break. -/
  joined : Bool
  after : Cursor

/-- The characters up to a blank, a break, the closing quote or an escaped break. `fuel` bounds
the characters. -/
def word (quote : Char) : Nat → List Char → Cursor → Option Word
  | 0, reversed, c => some ⟨reversed, false, c⟩
  | fuel + 1, reversed, c =>
    match c.rest with
    | [] => some ⟨reversed, false, c⟩
    | ch :: rest =>
      if isBlank ch || isBreak ch then some ⟨reversed, false, c⟩
      else if ch == quote then
        if quote == '\'' && rest.head? == some '\'' then
          word quote fuel ('\'' :: reversed) (c.skip 2)
        else some ⟨reversed, false, c⟩
      else if quote == '"' && ch == '\\' then
        if rest.head?.any isBreak then some ⟨reversed, true, (c.skip 1).skipBreak⟩
        else
          match escape? rest with
          | some (e, n) => word quote fuel (e :: reversed) (c.skip (n + 1))
          | none => none
      else word quote fuel (ch :: reversed) (c.skip 1)

/-- The rest of a quoted scalar, after `text`. `fuel` bounds the words. -/
def read (quote : Char) : Nat → List Char → Cursor → Option (List Char × Cursor)
  | 0, _, _ => none
  | fuel + 1, text, c =>
    if c.atDocumentMark || c.rest.isEmpty then none
    else
      match word quote c.rest.length [] c with
      | none => none
      | some w =>
        let text := text ++ w.reversed.reverse
        if w.after.headIs (· == quote) then some (text, w.after.skip 1)
        else
          match Gap.read 0 w.after.rest.length { broken := w.joined } w.after with
          | none => none
          | some (g, c) => read quote fuel (text ++ g.text) c

end FormRouting.Yaml.Quoted
