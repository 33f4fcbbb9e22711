import FormRouting.Yaml.Cursor

/-!
# Gaps in scalars

Between the words of a plain or quoted scalar there are blanks and line breaks. A
single break is folded into a blank; of several breaks the first is dropped.
-/

namespace FormRouting.Yaml

/-- The blanks and breaks between two words. -/
structure Gap where
  blanks : List Char := []
  /-- The gap reaches into another line; blanks do not count any more. -/
  broken : Bool := false
  first : List Char := []
  others : List Char := []
deriving Inhabited

namespace Gap

/-- What a gap stands for. -/
def text (g : Gap) : List Char :=
  if !g.broken then g.blanks
  else if g.first.head? = some '\n' then (if g.others.isEmpty then [' '] else g.others)
  else g.first ++ g.others

/-- Read on to the next word. Below the column `indent` a tab must not stand in for blanks.
`fuel` bounds the characters. -/
def read (indent : Nat) : Nat → Gap → Cursor → Option (Gap × Cursor)
  | 0, g, c => some (g, c)
  | fuel + 1, g, c =>
    match c.head? with
    | none => some (g, c)
    | some ch =>
      if isBlank ch then
        if g.broken && c.column < indent && ch == '\t' then none
        else
          let g := if g.broken then g else { g with blanks := g.blanks ++ [ch] }
          read indent fuel g (c.skip 1)
      else if isBreak ch then
        let g :=
          if g.broken then { g with others := g.others ++ c.breakText }
          else { blanks := [], broken := true, first := c.breakText, others := [] }
        read indent fuel g c.skipBreak
      else some (g, c)

end Gap

end FormRouting.Yaml
