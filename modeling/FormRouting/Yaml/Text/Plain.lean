import FormRouting.Yaml.Text.Gap

/-!
# Plain scalars

A plain scalar runs to a mark that cannot belong to it: a colon before a blank, a
comment, a line that is indented less, and inside brackets a comma or a bracket.
-/

namespace FormRouting.Yaml.Plain

private def isFlowMark (c : Char) : Bool :=
  c == ',' || c == '[' || c == ']' || c == '{' || c == '}'

/-- The longest word of a plain scalar. Inside brackets a colon must not stand right before a
mark. -/
def word (flow : Bool) : List Char → Option (List Char)
  | [] => some []
  | c :: rest =>
    let next := rest.head?
    if isBlank c || isBreak c then some []
    else if flow && c == ':' && next.any (fun n => isFlowMark n || n == '?') then none
    else if c == ':' && next.all (fun n => isBlank n || isBreak n) then some []
    else if flow && isFlowMark c then some []
    else (word flow rest).map (c :: ·)

/-- A plain scalar as read. -/
structure Reading where
  text : List Char
  /-- The scalar was followed by a line break. -/
  broken : Bool
  after : Cursor

/-- The words of a plain scalar, after `text` and a gap. Its lines begin at the column `indent`
or further right, unless it stands inside brackets. `fuel` bounds the words. -/
def read (flow : Bool) (indent : Nat) : Nat → List Char → Gap → Cursor → Option Reading
  | 0, text, g, c => some ⟨text, g.broken, c⟩
  | fuel + 1, text, g, c =>
    if c.atDocumentMark || c.headIs (· == '#') then some ⟨text, g.broken, c⟩
    else
      match word flow c.rest with
      | none => none
      | some [] => some ⟨text, g.broken, c⟩
      | some w =>
        let text := text ++ g.text ++ w
        let c := c.skip w.length
        if c.headIs fun ch => isBlank ch || isBreak ch then
          match Gap.read indent c.rest.length {} c with
          | none => none
          | some (g, c) =>
            if !flow && c.column < indent then some ⟨text, g.broken, c⟩
            else read flow indent fuel text g c
        else some ⟨text, false, c⟩

end FormRouting.Yaml.Plain
