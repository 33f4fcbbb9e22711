import FormRouting.Json.Text
import FormRouting.Decode.Record

/-!
# Decoding JSON text

Whatever is wrong first in reading order decides, be it the text or its meaning.
That the text goes on after the value only counts when the value is right.
-/

namespace FormRouting

/-- Run a decoder on a text. -/
def JsonText.decode {α : Type} (text : JsonText) (decoder : Tree → Decoded α) : Decoded α := do
  let value ← decoder text.root
  match text.trailing with
  | some reason => throw (.unreadable reason)
  | none => return value

end FormRouting
