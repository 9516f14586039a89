import Playable.Register
import Playable.Number.Binary64
import Playable.Text.Raw

/-!
# Structured values

The values of a structured record: numbers keep whether they were written as
integers, and the fields of an object keep their order.
-/

namespace Playable.Json

/-- A structured value. -/
inductive Value where
  /-- The absent value. -/
  | null
  /-- A truth value. -/
  | bool (b : Bool)
  /-- A number written as an integer. -/
  | int (i : Int)
  /-- A number written with a fraction or an exponent. -/
  | float (x : Binary64)
  /-- A text. -/
  | text (t : Text)
  /-- A text with half of a surrogate pair in it. -/
  | broken (t : BrokenText)
  /-- A list of values. -/
  | list (values : List Value)
  /-- Values under names, in order. -/
  | object (fields : List (Text × Value))

/-- The fields of an object. -/
abbrev Fields := Register Value

/-- A raw text as a value. -/
def Value.ofRaw (t : RawText) : Value :=
  match h : t.characters with
  | .ok s => .text s
  | .error _ => .broken ⟨t, by rw [h]; rfl⟩

/-- The raw text that a value is, if it is one. -/
def Value.raw? : Value → Option RawText
  | .text t => some t.raw
  | .broken t => some t.codePoints
  | _ => none

end Playable.Json
