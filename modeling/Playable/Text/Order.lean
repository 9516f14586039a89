import Playable.Text.Basic

/-!
# Order of texts

Texts are ordered like words in a dictionary, character by character by code
point; a text comes before its continuations.
-/

namespace Playable.Text

/-- Whether a text comes before another one or equals it. -/
def le : Text → Text → Bool
  | [], _ => true
  | _ :: _, [] => false
  | a :: s, b :: t => if a = b then le s t else a.toNat ≤ b.toNat

/-- Texts in order. -/
def sorted (ts : List Text) : List Text :=
  ts.mergeSort le

end Playable.Text
