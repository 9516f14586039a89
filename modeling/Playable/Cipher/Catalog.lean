import Playable.Text.Quoted
import Playable.Text.Raw
import Playable.Register

/-!
# The catalog of operations

A scrambled signature is a permutation, and perhaps a shortening, of characters.
The catalog names the primitive operations that undo the scrambling; each takes
an integer argument and a raw text.
-/

namespace Playable.Cipher

/-- An operation on the code points of a signature, with its argument. -/
abbrev Operation := Int → RawText → RawText

/-- The number of characters in front of a cut: a negative place counts from the
end, and a place outside the text is moved to its nearer end. -/
def cutPoint (place : Int) (chars : RawText) : Nat :=
  if place < 0 then (chars.length + place).toNat else min place.toNat chars.length

/-- Turn the characters around; the argument does not matter. -/
def reverse : Operation := fun _ chars =>
  chars.reverse

/-- Exchange the first character with the one at the argument, taken modulo the
length. -/
def swap : Operation := fun place chars =>
  match chars with
  | [] => []
  | first :: _ =>
    let index := (place % chars.length).toNat
    (chars.set 0 (chars.getD index first)).set index first

/-- Remove the characters in front of the cut at the argument. -/
def splice : Operation := fun place chars =>
  chars.drop (cutPoint place chars)

/-- Move the characters in front of the cut at the argument to the end. -/
def rotate : Operation := fun place chars =>
  chars.drop (cutPoint place chars) ++ chars.take (cutPoint place chars)

/-- Operations by name, in the order in which they were added. -/
structure Catalog where
  /-- The names and their operations. -/
  operations : Register Operation

/-- A plan names an operation that the catalog does not hold. -/
structure UnknownOperation where
  /-- The name that was asked for. -/
  name : Text
  deriving DecidableEq, Repr

/-- The wording for an operation that is missing. -/
def UnknownOperation.message (e : UnknownOperation) : Text :=
  "Operation ".toList ++ Text.quoted e.name ++ " is not in the transform catalog".toList

namespace Catalog

/-- The catalog of the operations that players are known to use. -/
def standard : Catalog :=
  ⟨[("reverse".toList, reverse), ("swap".toList, swap), ("splice".toList, splice)]⟩

/-- The names of the operations. -/
def names (catalog : Catalog) : List Text :=
  Register.names catalog.operations

/-- Whether an operation is in the catalog. -/
def has (catalog : Catalog) (name : Text) : Bool :=
  Register.has catalog.operations name

/-- The operation of a name. -/
def find? (catalog : Catalog) (name : Text) : Option Operation :=
  Register.get? catalog.operations name

/-- The catalog with one more operation. An operation of the same name is replaced
in its place. -/
def insert (catalog : Catalog) (name : Text) (operation : Operation) : Catalog :=
  ⟨Register.set catalog.operations name operation⟩

/-- Apply the operation of a name; a missing argument counts as zero. -/
def apply (catalog : Catalog) (name : Text) (argument : Option Int) (chars : RawText) :
    Except UnknownOperation RawText :=
  match catalog.find? name with
  | some operation => .ok (operation (argument.getD 0) chars)
  | none => .error ⟨name⟩

end Catalog
end Playable.Cipher
