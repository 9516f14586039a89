import Playable.Proofs.Register
import Playable.Proofs.Url.Form
import Playable.Record.Format

/-!
# Reading fields

What reading one field of a record gives: the value under its first name that is present, or what
is said for a missing one. Readers and the ways of writing that they undo go together: a field that
was written is read back, whether or not it may be absent.
-/

namespace Playable.Record

open Json (Value Fields)

variable {α : Type} {read : Reader α} {write : α → Value} {fields : Fields}
  {names : List String} {value : Value} {a : α}

section Field

variable (hfield : firstField? fields names = some value)
include hfield

/-- A field that must be present is read where it is. -/
theorem required_of_field (hread : read value = .valid a) :
    required fields names read = .valid a := by
  simp only [required, hfield, hread, Validated.within]

/-- A field with a value of its own is read where it is. -/
theorem withDefault_of_field (hread : read value = .valid a) (default : α) :
    withDefault fields names read default = .valid a := by
  simp only [withDefault, hfield, hread, Validated.within]

end Field

section Missing

variable (hfield : firstField? fields names = none)
include hfield

/-- A missing field has the value that is said for it. -/
theorem withDefault_of_missing (default : α) :
    withDefault fields names read default = .valid default := by
  simp only [withDefault, hfield]

/-- A missing field that may be missing has no value. -/
theorem optional_of_missing : optional fields names read = .valid none :=
  withDefault_of_missing hfield none

end Missing

/-- A value that is present is read as it is. -/
theorem nullable_of_read (hpresent : value ≠ .null) (hread : read value = .valid a) :
    nullable read value = .valid (some a) := by
  rw [nullable, hread]
  · rfl
  · exact hpresent

/-- An object is not the absent value. -/
theorem objectValue_ne_null (entries : List (String × Value)) : objectValue entries ≠ .null := by
  rw [objectValue]
  nofun

/-- A reader that undoes a way of writing, which never writes the absent value. -/
structure ReadsBack (read : Reader α) (write : α → Value) : Prop where
  /-- What was written is read back. -/
  reads : ∀ a, read (write a) = .valid a
  /-- Something is written. -/
  present : ∀ a, write a ≠ .null

/-- A text is read back. -/
theorem readsBack_text : ReadsBack text .text :=
  ⟨fun _ => rfl, nofun⟩

/-- A raw text is read back. -/
theorem readsBack_rawText : ReadsBack rawText .ofRaw where
  reads r := by rw [rawText, Value.raw?_ofRaw, Validated.ofOption]
  present r := by
    obtain ⟨t, -, h⟩ | ⟨b, -, h⟩ := Value.ofRaw_cases r <;> rw [h] <;> nofun

/-- An integer is read back. -/
theorem readsBack_integer : ReadsBack integer .int :=
  ⟨fun _ => rfl, nofun⟩

/-- A truth value is read back. -/
theorem readsBack_truth : ReadsBack truth .bool :=
  ⟨fun _ => rfl, nofun⟩

namespace ReadsBack

variable (h : ReadsBack read write)
include h

/-- A value that may be absent is read back. -/
theorem nullable (a : Option α) : nullable read ((a.map write).getD .null) = .valid a := by
  cases a with
  | none => rfl
  | some a => exact nullable_of_read (h.present a) (h.reads a)

/-- A field that must be present is read back. -/
theorem required (hfield : firstField? fields names = some (write a)) :
    required fields names read = .valid a :=
  required_of_field hfield (h.reads a)

/-- A field with a value of its own is read back. -/
theorem withDefault (default : α) (hfield : firstField? fields names = some (write a)) :
    withDefault fields names read default = .valid a :=
  withDefault_of_field hfield (h.reads a) default

/-- A field that may be missing is read back. -/
theorem optional {a : Option α}
    (hfield : firstField? fields names = some ((a.map write).getD .null)) :
    optional fields names read = .valid a :=
  withDefault_of_field hfield (h.nullable a) none

end ReadsBack

/-- The object that an encoded query spells has a text in each of its fields. -/
theorem queryValue_raw (query : Text) : queryValue query.raw =
    .object (Register.ofPairs ((Url.formFields false query).map fun f => (f.1, .text f.2))) := by
  rw [queryValue, Url.rawFields_raw, List.map_map]
  simp only [Function.comp_def, Prod.map, Text.toText_raw, Value.ofRaw_raw]

/-- The first name of several that a record has decides. -/
theorem firstField?_cons (fields : Fields) (name : String) (names : List String) :
    firstField? fields (name :: names) =
      (Register.get? fields name.toList).or (firstField? fields names) := by
  rw [firstField?, List.findSome?_cons]
  cases Register.get? fields name.toList <;> rfl

/-- A name that a record has is looked at before the others. -/
theorem firstField?_of_get {name : String}
    (h : Register.get? fields name.toList = some value) (names : List String) :
    firstField? fields (name :: names) = some value := by
  rw [firstField?_cons, h]
  rfl

/-- A field is missing if the record has none of its names. -/
theorem firstField?_eq_none (h : ∀ name ∈ names, name.toList ∉ Register.names fields) :
    firstField? fields names = none :=
  List.findSome?_eq_none_iff.mpr fun name hname => Register.get?_eq_none_iff.mpr (h name hname)

/-- A name is looked up among the fields of an object as they are listed. -/
theorem get?_map_toList (entries : List (String × Value)) (name : String) :
    Register.get? (entries.map fun f => (f.1.toList, f.2)) name.toList = entries.lookup name := by
  induction entries with
  | nil => rfl
  | cons entry entries ih =>
    rw [List.map_cons, Register.get?_cons, List.lookup_cons, ih]
    by_cases h : entry.1 = name
    · simp [h]
    · have hbeq : (name == entry.1) = false := beq_false_of_ne (Ne.symm h)
      simp [h, hbeq, String.toList_inj]

/-- The field of an object is the first of its names that is listed. -/
theorem firstField?_map_toList (entries : List (String × Value)) (names : List String) :
    firstField? (entries.map fun f => (f.1.toList, f.2)) names =
      names.findSome? (entries.lookup ·) := by
  simp only [firstField?, get?_map_toList]

end Playable.Record
