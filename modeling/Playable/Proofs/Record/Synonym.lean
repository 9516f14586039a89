import Playable.Proofs.Record.Reading
import Playable.Record.Format

/-!
# Two names for a place

A record may give its place as a whole under either of two names. Reading a format looks at nothing
else under these names, so a value that says something is read alike under both, and so is the
absent value. A value that is given and says nothing tells them apart: under the first name it is
passed over, and the record is read by its URL; under the second one it is taken for the place, and
the record is refused.
-/

namespace Playable.Record

open Json (Value Fields)

variable {α β : Type} {fields other : Fields} {names : List String} {name : Text} {c place : Value}

/-- A validated function and its argument must both be valid. -/
theorem Validated.toOption_seq_eq_none {f : Validated (α → β)} {a : Validated α} :
    (f <*> a).toOption = none ↔ f.toOption = none ∨ a.toOption = none := by
  change (f.apply a).toOption = none ↔ _
  cases f <;> cases a <;> simp [Validated.apply, Validated.toOption]

/-! ## What a format is read from -/

/-- The names under which a place may come as a whole, in the order in which they are looked at. -/
def wholeNames : List Text :=
  ["signatureCipher", "cipher"].map String.toList

/-- All names under which a record may give its place at once. -/
def placeHolders : List Text :=
  "signature_cipher".toList :: wholeNames

/-- Two records with the same fields, except perhaps for the places that they give as a whole. -/
def AgreeBeside (fields other : Fields) : Prop :=
  ∀ name ∉ wholeNames, Register.get? fields name = Register.get? other name

/-- Giving a place as a whole changes no other field. -/
theorem agreeBeside_set (fields : Fields) (name : Text) (hname : name ∈ wholeNames) (c : Value) :
    AgreeBeside (Register.set fields name c) fields := by
  intro beside hbeside
  have hne : name ≠ beside := fun heq => hbeside (heq ▸ hname)
  rw [Register.get?_set, if_neg hne]

/-- A field is read from what the first of its names has. -/
theorem withDefault_congr {read : Reader α} {default : α}
    (h : firstField? fields names = firstField? other names) :
    withDefault fields names read default = withDefault other names read default := by
  simp only [withDefault, h]

/-- A field that must be present is read from what the first of its names has. -/
theorem required_congr {read : Reader α}
    (h : firstField? fields names = firstField? other names) :
    required fields names read = required other names read := by
  simp only [required, h]

section Agree

variable (h : AgreeBeside fields other)
include h

/-- Records that agree beside their places have the same folded place if they have the same whole
one. -/
theorem foldedCipher?_congr (hwhole : wholeCipher fields = wholeCipher other) :
    foldedCipher? fields = foldedCipher? other := by
  have hurl := h "url".toList (by decide)
  have hs := h "s".toList (by decide)
  have hsp := h "sp".toList (by decide)
  simp only [foldedCipher?, hwhole, hurl, hs, hsp]

/-- With the same folded place, the fields that are read agree. -/
theorem agreeBeside_foldCipher (hfold : foldedCipher? fields = foldedCipher? other) :
    AgreeBeside (foldCipher fields) (foldCipher other) := by
  intro name hname
  have hhas : Register.has fields "signature_cipher".toList =
      Register.has other "signature_cipher".toList := by
    rw [Register.has_eq_isSome, Register.has_eq_isSome, h _ (by decide)]
  simp only [foldCipher, hhas, hfold]
  split
  · exact h name hname
  · cases foldedCipher? other with
    | none => exact h name hname
    | some place =>
      simp only [Register.get?_set]
      split
      · rfl
      · exact h name hname

/-- A field under other names is found alike. -/
theorem firstField?_congr (hnames : ∀ name ∈ names, name.toList ∉ wholeNames) :
    firstField? fields names = firstField? other names := by
  induction names with
  | nil => rfl
  | cons name names ih =>
    obtain ⟨hname, hmore⟩ := List.forall_mem_cons.mp hnames
    rw [firstField?_cons, firstField?_cons, h _ hname, ih hmore]

/-- Records that agree beside their places are read alike if they have the same whole place, down to
what does not fit. -/
theorem readFormat_congr (hwhole : wholeCipher fields = wholeCipher other) :
    Format.read (.object fields) = Format.read (.object other) := by
  have hfolded := agreeBeside_foldCipher h (foldedCipher?_congr h hwhole)
  have hfield {names : List String} (hnames : ∀ name ∈ names, name.toList ∉ wholeNames) :
      firstField? (foldCipher fields) names = firstField? (foldCipher other) names :=
    firstField?_congr hfolded hnames
  simp only [Format.read, object, optional]
  rw [required_congr (hfield (by decide)), withDefault_congr (hfield (by decide)),
    withDefault_congr (hfield (by decide)), withDefault_congr (hfield (by decide)),
    withDefault_congr (hfield (by decide)), withDefault_congr (hfield (by decide)),
    withDefault_congr (hfield (by decide)), withDefault_congr (hfield (by decide)),
    withDefault_congr (hfield (by decide)), withDefault_congr (hfield (by decide)),
    withDefault_congr (hfield (by decide)), withDefault_congr (hfield (by decide))]

end Agree

/-! ## Values that say nothing -/

/-- A value that is given and says nothing: false, zero or empty. -/
def IsBlank (c : Value) : Prop :=
  c ≠ .null ∧ isPresent c = false

/-- No place can be read from a value that says nothing. -/
theorem exists_foldedCipher?_of_blank (hwhole : wholeCipher fields = c) (hblank : IsBlank c) :
    ∃ place, foldedCipher? fields = some place ∧
      (nullable SignatureCipher.read place).toOption = none := by
  obtain ⟨hnull, hnothing⟩ := hblank
  rw [foldedCipher?, hwhole]
  cases c with
  | null => exact absurd rfl hnull
  | bool b => exact ⟨_, rfl, rfl⟩
  | int i => exact ⟨_, rfl, rfl⟩
  | float x => exact ⟨_, rfl, rfl⟩
  | text t =>
    obtain rfl : t = [] := by simpa [isPresent] using hnothing
    exact ⟨_, rfl, rfl⟩
  | broken t => cases hnothing
  | list values => exact ⟨_, rfl, rfl⟩
  | object parts =>
    obtain rfl : parts = [] := by simpa [isPresent] using hnothing
    exact ⟨_, rfl, rfl⟩

/-- A record whose place cannot be read is refused. -/
theorem readFormat_eq_none (hnew : "signature_cipher".toList ∉ Register.names fields)
    (hfold : foldedCipher? fields = some place)
    (hread : (nullable SignatureCipher.read place).toOption = none) :
    (Format.read (.object fields)).toOption = none := by
  have hfolded : foldCipher fields = Register.set fields "signature_cipher".toList place := by
    have hnot : ¬ Register.has fields "signature_cipher".toList = true :=
      fun hhas => hnew (Register.has_eq_true_iff.mp hhas)
    simp only [foldCipher, if_neg hnot, hfold]
  have hfield : firstField? (foldCipher fields) ["signature_cipher"] = some place := by
    rw [hfolded]
    exact firstField?_of_get ((Register.get?_set ..).trans (if_pos rfl)) []
  have hcipher : (optional (foldCipher fields) ["signature_cipher"] SignatureCipher.read).toOption =
      none := by
    simp only [optional, withDefault, hfield]
    cases hplace : nullable SignatureCipher.read place with
    | valid a => rw [hplace] at hread; cases hread
    | invalid paths => rfl
  simp only [Format.read, object, Validated.toOption_seq_eq_none, hcipher, or_true, true_or]

/-! ## The two names -/

section Given

variable (hnew : ∀ name ∈ placeHolders, name ∉ Register.names fields) (c : Value)
include hnew

/-- A record that gives no place as a whole has no whole place. -/
theorem wholeCipher_of_new : wholeCipher fields = .null := by
  have hfirst := Register.get?_eq_none_iff.mpr (hnew "signatureCipher".toList (by decide))
  have hsecond := Register.get?_eq_none_iff.mpr (hnew "cipher".toList (by decide))
  rw [wholeCipher, hfirst, hsecond]
  rfl

/-- Under the first name a value counts if it says something. -/
theorem wholeCipher_first : wholeCipher (Register.set fields "signatureCipher".toList c) =
    if isPresent c then c else .null := by
  have hsecond := Register.get?_eq_none_iff.mpr (hnew "cipher".toList (by decide))
  simp only [wholeCipher, Register.get?_set, hsecond]
  rfl

/-- Under the second name any value counts. -/
theorem wholeCipher_second : wholeCipher (Register.set fields "cipher".toList c) = c := by
  have hfirst := Register.get?_eq_none_iff.mpr (hnew "signatureCipher".toList (by decide))
  simp only [wholeCipher, Register.get?_set, hfirst]
  rfl

/-- A value that says something, or is absent, is read alike under both names. -/
theorem readFormat_first_eq_second (hblank : ¬ IsBlank c) :
    Format.read (.object (Register.set fields "signatureCipher".toList c)) =
      Format.read (.object (Register.set fields "cipher".toList c)) := by
  have hfirst := agreeBeside_set fields "signatureCipher".toList (by decide) c
  have hsecond := agreeBeside_set fields "cipher".toList (by decide) c
  refine readFormat_congr (fun name hname => (hfirst name hname).trans (hsecond name hname).symm) ?_
  rw [wholeCipher_first hnew, wholeCipher_second hnew]
  split
  · rfl
  · next hnothing =>
    by_contra hnull
    exact hblank ⟨Ne.symm hnull, by simpa using hnothing⟩

/-- Under the first name a value that says nothing is passed over. -/
theorem readFormat_first_of_blank (hblank : IsBlank c) :
    Format.read (.object (Register.set fields "signatureCipher".toList c)) =
      Format.read (.object fields) := by
  refine readFormat_congr (agreeBeside_set fields _ (by decide) c) ?_
  rw [wholeCipher_first hnew, if_neg (by simp [hblank.2]), wholeCipher_of_new hnew]

/-- Under the second name a value that says nothing makes the record refused. -/
theorem readFormat_second_of_blank (hblank : IsBlank c) :
    (Format.read (.object (Register.set fields "cipher".toList c))).toOption = none := by
  obtain ⟨place, hfold, hread⟩ := exists_foldedCipher?_of_blank (wholeCipher_second hnew c) hblank
  refine readFormat_eq_none (fun hmem => ?_) hfold hread
  have hother : Register.get? (Register.set fields "cipher".toList c) "signature_cipher".toList =
      none := by
    rw [Register.get?_set, if_neg (by decide)]
    exact Register.get?_eq_none_iff.mpr (hnew _ (by decide))
  exact Register.get?_eq_none_iff.mp hother hmem

end Given

/-- A value under either of the two names for a whole place, beside any record that gives none, is
read alike unless it is blank. A blank one is passed over under the first name and refused under the
second one, so the two agree on it exactly if the record is refused anyway. -/
theorem whole_names_agree_unless_blank
    (hnew : ∀ name ∈ placeHolders, name ∉ Register.names fields) (c : Value) :
    let first := Format.read (.object (Register.set fields "signatureCipher".toList c))
    let second := Format.read (.object (Register.set fields "cipher".toList c))
    let alone := Format.read (.object fields)
    (¬ IsBlank c → first = second) ∧
      (IsBlank c → first = alone ∧ second.toOption = none) ∧
      (first.toOption = second.toOption ↔ (IsBlank c → alone.toOption = none)) := by
  intro first second alone
  have hsame : ¬ IsBlank c → first = second := readFormat_first_eq_second hnew c
  have hblank (h : IsBlank c) : first = alone ∧ second.toOption = none :=
    ⟨readFormat_first_of_blank hnew c h, readFormat_second_of_blank hnew c h⟩
  refine ⟨hsame, hblank, fun heq h => ?_, fun halone => ?_⟩
  · obtain ⟨hfirst, hsecond⟩ := hblank h
    rw [← hfirst, heq, hsecond]
  · by_cases h : IsBlank c
    · obtain ⟨hfirst, hsecond⟩ := hblank h
      rw [hfirst, hsecond, halone h]
    · rw [hsame h]

/-- A record with a URL that needs no signature. -/
def plainRecord : Fields :=
  [("itag".toList, .int 18), ("url".toList, .text "v?sig=x".toList)]

/-- An encoded query beside a URL takes the place of it, under either name. -/
theorem whole_names_agree_on_query :
    let query : Value := .text "url=w".toList
    (∀ name ∈ placeHolders, name ∉ Register.names plainRecord) ∧ ¬ IsBlank query ∧
      Format.read (.object (Register.set plainRecord "signatureCipher".toList query)) =
        Format.read (.object (Register.set plainRecord "cipher".toList query)) := by
  intro query
  have hnew : ∀ name ∈ placeHolders, name ∉ Register.names plainRecord := by decide
  have hquery : ¬ IsBlank query := fun h => absurd h.2 (by decide)
  exact ⟨hnew, hquery, (whole_names_agree_unless_blank hnew query).1 hquery⟩

/-- An empty text beside a usable URL is passed over under the first name, and loses the record
under the second one. -/
theorem blank_cipher_loses_record :
    (∀ name ∈ placeHolders, name ∉ Register.names plainRecord) ∧
      (Format.read (.object (Register.set plainRecord "signatureCipher".toList
        (.text [])))).toOption = (Format.read (.object plainRecord)).toOption ∧
      (Format.read (.object plainRecord)).toOption.isSome = true ∧
      (Format.read (.object (Register.set plainRecord "cipher".toList (.text [])))).toOption =
        none := by
  decide +kernel

end Playable.Record
