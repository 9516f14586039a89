import Playable.Proofs.Number.Digits
import Playable.Proofs.Record.Reading

/-!
# Records in queries

A format record can be given as an encoded query, where every value is a text. It is read as the
format with these values, in whatever order they stand. Only its number can be refused, if it has
more digits than an integer of a record may have.
-/

namespace Playable.Record

open Json (Value Fields)

variable {fields : Fields} {names : List String} {t : Option Text}

/-! ## Numbers in texts -/

/-- A printed number has no zeros to drop. -/
theorem withoutZeros_ofNat (n : Nat) : withoutZeros (Text.ofNat n) = Text.ofNat n := by
  rcases Nat.eq_zero_or_pos n with rfl | hn
  · rfl
  · obtain ⟨c, more, hc⟩ := List.exists_cons_of_ne_nil (Number.ofNat_ne_nil n)
    have hdigit : c.isDigit = true := Number.isDigit_of_mem_ofNat (hc ▸ List.mem_cons_self)
    have hzero : c ≠ '0' := fun h => Number.head?_ofNat hn (by rw [hc, h]; rfl)
    have hgroup : c ≠ '_' := fun h => by cases h ▸ hdigit
    rw [hc, withoutZeros, List.dropWhile_cons_of_neg (by simp [hzero, hgroup])]

/-- A text of digits, perhaps behind a minus sign, spells an integer if it is not too long. -/
theorem integerOfText?_numeral (negative : Bool) (n : Nat) :
    integerOfText? (Number.numeral negative (Text.ofNat n)) =
      if (Text.ofNat n).length ≤ Number.maxDigits then
        some (if negative then -(n : Int) else n)
      else none := by
  have hdigit : ∀ c ∈ Text.ofNat n, c.isDigit = true := fun c => Number.isDigit_of_mem_ofNat
  have hdecimal : ∀ c ∈ Text.ofNat n, Text.isDecimalDigit c = true :=
    fun c hc => Number.isDecimalDigit_of_isDigit (hdigit c hc)
  have hpoint : '.' ∉ Text.ofNat n := fun hmem => by cases hdigit '.' hmem
  have hgroup : '_' ∉ Text.ofNat n := fun hmem => by cases hdigit '_' hmem
  have hne : (Text.ofNat n).isEmpty = false := by simpa using Number.ofNat_ne_nil n
  have hall : (Text.ofNat n).all Char.isDigit = true := List.all_eq_true.mpr hdigit
  have hfirst : (Text.ofNat n).head?.any Char.isDigit = true := by
    obtain ⟨c, more, hc⟩ := List.exists_cons_of_ne_nil (Number.ofNat_ne_nil n)
    rw [hc]
    exact hdigit c (hc ▸ List.mem_cons_self)
  simp only [integerOfText?, Number.trim_numeral negative hdecimal,
    Number.sign_numeral negative (Number.ofNat_ne_nil n) hdecimal, Text.cutFirst_of_not_mem hpoint,
    withoutZeros_ofNat, Text.split_of_not_mem hgroup, List.all_cons, List.all_nil, hne, hall,
    hfirst, Option.all_none, List.flatten_cons, List.flatten_nil, List.append_nil, Bool.not_false,
    Bool.true_and, if_true]
  split
  · rw [Number.ofDigits_ofNat negative ‹_›]
    rfl
  · rw [Number.ofDigits, if_pos (Nat.lt_of_not_le ‹_›)]
    rfl

/-- A printed integer is read from a text if it is not too long. -/
theorem integer_text_ofInt (i : Int) : (integer (.text (Text.ofInt i))).toOption =
    if (Text.ofNat i.natAbs).length ≤ Number.maxDigits then some i else none := by
  have hread : (integer (.text (Text.ofInt i))).toOption = integerOfText? (Text.ofInt i) := by
    rw [integer]
    cases integerOfText? (Text.ofInt i) <;> rfl
  rw [hread]
  cases i with
  | ofNat n => exact integerOfText?_numeral false n
  | negSucc n => exact integerOfText?_numeral true (n + 1)

/-! ## Records of texts -/

/-- What a query says about a format. -/
structure QueryRecord where
  /-- The number of the encoding. -/
  itag : Int
  /-- The delivery URL. -/
  url : Text
  /-- The scrambled signature, if there is one. -/
  scrambled : Option Text
  /-- The name of the parameter for the signature, if it is given. -/
  parameter : Option Text
  /-- The media type, if it is given. -/
  mimeType : Option Text
  /-- The quality, if it is given. -/
  quality : Option Text

namespace QueryRecord

variable (record : QueryRecord)

/-- What is said under each name. -/
def entries : Register (Option Text) :=
  [("itag".toList, some (Text.ofInt record.itag)), ("url".toList, some record.url),
    ("s".toList, record.scrambled), ("sp".toList, record.parameter),
    ("type".toList, record.mimeType), ("quality".toList, record.quality)]

/-- The text under a name, if there is one. -/
def text? (name : String) : Option Text :=
  (Register.get? record.entries name.toList).join

/-- The pairs of a query. -/
def pairs : List (Text × Text) :=
  Register.present record.entries

/-- No value of the query is blank. -/
def IsFilled : Prop :=
  ∀ pair ∈ record.pairs, pair.2 ≠ []

instance : Decidable record.IsFilled :=
  inferInstanceAs (Decidable (∀ pair ∈ record.pairs, pair.2 ≠ []))

/-- The format that the record describes. -/
def format : Format where
  itag := record.itag
  cipher := some ⟨record.url, record.scrambled.map Text.raw,
    (record.parameter.getD defaultParameter).raw⟩
  mimeType := record.mimeType
  quality := record.quality
  qualityLabel := none
  width := none
  height := none
  bitrate := none
  fps := none
  contentLength := none
  approxDurationMs := none
  audioQuality := none

/-- The names of a query differ. -/
theorem nodup_entries : (Register.names record.entries).Nodup := by
  change (["itag", "url", "s", "sp", "type", "quality"].map String.toList).Nodup
  decide

/-- No name of a query is repeated. -/
theorem nodup_pairs : (Register.names record.pairs).Nodup :=
  record.nodup_entries.sublist (Register.names_present_sublist record.entries)

/-- The texts of a record are looked up in its query. -/
theorem get?_pairs (name : String) :
    Register.get? record.pairs name.toList = record.text? name :=
  Register.get?_present record.nodup_entries name.toList

/-- The media type is found under the last of its names. -/
theorem findSome?_mimeType :
    ["mimeType", "mime_type", "type"].findSome? record.text? = record.mimeType := by
  obtain ⟨itag, url, scrambled, parameter, mimeType, quality⟩ := record
  cases mimeType <;> rfl

/-- The quality is found under its name. -/
theorem findSome?_quality : ["quality"].findSome? record.text? = record.quality := by
  obtain ⟨itag, url, scrambled, parameter, mimeType, quality⟩ := record
  cases quality <;> rfl

end QueryRecord

/-- A text that may be missing is read where it is. -/
theorem optional_text (hfield : firstField? fields names = t.map .text) :
    optional fields names text = .valid t := by
  cases t with
  | none => exact optional_of_missing hfield
  | some t => exact readsBack_text.optional (a := some t) hfield

/-- The place that is put together from a URL and the parts beside it is read as these. -/
theorem readCipher_of_beside (url : Text) (scrambled : Option Text) {parameter : Option Text}
    (hfilled : ∀ t ∈ parameter, t ≠ []) :
    SignatureCipher.read (.object [("url".toList, .text url),
        ("s".toList, (scrambled.map Value.text).getD .null),
        ("sp".toList, if isPresent ((parameter.map Value.text).getD .null) then
          (parameter.map Value.text).getD .null else .text defaultParameter)]) =
      .valid ⟨url, scrambled.map Text.raw, (parameter.getD defaultParameter).raw⟩ := by
  have hparameter : (if isPresent ((parameter.map Value.text).getD .null) then
      (parameter.map Value.text).getD .null else .text defaultParameter) =
        .text (parameter.getD defaultParameter) := by
    cases parameter with
    | none => rfl
    | some t => exact if_pos (decide_eq_true (hfilled t rfl))
  have hscrambled : (scrambled.map Value.text).getD .null =
      ((scrambled.map Text.raw).map Value.ofRaw).getD .null := by
    rw [Option.map_map]
    exact congrArg (Option.getD · Value.null)
      (Option.map_congr fun t _ => (Value.ofRaw_raw t).symm)
  rw [hparameter, hscrambled, ← Value.ofRaw_raw (parameter.getD defaultParameter),
    SignatureCipher.read, object,
    readsBack_text.required (firstField?_of_get rfl []),
    readsBack_rawText.optional (firstField?_of_get rfl []),
    readsBack_rawText.withDefault _ (firstField?_of_get rfl [])]
  rfl

section Fields

variable {record : QueryRecord}
  (hget : ∀ name : String, Register.get? fields name.toList = (record.text? name).map .text)
include hget

/-- The parts of a place that stand in a record of texts are folded into one field. -/
theorem exists_place_of_texts (hfilled : ∀ t ∈ record.parameter, t ≠ []) :
    ∃ place, SignatureCipher.read place =
        .valid ⟨record.url, record.scrambled.map Text.raw,
          (record.parameter.getD defaultParameter).raw⟩ ∧
      ∀ name, Register.get? (foldCipher fields) name =
        if "signature_cipher".toList = name then some place else Register.get? fields name := by
  have hnew : ¬ Register.has fields "signature_cipher".toList = true := fun hhas =>
    Register.get?_eq_none_iff.mp (hget "signature_cipher") (Register.has_eq_true_iff.mp hhas)
  have hwhole : wholeCipher fields = .null := by
    simp only [wholeCipher, hget]
    rfl
  have hurl : Register.get? fields "url".toList = some (.text record.url) := hget "url"
  have hs : Register.get? fields "s".toList = record.scrambled.map .text := hget "s"
  have hsp : Register.get? fields "sp".toList = record.parameter.map .text := hget "sp"
  refine ⟨_, readCipher_of_beside record.url record.scrambled hfilled, fun name => ?_⟩
  rw [foldCipher, if_neg hnew, foldedCipher?, hwhole]
  simp only [hurl, hs, hsp, Option.map_some]
  exact Register.get?_set ..

/-- A field of a record of texts is found where the place does not stand. -/
theorem firstField?_of_texts {folded : Fields} {place : Value}
    (hfolded : ∀ name, Register.get? folded name =
      if "signature_cipher".toList = name then some place else Register.get? fields name)
    (hnames : "signature_cipher" ∉ names) :
    firstField? folded names = (names.findSome? record.text?).map .text := by
  induction names with
  | nil => rfl
  | cons name names ih =>
    obtain ⟨hname, hmore⟩ := not_or.mp (mt List.mem_cons.mpr hnames)
    rw [firstField?_cons, hfolded, if_neg (mt String.toList_inj.mp hname), hget, ih hmore,
      List.findSome?_cons]
    cases record.text? name <;> rfl

/-- A record of texts is read as the format with these texts, if its number is not too long. -/
theorem readFormat_of_texts (hfilled : ∀ t ∈ record.parameter, t ≠ []) :
    (Format.read (.object fields)).toOption =
      if (Text.ofNat record.itag.natAbs).length ≤ Number.maxDigits then some record.format
      else none := by
  obtain ⟨place, hplace, hfolded⟩ := exists_place_of_texts hget hfilled
  have hfield {names : List String} {t : Option Text} (hnames : "signature_cipher" ∉ names)
      (ht : names.findSome? record.text? = t) :
      firstField? (foldCipher fields) names = t.map .text :=
    ht ▸ firstField?_of_texts hget hfolded hnames
  have hpresent : place ≠ .null := by
    rintro rfl
    cases hplace
  have hitag : required (foldCipher fields) ["itag"] integer =
      (integer (.text (Text.ofInt record.itag))).within "itag".toList := by
    rw [required, hfield (t := some _) (by decide) rfl]
    rfl
  have hcipher : optional (foldCipher fields) ["signature_cipher"] SignatureCipher.read =
      .valid record.format.cipher :=
    withDefault_of_field (firstField?_of_get ((hfolded _).trans (if_pos rfl)) [])
      (nullable_of_read hpresent hplace) none
  have hmime : optional (foldCipher fields) ["mimeType", "mime_type", "type"] text =
      .valid record.mimeType :=
    optional_text (hfield (by decide) record.findSome?_mimeType)
  have hquality : optional (foldCipher fields) ["quality"] text = .valid record.quality :=
    optional_text (hfield (by decide) record.findSome?_quality)
  have hmissing {α : Type} {read : Reader α} {names : List String}
      (hnames : "signature_cipher" ∉ names) (hnone : names.findSome? record.text? = none) :
      optional (foldCipher fields) names read = .valid none :=
    optional_of_missing (hfield hnames hnone)
  have hread : (Format.read (.object fields)).toOption =
      (integer (.text (Text.ofInt record.itag))).toOption.map
        ({ record.format with itag := · }) := by
    rw [Format.read, object]
    dsimp only
    rw [hitag, hcipher, hmime, hquality, hmissing (by decide) rfl, hmissing (by decide) rfl,
      hmissing (by decide) rfl, hmissing (by decide) rfl, hmissing (by decide) rfl,
      hmissing (by decide) rfl, hmissing (by decide) rfl, hmissing (by decide) rfl]
    cases integer (.text (Text.ofInt record.itag)) <;> rfl
  rw [hread, integer_text_ofInt]
  split <;> rfl

end Fields

/-- A query with the pairs of a record, in whatever order, spells the format that the record
describes, if its number is not too long. -/
theorem ofQuery_of_perm {record : QueryRecord} {pairs : List (Text × Text)}
    (hfilled : record.IsFilled) (h : pairs.Perm record.pairs) :
    (Format.ofQuery (Text.raw (Url.formQuery pairs))).toOption =
      if (Text.ofNat record.itag.natAbs).length ≤ Number.maxDigits then some record.format
      else none := by
  have hall : (Url.formFields false (Url.formQuery pairs)) = pairs := by
    rw [Url.formFields_formQuery]
    exact List.filter_eq_self.mpr fun pair hpair => by simpa using hfilled pair (h.mem_iff.mp hpair)
  have hnodup : (Register.names pairs).Nodup := (h.map _).nodup_iff.mpr record.nodup_pairs
  have hfields : Register.ofPairs (pairs.map fun pair => (pair.1, Value.text pair.2)) =
      pairs.map fun pair => (pair.1, .text pair.2) :=
    Register.ofPairs_of_nodup (by simpa [Register.names, Function.comp_def] using hnodup)
  have hparameter : ∀ t ∈ record.parameter, t ≠ [] := fun t ht =>
    hfilled ("sp".toList, t) (Register.mem_of_get? ((record.get?_pairs "sp").trans ht))
  rw [Format.ofQuery, queryValue_raw, hall, hfields]
  refine readFormat_of_texts (fun name => ?_) hparameter
  rw [Register.get?_map_value, Register.get?_perm hnodup h, record.get?_pairs]

end Playable.Record
