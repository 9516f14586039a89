import Playable.Proofs.Record.Reading

/-!
# Spellings of a place

A record says in one of six ways where a format is fetched from: the URL, the scrambled signature
and the name of its parameter stand in the record itself, or under one of two names as an encoded
query, or under one of three names as an object. All of them are read as the same place.
-/

namespace Playable.Record

open Json (Value Fields)

/-- The names of the three parts of a place. -/
def placeNames : List Text :=
  ["url", "s", "sp"].map String.toList

/-- The three parts of a place under their names. -/
def placeParts (url signature parameter : Text) : List (Text × Text) :=
  [("url".toList, url), ("s".toList, signature), ("sp".toList, parameter)]

/-- The three parts of a place as fields. -/
def placeFields (url signature parameter : Text) : Fields :=
  (placeParts url signature parameter).map fun part => (part.1, .text part.2)

/-- Pairs that hold each part of a place once, in any order and among pairs with other names. -/
def HoldParts (url signature parameter : Text) (pairs : List (Text × Text)) : Prop :=
  (pairs.filter fun pair => pair.1 ∈ placeNames).Perm (placeParts url signature parameter)

instance (url signature parameter : Text) (pairs : List (Text × Text)) :
    Decidable (HoldParts url signature parameter pairs) :=
  inferInstanceAs (Decidable (List.Perm _ _))

/-- Fields that spell a place. -/
inductive SpellsPlace (url signature parameter : Text) : Fields → Prop
  /-- The parts stand in the record itself. -/
  | beside : SpellsPlace url signature parameter (placeFields url signature parameter)
  /-- The parts are encoded in a query, perhaps with other pairs. -/
  | query (name : String) (pairs : List (Text × Text))
    (hname : name ∈ ["signatureCipher", "cipher"])
    (hpairs : HoldParts url signature parameter pairs) :
    SpellsPlace url signature parameter [(name.toList, .text (Url.formQuery pairs))]
  /-- The parts are the fields of an object, in any order. -/
  | whole (name : String) (parts : Fields)
    (hname : name ∈ ["signatureCipher", "cipher", "signature_cipher"])
    (hparts : parts.Perm (placeFields url signature parameter)) :
    SpellsPlace url signature parameter [(name.toList, .object parts)]

variable {itag : Int} {url signature parameter : Text} {fields folded : Fields} {place : Value}
  {cipher : SignatureCipher} {names : List String} {name : String} {pairs : List (Text × Text)}

/-- A place is read from an object with its three parts. -/
theorem readCipher_of_parts (hurl : Register.get? fields "url".toList = some (.text url))
    (hs : Register.get? fields "s".toList = some (.text signature))
    (hsp : Register.get? fields "sp".toList = some (.text parameter)) :
    SignatureCipher.read (.object fields) =
      .valid ⟨url, some signature.raw, parameter.raw⟩ := by
  rw [← Value.ofRaw_raw] at hs hsp
  rw [SignatureCipher.read, object,
    readsBack_text.required (firstField?_of_get hurl []),
    readsBack_rawText.optional (a := some signature.raw) (firstField?_of_get hs []),
    readsBack_rawText.withDefault _ (firstField?_of_get hsp [])]
  rfl

/-- The names of the parts differ. -/
theorem nodup_placeNames : placeNames.Nodup := by
  decide

/-- A place is read from an object with its three parts in any order. -/
theorem readCipher_of_perm (h : fields.Perm (placeFields url signature parameter)) :
    SignatureCipher.read (.object fields) =
      .valid ⟨url, some signature.raw, parameter.raw⟩ := by
  have hget := Register.get?_perm (r := placeFields url signature parameter) nodup_placeNames h.symm
  exact readCipher_of_parts (hget _).symm (hget _).symm (hget _).symm

/-! ## Encoded queries -/

/-- There is one part for each name. -/
theorem eq_of_mem_placeParts {value other : Text} {name : Text}
    (h : (name, value) ∈ placeParts url signature parameter)
    (h' : (name, other) ∈ placeParts url signature parameter) : other = value := by
  have hnodup : (Register.names (placeParts url signature parameter)).Nodup := nodup_placeNames
  exact Option.some.inj
    ((Register.get?_of_mem hnodup h').symm.trans (Register.get?_of_mem hnodup h))

section Pairs

variable (hpairs : HoldParts url signature parameter pairs)
include hpairs

/-- The fields of an encoded query hold the parts of the place it spells, whatever else it holds. -/
theorem get?_formQuery {name value : Text}
    (hpart : (name, value) ∈ placeParts url signature parameter) (hvalue : value ≠ []) :
    Register.get? (Register.ofPairs ((Url.formFields false (Url.formQuery pairs)).map
      fun f => (f.1, Value.text f.2))) name = some (.text value) := by
  have hname : name ∈ placeNames := List.mem_map_of_mem (f := Prod.fst) hpart
  rw [Register.get?_ofPairs, Url.formFields_formQuery]
  refine Register.get?_of_forall (fun other hother => ?_) (Register.mem_names_iff.mpr ?_)
  · obtain ⟨pair, hpair, heq⟩ := List.mem_map.mp (List.mem_reverse.mp hother)
    obtain ⟨rfl, rfl⟩ := Prod.mk.inj heq
    have hmem := hpairs.mem_iff.mp
      (List.mem_filter.mpr ⟨(List.mem_filter.mp hpair).1, decide_eq_true hname⟩)
    rw [eq_of_mem_placeParts hpart hmem]
  · have hmem := (List.mem_filter.mp (hpairs.mem_iff.mpr hpart)).1
    refine ⟨.text value, List.mem_reverse.mpr (List.mem_map.mpr ⟨(name, value), ?_, rfl⟩)⟩
    exact List.mem_filter.mpr ⟨hmem, by simpa using hvalue⟩

/-- A query that spells a place is not empty. -/
theorem formQuery_ne_nil : Url.formQuery pairs ≠ [] := by
  refine Url.formQuery_ne_nil ?_
  rintro rfl
  exact List.cons_ne_nil _ _ (List.nil_perm.mp hpairs)

end Pairs

/-! ## Bare records -/

/-- A format about which nothing is known but its number and where it is fetched from. -/
def bareFormat (itag : Int) (cipher : SignatureCipher) : Format :=
  ⟨itag, some cipher, none, none, none, none, none, none, none, none, none, none⟩

/-- The names under which a place is folded. -/
def spellingNames : List Text :=
  ["signatureCipher", "cipher", "url", "s", "sp"].map String.toList

/-- The names that a record with nothing but a number and a place may have. -/
def bareNames : List Text :=
  "itag".toList :: "signature_cipher".toList :: spellingNames

/-- A field that is no part of a number or a place is missing in a bare record. -/
theorem optional_of_bare {α : Type} {read : Reader α}
    (hbare : ∀ name ∈ Register.names folded, name ∈ bareNames)
    (hnames : ∀ name ∈ names, name.toList ∉ bareNames) :
    optional folded names read = .valid none :=
  optional_of_missing (firstField?_eq_none fun name hname hmem =>
    hnames name hname (hbare _ hmem))

/-- A record with nothing but a number and a place is read as a format with these. -/
theorem readFormat_of_bare (hfold : foldCipher fields = folded)
    (hbare : ∀ name ∈ Register.names folded, name ∈ bareNames)
    (hitag : Register.get? folded "itag".toList = some (.int itag))
    (hplace : Register.get? folded "signature_cipher".toList = some place)
    (hread : SignatureCipher.read place = .valid cipher) :
    Format.read (.object fields) = .valid (bareFormat itag cipher) := by
  have hpresent : place ≠ .null := by
    rintro rfl
    cases hread
  have hcipher : optional folded ["signature_cipher"] SignatureCipher.read = .valid (some cipher) :=
    withDefault_of_field (firstField?_of_get hplace []) (nullable_of_read hpresent hread) none
  rw [Format.read, object]
  dsimp only
  rw [hfold, readsBack_integer.required (firstField?_of_get hitag []), hcipher,
    optional_of_bare hbare (by decide), optional_of_bare hbare (by decide),
    optional_of_bare hbare (by decide), optional_of_bare hbare (by decide),
    optional_of_bare hbare (by decide), optional_of_bare hbare (by decide),
    optional_of_bare hbare (by decide), optional_of_bare hbare (by decide),
    optional_of_bare hbare (by decide), optional_of_bare hbare (by decide)]
  rfl

/-- A place is folded from what is found under the names of a record, in whatever order. -/
theorem foldedCipher?_perm {record : Fields} (hnodup : (Register.names fields).Nodup)
    (h : fields.Perm record) : foldedCipher? fields = foldedCipher? record := by
  simp only [foldedCipher?, wholeCipher, Register.get?_perm hnodup h]

/-- A place that says something is found under either of its two names. -/
theorem wholeCipher_pair {value : Value} (itag : Int) (hname : name ∈ ["signatureCipher", "cipher"])
    (hpresent : isPresent value = true) :
    wholeCipher [("itag".toList, .int itag), (name.toList, value)] = value := by
  simp only [List.mem_cons, List.not_mem_nil, or_false] at hname
  obtain rfl | rfl := hname
  · exact if_pos hpresent
  · rfl

section Folded

variable {record : Fields} (hnodup : (Register.names record).Nodup)
  (hnames : ∀ name ∈ Register.names record, name ∈ spellingNames)
  (hfields : fields.Perm (("itag".toList, .int itag) :: record))
include hnodup hnames hfields

/-- A record with a number and parts that are folded into a place is read as a format with these. -/
theorem readFormat_of_folded
    (hfold : foldedCipher? (("itag".toList, .int itag) :: record) = some place)
    (hread : SignatureCipher.read place = .valid cipher) :
    Format.read (.object fields) = .valid (bareFormat itag cipher) := by
  have hnumbered : (Register.names (("itag".toList, .int itag) :: record)).Nodup := by
    have hitag : "itag".toList ∉ spellingNames := by decide
    exact List.nodup_cons.mpr ⟨fun hmem => hitag (hnames _ hmem), hnodup⟩
  have hnodup : (Register.names fields).Nodup := (hfields.map _).nodup_iff.mpr hnumbered
  have hbare : ∀ name ∈ Register.names fields, name = "itag".toList ∨ name ∈ spellingNames := by
    intro name hname
    exact (List.mem_cons.mp ((hfields.map _).mem_iff.mp hname)).imp_right (hnames name)
  have hnew : "signature_cipher".toList ∉ Register.names fields := fun hmem =>
    (hbare _ hmem).elim (by decide) (by decide)
  have hfolded : foldCipher fields = fields ++ [("signature_cipher".toList, place)] := by
    have hnot : ¬ (Register.has fields "signature_cipher".toList = true) :=
      fun hhas => hnew (Register.has_eq_true_iff.mp hhas)
    simp only [foldCipher, if_neg hnot, foldedCipher?_perm hnodup hfields, hfold,
      Register.set_of_not_mem hnew]
  refine readFormat_of_bare hfolded (fun name hname => ?_) ?_ ?_ hread
  · have hplace : "signature_cipher".toList ∈ bareNames := by decide
    have hitag : "itag".toList ∈ bareNames := by decide
    have hspelling : ∀ name ∈ spellingNames, name ∈ bareNames := by decide
    rw [Register.names_append] at hname
    rcases List.mem_append.mp hname with hname | hname
    · exact (hbare name hname).elim (· ▸ hitag) (hspelling name)
    · exact List.mem_singleton.mp hname ▸ hplace
  · rw [Register.get?_append, Register.get?_perm hnodup hfields, Register.get?_cons_self]
    rfl
  · rw [Register.get?_append_of_not_mem hnew, Register.get?_cons_self]

end Folded

/-- A record with a number and a place that is given whole under one of two names. -/
theorem readFormat_of_whole {value : Value} (hname : name ∈ ["signatureCipher", "cipher"])
    (hfields : fields.Perm [("itag".toList, .int itag), (name.toList, value)])
    (hvalue : isPresent value = true)
    (hfold : ∀ fields, wholeCipher fields = value → foldedCipher? fields = some place)
    (hread : SignatureCipher.read place = .valid cipher) :
    Format.read (.object fields) = .valid (bareFormat itag cipher) := by
  have hnames : ∀ name ∈ ["signatureCipher", "cipher"], name.toList ∈ spellingNames := by decide
  have hnodup : (Register.names [(name.toList, value)]).Nodup := List.nodup_singleton _
  exact readFormat_of_folded hnodup
    (List.forall_mem_singleton.mpr (hnames name hname)) hfields
    (hfold _ (wholeCipher_pair itag hname hvalue)) hread

/-- A record with a number and a place that is folded already. -/
theorem readFormat_of_place
    (hfields : fields.Perm [("itag".toList, .int itag), ("signature_cipher".toList, place)])
    (hread : SignatureCipher.read place = .valid cipher) :
    Format.read (.object fields) = .valid (bareFormat itag cipher) := by
  have hnodup : (Register.names [("itag".toList, .int itag),
      ("signature_cipher".toList, place)]).Nodup :=
    show ["itag".toList, "signature_cipher".toList].Nodup by decide
  have hget := Register.get?_perm hnodup hfields.symm
  have hmem (name : Text) : name ∈ Register.names fields ↔
      name ∈ ["itag".toList, "signature_cipher".toList] := (hfields.map _).mem_iff
  have hhas : Register.has fields "signature_cipher".toList = true :=
    Register.has_eq_true_iff.mpr ((hmem _).mpr (by decide))
  have hbare : ∀ name ∈ ["itag".toList, "signature_cipher".toList], name ∈ bareNames := by decide
  exact readFormat_of_bare (if_pos hhas) (fun name hname => hbare name ((hmem name).mp hname))
    (hget _).symm (hget _).symm hread

/-- A record that has nothing but a number and a place, in one of its six spellings, is read as the
same format in whatever order its fields stand. -/
theorem spellings_agree
    (hurl : url ≠ []) (hsignature : signature ≠ []) (hparameter : parameter ≠ [])
    {record : Fields} (hrecord : SpellsPlace url signature parameter record)
    (hfields : fields.Perm (("itag".toList, .int itag) :: record)) :
    Format.read (.object fields) =
      .valid (bareFormat itag ⟨url, some signature.raw, parameter.raw⟩) := by
  cases hrecord with
  | beside =>
    have hnames : ∀ name ∈ placeNames, name ∈ spellingNames := by decide
    have hpresent : isPresent (.text parameter) = true := decide_eq_true hparameter
    have hnodup : (Register.names (placeFields url signature parameter)).Nodup := nodup_placeNames
    exact readFormat_of_folded hnodup hnames hfields rfl
      (readCipher_of_parts rfl rfl (congrArg some (if_pos hpresent)))
  | query name pairs hname hpairs =>
    have hquery : isPresent (.text (Url.formQuery pairs)) = true :=
      decide_eq_true (formQuery_ne_nil hpairs)
    exact readFormat_of_whole hname hfields hquery
      (fun fields hwhole => by simp only [foldedCipher?, hwhole, queryValue_raw])
      (readCipher_of_parts (get?_formQuery hpairs (by simp [placeParts]) hurl)
        (get?_formQuery hpairs (by simp [placeParts]) hsignature)
        (get?_formQuery hpairs (by simp [placeParts]) hparameter))
  | whole name parts hname hparts =>
    have hread := readCipher_of_perm hparts
    obtain hname | rfl : name ∈ ["signatureCipher", "cipher"] ∨ name = "signature_cipher" := by
      simpa [or_assoc] using hname
    · have hobject : isPresent (.object parts) = true := by
        have hne : parts ≠ [] := by
          rintro rfl
          exact List.cons_ne_nil _ _ (List.nil_perm.mp hparts)
        simpa [isPresent] using hne
      exact readFormat_of_whole hname hfields hobject
        (fun fields hwhole => by simp only [foldedCipher?, hwhole]) hread
    · exact readFormat_of_place hfields hread

/-- An encoded query with two foreign pairs, in front of the number. -/
theorem spellings_agree_encoded :
    let url : Text := "//h/p?a=1&b".toList
    let signature : Text := "+%é".toList
    let parameter : Text := "sig".toList
    let query : Text := "sp=sig&a=&url=%2F%2Fh%2Fp%3Fa%3D1%26b&a=x&s=%2B%25%C3%A9".toList
    let record : Fields := [("cipher".toList, .text query)]
    let fields : Fields := [("cipher".toList, .text query), ("itag".toList, .int 18)]
    (url ≠ [] ∧ signature ≠ [] ∧ parameter ≠ []) ∧ SpellsPlace url signature parameter record ∧
      fields.Perm (("itag".toList, .int 18) :: record) ∧
      Format.read (.object fields) =
        .valid (bareFormat 18 ⟨url, some signature.raw, parameter.raw⟩) := by
  intro url signature parameter query record fields
  let pairs : List (Text × Text) := [("sp".toList, parameter), (['a'], []), ("url".toList, url),
    (['a'], ['x']), (['s'], signature)]
  have hquery : Url.formQuery pairs = query := by decide +kernel
  have hpairs : HoldParts url signature parameter pairs := by decide +kernel
  have hrecord : SpellsPlace url signature parameter [("cipher".toList, .text query)] := by
    rw [← hquery]
    exact .query "cipher" pairs (by decide) hpairs
  have hfields : fields.Perm (("itag".toList, .int 18) :: record) := .swap ..
  have hurl : url ≠ [] := by decide
  have hsignature : signature ≠ [] := by decide
  have hparameter : parameter ≠ [] := by decide
  exact ⟨⟨hurl, hsignature, hparameter⟩, hrecord, hfields,
    spellings_agree hurl hsignature hparameter hrecord hfields⟩

end Playable.Record
