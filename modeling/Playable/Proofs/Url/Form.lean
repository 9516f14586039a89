import Mathlib.Data.List.Induction
import Playable.Proofs.Text.Raw
import Playable.Proofs.Text.Utf8
import Playable.Url.Form

/-!
# Encoded fields are read back

An encoded name or value holds letters, digits and a few marks only, none of which separates
fields, and decoding it gives the name or value back. So the fields of a query are read one by
one: joined fields are read in order, without those whose value is blank if these are not asked
for, and a field behind a query is read behind its fields. A query without halves of surrogate
pairs has the same fields as a raw text.
-/

namespace Playable.Url

variable {c : Char} {n : Nat} {rest : Text} {t u v name value : Text} {keep : Bool}
  {pairs : List (Text × Text)}

/-- A character that an encoded text may hold. -/
def isFormChar (c : Char) : Bool :=
  isFormSafe c || c = '+' || c = '%'

/-! ## Octets -/

/-- The digits of an octet are letters and digits with the values of its halves. -/
theorem exists_percentOctet (h : n < 256) : ∃ a b, percentOctet n = ['%', a, b] ∧
    (isFormSafe a = true ∧ isFormSafe b = true) ∧
      Text.hexValue? a = some (n / 16) ∧ Text.hexValue? b = some (n % 16) := by
  have hdigit : ∀ d < 16, isFormSafe (Nat.digitChar d).toUpper = true ∧
      Text.hexValue? (Nat.digitChar d).toUpper = some d := by
    decide
  have hhigh : n / Nat.pow 16 1 % 16 = n / 16 := by
    rw [show Nat.pow 16 1 = 16 from rfl]
    omega
  have hlow : n / Nat.pow 16 0 % 16 = n % 16 := by rw [show Nat.pow 16 0 = 1 from rfl, Nat.div_one]
  obtain ⟨hhighSafe, hhighValue⟩ := hdigit (n / 16) (by omega)
  obtain ⟨hlowSafe, hlowValue⟩ := hdigit (n % 16) (by omega)
  refine ⟨(Nat.digitChar (n / 16)).toUpper, (Nat.digitChar (n % 16)).toUpper, ?_,
    ⟨hhighSafe, hlowSafe⟩, hhighValue, hlowValue⟩
  rw [← hhigh, ← hlow]
  rfl

/-- An octet behind a percent sign is read as itself. -/
theorem octets_percentOctet (h : n < 256) (rest : Text) :
    octets (percentOctet n ++ rest) = n :: octets rest := by
  obtain ⟨a, b, hdigits, -, ha, hb⟩ := exists_percentOctet h
  rw [hdigits, List.cons_append, List.cons_append, List.cons_append, List.nil_append, octets, ha,
    hb]
  exact congrArg (· :: octets rest) (Nat.div_add_mod' n 16)

/-- A character that is no percent sign is one octet. -/
theorem octets_cons (h : c ≠ '%') (rest : Text) : octets (c :: rest) = c.toNat :: octets rest := by
  rw [octets]
  exact fun _ _ _ hc _ => h hc

/-- Octets behind percent signs are read as themselves. -/
theorem octets_flatMap_percentOctet {ns : List Nat} (h : ∀ n ∈ ns, n < 256) (rest : Text) :
    octets (ns.flatMap percentOctet ++ rest) = ns ++ octets rest := by
  induction ns with
  | nil => rfl
  | cons n ns ih =>
    obtain ⟨hn, hns⟩ := List.forall_mem_cons.mp h
    rw [List.flatMap_cons, List.append_assoc, octets_percentOctet hn, ih hns, List.cons_append]

/-! ## Encoded texts -/

/-- A text is encoded character by character. -/
theorem formEncode_cons (c : Char) (t : Text) :
    formEncode (c :: t) = formEncode [c] ++ formEncode t := by
  simp only [formEncode, List.flatMap_cons, List.flatMap_nil, List.append_nil]

/-- A character is kept, replaced by a plus sign, or written by its octets. -/
theorem formEncode_cases (c : Char) :
    (formEncode [c] = [c] ∧ isFormSafe c = true) ∨ (formEncode [c] = ['+'] ∧ c = ' ') ∨
      formEncode [c] = (Text.utf8Char c).flatMap percentOctet := by
  simp only [formEncode, List.flatMap_singleton]
  split
  · exact .inl ⟨rfl, ‹_›⟩
  split
  · exact .inr (.inl ⟨rfl, ‹_›⟩)
  · exact .inr (.inr rfl)

/-- An encoded text holds nothing but the characters that it may hold. -/
theorem isFormChar_of_mem_formEncode (h : c ∈ formEncode t) : isFormChar c = true := by
  induction t with
  | nil => cases h
  | cons d t ih =>
    rw [formEncode_cons, List.mem_append] at h
    refine h.elim (fun h => ?_) ih
    rcases formEncode_cases d with ⟨hd, hsafe⟩ | ⟨hd, -⟩ | hd
    · rw [hd, List.mem_singleton] at h
      simp [isFormChar, h, hsafe]
    · rw [hd, List.mem_singleton] at h
      subst h
      decide
    · rw [hd, List.mem_flatMap] at h
      obtain ⟨n, hn, hc⟩ := h
      obtain ⟨a, b, hdigits, ⟨ha, hb⟩, -⟩ := exists_percentOctet (Text.lt_of_mem_utf8Char hn)
      rw [hdigits] at hc
      simp only [List.mem_cons, List.not_mem_nil, or_false] at hc
      rcases hc with rfl | rfl | rfl
      · decide
      · simp [isFormChar, ha]
      · simp [isFormChar, hb]

/-- The code points of the characters that an encoded text may hold. -/
theorem bounds_of_isFormChar (h : isFormChar c = true) : 32 < c.toNat ∧ c.toNat < 128 := by
  simp only [isFormChar, isFormSafe, Bool.or_eq_true, decide_eq_true_eq] at h
  rcases h with (((((halnum | rfl) | rfl) | rfl) | rfl) | rfl) | rfl
  · have hbounds := Text.bounds_of_isAlphanum halnum
    omega
  all_goals decide

/-- An encoded text does not hold any other character. -/
theorem not_mem_formEncode (h : isFormChar c = false) (t : Text) : c ∉ formEncode t :=
  fun hmem => Bool.false_ne_true (h.symm.trans (isFormChar_of_mem_formEncode hmem))

/-! ## Decoding -/

/-- A plus sign stands for a space. -/
def spaceOfPlus (c : Char) : Char :=
  if c = '+' then ' ' else c

/-- In an ASCII text all octets are read at once. -/
theorem percentDecodeFrom_of_ascii (h : ∀ c ∈ t, c.toNat < 128) (run : Text) :
    percentDecodeFrom run t = Text.ofUtf8 (octets (run.reverse ++ t)) := by
  induction t generalizing run with
  | nil => rw [percentDecodeFrom, List.append_nil]
  | cons c t ih =>
    obtain ⟨hc, ht⟩ := List.forall_mem_cons.mp h
    rw [percentDecodeFrom, if_pos hc, ih ht, List.reverse_cons, List.append_assoc,
      List.singleton_append]

/-- No octet is written with a plus sign. -/
theorem map_spaceOfPlus_flatMap {ns : List Nat} (h : ∀ n ∈ ns, n < 256) :
    (ns.flatMap percentOctet).map spaceOfPlus = ns.flatMap percentOctet := by
  have hne : ∀ c ∈ ns.flatMap percentOctet, spaceOfPlus c = c := by
    intro c hc
    obtain ⟨n, hn, hc⟩ := List.mem_flatMap.mp hc
    obtain ⟨a, b, hdigits, ⟨ha, hb⟩, -⟩ := exists_percentOctet (h n hn)
    rw [hdigits] at hc
    have hsafe : isFormSafe '+' = false := by decide
    refine if_neg ?_
    rintro rfl
    simp only [List.mem_cons, List.not_mem_nil, or_false] at hc
    rcases hc with hc | rfl | rfl
    · cases hc
    · exact Bool.false_ne_true (hsafe.symm.trans ha)
    · exact Bool.false_ne_true (hsafe.symm.trans hb)
  rw [List.map_congr_left hne, List.map_id']

/-- The octets of an encoded character are those of the character. -/
theorem octets_formEncode_singleton (c : Char) (rest : Text) :
    octets ((formEncode [c]).map spaceOfPlus ++ rest) = Text.utf8Char c ++ octets rest := by
  rcases formEncode_cases c with ⟨hc, hsafe⟩ | ⟨hc, rfl⟩ | hc
  · have hform : isFormChar c = true := by simp [isFormChar, hsafe]
    have hplus : c ≠ '+' := by
      rintro rfl
      cases hsafe
    have hpercent : c ≠ '%' := by
      rintro rfl
      cases hsafe
    rw [hc, List.map_singleton, spaceOfPlus, if_neg hplus, List.singleton_append,
      octets_cons hpercent, Text.utf8Char, if_pos (bounds_of_isFormChar hform).2]
    rfl
  · rw [hc]
    exact octets_cons (by decide) rest
  · have hlt : ∀ n ∈ Text.utf8Char c, n < 256 := fun n hn => Text.lt_of_mem_utf8Char hn
    rw [hc, map_spaceOfPlus_flatMap hlt, octets_flatMap_percentOctet hlt]

/-- The octets of an encoded text are those of the text. -/
theorem octets_formEncode (t : Text) : octets ((formEncode t).map spaceOfPlus) = Text.utf8 t := by
  induction t with
  | nil => rfl
  | cons c t ih =>
    rw [formEncode_cons, List.map_append, octets_formEncode_singleton, ih]
    rfl

/-- The characters of an encoded text are ASCII characters, with spaces for plus signs too. -/
theorem lt_of_mem_map_spaceOfPlus (h : c ∈ (formEncode t).map spaceOfPlus) : c.toNat < 128 := by
  obtain ⟨d, hd, rfl⟩ := List.mem_map.mp h
  rw [spaceOfPlus]
  split
  · decide
  · exact (bounds_of_isFormChar (isFormChar_of_mem_formEncode hd)).2

/-- An encoded text is decoded to the text. -/
theorem formDecode_formEncode (t : Text) : formDecode (formEncode t) = t := by
  have hascii : ∀ c ∈ (formEncode t).map spaceOfPlus, c.toNat < 128 :=
    fun c hc => lt_of_mem_map_spaceOfPlus hc
  calc formDecode (formEncode t)
      = percentDecodeFrom [] ((formEncode t).map spaceOfPlus) := rfl
    _ = Text.ofUtf8 (octets ((formEncode t).map spaceOfPlus)) :=
        percentDecodeFrom_of_ascii hascii []
    _ = t := by rw [octets_formEncode, Text.ofUtf8_utf8]

/-- A character in front of an encoded text that decoding does not change stays there. -/
theorem formDecode_cons (hascii : c.toNat < 128) (hplus : c ≠ '+') (hpercent : c ≠ '%') (t : Text) :
    formDecode (c :: formEncode t) = c :: t := by
  have hall : ∀ d ∈ c :: (formEncode t).map spaceOfPlus, d.toNat < 128 :=
    List.forall_mem_cons.mpr ⟨hascii, fun d hd => lt_of_mem_map_spaceOfPlus hd⟩
  calc formDecode (c :: formEncode t)
      = percentDecodeFrom [] (spaceOfPlus c :: (formEncode t).map spaceOfPlus) := rfl
    _ = Text.ofUtf8 (octets (c :: (formEncode t).map spaceOfPlus)) := by
      rw [spaceOfPlus, if_neg hplus, percentDecodeFrom_of_ascii hall]
      rfl
    _ = c :: t := by
      rw [octets_cons hpercent, octets_formEncode, Text.ofUtf8_cons_of_lt hascii,
        Text.ofUtf8_utf8, Char.ofNat_toNat]

/-- Only the empty text is encoded by no character. -/
theorem formEncode_eq_nil_iff : formEncode t = [] ↔ t = [] := by
  constructor
  · intro h
    rw [← formDecode_formEncode t, h]
    rfl
  · rintro rfl
    rfl

/-! ## Characters that are kept -/

/-- Texts are encoded one behind the other. -/
theorem formEncode_append (s t : Text) : formEncode (s ++ t) = formEncode s ++ formEncode t :=
  List.flatMap_append

/-- A text of characters that are kept is encoded as itself. -/
theorem formEncode_of_safe (h : ∀ c ∈ t, isFormSafe c = true) : formEncode t = t := by
  induction t with
  | nil => rfl
  | cons c t ih =>
    obtain ⟨hc, ht⟩ := List.forall_mem_cons.mp h
    have hkept : formEncode [c] = [c] := by simp [formEncode, hc]
    rw [formEncode_cons, hkept, ih ht, List.singleton_append]

/-- A character is kept, or what is written for it begins with a mark and ends with a mark or a
hexadecimal digit. -/
theorem formEncode_kept_or_marked (c : Char) :
    formEncode [c] = [c] ∨ ((∃ mark more, formEncode [c] = mark :: more ∧ isFormSafe mark = false) ∧
      ∃ front last, formEncode [c] = front ++ [last] ∧
        (isFormSafe last = false ∨ (Text.hexValue? last).isSome = true)) := by
  rcases formEncode_cases c with ⟨hc, -⟩ | ⟨hc, -⟩ | hc
  · exact .inl hc
  · exact .inr ⟨⟨'+', [], hc, by decide⟩, [], '+', hc, .inl (by decide)⟩
  · have hlt : ∀ n ∈ Text.utf8Char c, n < 256 := fun n hn => Text.lt_of_mem_utf8Char hn
    have hne : Text.utf8Char c ≠ [] := by
      simp only [Text.utf8Char]
      split_ifs <;> simp
    refine .inr ⟨?_, ?_⟩
    · obtain ⟨n, ns, hns⟩ := List.exists_cons_of_ne_nil hne
      obtain ⟨a, b, hdigits, -⟩ := exists_percentOctet (hlt n (by simp [hns]))
      refine ⟨'%', a :: b :: ns.flatMap percentOctet, ?_, by decide⟩
      rw [hc, hns, List.flatMap_cons, hdigits]
      rfl
    · obtain ⟨ns, n, hns⟩ := (List.eq_nil_or_concat' (Text.utf8Char c)).resolve_left hne
      obtain ⟨a, b, hdigits, -, -, hb⟩ := exists_percentOctet (hlt n (by simp [hns]))
      refine ⟨ns.flatMap percentOctet ++ ['%', a], b, ?_, .inr (by simp [hb])⟩
      rw [hc, hns, List.flatMap_append, List.flatMap_singleton, hdigits, List.append_assoc]
      rfl

/-- What an encoded text begins with, as far as characters are kept, the text begins with. -/
theorem exists_append_of_formEncode (hu : ∀ c ∈ u, isFormSafe c = true)
    (h : formEncode t = u ++ v) : ∃ s, t = u ++ s ∧ v = formEncode s := by
  induction u generalizing t with
  | nil => exact ⟨t, rfl, h.symm⟩
  | cons c u ih =>
    obtain ⟨hc, hkept⟩ := List.forall_mem_cons.mp hu
    cases t with
    | nil => cases h
    | cons d t =>
      rw [formEncode_cons] at h
      rcases formEncode_kept_or_marked d with hd | ⟨⟨mark, more, hd, hmark⟩, -⟩
      · rw [hd] at h
        obtain ⟨rfl, htail⟩ := List.cons.inj h
        obtain ⟨s, rfl, hv⟩ := ih hkept htail
        exact ⟨s, rfl, hv⟩
      · rw [hd] at h
        obtain ⟨rfl, -⟩ := List.cons.inj h
        exact absurd hc (by simp [hmark])

/-- What an encoded text ends with, as far as characters are kept and are no hexadecimal digits, the
text ends with. -/
theorem suffix_of_formEncode (hu : ∀ c ∈ u, isFormSafe c = true ∧ Text.hexValue? c = none)
    (h : u <:+ formEncode t) : u <:+ t := by
  induction u using List.reverseRecOn generalizing t with
  | nil => exact List.nil_suffix
  | append_singleton u c ih =>
    obtain ⟨hkept, hlast⟩ := List.forall_mem_append.mp hu
    obtain ⟨hc, hdigit⟩ := List.forall_mem_singleton.mp hlast
    obtain ⟨front, hfront⟩ := h
    rcases List.eq_nil_or_concat' t with rfl | ⟨s, d, rfl⟩
    · simp [formEncode] at hfront
    rw [formEncode_append, ← List.append_assoc] at hfront
    rcases formEncode_kept_or_marked d with hd | ⟨-, more, last, hd, hmarked⟩
    · rw [hd] at hfront
      obtain ⟨hs, hend⟩ := List.append_inj' hfront rfl
      obtain rfl := List.singleton_inj.mp hend
      obtain ⟨v, rfl⟩ := ih hkept ⟨front, hs⟩
      exact ⟨v, by rw [List.append_assoc]⟩
    · rw [hd, ← List.append_assoc] at hfront
      obtain rfl := List.singleton_inj.mp (List.append_inj_right' hfront rfl)
      simp [hc, hdigit] at hmarked

/-! ## Fields -/

/-- A field holds the characters of encoded texts and an equals sign. -/
theorem isFormChar_of_mem_formField (h : c ∈ formField name value) :
    isFormChar c = true ∨ c = '=' := by
  rcases List.mem_append.mp h with h | h
  · exact .inl (isFormChar_of_mem_formEncode h)
  · exact (List.mem_cons.mp h).symm.imp_left isFormChar_of_mem_formEncode

/-- A field does not hold any other character. -/
theorem not_mem_formField (hform : isFormChar c = false) (hequals : c ≠ '=') (name value : Text) :
    c ∉ formField name value := by
  intro h
  rcases isFormChar_of_mem_formField h with hc | hc
  · exact Bool.false_ne_true (hform.symm.trans hc)
  · exact hequals hc

/-- A field is not empty. -/
theorem formField_ne_nil (name value : Text) : formField name value ≠ [] :=
  List.append_ne_nil_of_right_ne_nil _ (List.cons_ne_nil _ _)

/-- A field is read as the name and the value that it is written from, unless blank values are
dropped and this one is blank. -/
theorem fieldOf_formField (keep : Bool) (name value : Text) :
    fieldOf formDecode '=' keep (formField name value) =
      if keep || !value.isEmpty then some (name, value) else none := by
  have hblank : (formEncode value).isEmpty = value.isEmpty := by
    rw [Bool.eq_iff_iff, List.isEmpty_iff, List.isEmpty_iff, formEncode_eq_nil_iff]
  rw [fieldOf, if_neg (formField_ne_nil name value), formField,
    Text.cutFirst_append_cons (not_mem_formEncode (by decide) name)]
  simp only [Option.getD_some, hblank, formDecode_formEncode]

/-- The fields of two queries with a separator between them. -/
theorem formFields_append (query more : Text) :
    formFields keep (query ++ '&' :: more) = formFields keep query ++ formFields keep more := by
  rw [formFields, Text.split_append_sep, List.filterMap_append, ← formFields, ← formFields]

/-- A query of encoded names and values. -/
def formQuery (pairs : List (Text × Text)) : Text :=
  Text.join ['&'] (pairs.map fun pair => formField pair.1 pair.2)

/-- The fields of a query stand one behind the other with separators in between. -/
theorem formQuery_cons (name value : Text) (hpairs : pairs ≠ []) :
    formQuery ((name, value) :: pairs) = formField name value ++ '&' :: formQuery pairs := by
  obtain ⟨pair, pairs, rfl⟩ := List.exists_cons_of_ne_nil hpairs
  exact List.append_assoc ..

/-- A query of at least one field is not empty. -/
theorem formQuery_ne_nil (h : pairs ≠ []) : formQuery pairs ≠ [] := by
  refine Text.join_ne_nil (by simpa using h) fun field hfield => ?_
  obtain ⟨pair, -, rfl⟩ := List.mem_map.mp hfield
  exact formField_ne_nil pair.1 pair.2

/-- A query holds the characters of encoded texts, equals signs and separators. -/
theorem isFormChar_of_mem_formQuery (h : c ∈ formQuery pairs) :
    isFormChar c = true ∨ c = '=' ∨ c = '&' := by
  by_contra hnone
  simp only [not_or, Bool.not_eq_true] at hnone
  obtain ⟨hform, hequals, hseparator⟩ := hnone
  refine Text.not_mem_join (List.not_mem_cons_of_ne_of_not_mem hseparator List.not_mem_nil) ?_ h
  intro field hfield
  obtain ⟨pair, -, rfl⟩ := List.mem_map.mp hfield
  exact not_mem_formField hform hequals pair.1 pair.2

/-- The code points of the characters that a query may hold. -/
theorem bounds_of_mem_formQuery (h : c ∈ formQuery pairs) : 32 < c.toNat ∧ c.toNat < 128 := by
  rcases isFormChar_of_mem_formQuery h with hform | rfl | rfl
  · exact bounds_of_isFormChar hform
  · decide
  · decide

/-- A query does not hold any other character. -/
theorem not_mem_formQuery (hform : isFormChar c = false) (hother : c ≠ '=' ∧ c ≠ '&')
    (pairs : List (Text × Text)) : c ∉ formQuery pairs := by
  intro h
  rcases isFormChar_of_mem_formQuery h with hc | hc | hc
  · exact Bool.false_ne_true (hform.symm.trans hc)
  · exact hother.1 hc
  · exact hother.2 hc

/-- The names and values of a query are read in order, without blank values if these are not asked
for. -/
theorem formFields_formQuery (keep : Bool) (pairs : List (Text × Text)) :
    formFields keep (formQuery pairs) = pairs.filter fun pair => keep || !pair.2.isEmpty := by
  have hfields : ∀ field ∈ pairs.map (fun pair => formField pair.1 pair.2), '&' ∉ field := by
    rintro _ hfield
    obtain ⟨pair, -, rfl⟩ := List.mem_map.mp hfield
    exact not_mem_formField (by decide) (by decide) _ _
  by_cases hpairs : pairs = []
  · subst hpairs
    rfl
  · rw [formFields, formQuery, Text.split_join (by simpa using hpairs) hfields, List.filterMap_map,
      ← List.filterMap_eq_filter]
    refine List.filterMap_congr fun pair _ => ?_
    rw [Function.comp_apply, fieldOf_formField]
    rfl

/-- A single field is a query, and its value may be blank if blank values are asked for. -/
theorem formFields_formField (name value : Text) :
    formFields true (formField name value) = [(name, value)] :=
  formFields_formQuery true [(name, value)]

/-! ## Raw queries -/

/-- A text is decoded in one piece. -/
theorem rawDecodeFrom_raw (piece t : Text) :
    rawDecodeFrom piece t.raw = Text.raw (formDecode (piece.reverse ++ t)) := by
  induction t generalizing piece with
  | nil => rw [List.append_nil]; rfl
  | cons c t ih =>
    have hnext : rawDecodeFrom piece (Text.raw (c :: t)) =
        rawDecodeFrom (c :: piece) (Text.raw t) := rfl
    rw [hnext, ih, List.reverse_cons, List.append_assoc, List.singleton_append]

/-- A field is read the same as a raw text. -/
theorem fieldOf_raw (keep : Bool) (field : Text) :
    fieldOf (rawDecodeFrom []) (.char '=') keep field.raw =
      (fieldOf formDecode '=' keep field).map (Prod.map Text.raw Text.raw) := by
  have hdecode : ∀ t, rawDecodeFrom [] (Text.raw t) = Text.raw (formDecode t) :=
    rawDecodeFrom_raw []
  have hempty : field.raw = [] ↔ field = [] := List.map_eq_nil_iff
  rw [fieldOf, fieldOf, Text.cutFirst_raw]
  by_cases hfield : field = []
  · rw [if_pos hfield, if_pos (hempty.mpr hfield)]
    rfl
  · rw [if_neg hfield, if_neg (mt hempty.mp hfield)]
    have hvalue : ((Text.cutFirst '=' field).2.map Text.raw).getD [] =
        Text.raw ((Text.cutFirst '=' field).2.getD []) := by
      cases (Text.cutFirst '=' field).2 <;> rfl
    have hblank : ∀ t, (Text.raw t).isEmpty = t.isEmpty := fun t => by cases t <;> rfl
    simp only [hvalue, hblank, hdecode]
    split <;> rfl

/-- The fields of a query are the same as those of the raw query. -/
theorem rawFields_raw (query : Text) :
    rawFields query.raw = (formFields false query).map (Prod.map Text.raw Text.raw) := by
  rw [rawFields, Text.split_raw, List.filterMap_map, formFields, List.map_filterMap]
  exact List.filterMap_congr fun field _ => fieldOf_raw false field

end Playable.Url
