import Mathlib.Data.List.Basic
import Playable.Manifest.Playlist
import Playable.Proofs.Pattern.Take
import Playable.Proofs.Text.Cut
import Playable.Text.Lines

/-!
# Written attributes

Attributes are written one behind the other with commas between them. Reading them gives their
names, folded to small letters and underscores, with their values. A value in quotes may hold
commas and whole attributes; they are a part of the value.
-/

namespace Playable.Manifest

open Pattern

/-- A character of the name of an attribute. -/
def isNameChar (c : Char) : Bool :=
  c.isUpper || c = '-'

/-- An attribute: its name, its value, and whether the value stands in quotes. -/
structure Attribute where
  /-- The name. -/
  name : Text
  /-- The value. -/
  value : Text
  /-- Whether the value stands in quotes. -/
  quoted : Bool

namespace Attribute

/-- What is written for an attribute. -/
def toText (a : Attribute) : Text :=
  a.name ++ "=".toList ++ if a.quoted then "\"".toList ++ a.value ++ "\"".toList else a.value

/-- What is read from an attribute. -/
def entry (a : Attribute) : Text × Text :=
  (attributeName a.name, a.value)

/-- An attribute that can be written on a line: there is nothing in its name and its value that
would end them too early. -/
structure IsWritable (a : Attribute) : Prop where
  /-- There is a name. -/
  name_ne_nil : a.name ≠ []
  /-- The name consists of capitals and dashes. -/
  name_chars : ∀ c ∈ a.name, isNameChar c = true
  /-- A value in quotes holds no quotes, and no line ends in it. -/
  quoted_value : a.quoted = true → ∀ c ∈ a.value, c ≠ '"' ∧ Text.endsLine c = false
  /-- Another value is not empty. -/
  plain_ne_nil : a.quoted = false → a.value ≠ []
  /-- Another value holds no quotes, no commas and no blanks. -/
  plain_value : a.quoted = false → ∀ c ∈ a.value, c ≠ '"' ∧ c ≠ ',' ∧ Text.isBlank c = false

end Attribute

variable {a : Attribute} {as : List Attribute} {before rest t : Text} {c : Char}

/-! ## Names -/

/-- A character of a folded name. -/
def foldNameChar (c : Char) : Char :=
  if c.toLower = '-' then '_' else c.toLower

/-- A folded name is folded character by character. -/
theorem attributeName_eq (name : Text) : attributeName name = name.map foldNameChar :=
  List.map_map

/-- A character of a name is an ASCII character above the space. -/
theorem isNameChar_bounds (h : isNameChar c = true) : 32 < c.toNat ∧ c.toNat < 128 := by
  have hupper : c.isUpper = decide ('A'.val ≤ c.val ∧ c.val ≤ 'Z'.val) := rfl
  simp only [isNameChar, hupper, Bool.or_eq_true, decide_eq_true_eq,
    UInt32.le_iff_toNat_le] at h
  rcases h with ⟨hlow, hhigh⟩ | rfl
  · exact ⟨Nat.lt_of_lt_of_le (by decide) hlow, Nat.lt_of_le_of_lt hhigh (by decide)⟩
  · decide

/-- What a character of a folded name was before. -/
def unfoldNameChar (c : Char) : Char :=
  if c = '_' then '-' else c.toUpper

/-- No character of a name is lost by folding. -/
theorem unfoldNameChar_foldNameChar (h : isNameChar c = true) :
    unfoldNameChar (foldNameChar c) = c := by
  have hall : ∀ n < 128, isNameChar (Char.ofNat n) = true →
      unfoldNameChar (foldNameChar (Char.ofNat n)) = Char.ofNat n := by
    decide +kernel
  have hchar := hall c.toNat (isNameChar_bounds h).2
  rw [Char.ofNat_toNat] at hchar
  exact hchar h

/-- Folding keeps names apart. -/
theorem attributeName_injective {name other : Text} (hname : ∀ c ∈ name, isNameChar c = true)
    (hother : ∀ c ∈ other, isNameChar c = true) (h : attributeName name = attributeName other) :
    name = other := by
  have hundo : ∀ t : Text, (∀ c ∈ t, isNameChar c = true) →
      (attributeName t).map unfoldNameChar = t := fun t ht => by
    rw [attributeName_eq, List.map_map]
    exact (List.map_congr_left fun c hc => unfoldNameChar_foldNameChar (ht c hc)).trans
      (List.map_id t)
  rw [← hundo name hname, ← hundo other hother, h]

/-! ## One attribute -/

/-- An attribute begins with a character of its name. -/
theorem exists_cons_of_attributeShape_begins (h : attributeShape.Begins before t) :
    ∃ c more, t = c :: more ∧ isNameChar c = true := by
  obtain ⟨_, rest, rfl, ⟨_, more, rfl, ⟨c, hc, rfl⟩, _⟩⟩ := h.front.front
  exact ⟨c, more ++ rest, rfl, hc⟩

/-- A comma does not begin an attribute. -/
theorem not_attributeShape_begins_comma : ¬ attributeShape.Begins before (',' :: t) := by
  intro h
  obtain ⟨c, more, heq, hc⟩ := exists_cons_of_attributeShape_begins h
  obtain ⟨rfl, _⟩ := List.cons.inj heq
  exact absurd hc (by decide)

/-- The empty text does not begin an attribute. -/
theorem not_attributeShape_begins_nil : ¬ attributeShape.Begins before [] := by
  intro h
  obtain ⟨c, more, heq, _⟩ := exists_cons_of_attributeShape_begins h
  exact List.cons_ne_nil c more heq.symm

/-- The shape of a value: in quotes, or up to the next comma. -/
def valueShape : Pattern :=
  either (lit "\"" ++ label "quoted" (manyBut "\"") ++ lit "\"") (label "plain" (someBut ","))

/-- A value in quotes is taken with its quotes, whatever follows. -/
theorem valueShape_takes_quoted {value : Text} {labels : List (String × Text)}
    (hvalue : ∀ c ∈ value, c ≠ '"') :
    valueShape.Takes before ("\"".toList ++ value ++ "\"".toList) rest labels
      (("quoted", value) :: labels) := by
  have hchars : ∀ c ∈ value, (!"\"".toList.contains c) = true := fun c hc => by
    simpa using hvalue c hc
  refine takes_left (Takes.append (Takes.append (takes_lit "\"") ?_) (takes_lit "\""))
  exact takes_label "quoted" (takes_many hchars rfl)

/-- Another value is taken up to a comma, or the end. -/
theorem valueShape_takes_plain {value : Text} {labels : List (String × Text)} (hne : value ≠ [])
    (hvalue : ∀ c ∈ value, c ≠ '"' ∧ c ≠ ',') (hrest : rest.head?.all (· = ',') = true) :
    valueShape.Takes before value rest labels (("plain", value) :: labels) := by
  have hchars : ∀ c ∈ value, (!",".toList.contains c) = true := fun c hc => by
    simpa using (hvalue c hc).2
  refine takes_right ?_ (takes_label "plain" (takes_some1 hne hchars ?_))
  · intro hbegins
    obtain ⟨_, after, heq, rfl, _⟩ := hbegins.front.front
    obtain ⟨c, value, rfl⟩ := List.exists_cons_of_ne_nil hne
    obtain ⟨rfl, _⟩ := List.cons.inj heq
    exact (hvalue _ List.mem_cons_self).1 rfl
  · cases rest with
    | nil => rfl
    | cons c rest =>
      obtain rfl : c = ',' := by simpa using hrest
      rfl

/-- What the shape of an attribute labels in an attribute. -/
def Attribute.labels (a : Attribute) : List (String × Text) :=
  [(if a.quoted then "quoted" else "plain", a.value), ("name", a.name)]

/-- The shape of an attribute takes an attribute in front of a comma, or at the end. -/
theorem attributeShape_takes (h : a.IsWritable) (before : Text)
    (hrest : rest.head?.all (· = ',') = true) :
    attributeShape.Takes before a.toText rest [] a.labels := by
  have hname (behind : Text) : (label "name" (some1 isNameChar) ++ lit "=").Takes before
      (a.name ++ "=".toList) behind [] [("name", a.name)] :=
    Takes.append (takes_label "name" (takes_some1 h.name_ne_nil h.name_chars rfl)) (takes_lit "=")
  refine Takes.append (hname _) ?_
  rw [Attribute.labels]
  cases hquoted : a.quoted with
  | true => exact valueShape_takes_quoted fun c hc => (h.quoted_value hquoted c hc).1
  | false =>
    have hvalue : ∀ c ∈ a.value, c ≠ '"' ∧ c ≠ ',' := fun c hc =>
      (h.plain_value hquoted c hc).imp_right And.left
    exact valueShape_takes_plain (h.plain_ne_nil hquoted) hvalue hrest

/-! ## Attributes behind each other -/

/-- What is read from the match of an attribute. -/
def entryOfMatch (m : Cursor) : Text × Text :=
  let quoted := m.capture "quoted"
  (attributeName (m.capture "name"), if quoted = [] then m.capture "plain" else quoted)

/-- The match of an attribute is read as its entry. -/
theorem entryOfMatch_after {captures : List (String × Capture)}
    (h : labelled captures = a.labels) (before rest : Text) :
    entryOfMatch (Cursor.after before rest captures) = a.entry := by
  simp only [entryOfMatch, Cursor.capture, Cursor.capture?_after, h, Attribute.labels,
    Attribute.entry]
  cases a.quoted with
  | true => by_cases hvalue : a.value = [] <;> simp [List.lookup_cons, hvalue]
  | false => simp [List.lookup_cons]

/-- An attribute is not empty. -/
theorem Attribute.toText_ne_nil (a : Attribute) : a.toText ≠ [] := by
  simp [toText]

/-- Attributes behind a first one, each with a comma in front of it. -/
def attributesTail (as : List Attribute) : Text :=
  (as.map Attribute.toText).flatMap ([','] ++ ·)

/-- Attributes behind a first one go on with a comma, or end. -/
theorem attributesTail_head? (as : List Attribute) :
    (attributesTail as).head?.all (· = ',') = true := by
  cases as <;> rfl

/-- An attribute is found, and the search goes on behind it. -/
theorem matchesBehind_attribute (h : a.IsWritable) (hrest : rest.head?.all (· = ',') = true)
    (before : Text) :
    (attributeShape.matchesBehind before (a.toText ++ rest)).map entryOfMatch =
      a.entry :: (attributeShape.matchesBehind (before ++ a.toText) rest).map entryOfMatch := by
  obtain ⟨captures, hlabels, hfound⟩ :=
    matchesBehind_of_takes (attributeShape_takes h before hrest) a.toText_ne_nil
  rw [hfound, List.map_cons, entryOfMatch_after hlabels]

/-- The attributes behind a first one are found one after the other. -/
theorem matchesBehind_attributesTail (h : ∀ a ∈ as, a.IsWritable) (before : Text) :
    (attributeShape.matchesBehind before (attributesTail as)).map entryOfMatch =
      as.map Attribute.entry := by
  induction as generalizing before with
  | nil => exact congrArg _ (matchesBehind_nil not_attributeShape_begins_nil)
  | cons a as ih =>
    obtain ⟨ha, has⟩ := List.forall_mem_cons.mp h
    have hcomma : attributeShape.matchesBehind before ([','] ++ (a.toText ++ attributesTail as)) =
        attributeShape.matchesBehind (before ++ [',']) (a.toText ++ attributesTail as) := by
      refine matchesBehind_skip fun u v huv hv => ?_
      rcases List.append_eq_singleton_iff.mp huv with ⟨rfl, rfl⟩ | ⟨rfl, rfl⟩
      · exact not_attributeShape_begins_comma
      · exact absurd rfl hv
    have htail : attributesTail (a :: as) = [','] ++ (a.toText ++ attributesTail as) := by
      simp [attributesTail]
    rw [htail, hcomma, matchesBehind_attribute ha (attributesTail_head? as), ih has]
    rfl

/-- Reading written attributes gives their entries, in order. -/
theorem attributes_join (h : ∀ a ∈ as, a.IsWritable) :
    attributes (Text.join [','] (as.map Attribute.toText)) = as.map Attribute.entry := by
  cases as with
  | nil => exact matchesBehind_attributesTail h []
  | cons a as =>
    obtain ⟨ha, has⟩ := List.forall_mem_cons.mp h
    have hjoin : Text.join [','] ((a :: as).map Attribute.toText) =
        a.toText ++ attributesTail as := Text.join_cons _ _ _
    have hread := matchesBehind_attribute ha (attributesTail_head? as) []
    rw [matchesBehind_attributesTail has] at hread
    rw [hjoin]
    exact hread

/-! ## Lines of attributes -/

/-- A character that ends a line is blank. -/
theorem endsLine_of_isBlank (h : Text.isBlank c = false) : Text.endsLine c = false := by
  rw [← Bool.not_eq_true] at h ⊢
  refine fun hends => h ?_
  simp only [Text.endsLine, Bool.or_eq_true, Bool.and_eq_true, decide_eq_true_eq] at hends
  simp only [Text.isBlank, Text.inRanges, Text.wideBlanks, List.any_cons, Bool.or_eq_true,
    Bool.and_eq_true, decide_eq_true_eq]
  omega

/-- No line ends inside an attribute. -/
theorem Attribute.IsWritable.toText_line (h : a.IsWritable) :
    ∀ c ∈ a.toText, Text.endsLine c = false := by
  intro c hc
  rcases List.mem_append.mp hc with hc | hc
  · rcases List.mem_append.mp hc with hc | hc
    · obtain ⟨hlow, hhigh⟩ := isNameChar_bounds (h.name_chars c hc)
      exact endsLine_of_isBlank (Text.isBlank_of_bounds hlow hhigh)
    · obtain rfl := List.mem_singleton.mp hc
      rfl
  · cases hquoted : a.quoted with
    | true =>
      have hparts : c = '"' ∨ c ∈ a.value := by
        simpa [hquoted, or_comm] using hc
      rcases hparts with rfl | hc
      · rfl
      · exact (h.quoted_value hquoted c hc).2
    | false =>
      have hvalue : c ∈ a.value := by simpa [hquoted] using hc
      exact endsLine_of_isBlank (h.plain_value hquoted c hvalue).2.2

/-- An attribute does not end with a blank. -/
theorem Attribute.IsWritable.toText_getLast? (h : a.IsWritable) :
    a.toText.getLast?.any Text.isBlank = false := by
  rw [toText]
  cases hquoted : a.quoted with
  | true =>
    rw [if_pos rfl, ← List.append_assoc]
    exact (List.getLast?_append_of_ne_nil _ (List.cons_ne_nil '"' [])).symm ▸ rfl
  | false =>
    rw [if_neg Bool.false_ne_true, List.getLast?_append_of_ne_nil _ (h.plain_ne_nil hquoted)]
    cases hlast : a.value.getLast? with
    | none => rfl
    | some c => exact (h.plain_value hquoted c (List.mem_of_getLast? hlast)).2.2

end Playable.Manifest
