import Playable.Proofs.Manifest.Attribute
import Playable.Proofs.Manifest.Isolation
import Playable.Proofs.Number.Printed
import Playable.Proofs.Register

/-!
# Written playlists

A playlist can be written from a list of renditions: two lines for each, one with its attributes in
any order, and one with its place. Reading the playlist gives one stream for each rendition, in
order, and the stream has all that was written of the rendition.
-/

namespace Playable.Manifest

open Pattern Record

/-- The name of the attribute with a bit rate. -/
def bandwidthName : Text :=
  "BANDWIDTH".toList

/-- The name of the attribute with a width and a height. -/
def resolutionName : Text :=
  "RESOLUTION".toList

/-- The name of the attribute with the codecs. -/
def codecsName : Text :=
  "CODECS".toList

/-- The name of the attribute with a frame rate. -/
def frameRateName : Text :=
  "FRAME-RATE".toList

/-- The names of the attributes that a stream depends on. -/
def reservedNames : List Text :=
  [bandwidthName, resolutionName, codecsName, frameRateName]

/-- The attribute with a bit rate. -/
def bandwidthAttribute (bandwidth : Nat) : Attribute :=
  ⟨bandwidthName, Text.ofNat bandwidth, false⟩

/-- The attribute with a width and a height. -/
def resolutionAttribute (size : Nat × Nat) : Attribute :=
  ⟨resolutionName, Text.ofNat size.1 ++ 'x' :: Text.ofNat size.2, false⟩

/-- An attribute of any name with a value in quotes. -/
def quotedAttribute (named : Text × Text) : Attribute :=
  ⟨named.1, named.2, true⟩

/-- The attribute with the codecs. -/
def codecsAttribute (codecs : Text) : Attribute :=
  quotedAttribute (codecsName, codecs)

/-- The attributes that become a part of the stream. -/
def knownAttributes (bandwidth : Nat) (resolution : Option (Nat × Nat)) (codecs : Option Text) :
    List Attribute :=
  bandwidthAttribute bandwidth ::
    (resolution.map resolutionAttribute).toList ++ (codecs.map codecsAttribute).toList

/-- A text that can stand in quotes on a line. -/
def IsQuotable (t : Text) : Prop :=
  ∀ c ∈ t, c ≠ '"' ∧ Text.endsLine c = false

instance (t : Text) : Decidable (IsQuotable t) :=
  List.decidableBAll (fun c => c ≠ '"' ∧ Text.endsLine c = false) t

/-- An integer that is not too long to be read. -/
def IsReadable (n : Nat) : Prop :=
  (Text.ofNat n).length ≤ Number.maxDigits

instance (n : Nat) : Decidable (IsReadable n) :=
  inferInstanceAs (Decidable ((Text.ofNat n).length ≤ Number.maxDigits))

/-- The first number of an encoding that stands in a place is this one. -/
def HasItag (uri : Text) (itag : Nat) : Prop :=
  ∃ front back, uri = front ++ ("/itag/".toList ++ Text.ofNat itag ++ "/".toList) ++ back ∧
    ∀ earlier digits later, uri = earlier ++ ("/itag/".toList ++ digits ++ "/".toList) ++ later →
      digits ≠ [] → (∀ c ∈ digits, Text.isDecimalDigit c = true) → front.length ≤ earlier.length

/-- What can be written as a variant of a playlist. -/
structure Rendition where
  /-- The bit rate. -/
  bandwidth : Nat
  /-- The width and the height of the picture, if they are given. -/
  resolution : Option (Nat × Nat)
  /-- The codecs, if they are given. -/
  codecs : Option Text
  /-- The names and the values of further attributes. -/
  others : List (Text × Text)
  /-- All attributes, in the order in which they are written. -/
  attributes : List Attribute
  /-- The number of the encoding. -/
  itag : Nat
  /-- The place. -/
  uri : Text
  /-- The bit rate is not too long. -/
  bandwidth_readable : IsReadable bandwidth
  /-- Neither the width nor the height is too long. -/
  resolution_readable : ∀ size ∈ resolution, IsReadable size.1 ∧ IsReadable size.2
  /-- The codecs are not empty, and can stand in quotes. -/
  codecs_quotable : ∀ text ∈ codecs, text ≠ [] ∧ IsQuotable text
  /-- Further attributes have names of capitals and dashes. -/
  others_name : ∀ other ∈ others, other.1 ≠ [] ∧ ∀ c ∈ other.1, isNameChar c = true
  /-- Further attributes are none of those that a stream depends on. -/
  others_new : ∀ other ∈ others, other.1 ∉ reservedNames
  /-- The values of further attributes can stand in quotes. -/
  others_quotable : ∀ other ∈ others, IsQuotable other.2
  /-- The attributes are written in any order. -/
  attributes_perm :
    attributes.Perm (knownAttributes bandwidth resolution codecs ++ others.map quotedAttribute)
  /-- The number of the encoding is not too long. -/
  itag_readable : IsReadable itag
  /-- The place names the encoding. -/
  uri_itag : HasItag uri itag
  /-- No line ends inside the place. -/
  uri_line : ∀ c ∈ uri, Text.endsLine c = false
  /-- There are no blanks around the place. -/
  uri_bare : Text.strip uri = uri
  /-- The place does not begin like a comment or a tag. -/
  uri_head : uri.head? ≠ some '#'

/-- The quality of a picture of a height has the greatest threshold up to the height; below all
thresholds it is the lowest one, and without a height a middle one. -/
def IsQuality (height : Option Nat) (quality : Text) : Prop :=
  match height with
  | none => quality = "hd720".toList
  | some height =>
    (∃ threshold, (threshold, quality) ∈ qualityThresholds ∧ threshold ≤ height ∧
      ∀ other ∈ qualityThresholds, other.1 ≤ height → other.1 ≤ threshold) ∨
    (∀ other ∈ qualityThresholds, (height : Int) < other.1) ∧ quality = "tiny".toList

namespace Rendition

/-- The line with the attributes. -/
def line (r : Rendition) : Text :=
  "#EXT-X-STREAM-INF:".toList ++ Text.join [','] (r.attributes.map Attribute.toText)

/-- A stream has all that is written of a rendition, and nothing else. -/
structure Describes (r : Rendition) (stream : Stream) : Prop where
  /-- The number of the encoding. -/
  itag : stream.itag = r.itag
  /-- The place. -/
  url : stream.url = r.uri
  /-- The bit rate. -/
  bitrate : stream.bitrate = some (r.bandwidth : Int)
  /-- The width, if it is given. -/
  width : stream.width = r.resolution.map fun size => (size.1 : Int)
  /-- The height, if it is given. -/
  height : stream.height = r.resolution.map fun size => (size.2 : Int)
  /-- The media type, with the codecs if they are given. -/
  mimeType : stream.mimeType = some ("video/mp4".toList ++
    (r.codecs.map fun text => "; codecs=\"".toList ++ text ++ "\"".toList).getD [])
  /-- The quality that goes with the height. -/
  quality : ∃ quality, stream.quality = some quality ∧ IsQuality (r.resolution.map (·.2)) quality
  /-- The frame rate is not known. -/
  fps : stream.fps = none
  /-- The stream comes from a playlist. -/
  isHls : stream.isHls = true

end Rendition

/-- The first line of a playlist. -/
def headerLine : Text :=
  "#EXTM3U".toList

/-- A playlist: its first line, and two lines for each of its renditions. -/
def masterPlaylist (renditions : List Rendition) : Text :=
  Text.join ['\n'] (headerLine :: renditions.flatMap fun r => [r.line, r.uri])

variable {r : Rendition} {a : Attribute} {name value : Text}

/-! ## The attributes of a rendition -/

/-- The reserved names consist of capitals and dashes. -/
theorem isNameChar_of_reserved (h : name ∈ reservedNames) : ∀ c ∈ name, isNameChar c = true := by
  have hall : ∀ name ∈ reservedNames, name.all isNameChar = true := by decide
  exact List.all_eq_true.mp (hall name h)

/-- A printed number can be written without quotes. -/
theorem plain_ofNat {n : Nat} {c : Char} (h : c ∈ Text.ofNat n) :
    c ≠ '"' ∧ c ≠ ',' ∧ Text.isBlank c = false := by
  have hdigit := Number.isDigit_of_mem_ofNat h
  refine ⟨?_, ?_, Number.isBlank_of_isDigit hdigit⟩ <;> rintro rfl <;> cases hdigit

/-- The attribute with a bit rate can be written. -/
theorem bandwidthAttribute_isWritable (n : Nat) : (bandwidthAttribute n).IsWritable where
  name_ne_nil := List.cons_ne_nil _ _
  name_chars := isNameChar_of_reserved List.mem_cons_self
  quoted_value := nofun
  plain_ne_nil _ := Number.ofNat_ne_nil n
  plain_value _ _ hc := plain_ofNat hc

/-- The attribute with a width and a height can be written. -/
theorem resolutionAttribute_isWritable (size : Nat × Nat) :
    (resolutionAttribute size).IsWritable where
  name_ne_nil := List.cons_ne_nil _ _
  name_chars := isNameChar_of_reserved (by simp [reservedNames, resolutionAttribute])
  quoted_value := nofun
  plain_ne_nil _ := List.append_ne_nil_of_right_ne_nil _ (List.cons_ne_nil _ _)
  plain_value _ c hc := by
    rcases List.mem_append.mp hc with hc | hc
    · exact plain_ofNat hc
    · rcases List.mem_cons.mp hc with rfl | hc
      · decide
      · exact plain_ofNat hc

/-- An attribute with a value in quotes can be written. -/
theorem quotedAttribute_isWritable {named : Text × Text} (hne : named.1 ≠ [])
    (hname : ∀ c ∈ named.1, isNameChar c = true) (hvalue : IsQuotable named.2) :
    (quotedAttribute named).IsWritable where
  name_ne_nil := hne
  name_chars := hname
  quoted_value _ := hvalue
  plain_ne_nil := nofun
  plain_value := nofun

namespace Rendition

/-- The attributes of a rendition that become a part of the stream. -/
def known (r : Rendition) : List Attribute :=
  knownAttributes r.bandwidth r.resolution r.codecs

/-- An attribute of a rendition is a known one, or a further one. -/
theorem mem_attributes : a ∈ r.attributes ↔
    a ∈ r.known ∨ ∃ other ∈ r.others, quotedAttribute other = a := by
  rw [r.attributes_perm.mem_iff, List.mem_append, List.mem_map]
  rfl

/-- All attributes of a rendition can be written. -/
theorem isWritable_of_mem (h : a ∈ r.attributes) : a.IsWritable := by
  rcases mem_attributes.mp h with hknown | ⟨other, hother, rfl⟩
  · simp only [known, knownAttributes, List.cons_append, List.mem_cons, List.mem_append,
      Option.mem_toList, Option.map_eq_some_iff] at hknown
    rcases hknown with rfl | ⟨size, -, rfl⟩ | ⟨text, htext, rfl⟩
    · exact bandwidthAttribute_isWritable _
    · exact resolutionAttribute_isWritable size
    · have hname : codecsName ∈ reservedNames := by simp [reservedNames]
      have hwritable : (quotedAttribute (codecsName, text)).IsWritable :=
        quotedAttribute_isWritable (List.cons_ne_nil _ _) (isNameChar_of_reserved hname)
          (r.codecs_quotable text htext).2
      exact hwritable
  · obtain ⟨hne, hname⟩ := r.others_name other hother
    exact quotedAttribute_isWritable hne hname (r.others_quotable other hother)

/-- An attribute with a reserved name is a known one. -/
theorem mem_known_of_reserved (h : a ∈ r.attributes) (hname : a.name ∈ reservedNames) :
    a ∈ r.known := by
  rcases mem_attributes.mp h with hknown | ⟨other, hother, rfl⟩
  · exact hknown
  · exact absurd hname (r.others_new other hother)

/-- The names of the known attributes. -/
theorem names_known (r : Rendition) :
    (r.known.map (·.name)).Sublist [bandwidthName, resolutionName, codecsName] := by
  rw [known, knownAttributes]
  cases r.resolution <;> cases r.codecs <;>
    simp [bandwidthAttribute, resolutionAttribute, codecsAttribute, quotedAttribute]

/-- The known attributes by name. -/
def knownValues (r : Rendition) : Register Text :=
  r.known.map fun a => (a.name, a.value)

/-- A value is read under a reserved name exactly if a known attribute has it. -/
theorem mem_entries_iff (hname : name ∈ reservedNames) (line : Text) :
    (attributeName name, value) ∈
        ("raw_stream_inf".toList, line) :: r.attributes.map Attribute.entry ↔
      (name, value) ∈ r.knownValues := by
  have hraw : ∀ name ∈ reservedNames, attributeName name ≠ "raw_stream_inf".toList := by decide
  have hchars := isNameChar_of_reserved hname
  simp only [List.mem_cons, Prod.mk.injEq, hraw name hname, false_and, false_or, List.mem_map,
    knownValues, Attribute.entry]
  constructor
  · rintro ⟨a, ha, hfolded, rfl⟩
    have heq : a.name = name :=
      attributeName_injective (isWritable_of_mem ha).name_chars hchars hfolded
    exact ⟨a, mem_known_of_reserved ha (heq ▸ hname), heq, rfl⟩
  · rintro ⟨a, ha, rfl, rfl⟩
    exact ⟨a, mem_attributes.mpr (.inl ha), rfl, rfl⟩

/-- What a stream depends on is read from the known attributes alone. -/
theorem get?_entries (r : Rendition) (hname : name ∈ reservedNames) (line : Text) :
    Register.get? (Register.ofPairs
        (("raw_stream_inf".toList, line) :: r.attributes.map Attribute.entry))
      (attributeName name) = Register.get? r.knownValues name := by
  rw [Register.get?_ofPairs]
  cases hvalue : Register.get? r.knownValues name with
  | none =>
    refine Register.get?_eq_none_iff.mpr fun hmem => ?_
    obtain ⟨value, hvalue'⟩ := Register.mem_names_iff.mp hmem
    have hknown := (mem_entries_iff hname line).mp (List.mem_reverse.mp hvalue')
    exact Register.get?_eq_none_iff.mp hvalue (Register.mem_names_iff.mpr ⟨value, hknown⟩)
  | some value =>
    have hnodup : (Register.names r.knownValues).Nodup := by
      have hnames : Register.names r.knownValues = r.known.map (·.name) := List.map_map
      rw [hnames]
      exact (names_known r).nodup (by decide)
    have hmem := (mem_entries_iff hname line).mpr (Register.mem_of_get? hvalue)
    refine Register.get?_of_forall (fun other hother => ?_)
      (Register.mem_names_iff.mpr ⟨value, List.mem_reverse.mpr hmem⟩)
    have hknown := (mem_entries_iff hname line).mp (List.mem_reverse.mp hother)
    exact Option.some.inj ((Register.get?_of_mem hnodup hknown).symm.trans hvalue)

/-! ## The lines of a rendition -/

/-- There is at least one attribute. -/
theorem attributes_ne_nil (r : Rendition) : r.attributes ≠ [] := by
  have hbandwidth : bandwidthAttribute r.bandwidth ∈ r.attributes :=
    mem_attributes.mpr (.inl (by simp [known, knownAttributes]))
  exact List.ne_nil_of_mem hbandwidth

/-- What is written of the attributes. -/
def attributesText (r : Rendition) : Text :=
  Text.join [','] (r.attributes.map Attribute.toText)

/-- No line ends inside the attributes. -/
theorem attributesText_line (r : Rendition) :
    ∀ c ∈ r.attributesText, Text.endsLine c = false := by
  intro c hc
  by_contra hends
  refine Text.not_mem_join ?_ (fun t ht hmem => ?_) hc
  · intro hcomma
    obtain rfl := List.mem_singleton.mp hcomma
    exact hends rfl
  · obtain ⟨a, ha, rfl⟩ := List.mem_map.mp ht
    exact hends ((isWritable_of_mem ha).toText_line c hmem)

/-- No line ends behind the tag. -/
theorem colon_attributesText_line (r : Rendition) :
    ∀ c ∈ ':' :: r.attributesText, Text.endsLine c = false :=
  List.forall_mem_cons.mpr ⟨rfl, r.attributesText_line⟩

/-- The line with the attributes begins with the tag. -/
theorem line_eq (r : Rendition) : r.line = variantTag ++ [':'] ++ r.attributesText :=
  rfl

/-- There are no blanks around the line with the attributes. -/
theorem strip_line (r : Rendition) : Text.strip r.line = r.line := by
  have hne : r.attributesText ≠ [] :=
    Text.join_ne_nil (by simpa using r.attributes_ne_nil) fun t ht => by
      obtain ⟨a, -, rfl⟩ := List.mem_map.mp ht
      exact a.toText_ne_nil
  have hlast : r.attributesText.getLast?.any Text.isBlank = false :=
    Text.getLast?_join fun t ht => by
      obtain ⟨a, ha, rfl⟩ := List.mem_map.mp ht
      exact ⟨a.toText_ne_nil, (isWritable_of_mem ha).toText_getLast?⟩
  rw [line_eq]
  refine Text.trim_eq_self ?_ ?_
  · rw [variantTag_eq]
    rfl
  · rwa [List.getLast?_append_of_ne_nil _ hne]

/-- The attributes are read from their line. -/
theorem readAttributes?_line (r : Rendition) : readAttributes? r.line =
    some (Register.ofPairs (("raw_stream_inf".toList, r.line) ::
      r.attributes.map Attribute.entry)) := by
  have hafter : Text.after? (variantTag ++ [':']) r.line = some r.attributesText :=
    Text.after?_append _ _
  rw [readAttributes?, hafter, Option.map_some, attributesText,
    attributes_join fun a ha => isWritable_of_mem ha]

/-- A place with an itag is not empty. -/
theorem uri_ne_nil (r : Rendition) : r.uri ≠ [] := by
  obtain ⟨front, back, huri, -⟩ := r.uri_itag
  rw [huri]
  simp

/-- The two lines of a rendition as a block. -/
def toBlock (r : Rendition) : Block where
  info := ':' :: r.attributesText
  infoEnd := ['\n']
  place := r.uri
  placeEnd := ['\n']
  info_line := r.colon_attributesText_line
  infoEnd_isLineEnd := Text.isLineEnd_newline
  place_line := r.uri_line
  place_ne_nil := r.uri_ne_nil
  place_head := r.uri_head
  place_bare := r.uri_bare
  placeEnd_isLineEnd := Text.isLineEnd_newline

/-- The line with the attributes is that of the block. -/
theorem line_toBlock (r : Rendition) : r.toBlock.line = r.line := by
  rw [line_eq, List.append_assoc]
  rfl

/-- A block is written like the two lines of its rendition. -/
theorem toText_toBlock (r : Rendition) : r.toBlock.toText = r.line ++ ['\n'] ++ r.uri := by
  rw [Block.toText, r.line_toBlock]
  rfl

/-- The variant that a rendition is read as. -/
def variant (r : Rendition) : Variant :=
  Register.set (Register.ofPairs (("raw_stream_inf".toList, r.line) ::
    r.attributes.map Attribute.entry)) "url".toList r.uri

/-- The block of a rendition has its variant. -/
theorem variant?_toBlock (r : Rendition) : r.toBlock.variant? none = .ok (some r.variant) := by
  rw [Block.variant?, r.line_toBlock, r.strip_line, r.readAttributes?_line]
  rfl

/-- The variant of a rendition has its place. -/
theorem get?_variant_url (r : Rendition) :
    Register.get? r.variant "url".toList = some r.uri := by
  rw [variant, Register.get?_set, if_pos rfl]

/-- The variant of a rendition has the values of its known attributes. -/
theorem get?_variant (r : Rendition) (hname : name ∈ reservedNames) :
    Register.get? r.variant (attributeName name) = Register.get? r.knownValues name := by
  have hurl : ∀ name ∈ reservedNames, "url".toList ≠ attributeName name := by decide
  rw [variant, Register.get?_set, if_neg (hurl name hname), r.get?_entries hname]

end Rendition

/-! ## The numbers of a rendition -/

/-- A printed number that is not too long is read. -/
theorem readInteger_ofNat {n : Nat} (h : IsReadable n) :
    readInteger (Text.ofNat n) = .ok (n : Int) := by
  have hread : Number.integer (Text.ofNat n) = .ok (n : Int) := Number.integer_ofInt n h
  rw [readInteger, hread]

/-- A digit is its own small letter. -/
theorem lowerChar_of_isDigit {c : Char} (h : c.isDigit = true) : Text.lowerChar c = [c] := by
  simp only [Char.isDigit, Bool.and_eq_true, decide_eq_true_eq, UInt32.le_iff_toNat_le] at h
  have hhigh : c.toNat ≤ 57 := h.2
  have hsmall : ¬ (c.val ≥ 'A'.val ∧ c.val ≤ 'Z'.val) := by
    rintro ⟨hcapital, -⟩
    have hlow : 65 ≤ c.toNat := UInt32.le_iff_toNat_le.mp hcapital
    omega
  have hlower : c.toLower = c := dif_neg hsmall
  rw [Text.lowerChar, if_pos (by omega), hlower]

/-- A printed width and height are read. -/
theorem readResolution_size {size : Nat × Nat} (hwidth : IsReadable size.1)
    (hheight : IsReadable size.2) :
    readResolution (Text.ofNat size.1 ++ 'x' :: Text.ofNat size.2) =
      .ok ((size.1 : Int), (size.2 : Int)) := by
  have hdigits (n : Nat) : Text.lower (Text.ofNat n) = Text.ofNat n := by
    rw [Text.lower, List.flatMap_congr fun c hc =>
      lowerChar_of_isDigit (Number.isDigit_of_mem_ofNat hc), List.flatMap_singleton']
  have hlower : Text.lower (Text.ofNat size.1 ++ 'x' :: Text.ofNat size.2) =
      Text.ofNat size.1 ++ 'x' :: Text.ofNat size.2 := by
    have hx : Text.lower ('x' :: Text.ofNat size.2) = 'x' :: Text.lower (Text.ofNat size.2) := rfl
    rw [Text.lower, List.flatMap_append, ← Text.lower, ← Text.lower, hx, hdigits, hdigits]
  have hx (n : Nat) : 'x' ∉ Text.ofNat n := fun hmem => by
    cases Number.isDigit_of_mem_ofNat hmem
  rw [readResolution, hlower, Text.split_append_cons (hx _), Text.split_of_not_mem (hx _)]
  simp only [readInteger_ofNat hwidth, readInteger_ofNat hheight]
  rfl

/-- The first number of an encoding in a place is found. -/
theorem exists_find?_itag {uri : Text} {itag : Nat} (h : HasItag uri itag) :
    ∃ m, itagShape.find? uri = some m ∧ m.capture "itag" = Text.ofNat itag := by
  obtain ⟨front, back, rfl, hfirst⟩ := h
  have hdigits : ∀ c ∈ Text.ofNat itag, Text.isDecimalDigit c = true := fun c hc =>
    Number.isDecimalDigit_of_isDigit (Number.isDigit_of_mem_ofNat hc)
  have htakes : itagShape.Takes front ("/itag/".toList ++ Text.ofNat itag ++ "/".toList) back []
      [("itag", Text.ofNat itag)] :=
    Takes.append (Takes.append (takes_lit "/itag/")
      (takes_label "itag" (takes_some1 (Number.ofNat_ne_nil itag) hdigits rfl))) (takes_lit "/")
  have hskip : itagShape.matchesBehind []
      (front ++ ("/itag/".toList ++ Text.ofNat itag ++ "/".toList ++ back)) =
      itagShape.matchesBehind front
        ("/itag/".toList ++ Text.ofNat itag ++ "/".toList ++ back) := by
    refine matchesBehind_skip fun u v huv hv hbegins => ?_
    obtain ⟨_, rest, heq, ⟨_, _, rfl, ⟨_, _, rfl, rfl, hfits⟩, rfl⟩⟩ := hbegins
    obtain ⟨_, more, rfl, ⟨c, hc, rfl⟩, hmore⟩ := hfits
    have hlength := hfirst u ([c] ++ more) rest (by rw [← huv]; simpa using heq) (by simp)
      (List.forall_mem_cons.mpr ⟨hc, hmore⟩)
    have hpos := List.length_pos_iff.mpr hv
    rw [← huv, List.length_append] at hlength
    omega
  obtain ⟨captures, hlabels, hfound⟩ := matchesBehind_of_takes htakes (by simp)
  have hfind : itagShape.find?
      (front ++ ("/itag/".toList ++ Text.ofNat itag ++ "/".toList) ++ back) =
      some (Cursor.after (front ++ ("/itag/".toList ++ Text.ofNat itag ++ "/".toList)) back
        captures) := by
    rw [List.append_assoc, find?_eq_head?, hskip, hfound]
    rfl
  refine ⟨_, hfind, ?_⟩
  rw [Cursor.capture, Cursor.capture?_after, hlabels]
  rfl

/-- The quality of a height is that of the greatest threshold up to it. -/
theorem isQuality_qualityLabel (height : Nat) : IsQuality (some height) (qualityLabel height) := by
  have hordered : qualityThresholds.Pairwise fun first second => second.1 ≤ first.1 := by decide
  rw [qualityLabel]
  cases hfind : qualityThresholds.find? (·.1 ≤ (height : Int)) with
  | none =>
    refine .inr ⟨fun other hother => ?_, rfl⟩
    simpa using List.find?_eq_none.mp hfind other hother
  | some threshold =>
    refine .inl ⟨threshold.1, List.mem_of_find?_eq_some hfind, by
      simpa using List.find?_some hfind, fun other hother hle => ?_⟩
    obtain ⟨-, front, back, hsplit, hfront⟩ := List.find?_eq_some_iff_append.mp hfind
    rw [hsplit] at hother hordered
    rcases List.mem_append.mp hother with hmem | hmem
    · exact absurd hle (by simpa using hfront other hmem)
    · rcases List.mem_cons.mp hmem with rfl | hmem
      · exact Int.le_refl _
      · exact List.rel_of_pairwise_cons (List.pairwise_append.mp hordered).2.1 hmem

/-! ## The streams of renditions -/

namespace Rendition

/-- The bit rate of the variant. -/
theorem get?_variant_bandwidth (r : Rendition) :
    Register.get? r.variant "bandwidth".toList = some (Text.ofNat r.bandwidth) := by
  have hfolded : "bandwidth".toList = attributeName bandwidthName := by decide
  rw [hfolded, r.get?_variant List.mem_cons_self]
  exact Register.get?_cons_self _ _ _

/-- The resolution of the variant, if there is one. -/
theorem get?_variant_resolution (r : Rendition) :
    Register.get? r.variant "resolution".toList =
      r.resolution.map fun size => Text.ofNat size.1 ++ 'x' :: Text.ofNat size.2 := by
  have hbandwidth : bandwidthName ≠ resolutionName := by decide
  have hcodecs : codecsName ≠ resolutionName := by decide
  have hname : resolutionName ∈ reservedNames := by simp [reservedNames]
  have hfolded : "resolution".toList = attributeName resolutionName := by decide
  rw [hfolded, r.get?_variant hname, knownValues, known, knownAttributes]
  cases r.resolution <;> cases r.codecs <;>
    simp [bandwidthAttribute, resolutionAttribute, codecsAttribute,
      quotedAttribute, hbandwidth, hcodecs, Register.get?]

/-- The codecs of the variant, if there are any. -/
theorem get?_variant_codecs (r : Rendition) :
    Register.get? r.variant "codecs".toList = r.codecs := by
  have hbandwidth : bandwidthName ≠ codecsName := by decide
  have hresolution : resolutionName ≠ codecsName := by decide
  have hname : codecsName ∈ reservedNames := by simp [reservedNames]
  have hfolded : "codecs".toList = attributeName codecsName := by decide
  rw [hfolded, r.get?_variant hname, knownValues, known, knownAttributes]
  cases r.resolution <;> cases r.codecs <;>
    simp [bandwidthAttribute, resolutionAttribute, codecsAttribute,
      quotedAttribute, hbandwidth, hresolution, Register.get?]

/-- The variant has no frame rate. -/
theorem get?_variant_frameRate (r : Rendition) :
    Register.get? r.variant "frame_rate".toList = none := by
  have hname : frameRateName ∈ reservedNames := by simp [reservedNames]
  have hnot : frameRateName ∉ [bandwidthName, resolutionName, codecsName] := by decide
  have hfolded : "frame_rate".toList = attributeName frameRateName := by decide
  rw [hfolded, r.get?_variant hname]
  refine Register.get?_eq_none_iff.mpr fun hmem => ?_
  have hnames : Register.names r.knownValues = r.known.map (·.name) := List.map_map
  rw [hnames] at hmem
  exact hnot ((names_known r).subset hmem)

/-- The variant of a rendition becomes a stream that the rendition describes. -/
theorem exists_streamOf_variant (r : Rendition) :
    ∃ stream, streamOf r.variant = .ok stream ∧ r.Describes stream := by
  obtain ⟨m, hfind, hitag⟩ := exists_find?_itag r.uri_itag
  have hresolution : readOptional readResolution (r.resolution.map fun size =>
      Text.ofNat size.1 ++ 'x' :: Text.ofNat size.2) =
        .ok (r.resolution.map fun size => ((size.1 : Int), (size.2 : Int))) := by
    cases hsize : r.resolution with
    | none => rfl
    | some size =>
      obtain ⟨hwidth, hheight⟩ := r.resolution_readable size hsize
      simp only [Option.map_some, readOptional, readResolution_size hwidth hheight]
      rfl
  have hbandwidth : readOptional readInteger (some (Text.ofNat r.bandwidth)) =
      .ok (some (r.bandwidth : Int)) := by
    rw [readOptional, readInteger_ofNat r.bandwidth_readable]
    rfl
  have hrate : readOptional readDecimal none = .ok none := rfl
  simp only [streamOf, r.get?_variant_url, r.get?_variant_resolution, r.get?_variant_bandwidth,
    r.get?_variant_frameRate, r.get?_variant_codecs, Option.getD_some, hfind, hitag, hresolution,
    hbandwidth, hrate, readInteger_ofNat r.itag_readable]
  refine ⟨_, rfl, ?_⟩
  refine
    { itag := rfl
      url := rfl
      bitrate := rfl
      width := Option.map_map _ _ _
      height := Option.map_map _ _ _
      mimeType := congrArg some ?_
      quality := ⟨_, rfl, ?_⟩
      fps := rfl
      isHls := rfl }
  · cases hcodecs : r.codecs with
    | none => rfl
    | some text =>
      obtain ⟨c, more, rfl⟩ := List.exists_cons_of_ne_nil (r.codecs_quotable text hcodecs).1
      rfl
  · cases r.resolution with
    | none => rfl
    | some size => exact isQuality_qualityLabel size.2

/-- The block of a rendition alone has one stream, which the rendition describes. -/
theorem exists_streamList_toBlock (r : Rendition) :
    ∃ stream, (r.toBlock.variant? none).map streamList = .ok [stream] ∧ r.Describes stream := by
  obtain ⟨stream, hstream, hdescribes⟩ := r.exists_streamOf_variant
  refine ⟨stream, ?_, hdescribes⟩
  rw [r.variant?_toBlock]
  simp only [Except.map, streamList, Option.bind_some, hstream]
  rfl

end Rendition

variable {renditions : List Rendition}

/-- The blocks of renditions have one stream each, in order. -/
theorem exists_mapM_toBlock (renditions : List Rendition) :
    ∃ list, (renditions.map Rendition.toBlock).mapM
        (fun b : Block => (b.variant? none).map streamList) = .ok (list.map ([·])) ∧
      List.Forall₂ Rendition.Describes renditions list := by
  induction renditions with
  | nil => exact ⟨[], rfl, .nil⟩
  | cons r renditions ih =>
    obtain ⟨stream, hstream, hdescribes⟩ := r.exists_streamList_toBlock
    obtain ⟨list, hlist, hall⟩ := ih
    refine ⟨stream :: list, ?_, .cons hdescribes hall⟩
    rw [List.map_cons, List.mapM_cons, hstream, hlist]
    rfl

/-- The blocks of renditions are written as their lines, with line feeds between them. -/
theorem playlistText_toBlock (r : Rendition) (renditions : List Rendition) :
    playlistText ((r :: renditions).map Rendition.toBlock) =
      Text.join ['\n'] ((r :: renditions).flatMap fun r => [r.line, r.uri]) := by
  induction renditions generalizing r with
  | nil => exact r.toText_toBlock
  | cons next renditions ih =>
    have hblock : playlistText ((r :: next :: renditions).map Rendition.toBlock) =
        r.toBlock.toText ++ ['\n'] ++
          playlistText ((next :: renditions).map Rendition.toBlock) := rfl
    have hjoin : Text.join ['\n'] ((r :: next :: renditions).flatMap fun r => [r.line, r.uri]) =
        r.line ++ ['\n'] ++ (r.uri ++ ['\n'] ++
          Text.join ['\n'] ((next :: renditions).flatMap fun r => [r.line, r.uri])) := rfl
    rw [hblock, hjoin, ih, r.toText_toBlock]
    simp only [List.append_assoc]

/-- A playlist that is written from renditions, and perhaps ended by line feeds, is read as one
stream for each rendition, in order, with all that was written of it. -/
theorem streams_masterPlaylist (renditions : List Rendition) (ends : Nat) :
    ∃ list, streams (masterPlaylist renditions ++ List.replicate ends '\n') none = .ok list ∧
      List.Forall₂ Rendition.Describes renditions list := by
  have hends : ∀ c ∈ List.replicate ends '\n', Text.isBlank c = true := fun c hc => by
    rw [List.eq_of_mem_replicate hc]
    rfl
  have hbare : Text.strip headerLine = headerLine := by decide
  have hline : ∀ c ∈ headerLine, Text.endsLine c = false := Text.forall_mem_of_all (by decide)
  obtain ⟨list, hlist, hall⟩ := exists_mapM_toBlock renditions
  refine ⟨list, ?_, hall⟩
  cases renditions with
  | nil =>
    cases hall
    exact streams_line (by decide) hbare hline hends
  | cons r renditions =>
    have hmaster : masterPlaylist (r :: renditions) = headerLine ++ ['\n'] ++
        playlistText ((r :: renditions).map Rendition.toBlock) := by
      rw [playlistText_toBlock]
      rfl
    have hflat : (list.map ([·])).flatten = list := by
      rw [← List.flatMap_def, List.flatMap_singleton']
    rw [hmaster, List.map_cons, streams_behind_line (by decide) hbare hline (by decide)
      Text.isLineEnd_newline _ _ hends, ← List.map_cons, streams_playlistText _ hends, hlist]
    exact congrArg Except.ok hflat

/-- A rendition with commas, and what looks like another bit rate, in quotes. -/
def quotingRendition : Rendition where
  bandwidth := 800
  resolution := some (640, 360)
  codecs := some "avc1,mp4a".toList
  others := [("AUDIO".toList, "a,BANDWIDTH=1".toList)]
  attributes := [quotedAttribute ("AUDIO".toList, "a,BANDWIDTH=1".toList),
    codecsAttribute "avc1,mp4a".toList, resolutionAttribute (640, 360), bandwidthAttribute 800]
  itag := 18
  uri := "/itag/18/a".toList
  bandwidth_readable := by decide
  resolution_readable := by
    rintro _ ⟨⟩
    exact ⟨by decide, by decide⟩
  codecs_quotable := by
    rintro _ ⟨⟩
    exact ⟨List.cons_ne_nil _ _, by decide⟩
  others_name := List.forall_mem_singleton.mpr ⟨by decide, Text.forall_mem_of_all (by decide)⟩
  others_new := by decide
  others_quotable := by decide
  attributes_perm := List.reverse_perm [bandwidthAttribute 800, resolutionAttribute (640, 360),
    codecsAttribute "avc1,mp4a".toList, quotedAttribute ("AUDIO".toList, "a,BANDWIDTH=1".toList)]
  itag_readable := by decide
  uri_itag := ⟨[], ['a'], rfl, fun _ _ _ _ _ _ => Nat.zero_le _⟩
  uri_line := Text.forall_mem_of_all (by decide)
  uri_bare := by decide
  uri_head := by decide

/-- The bit rate of a rendition is not taken from a value in quotes. -/
theorem streams_masterPlaylist_quoting :
    masterPlaylist [quotingRendition] = ("#EXTM3U\n#EXT-X-STREAM-INF:".toList ++
        "AUDIO=\"a,BANDWIDTH=1\",CODECS=\"avc1,mp4a\",RESOLUTION=640x360,BANDWIDTH=800".toList ++
        "\n/itag/18/a".toList) ∧
      ∃ stream, streams (masterPlaylist [quotingRendition]) none = .ok [stream] ∧
        stream.bitrate = some 800 ∧
        stream.mimeType = some "video/mp4; codecs=\"avc1,mp4a\"".toList := by
  refine ⟨by decide, ?_⟩
  obtain ⟨list, hlist, hall⟩ := streams_masterPlaylist [quotingRendition] 0
  rw [List.replicate_zero, List.append_nil] at hlist
  cases hall with
  | cons hdescribes hnone =>
    cases hnone
    exact ⟨_, hlist, hdescribes.bitrate, hdescribes.mimeType.trans (by decide)⟩

end Playable.Manifest
