import Playable.Proofs.Text.Raw
import Playable.Proofs.Url.Extension
import Playable.Proofs.Url.Form
import Playable.Signing

/-!
# Parameters behind a URL

A parameter is appended to the text of a URL, and found again among the fields of its query. The
two agree for most URLs: the parameter is read behind the fields that are there already. There are
two exceptions. Behind a fragment the parameter continues the fragment. And where the question mark
is the last character except for line ends and tabulators, which are dropped from a URL, a second
question mark becomes part of the name.
-/

namespace Playable.Signing

variable {url name value : Text} {parts : Url.Parts} {signed : Bool}

/-- A parameter that is appended to the URL is not found in its query: the URL has a fragment, or
its question mark has nothing but dropped characters behind it, and at least one. -/
def LosesParameter (url : Text) : Prop :=
  '#' ∈ url ∨ ∃ hidden ∈ (Text.cutFirst '?' url).2,
    hidden ≠ [] ∧ hidden.all Url.isDropped = true

instance (url : Text) : Decidable (LosesParameter url) :=
  inferInstanceAs (Decidable (_ ∨ _))

/-- What stands in front of the query of one URL stands there in another one. -/
structure SameFront (parts longer : Url.Parts) : Prop where
  /-- The schemes are the same. -/
  scheme : longer.scheme = parts.scheme
  /-- The authorities are the same. -/
  authority : longer.authority = parts.authority
  /-- The paths are the same. -/
  path : longer.path = parts.path

/-- A URL with a parameter behind its query. -/
def withParameter (url query name value : Text) : Text :=
  url ++ separator url query ++ Url.formField name value

/-- What stands behind the first question mark of a URL is part of the URL. -/
theorem exists_of_mem_cutFirst {behind : Text} (h : behind ∈ (Text.cutFirst '?' url).2) :
    ∃ before, url = before ++ '?' :: behind ∧ '?' ∉ before := by
  by_cases hquery : '?' ∈ url
  · obtain ⟨before, found, rfl, hbefore⟩ := List.eq_append_cons_of_mem hquery
    rw [Text.cutFirst_append_cons hbefore] at h
    obtain rfl := Option.some.inj h
    exact ⟨before, rfl, hbefore⟩
  · rw [Text.cutFirst_of_not_mem hquery] at h
    cases h

/-- A URL without a fragment, tabulators and line ends loses no parameter. -/
theorem not_losesParameter (h : ∀ c ∈ ['#', '\t', '\r', '\n'], c ∉ url) :
    ¬ LosesParameter url := by
  rintro (hnumber | ⟨hidden, hhidden, hne, hdropped⟩)
  · exact h '#' (by simp) hnumber
  · obtain ⟨before, rfl, -⟩ := exists_of_mem_cutFirst hhidden
    obtain ⟨c, more, rfl⟩ := List.exists_cons_of_ne_nil hne
    have hc : c ∈ ['#', '\t', '\r', '\n'] := by
      have hfirst := List.all_eq_true.mp hdropped c List.mem_cons_self
      simp only [Url.isDropped, Bool.or_eq_true, decide_eq_true_eq] at hfirst
      rcases hfirst with (rfl | rfl) | rfl <;> simp
    exact h c hc (by simp)

/-- A query of encoded fields can stand behind a URL. -/
theorem isPlain_formQuery (pairs : List (Text × Text)) : Url.IsPlain (Url.formQuery pairs) where
  visible _ hc := (Url.bounds_of_mem_formQuery hc).1
  number := Url.not_mem_formQuery (by decide) (by decide) pairs

/-- A field can stand behind a URL. -/
theorem isPlain_formField (name value : Text) : Url.IsPlain (Url.formField name value) :=
  isPlain_formQuery [(name, value)]

/-- A field behind a separator can stand behind a URL. -/
theorem isPlain_cons_formField {c : Char} (hvisible : 32 < c.toNat) (hnumber : c ≠ '#')
    (name value : Text) : Url.IsPlain (c :: Url.formField name value) where
  visible := List.forall_mem_cons.mpr ⟨hvisible, (isPlain_formField name value).visible⟩
  number := List.not_mem_cons_of_ne_of_not_mem hnumber.symm (isPlain_formField name value).number

/-- A parameter is appended to every URL that is not refused. -/
theorem appendParameter_eq (h : Url.split url = .ok parts) (name value : Text) :
    appendParameter url name.raw value.raw =
      .ok (withParameter url parts.query name value) := by
  rw [appendParameter, h, Text.characters_raw, Text.characters_raw]
  rfl

/-- A parameter is not appended if half of a surrogate pair stands in its name or value. -/
theorem exists_appendParameter_error {name value : RawText} (h : Url.split url = .ok parts)
    (hhalf : name.HasHalf ∨ value.HasHalf) :
    ∃ e, appendParameter url name value = .error (.encoding e) := by
  rcases name.text_or_hasHalf with ⟨name, rfl⟩ | ⟨-, e, hname⟩
  · rcases value.text_or_hasHalf with ⟨value, rfl⟩ | ⟨-, e, hvalue⟩
    · exact absurd hhalf (not_or.mpr ⟨name.not_hasHalf_raw, value.not_hasHalf_raw⟩)
    · exact ⟨e, by rw [appendParameter, h, Text.characters_raw, hvalue]; rfl⟩
  · exact ⟨e, by rw [appendParameter, h, hname]; rfl⟩

/-- A second question mark becomes part of the name of a field. -/
theorem formFields_question (name value : Text) :
    Url.formFields true ('?' :: Url.formField name value) = [('?' :: name, value)] := by
  have hnone : '&' ∉ '?' :: Url.formField name value :=
    List.not_mem_cons_of_ne_of_not_mem (by decide)
      (Url.not_mem_formField (by decide) (by decide) name value)
  have hequals : '=' ∉ '?' :: Url.formEncode name :=
    List.not_mem_cons_of_ne_of_not_mem (by decide) (Url.not_mem_formEncode (by decide) name)
  have hfield : Url.fieldOf Url.formDecode '=' true ('?' :: Url.formField name value) =
      some ('?' :: name, value) := by
    rw [Url.fieldOf, if_neg (List.cons_ne_nil _ _), Url.formField, ← List.cons_append,
      Text.cutFirst_append_cons hequals]
    simp only [Bool.true_or, if_true, Option.getD_some, Url.formDecode_formEncode,
      Url.formDecode_cons (show '?'.toNat < 128 by decide) (by decide) (by decide)]
  rw [Url.formFields, Text.split_of_not_mem hnone, List.filterMap_cons, hfield]
  rfl

section Split

variable (h : Url.split url = .ok parts)
include h

/-- A URL without a question mark or a fragment has no query. -/
theorem query_of_path (hfragment : '#' ∉ url) (hquery : '?' ∉ url) : parts.query = [] := by
  rw [Url.query_eq h hfragment, Text.cutFirst_of_not_mem hquery]
  rfl

/-- An appended parameter is read behind the query, unless the URL loses it. -/
theorem split_withParameter (hkept : ¬ LosesParameter url) (name value : Text) :
    Url.split (withParameter url parts.query name value) = .ok { parts with
      query := if parts.query = [] then Url.formField name value
        else parts.query ++ '&' :: Url.formField name value } := by
  have hfragment : '#' ∉ url := fun hmem => hkept (.inl hmem)
  have hfield := isPlain_formField name value
  rw [withParameter, separator, List.append_assoc]
  by_cases hempty : parts.query = []
  · rw [if_neg (not_not.mpr hempty), if_pos hempty]
    by_cases hquery : '?' ∈ url
    · obtain ⟨before, behind, rfl, hbefore⟩ := List.eq_append_cons_of_mem hquery
      have hbehind : behind = [] := by
        by_contra hne
        refine hkept (.inr ⟨behind, ?_, hne, ?_⟩)
        · rw [Text.cutFirst_append_cons hbefore]
          rfl
        · rw [Url.query_eq h hfragment, Text.cutFirst_append_cons hbefore] at hempty
          simpa using hempty
      have hlast : (before ++ '?' :: behind).getLast? = some '?' := by simp [hbehind]
      rw [if_pos hlast, List.nil_append, Url.split_append_of_query hfield h hfragment hquery,
        hempty, List.nil_append]
    · have hlast : url.getLast? ≠ some '?' := fun hlast => hquery (List.mem_of_getLast? hlast)
      rw [if_neg hlast, List.singleton_append, Url.split_append_of_path h hfragment hquery hfield]
  · have hquery : '?' ∈ url := by
      by_contra hquery
      exact hempty (query_of_path h hfragment hquery)
    have hplain := isPlain_cons_formField (c := '&') (by decide) (by decide) name value
    rw [if_pos hempty, if_neg hempty, List.singleton_append,
      Url.split_append_of_query hplain h hfragment hquery]

/-- The fields of a URL with an appended parameter are those of the URL and the parameter behind
them, unless the URL loses it. -/
theorem exists_split_withParameter (hkept : ¬ LosesParameter url) (name value : Text) :
    ∃ longer, Url.split (withParameter url parts.query name value) = .ok longer ∧
      Url.formFields true longer.query = Url.formFields true parts.query ++ [(name, value)] := by
  refine ⟨_, split_withParameter h hkept name value, ?_⟩
  dsimp only
  split
  next hempty =>
    rw [hempty, Url.formFields_formField]
    rfl
  next => rw [Url.formFields_append, Url.formFields_formField]

/-- Whether a URL carries a signature is said by the fields of its query. -/
theorem hasSignature_eq : hasSignature url =
    .ok ((Url.formFields true parts.query).any (Text.isOneOf signatureNames ·.1)) := by
  rw [hasSignature, h]
  rfl

/-- A URL with an appended signature carries it, unless the URL loses it. -/
theorem hasSignature_withParameter (hkept : ¬ LosesParameter url) (hname : name ∈ signatureNames)
    (value : Text) : hasSignature (withParameter url parts.query name value) = .ok true := by
  obtain ⟨longer, hlonger, hfields⟩ := exists_split_withParameter h hkept name value
  have hlast : Text.isOneOf signatureNames name = true := by simpa [Text.isOneOf] using hname
  rw [hasSignature_eq hlonger, hfields, List.any_append, List.any_cons, hlast, Bool.true_or,
    Bool.or_true]

/-- A parameter that the URL loses is no field of its query: it continues the fragment, or has a
second question mark in its name. -/
theorem exists_split_of_loses (hloses : LosesParameter url) (name value : Text) :
    ∃ longer lost, Url.split (withParameter url parts.query name value) = .ok longer ∧
      SameFront parts longer ∧
      Url.formFields true longer.query = Url.formFields true parts.query ++ lost ∧
      (lost = [] ∨ lost = [('?' :: name, value)]) := by
  have hfield := isPlain_formField name value
  rw [withParameter, separator, List.append_assoc]
  by_cases hfragment : '#' ∈ url
  · have hplain : Url.IsPlain ((if parts.query ≠ [] then ['&']
        else if url.getLast? = some '?' then [] else ['?']) ++ Url.formField name value) := by
      split
      · exact isPlain_cons_formField (by decide) (by decide) name value
      split
      · exact hfield
      · exact isPlain_cons_formField (by decide) (by decide) name value
    exact ⟨_, [], Url.split_append_of_fragment hplain h hfragment, ⟨rfl, rfl, rfl⟩,
      (List.append_nil _).symm, .inl rfl⟩
  · obtain ⟨hidden, hhidden, hne, hdropped⟩ := hloses.resolve_left hfragment
    obtain ⟨before, rfl, hbefore⟩ := exists_of_mem_cutFirst hhidden
    have hquery : '?' ∈ before ++ '?' :: hidden := by simp
    have hempty : parts.query = [] := by
      rw [Url.query_eq h hfragment, Text.cutFirst_append_cons hbefore]
      simpa using hdropped
    have hlast : (before ++ '?' :: hidden).getLast? ≠ some '?' := by
      rw [List.getLast?_append_of_ne_nil _ (List.cons_ne_nil _ _), List.getLast?_cons_of_ne_nil hne]
      intro hlast
      cases List.all_eq_true.mp hdropped '?' (List.mem_of_getLast? hlast)
    have hplain := isPlain_cons_formField (c := '?') (by decide) (by decide) name value
    have hsplit := Url.split_append_of_query hplain h hfragment hquery
    rw [hempty, List.nil_append] at hsplit
    rw [if_neg (not_not.mpr hempty), if_neg hlast, List.singleton_append]
    refine ⟨_, [('?' :: name, value)], hsplit, ⟨rfl, rfl, rfl⟩, ?_, .inr rfl⟩
    rw [hempty, formFields_question]
    rfl

/-- A URL that loses its parameter does not carry a signature that it did not carry before. -/
theorem hasSignature_of_loses (hloses : LosesParameter url) (hsigned : hasSignature url = .ok false)
    (name value : Text) :
    hasSignature (withParameter url parts.query name value) = .ok false := by
  obtain ⟨longer, lost, hlonger, -, hfields, hlost⟩ := exists_split_of_loses h hloses name value
  have hnone : lost.any (Text.isOneOf signatureNames ·.1) = false := by
    rcases hlost with rfl | rfl
    · rfl
    · rfl
  rw [hasSignature_eq h] at hsigned
  rw [hasSignature_eq hlonger, hfields, List.any_append, hnone, Bool.or_false, hsigned]

end Split

/-- A parameter is appended to every URL that is not refused. The URL stays in front of it, and
scheme, authority and path stay as they are. The parameter is read behind the fields of the query
exactly if the URL does not lose it, and no URL without fragment, tabulators and line ends does. -/
theorem parameter_is_last_field_unless_lost (h : Url.split url = .ok parts) (name value : Text) :
    ∃ longer after, appendParameter url name.raw value.raw = .ok longer ∧ url <+: longer ∧
      Url.split longer = .ok after ∧ SameFront parts after ∧
      (Url.formFields true after.query = Url.formFields true parts.query ++ [(name, value)] ↔
        ¬ LosesParameter url) ∧
      ((∀ c ∈ ['#', '\t', '\r', '\n'], c ∉ url) →
        Url.formFields true after.query = Url.formFields true parts.query ++ [(name, value)]) := by
  have hprefix : url <+: withParameter url parts.query name value := by
    rw [withParameter, List.append_assoc]
    exact List.prefix_append _ _
  by_cases hloses : LosesParameter url
  · obtain ⟨after, lost, hafter, hfront, hfields, hlost⟩ :=
      exists_split_of_loses h hloses name value
    have hother : lost ≠ [(name, value)] := by
      rcases hlost with rfl | rfl
      · exact nofun
      · simp
    refine ⟨_, after, appendParameter_eq h name value, hprefix, hafter, hfront, ?_,
      fun hclean => absurd hloses (not_losesParameter hclean)⟩
    rw [hfields, List.append_cancel_left_eq]
    exact iff_of_false hother (not_not.mpr hloses)
  · obtain ⟨after, hafter, hfields⟩ := exists_split_withParameter h hloses name value
    obtain rfl := Except.ok.inj (hafter.symm.trans (split_withParameter h hloses name value))
    exact ⟨_, _, appendParameter_eq h name value, hprefix, hafter, ⟨rfl, rfl, rfl⟩,
      iff_of_true hfields hloses, fun _ => hfields⟩

/-- Behind a query that ends with a separator and holds another question mark. -/
theorem parameter_is_last_field_behind_separator :
    let url : Text := "Http://u@h:8/p;q?a=1&&b?&".toList
    let parts : Url.Parts :=
      ⟨"http".toList, "u@h:8".toList, "/p;q".toList, "a=1&&b?&".toList, []⟩
    let longer : Text := "Http://u@h:8/p;q?a=1&&b?&&s%3D+%26=%C3%A9%2B".toList
    Url.split url = .ok parts ∧ (∀ c ∈ ['#', '\t', '\r', '\n'], c ∉ url) ∧
      appendParameter url (Text.raw "s= &".toList) (Text.raw "é+".toList) = .ok longer ∧
      url <+: longer ∧
      ∃ after, Url.split longer = .ok after ∧ SameFront parts after ∧
        Url.formFields true after.query = [("a".toList, "1".toList), ("b?".toList, []),
          ("s= &".toList, "é+".toList)] := by
  intro url parts longer
  have hsplit : Url.split url = .ok parts := by decide +kernel
  have hclean : ∀ c ∈ ['#', '\t', '\r', '\n'], c ∉ url := Text.forall_mem_of_all rfl
  have hlonger : appendParameter url (Text.raw "s= &".toList) (Text.raw "é+".toList) =
      .ok longer := by decide +kernel
  have hbefore : Url.formFields true parts.query =
      [("a".toList, "1".toList), ("b?".toList, [])] := by decide +kernel
  obtain ⟨found, after, happend, hprefix, hafter, hfront, -, hfields⟩ :=
    parameter_is_last_field_unless_lost hsplit "s= &".toList "é+".toList
  obtain rfl : found = longer := Except.ok.inj (happend.symm.trans hlonger)
  rw [hbefore] at hfields
  exact ⟨hsplit, hclean, hlonger, hprefix, after, hafter, hfront, hfields hclean⟩

end Playable.Signing
