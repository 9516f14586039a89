import Playable.Proofs.Number.Printed
import Playable.Proofs.Script.Operation

/-!
# Calls of helper members

A player writes a call of its helper in one of three ways, with or without an integer. Each
is read whole. A text is no call if its first symbol belongs to none, or if it is a call
with a quoted argument.
-/

namespace Playable.Script

open Pattern

variable {before rest param object member t u v w : Text} {x : Char}
  {labels : List (String × Text)}

/-- How a call names the member. -/
inductive Access where
  /-- By its identifier behind a dot. -/
  | dot
  /-- By its name between double quotes, in brackets. -/
  | double
  /-- By its name between single quotes, in brackets. -/
  | single
  deriving DecidableEq, Repr

/-- A name between quotes, in brackets. -/
def quotedAccess (quote : Char) (member : Text) : Text :=
  "[".toList ++ [quote] ++ member ++ [quote] ++ "]".toList

/-- The access of a member as it is written. -/
def Access.toText (access : Access) (member : Text) : Text :=
  match access with
  | dot => ".".toList ++ member
  | double => quotedAccess '"' member
  | single => quotedAccess '\'' member

/-- What is labelled in an access. -/
def Access.captured (access : Access) (member : Text) : List (String × Text) :=
  match access with
  | dot => [("member", member)]
  | double => [("member", member), ("quote", ['"'])]
  | single => [("member", member), ("quote", ['\''])]

/-- The second argument of a call as it is written. -/
def argumentText (argument : Option Int) : Text :=
  match argument with
  | none => []
  | some i => ",".toList ++ Text.ofInt i

/-- What is labelled in the second argument of a call. -/
def argumentLabels (argument : Option Int) : List (String × Text) :=
  match argument with
  | none => []
  | some i => [("argument", Text.ofInt i)]

/-- A call as it is written. -/
def callText (object param member : Text) (access : Access) (argument : Option Int) : Text :=
  object ++ access.toText member ++ "(".toList ++ param ++ argumentText argument ++ ")".toList

/-! ## Reading a call -/

/-- The pattern for the access of a member. -/
def accessShape : Pattern :=
  either (lit "." ++ blanks ++ label "member" identifier)
    (lit "[" ++ blanks ++ label "quote" (anyOf "\"'") ++ label "member" (someBut "\"'")
      ++ same "quote" ++ blanks ++ lit "]")

/-- The pattern for the second argument of a call. -/
def argumentShape : Pattern :=
  optional (lit "," ++ blanks
    ++ label "argument" (optional (lit "-") ++ some1 Text.isDecimalDigit) ++ blanks)

/-- A call is an object, an access, and the parameter with perhaps another argument. -/
theorem callShape_eq (param : Text) :
    callShape param = notAfter continuesPath ++ label "object" identifier ++ blanks ++ accessShape
      ++ spaced "(" ++ text param ++ blanks ++ argumentShape ++ lit ")" :=
  rfl

/-- The access in brackets takes the name between two quotes. -/
theorem quotedAccess_takes {quote : Char} (hquote : quote = '"' ∨ quote = '\'')
    (hmember : IsIdentifier member) :
    accessShape.Takes before (quotedAccess quote member) rest labels
      (("member", member) :: ("quote", [quote]) :: labels) := by
  have hmark : "\"'".toList.contains quote = true := by
    rcases hquote with rfl | rfl <;> decide
  have hplain : Text.isBlank quote = false := by
    rcases hquote with rfl | rfl <;> decide
  have hbut : ∀ c ∈ member, (!"\"'".toList.contains c) = true := by
    intro c hc
    have hdouble : c ≠ '"' := ne_of_isIdentifierChar (hmember.2 c hc) rfl
    have hsingle : c ≠ '\'' := ne_of_isIdentifierChar (hmember.2 c hc) rfl
    simp [hdouble, hsingle]
  have hdot : ¬ (lit "." ++ blanks ++ label "member" identifier).Begins before
      (quotedAccess quote member ++ rest) := by
    intro h
    obtain ⟨_, _, heq, hw⟩ := h.front.front
    obtain rfl := show _ = ".".toList from hw
    simp [quotedAccess] at heq
  refine takes_right hdot ?_
  refine Takes.append ?_ (takes_lit "]")
  refine Takes.append_nil ?_ (takes_no_blanks rfl)
  refine Takes.append ?_ (takes_same rfl)
  refine Takes.append ?_ (takes_label "member" (takes_some1 hmember.ne_nil hbut ?_))
  · refine Takes.append ?_ (takes_label "quote" (takes_one hmark))
    exact Takes.append_nil (takes_lit "[") (takes_no_blanks hplain)
  · show (!"\"'".toList.contains quote) = false
    rw [hmark]
    rfl

/-- An access takes the name of the member, whichever way it is written. -/
theorem access_takes (access : Access) (hmember : IsIdentifier member)
    (hrest : rest.head?.any Text.isWordOrDollar = false) :
    accessShape.Takes before (access.toText member) rest labels
      (access.captured member ++ labels) := by
  cases access with
  | dot =>
    refine takes_left (Takes.append ?_ (takes_label "member" (hmember.takes hrest)))
    refine Takes.append_nil (takes_lit ".") (takes_no_blanks ?_)
    exact Text.head?_append_any hmember.ne_nil fun c hc =>
      isBlank_of_isIdentifierChar (hmember.2 c hc)
  | double => exact quotedAccess_takes (.inl rfl) hmember
  | single => exact quotedAccess_takes (.inr rfl) hmember

/-- A printed integer is taken whole in front of a character that is no digit. -/
theorem integer_takes (i : Int) (hrest : rest.head?.any Text.isDecimalDigit = false) :
    (optional (lit "-") ++ some1 Text.isDecimalDigit).Takes before (Text.ofInt i) rest
      labels labels := by
  have hdigits : ∀ before n, (some1 Text.isDecimalDigit).Takes before (Text.ofNat n) rest
      labels labels := fun before n =>
    takes_some1 (Number.ofNat_ne_nil n)
      (fun c hc => Number.isDecimalDigit_of_isDigit (Number.isDigit_of_mem_ofNat hc)) hrest
  cases i with
  | ofNat n =>
    refine Takes.nil_append (takes_absent ?_) (hdigits _ n)
    rintro ⟨_, more, heq, rfl⟩
    obtain ⟨d, digits, hcons⟩ := List.exists_cons_of_ne_nil (Number.ofNat_ne_nil n)
    have hd : d.isDigit = true := Number.isDigit_of_mem_ofNat (n := n) (by simp [hcons])
    have hminus : d = '-' := by
      have hheads : d :: (digits ++ rest) = '-' :: more := by
        simpa [Text.ofInt, hcons] using heq
      exact (List.cons.inj hheads).1
    rw [hminus] at hd
    exact absurd hd (by decide)
  | negSucc n => exact Takes.append (u := ['-']) (takes_present (takes_lit "-")) (hdigits _ _)

/-- The second argument of a call is taken if it is there. -/
theorem argument_takes (argument : Option Int) (rest : Text) :
    argumentShape.Takes before (argumentText argument) (")".toList ++ rest) labels
      (argumentLabels argument ++ labels) := by
  cases argument with
  | none =>
    refine takes_absent fun h => ?_
    obtain ⟨_, _, heq, hw⟩ := h.front.front.front
    obtain rfl := show _ = ",".toList from hw
    simp at heq
  | some i =>
    refine takes_present (Takes.append_nil ?_ (takes_no_blanks rfl))
    refine Takes.append ?_ (takes_label "argument" (integer_takes i rfl))
    refine Takes.append_nil (takes_lit ",") (takes_no_blanks ?_)
    exact Text.head?_append_any (Number.ofInt_ne_nil i) fun c hc => Number.isBlank_of_mem_ofInt hc

/-- A call is taken whole where its object does not continue a path. -/
theorem callShape_takes (access : Access) (argument : Option Int) (hobject : IsIdentifier object)
    (hmember : IsIdentifier member) (hparam : IsIdentifier param)
    (before : Text) (hbefore : before.getLast?.any continuesPath = false) (rest : Text) :
    (callShape param).Takes before (callText object param member access argument) rest []
      (argumentLabels argument ++ (access.captured member ++ [("object", object)])) := by
  have haccess : ∀ more, (access.toText member ++ more).head?.any Text.isWordOrDollar = false ∧
      (access.toText member ++ more).head?.any Text.isBlank = false := by
    intro more
    cases access <;> exact ⟨rfl, rfl⟩
  have hargument : ∀ more, (argumentText argument ++ (")".toList ++ more)).head?.any Text.isBlank =
      false := by
    intro more
    cases argument <;> rfl
  have hparamBlank : ∀ c ∈ param, Text.isBlank c = false := fun c hc =>
    isBlank_of_isIdentifierChar (hparam.2 c hc)
  rw [callShape_eq]
  -- From the last part of the shape to the first one.
  refine Takes.append ?_ (takes_lit ")")
  refine Takes.append ?_ (argument_takes argument rest)
  refine Takes.append_nil ?_ (takes_no_blanks (hargument rest))
  refine Takes.append ?_ (takes_text param)
  refine Takes.append ?_ (takes_spaced "(" rfl (by simp)
    (Text.head?_append_any hparam.ne_nil hparamBlank))
  refine Takes.append ?_ (access_takes access hmember rfl)
  refine Takes.append_nil ?_ (takes_no_blanks (haccess _).2)
  exact Takes.nil_append (takes_notAfter hbefore)
    (takes_label "object" (hobject.takes (haccess _).1))

/-- A written call is not empty. -/
theorem callText_ne_nil (access : Access) (argument : Option Int) (hobject : IsIdentifier object) :
    callText object param member access argument ≠ [] := by
  obtain ⟨c, more, hcons, _⟩ := hobject.exists_cons
  unfold callText
  simp [hcons]

/-! ## Passing over what is no call -/

/-- No identifier holds a symbol. -/
theorem IsIdentifier.not_symbol (h : IsIdentifier t) : ∀ c ∈ t, isSymbol c = false :=
  fun c hc => isSymbol_of_isWordOrDollar (isWordOrDollar_of_isIdentifierChar (h.2 c hc))

/-- Whatever fits an identifier holds no symbol. -/
theorem not_symbol_of_fits_identifier (h : identifier.Fits before w rest) :
    ∀ c ∈ w, isSymbol c = false := by
  obtain ⟨c, more, rfl, hc, hmore⟩ := exists_cons_of_fits_identifier h
  have hstart : Text.isWordOrDollar c = true :=
    isWordOrDollar_of_isIdentifierChar (isIdentifierChar_of_isIdentifierStart hc)
  intro d hd
  rcases List.mem_cons.mp hd with rfl | hd
  · exact isSymbol_of_isWordOrDollar hstart
  · exact isSymbol_of_isWordOrDollar (hmore d hd)

/-- The first symbol of a call is a bracket, or a dot such that the first parenthesis behind
it is followed by the parameter. -/
theorem exists_symbol_of_callShape_begins (h : (callShape param).Begins before t) :
    ∃ u x v, t = u ++ x :: v ∧ (∀ c ∈ u, isSymbol c = false) ∧
      (x = '[' ∨ x = '.' ∧ ∃ w gap more, v = w ++ '(' :: (gap ++ (param ++ more)) ∧ '(' ∉ w ∧
        ∀ c ∈ gap, Text.isBlank c = true) := by
  rw [callShape_eq] at h
  obtain ⟨_, rest, rfl, _, given, rfl, ⟨_, parens, rfl, ⟨_, access, rfl, ⟨_, gap, rfl,
    ⟨_, object, rfl, ⟨rfl, _⟩, hobject⟩, hgap⟩, haccess⟩, hparens⟩, hgiven⟩ := h.front.front.front
  obtain rfl : given = param := hgiven
  obtain ⟨left, right, rfl, hleft, hright⟩ := exists_gaps_of_fits_spaced hparens
  have hfront : ∀ c ∈ object ++ gap, isSymbol c = false := fun c hc =>
    (List.mem_append.mp hc).elim (not_symbol_of_fits_identifier hobject c)
      fun hc => isSymbol_of_isBlank (hgap c hc)
  rcases haccess with ⟨_, member, rfl, ⟨_, gap', rfl, hdot, hgap'⟩, hmember⟩ | hbracket
  · obtain rfl := show _ = ".".toList from hdot
    have hbehind : ∀ c ∈ gap' ++ member ++ left, isSymbol c = false := by
      intro c hc
      simp only [List.mem_append] at hc
      rcases hc with (hc | hc) | hc
      · exact isSymbol_of_isBlank (hgap' c hc)
      · exact not_symbol_of_fits_identifier hmember c hc
      · exact isSymbol_of_isBlank (hleft c hc)
    have hparen : '(' ∉ gap' ++ member ++ left := fun hc => absurd (hbehind '(' hc) (by decide)
    exact ⟨object ++ gap, '.', gap' ++ member ++ left ++ '(' :: (right ++ (given ++ rest)),
      by simp, hfront, .inr ⟨rfl, gap' ++ member ++ left, right, rest, rfl, hparen, hright⟩⟩
  · obtain ⟨_, more, heq, hw⟩ := (Fits.begins hbracket).front.front.front.front.front.front
    obtain rfl := show _ = "[".toList from hw
    exact ⟨object ++ gap, '[', more, by simpa using heq, hfront, .inl rfl⟩

/-- A symbol that no call has in front of its arguments. -/
def isSeparator (c : Char) : Bool :=
  isSymbol c && c != '[' && c != '.'

/-- A search for calls passes over a text up to a separator if it holds no other symbols than
separators. -/
theorem callShape_skip (hv : ∀ c ∈ v, isSymbol c = false ∨ isSeparator c = true)
    (hx : isSeparator x = true) :
    (callShape param).matchesBehind before (v ++ x :: t) =
      (callShape param).matchesBehind (before ++ (v ++ [x])) t := by
  refine matchesBehind_skip_cons fun before w hsuffix hbegins => ?_
  obtain ⟨u, y, behind, heq, hu, hcases⟩ := exists_symbol_of_callShape_begins hbegins
  have hinside : ∀ c ∈ w ++ [x], isSymbol c = false ∨ isSeparator c = true := by
    intro c hc
    rcases List.mem_append.mp hc with hc | hc
    · exact hv c (hsuffix.subset hc)
    · exact .inr (List.mem_singleton.mp hc ▸ hx)
  have hy : ¬ (isSymbol y = false ∨ isSeparator y = true) := by
    rcases hcases with rfl | ⟨rfl, _⟩ <;> decide
  have hsymbol : isSymbol x = true := by
    simp only [isSeparator, Bool.and_eq_true] at hx
    exact hx.1.1
  have houtside : x ∉ u := fun hmem => absurd (hu x hmem) (by simp [hsymbol])
  have hpieces : w ++ [x] ++ t = u ++ y :: behind := by simpa using heq
  rcases List.append_eq_append_iff.mp hpieces with ⟨a, rfl, _⟩ | ⟨a, hinsideEq, htail⟩
  · exact houtside (by simp)
  · cases a with
    | nil => exact houtside (by rw [List.append_nil] at hinsideEq; simp [← hinsideEq])
    | cons z a =>
      obtain ⟨rfl, _⟩ := List.cons.inj htail
      exact hy (hinside y (by rw [hinsideEq]; simp))

/-- A search for calls passes over words and a dot if the first parenthesis behind it is
followed by a quote. -/
theorem callShape_skip_dot (hparam : IsIdentifier param) (hv : ∀ c ∈ v, isSymbol c = false)
    (hw : '(' ∉ w) :
    (callShape param).matchesBehind before (v ++ '.' :: (w ++ '(' :: '"' :: t)) =
      (callShape param).matchesBehind (before ++ (v ++ ['.'])) (w ++ '(' :: '"' :: t) := by
  refine matchesBehind_skip_cons fun before v' hsuffix hbegins => ?_
  obtain ⟨u, y, behind, heq, hu, hcases⟩ := exists_symbol_of_callShape_begins hbegins
  have hy : isSymbol y = true := by
    rcases hcases with rfl | ⟨rfl, _⟩ <;> decide
  obtain ⟨_, rfl, rfl⟩ :=
    Text.cut_unique isSymbol heq (fun c hc => hv c (hsuffix.subset hc)) rfl hu hy
  obtain ⟨w', gap, more, hcall, hw', hgap⟩ := hcases.elim (fun he => absurd he (by decide)) (·.2)
  have hne : ∀ {w : Text}, '(' ∉ w → ∀ c ∈ w, decide (c = '(') = false := fun hw c hc =>
    decide_eq_false fun he => hw (he ▸ hc)
  obtain ⟨_, _, hargument⟩ := Text.cut_unique (· = '(') hcall (hne hw) rfl (hne hw') rfl
  cases gap with
  | nil =>
    obtain ⟨c, rest, rfl, hc⟩ := hparam.exists_cons
    obtain ⟨rfl, _⟩ := List.cons.inj hargument
    exact absurd hc (by decide)
  | cons c gap =>
    obtain ⟨rfl, _⟩ := List.cons.inj hargument
    exact absurd (hgap '"' List.mem_cons_self) (by decide)

/-- At the end of a text there is no call. -/
theorem callShape_end (before : Text) : (callShape param).matchesBehind before [] = [] := by
  refine matchesBehind_nil fun hbegins => ?_
  obtain ⟨u, y, behind, heq, _⟩ := exists_symbol_of_callShape_begins hbegins
  exact absurd heq (by simp)

/-! ## A call inside a literal -/

/-- A written access is a part of any literal. -/
theorem Access.isPart (access : Access) (hmember : IsIdentifier member) :
    Literal.IsPart (access.toText member) := by
  cases access with
  | dot =>
    have hdot : Literal.IsPart ".".toList := Literal.isPart_of_all (by decide)
    exact hdot.append hmember.isPart
  | double =>
    have hverbatim : Literal.Verbatim '"' member := Literal.verbatim_of_forall fun c hc =>
      ⟨ne_of_isIdentifierChar (hmember.2 c hc) rfl, ne_of_isIdentifierChar (hmember.2 c hc) rfl⟩
    simpa [toText, quotedAccess] using (Literal.isPart_of_verbatim hverbatim).bracketed_isPart
  | single =>
    have hquote : Literal.IsPart ['\''] := Literal.isPart_of_all (by decide)
    simpa [toText, quotedAccess] using
      ((hquote.append hmember.isPart).append hquote).bracketed_isPart

/-- A written argument is a part of any literal. -/
theorem argumentText_isPart (argument : Option Int) : Literal.IsPart (argumentText argument) := by
  cases argument with
  | none => exact Literal.isPart_of_all (by decide)
  | some i =>
    have hcomma : Literal.IsPart ",".toList := Literal.isPart_of_all (by decide)
    refine hcomma.append (Literal.isPart_of_quiet fun c hc => ?_)
    rcases Number.mem_ofInt hc with rfl | hdigit
    · decide
    · exact Literal.isQuiet_of_isDigit hdigit

/-- A written call is a part of any literal. -/
theorem callText_isPart (access : Access) (argument : Option Int) (hobject : IsIdentifier object)
    (hmember : IsIdentifier member) (hparam : IsIdentifier param) :
    Literal.IsPart (callText object param member access argument) := by
  have hopen : Literal.IsPart "(".toList := Literal.isPart_of_all (by decide)
  have hclose : Literal.IsPart ")".toList := Literal.isPart_of_all (by decide)
  have hcallee := (hobject.isPart.append (access.isPart hmember)).append hopen
  exact ((hcallee.append hparam.isPart).append (argumentText_isPart argument)).append hclose

/-- A written call holds no ampersand. -/
theorem ampersand_not_mem_callText (access : Access) (argument : Option Int)
    (hobject : IsIdentifier object) (hmember : IsIdentifier member)
    (hparam : IsIdentifier param) : '&' ∉ callText object param member access argument := by
  have hobject' : '&' ∉ object := hobject.not_mem rfl
  have hmember' : '&' ∉ member := hmember.not_mem rfl
  have hparam' : '&' ∉ param := hparam.not_mem rfl
  have haccess : '&' ∉ access.toText member := by
    cases access <;> simp [Access.toText, quotedAccess, hmember']
  have hargument : '&' ∉ argumentText argument := by
    cases argument with
    | none => exact List.not_mem_nil
    | some i =>
      have hinteger : '&' ∉ Text.ofInt i := fun hmem => absurd (Number.mem_ofInt hmem) (by decide)
      simpa [argumentText] using hinteger
  unfold callText
  simp [hobject', hparam', haccess, hargument]

end Playable.Script
