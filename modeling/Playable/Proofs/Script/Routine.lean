import Playable.Proofs.Script.Call

/-!
# The calls of an entry routine

An entry routine splits its parameter into characters, makes its calls and joins the
characters again. All its calls are found, in order; the splitting and the joining look like
calls but have another argument.
-/

namespace Playable.Script

open Pattern

variable {before t param object : Text} {name : Transform → Text}

/-- The body of an entry routine: the parameter is split into characters, the calls are
made, and the characters are joined. -/
def entryBody (param : Text) (callTexts : List Text) : Text :=
  "\x7b".toList ++ param ++ "=".toList ++ param ++ ".split(\"\");".toList
    ++ Text.join [';'] callTexts ++ ";return ".toList ++ param ++ ".join(\"\")\x7d".toList

/-- What stands behind the calls of an entry routine. -/
def joinText (param : Text) : Text :=
  "return ".toList ++ param ++ '.' :: ("join".toList ++ '(' :: '"' :: "\")\x7d".toList)

/-- In a body with calls the parameter is split, each call is ended by a semicolon, and the
characters are joined. -/
theorem entryBody_eq {callTexts : List Text} (h : callTexts ≠ []) :
    entryBody param callTexts = '{' :: param ++ '=' :: (param ++ '.' :: ("split".toList ++ '(' ::
      '"' :: ("\")".toList ++ ';' :: (callTexts.flatMap (· ++ [';']) ++ joinText param)))) := by
  rw [← Text.join_append_cons h]
  unfold entryBody joinText
  simp

/-- Where the characters are split there is no call. -/
theorem callShape_skip_split (hparam : IsIdentifier param) (t : Text) :
    (callShape param).matchesBehind [] ('{' :: param ++ '=' :: (param ++ '.' :: ("split".toList
      ++ '(' :: '"' :: ("\")".toList ++ ';' :: t)))) =
      (callShape param).matchesBehind ('{' :: param ++ ['='] ++ (param ++ ['.'])
        ++ ("split(\"\")".toList ++ [';'])) t := by
  have hassigned : ∀ c ∈ '{' :: param, isSymbol c = false ∨ isSeparator c = true := by
    intro c hc
    rcases List.mem_cons.mp hc with rfl | hc
    · exact .inr rfl
    · exact .inl (hparam.not_symbol c hc)
  have hcalled : ∀ c ∈ "split(\"\")".toList, isSymbol c = false ∨ isSeparator c = true :=
    Text.forall_mem_of_all rfl
  have htext : "split".toList ++ '(' :: '"' :: ("\")".toList ++ ';' :: t) =
      "split(\"\")".toList ++ ';' :: t := by simp
  rw [callShape_skip hassigned rfl, callShape_skip_dot hparam hparam.not_symbol (by decide), htext,
    callShape_skip hcalled rfl, List.nil_append]

/-- Where the characters are joined there is no call. -/
theorem callShape_skip_join (hparam : IsIdentifier param) (before : Text) :
    (callShape param).matchesBehind before (joinText param) = [] := by
  have hreturn : ∀ c ∈ "return ".toList ++ param, isSymbol c = false := by
    intro c hc
    rcases List.mem_append.mp hc with hc | hc
    · exact Text.forall_mem_of_all (p := (isSymbol · = false)) rfl c hc
    · exact hparam.not_symbol c hc
  have hcalled : ∀ c ∈ "join(\"\")".toList, isSymbol c = false ∨ isSeparator c = true :=
    Text.forall_mem_of_all rfl
  have htext : "join".toList ++ '(' :: '"' :: "\")\x7d".toList =
      "join(\"\")".toList ++ '}' :: [] := by simp
  unfold joinText
  rw [callShape_skip_dot hparam hreturn (by decide), htext, callShape_skip hcalled rfl,
    callShape_end]

/-- A call in an entry routine. -/
structure CallSite where
  /-- What the called member does. -/
  transform : Transform
  /-- How the member is named. -/
  access : Access
  /-- The second argument, if one is given. -/
  argument : Option Int
  /-- The second argument has at most 4300 digits. -/
  argument_length : ∀ i ∈ argument, (Text.ofNat i.natAbs).length ≤ 4300

namespace CallSite

/-- The call as it is written, for an object with named members. -/
def toText (site : CallSite) (object param : Text) (name : Transform → Text) : Text :=
  callText object param (name site.transform) site.access site.argument

/-- The call as it is read. -/
def toCall (site : CallSite) (object : Text) (name : Transform → Text) : Call :=
  ⟨object, name site.transform, site.argument.map Text.ofInt⟩

/-- The argument of a call is read back. -/
theorem readArgument_toCall (site : CallSite) (object : Text) (name : Transform → Text) :
    (site.toCall object name).readArgument = .ok site.argument := by
  obtain ⟨k, access, argument, hlength⟩ := site
  cases argument with
  | none => rfl
  | some i => simp [toCall, Call.readArgument, Number.integer_ofInt i (hlength i rfl)]

end CallSite

/-- What is read of a call. -/
def readCall (m : Cursor) : Call :=
  ⟨m.capture "object", m.capture "member", m.capture? "argument"⟩

/-- The calls of a routine are read off the matches in its body. -/
theorem calls_eq (entry : Entry) : calls entry =
    (((callShape entry.param).findAll entry.body).map readCall).filter (·.object ≠ entry.param) :=
  rfl

/-- Calls are found one behind the other, each between two semicolons. -/
theorem callShape_finds_calls (hobject : IsIdentifier object) (hparam : IsIdentifier param)
    (hname : ∀ k, IsIdentifier (name k))
    (ht : ∀ before, (callShape param).matchesBehind before t = []) (before : Text)
    (sites : List CallSite) :
    ((callShape param).matchesBehind (before ++ [';'])
      ((sites.map (·.toText object param name)).flatMap (· ++ [';']) ++ t)).map readCall =
        sites.map (·.toCall object name) := by
  induction sites generalizing before with
  | nil => simp [ht]
  | cons site sites ih =>
    have hstart : (before ++ [';']).getLast?.any continuesPath = false := by
      rw [List.getLast?_concat]
      rfl
    obtain ⟨captures, hlabels, hfound⟩ := matchesBehind_of_takes
      (callShape_takes site.access site.argument hobject (hname site.transform) hparam _ hstart
        (';' :: ((sites.map (·.toText object param name)).flatMap (· ++ [';']) ++ t)))
      (callText_ne_nil site.access site.argument hobject)
    have hread : ∀ before rest, readCall (Cursor.after before rest captures) =
        site.toCall object name := by
      intro before rest
      simp only [readCall, CallSite.toCall, Cursor.capture, Cursor.capture?_after, hlabels]
      cases site.access <;> cases site.argument <;> rfl
    have hsemicolon : ∀ before t, (callShape param).matchesBehind before (';' :: t) =
        (callShape param).matchesBehind (before ++ [';']) t := fun before t =>
      callShape_skip (v := []) (by simp) rfl
    rw [List.map_cons, List.flatMap_cons, List.append_assoc, List.append_assoc,
      List.singleton_append, CallSite.toText, hfound, List.map_cons, hread, hsemicolon, ih,
      List.map_cons]

/-- The calls of an entry routine are those that it is written with, in order. -/
theorem calls_entryBody (hobject : IsIdentifier object) (hparam : IsIdentifier param)
    (hname : ∀ k, IsIdentifier (name k)) (hne : object ≠ param) {sites : List CallSite}
    (hsites : sites ≠ []) (entry : Text) :
    calls ⟨entry, param, entryBody param (sites.map (·.toText object param name))⟩ =
      sites.map (·.toCall object name) := by
  have htexts : sites.map (·.toText object param name) ≠ [] := by simpa using hsites
  have hfound := callShape_finds_calls hobject hparam hname (callShape_skip_join hparam)
    ('{' :: param ++ ['='] ++ (param ++ ['.']) ++ "split(\"\")".toList) sites
  rw [List.append_assoc _ "split(\"\")".toList] at hfound
  rw [calls_eq, findAll_eq, entryBody_eq htexts, callShape_skip_split hparam, hfound,
    List.filter_eq_self]
  intro call hcall
  obtain ⟨site, _, rfl⟩ := List.mem_map.mp hcall
  have hread : (site.toCall object name).object = object := rfl
  simpa [hread] using hne

/-- The body of an entry routine is a literal. -/
theorem entryBody_isLiteral (hparam : IsIdentifier param) {callTexts : List Text}
    (h : ∀ t ∈ callTexts, Literal.IsPart t) (before : Text) :
    Literal.IsLiteral before (entryBody param callTexts) := by
  have hempty : Literal.IsPart ['"', '"'] := Literal.isPart_of_verbatim (s := []) .nil
  have hequals : Literal.IsPart "=".toList := Literal.isPart_of_all (by decide)
  have hsplitOpen : Literal.IsPart ".split(".toList := Literal.isPart_of_all (by decide)
  have hsplitClose : Literal.IsPart ");".toList := Literal.isPart_of_all (by decide)
  have hsplit := (hsplitOpen.append hempty).append hsplitClose
  have hreturn : Literal.IsPart ";return ".toList := Literal.isPart_of_all (by decide)
  have hjoinOpen : Literal.IsPart ".join(".toList := Literal.isPart_of_all (by decide)
  have hjoinClose : Literal.IsPart ")".toList := Literal.isPart_of_all (by decide)
  have hjoin := (hjoinOpen.append hempty).append hjoinClose
  have hcalls : Literal.IsPart (Text.join [';'] callTexts) :=
    Literal.isPart_join (Literal.isPart_of_all (by decide)) h
  have hfront := ((hparam.isPart.append hequals).append hparam.isPart).append hsplit
  have hback := (hreturn.append hparam.isPart).append hjoin
  unfold entryBody
  simpa using ((hfront.append hcalls).append hback).braced before

/-- The body of an entry routine holds no ampersand. -/
theorem ampersand_not_mem_entryBody (hparam : IsIdentifier param) {callTexts : List Text}
    (h : ∀ t ∈ callTexts, '&' ∉ t) : '&' ∉ entryBody param callTexts := by
  have hparam' : '&' ∉ param := hparam.not_mem rfl
  have hcalls : '&' ∉ Text.join [';'] callTexts := Text.not_mem_join (by decide) h
  have hsplit : '&' ∉ ".split(\"\");".toList := by decide
  have hjoin : '&' ∉ ".join(\"\")\x7d".toList := by decide
  unfold entryBody
  simp only [List.mem_append, not_or]
  exact ⟨⟨⟨⟨⟨⟨⟨⟨by decide, hparam'⟩, by decide⟩, hparam'⟩, hsplit⟩, hcalls⟩, by decide⟩, hparam'⟩,
    hjoin⟩

end Playable.Script
