import Playable.Proofs.Script.Operation

/-!
# Finding the entry routine

The entry routine is named where its result is handed to a setter. This place is the first
with two ampersands, so the name found there is tried first. The definition of the routine
is the first text of the form of a definition: in the helper object in front of it no
parenthesis stands behind an equals sign or a blank of the same phrase.
-/

namespace Playable.Script

open Pattern

variable {before front rest name param s t v w : Text} {x : Char}
  {labels : List (String × Text)}

/-! ## The name -/

/-- A character of a plain name is an identifier character. -/
theorem isIdentifierChar_of_isPlainName {c : Char} (h : Text.isPlainName c = true) :
    isIdentifierChar c = true := by
  simp only [Text.isPlainName, Char.isAlphanum, Bool.or_eq_true, decide_eq_true_eq] at h
  simp only [isIdentifierChar, isIdentifierStart, Bool.or_eq_true, decide_eq_true_eq]
  tauto

/-- The place where the result of the entry routine is handed to a setter, up to the
argument list of the routine. -/
def setterText (name : Text) : Text :=
  "c".toList ++ "&&".toList ++ "d".toList ++ ".set(".toList ++ "b".toList ++ ",".toList
    ++ "encodeURIComponent".toList ++ "(".toList ++ (name ++ "(".toList)

/-- The ampersands of the setter stand behind its first character. -/
theorem setterText_append (name rest : Text) : setterText name ++ rest =
    ['c'] ++ '&' :: ("&d.set(b,encodeURIComponent(".toList ++ (name ++ '(' :: rest)) := by
  unfold setterText
  simp

/-- The first of the places where players are known to call the entry routine. -/
def setterShape : Pattern :=
  guardedSet (anyOf "cs") (anyOf "adf") ++ lit "encodeURIComponent" ++ spaced "(" ++ entryCall

/-- The setter is tried before all other places. -/
theorem entryShapes_eq_cons : ∃ more, entryShapes = setterShape :: more :=
  ⟨_, rfl⟩

/-- The name of the entry routine is taken out of the setter. -/
theorem setterShape_takes (hname : name ≠ []) (hplain : ∀ c ∈ name, Text.isPlainName c = true)
    (hbefore : wordAt before.getLast? = false) (rest : Text) :
    setterShape.Takes before (setterText name) rest [] [("sig", name)] := by
  have hblank : (name ++ "(".toList ++ rest).head?.any Text.isBlank = false := by
    rw [List.append_assoc]
    exact Text.head?_append_any hname fun c hc =>
      isBlank_of_isIdentifierChar (isIdentifierChar_of_isPlainName (hplain c hc))
  have hbut : ∀ c ∈ "b".toList, (!",".toList.contains c) = true :=
    Text.forall_mem_of_all rfl
  refine Takes.append ?_ ((takes_label "sig" (takes_some1 hname hplain rfl)).append (takes_lit "("))
  refine Takes.append ?_ (takes_spaced "(" rfl (by simp) hblank)
  refine Takes.append ?_ (takes_lit "encodeURIComponent")
  refine Takes.append ?_ (takes_spaced "," rfl (by simp) rfl)
  refine Takes.append ?_ (takes_some1 (by simp) hbut rfl)
  refine Takes.append ?_ (takes_lit ".set(")
  refine Takes.append ?_ (takes_one (c := 'd') (by decide))
  refine Takes.append ?_ (takes_spaced "&&" rfl (by simp) rfl)
  refine Takes.nil_append (takes_wordEdge ?_) (takes_one (c := 'c') (by decide))
  rw [hbefore]
  exact Bool.false_ne_true

/-- What the setter begins with: one character, blanks, and an ampersand. -/
theorem exists_ampersand_of_setterShape_begins (h : setterShape.Begins before t) :
    ∃ c gap more, t = c :: gap ++ '&' :: more ∧ c ≠ '&' ∧ ∀ d ∈ gap, Text.isBlank d = true := by
  obtain ⟨_, rest, rfl, _, ands, rfl, ⟨_, _, rfl, ⟨rfl, _⟩, c, hc, rfl⟩, hands⟩ :=
    h.front.front.front.front.front.front.front
  obtain ⟨gap, gap', rfl, hgap, _⟩ := exists_gaps_of_fits_spaced hands
  refine ⟨c, gap, _, by simp; rfl, ?_, hgap⟩
  rintro rfl
  exact absurd hc (by decide)

/-- Behind a text without ampersands the setter is the first match of its shape. -/
theorem setterShape_skip (hfront : '&' ∉ front) (name rest : Text) :
    setterShape.matchesBehind [] (front ++ (setterText name ++ rest)) =
      setterShape.matchesBehind front (setterText name ++ rest) := by
  refine matchesBehind_skip fun u v huv hv hbegins => ?_
  obtain ⟨c, gap, more, heq, hc, hgap⟩ := exists_ampersand_of_setterShape_begins hbegins
  rw [setterText_append, ← List.append_assoc] at heq
  have hne : ∀ d ∈ v ++ ['c'], decide (d = '&') = false := by
    intro d hd
    refine decide_eq_false ?_
    rintro rfl
    rcases List.mem_append.mp hd with hd | hd
    · exact hfront (huv ▸ List.mem_append_right u hd)
    · exact absurd hd (by decide)
  have hgapne : ∀ d ∈ c :: gap, decide (d = '&') = false := by
    intro d hd
    refine decide_eq_false ?_
    rintro rfl
    rcases List.mem_cons.mp hd with rfl | hd
    · exact hc rfl
    · exact absurd (hgap _ hd) (by decide)
  obtain ⟨hpieces, _, _⟩ := Text.cut_unique (· = '&') heq hne rfl hgapne rfl
  obtain ⟨d, v, rfl⟩ := List.exists_cons_of_ne_nil hv
  obtain ⟨_, hgapEq⟩ := List.cons.inj hpieces
  exact absurd (hgap 'c' (by rw [← hgapEq]; simp)) (by decide)

/-- The entry routine that a setter names is the first candidate. -/
theorem head?_candidates (hfront : '&' ∉ front) (hbefore : wordAt front.getLast? = false)
    (hname : name ≠ []) (hplain : ∀ c ∈ name, Text.isPlainName c = true) (rest : Text) :
    (candidates (front ++ (setterText name ++ rest))).head? = some name := by
  obtain ⟨shapes, hshapes⟩ := entryShapes_eq_cons
  obtain ⟨captures, hlabels, hfound⟩ :=
    matchesBehind_of_takes (setterShape_takes hname hplain hbefore rest) (List.cons_ne_nil 'c' _)
  have hcapture : (Cursor.after (front ++ setterText name) rest captures).capture "sig" = name := by
    rw [Cursor.capture, Cursor.capture?_after, hlabels]
    rfl
  rw [candidates, hshapes, List.flatMap_cons, findAll_eq, setterShape_skip hfront, hfound,
    List.cons_append, List.map_cons, hcapture, List.eraseDups_cons, List.head?_cons]

/-- A line ends with a line break. -/
theorem getLast?_line (s : Text) : (s ++ ";\n".toList).getLast? = some '\n' := by
  have hline : s ++ ";\n".toList = s ++ [';'] ++ ['\n'] := by simp
  rw [hline, List.getLast?_concat]

/-! ## The definition -/

/-- A character of a phrase that may define a function. -/
def isPhraseChar (c : Char) : Bool :=
  isIdentifierChar c || Text.isBlank c || c = '='

/-- A character that joins two words of such a phrase. -/
def isJoint (c : Char) : Bool :=
  Text.isBlank c || c = '='

/-- A phrase that may define a function has more than one word. -/
structure IsPhrase (u : Text) : Prop where
  /-- Its characters are those of words, blanks and equals signs. -/
  chars : ∀ c ∈ u, isPhraseChar c = true
  /-- One of its characters joins two words. -/
  joint : ∃ c ∈ u, isJoint c = true
  /-- It begins with a word. -/
  start : u.head?.any isIdentifierChar = true

/-- A function is defined by the keyword and its name. -/
def keywordPhrase (name : Text) : Pattern :=
  lit "function" ++ some1 Text.isBlank ++ text name

/-- A function is defined by its name, an equals sign and the keyword. -/
def assignmentPhrase (name : Text) : Pattern :=
  notAfter continuesPath ++ text name ++ spaced "=" ++ lit "function"

/-- A definition is a phrase, a parameter in parentheses, and a brace. -/
theorem definition_eq (name : Text) : definition name =
    either (keywordPhrase name) (assignmentPhrase name) ++ spaced "(" ++ label "param" identifier
      ++ blanks ++ lit ")" ++ blanks ++ ahead (· = '{') :=
  rfl

/-- A word is written with characters of a phrase. -/
theorem isPhraseChar_of_isIdentifierChar {c : Char} (h : isIdentifierChar c = true) :
    isPhraseChar c = true := by
  simp [isPhraseChar, h]

/-- A blank is a character of a phrase. -/
theorem isPhraseChar_of_isBlank {c : Char} (h : Text.isBlank c = true) :
    isPhraseChar c = true := by
  simp [isPhraseChar, h]

/-- The keyword is written with characters of a phrase. -/
theorem isPhraseChar_of_mem_keyword {c : Char} (h : c ∈ "function".toList) :
    isPhraseChar c = true :=
  Text.forall_mem_of_all (p := (isPhraseChar · = true)) rfl c h

/-- The keyword and a name are a phrase. -/
theorem isPhrase_of_fits_keyword (hname : IsIdentifier name)
    (h : (keywordPhrase name).Fits before w rest) : IsPhrase w := by
  obtain ⟨_, word, rfl, ⟨keyword, _, rfl, hkeyword, _, gap, rfl, ⟨c, hc, rfl⟩, hgap⟩, hword⟩ := h
  obtain rfl : keyword = "function".toList := hkeyword
  obtain rfl : word = name := hword
  refine ⟨fun d hd => ?_, ⟨c, by simp, by simp [isJoint, hc]⟩, rfl⟩
  simp only [List.mem_append, List.mem_singleton] at hd
  rcases hd with (hd | rfl | hd) | hd
  · exact isPhraseChar_of_mem_keyword hd
  · exact isPhraseChar_of_isBlank hc
  · exact isPhraseChar_of_isBlank (hgap d hd)
  · exact isPhraseChar_of_isIdentifierChar (hname.2 d hd)

/-- A name, an equals sign and the keyword are a phrase. -/
theorem isPhrase_of_fits_assignment (hname : IsIdentifier name)
    (h : (assignmentPhrase name).Fits before w rest) : IsPhrase w := by
  obtain ⟨_, keyword, rfl, ⟨_, equals, rfl, ⟨_, word, rfl, ⟨rfl, _⟩, hword⟩, hequals⟩,
    hkeyword⟩ := h
  obtain rfl : keyword = "function".toList := hkeyword
  obtain rfl : word = name := hword
  obtain ⟨gap, gap', rfl, hgap, hgap'⟩ := exists_gaps_of_fits_spaced hequals
  obtain ⟨c, more, hcons, hc⟩ := hname.exists_cons
  refine ⟨fun d hd => ?_, ⟨'=', by simp, rfl⟩, ?_⟩
  · simp only [List.nil_append, List.mem_append] at hd
    rcases hd with (hd | hd | hd | hd) | hd
    · exact isPhraseChar_of_isIdentifierChar (hname.2 d hd)
    · exact isPhraseChar_of_isBlank (hgap d hd)
    · rw [List.mem_singleton.mp hd]
      rfl
    · exact isPhraseChar_of_isBlank (hgap' d hd)
    · exact isPhraseChar_of_mem_keyword hd
  · rw [hcons]
    exact isIdentifierChar_of_isIdentifierStart hc

/-- What stands in a definition up to its first parenthesis is a phrase. -/
theorem exists_paren_of_definition_begins (hname : IsIdentifier name)
    (h : (definition name).Begins before t) : ∃ u v, t = u ++ '(' :: v ∧ IsPhrase u := by
  rw [definition_eq] at h
  obtain ⟨_, rest, rfl, phrase, parens, rfl, hphrase, hparens⟩ :=
    h.front.front.front.front.front
  obtain ⟨left, right, rfl, hleft, _⟩ := exists_gaps_of_fits_spaced hparens
  obtain ⟨hchars, ⟨c, hc, hjoint⟩, hstart⟩ : IsPhrase phrase :=
    hphrase.elim (isPhrase_of_fits_keyword hname) (isPhrase_of_fits_assignment hname)
  refine ⟨phrase ++ left, right ++ rest, by simp, ?_, ⟨c, by simp [hc], hjoint⟩, ?_⟩
  · intro d hd
    rcases List.mem_append.mp hd with hd | hd
    · exact hchars d hd
    · exact isPhraseChar_of_isBlank (hleft d hd)
  · cases phrase with
    | nil => cases hstart
    | cons d phrase => exact hstart

/-- A text over which a search for the definition of a name passes, whatever stands around
it. -/
def IsPassed (name s : Text) : Prop :=
  ∀ before t, (definition name).matchesBehind before (s ++ t) =
    (definition name).matchesBehind (before ++ s) t

/-- Texts that are passed over are passed over one after the other. -/
theorem IsPassed.append (hs : IsPassed name s) (ht : IsPassed name t) :
    IsPassed name (s ++ t) := by
  intro before rest
  rw [List.append_assoc, hs, ht, List.append_assoc]

/-- No definition begins in a text without a parenthesis that ends outside of a phrase. -/
theorem isPassed_of_no_paren (hname : IsIdentifier name) (hv : '(' ∉ v)
    (hx : isPhraseChar x = false) (hparen : x ≠ '(') : IsPassed name (v ++ [x]) := by
  intro before t
  refine matchesBehind_skip fun front w huw hw hbegins => ?_
  obtain ⟨u, more, heq, hu⟩ := exists_paren_of_definition_begins hname hbegins
  have hlast : x ∈ w := by
    obtain ⟨w, y, rfl⟩ := (List.eq_nil_or_concat w).resolve_left hw
    have hends : front ++ w ++ [y] = v ++ [x] := by simpa using huw
    have hyx : y = x := List.singleton_inj.mp (List.append_inj_right' hends rfl)
    simp [hyx]
  have houtside : x ∉ u := fun hmem => absurd (hu.chars x hmem) (by simp [hx])
  have hnoparen : '(' ∉ w := by
    intro hmem
    have hmem' : '(' ∈ v ++ [x] := huw ▸ List.mem_append_right front hmem
    rcases List.mem_append.mp hmem' with hmem' | hmem'
    · exact hv hmem'
    · exact hparen (List.mem_singleton.mp hmem').symm
  rcases List.append_eq_append_iff.mp heq with ⟨a, rfl, _⟩ | ⟨a, rfl, htail⟩
  · exact houtside (List.mem_append_left a hlast)
  · cases a with
    | nil => exact houtside (by simpa using hlast)
    | cons y a =>
      obtain ⟨rfl, _⟩ := List.cons.inj htail
      exact hnoparen (by simp)

/-- No definition begins in one word in front of a parenthesis. -/
theorem isPassed_word (hname : IsIdentifier name) (hw : ∀ c ∈ w, isIdentifierChar c = true) :
    IsPassed name (w ++ ['(']) := by
  intro before t
  rw [List.append_assoc, List.singleton_append, matchesBehind_skip_cons]
  intro _ v hsuffix hbegins
  have hv : ∀ c ∈ v, isIdentifierChar c = true := fun c hc => hw c (hsuffix.subset hc)
  obtain ⟨u, more, heq, hu, ⟨c, hc, hjoint⟩, _⟩ := exists_paren_of_definition_begins hname hbegins
  have hne : ∀ d ∈ v, decide (d = '(') = false := fun d hd =>
    decide_eq_false (ne_of_isIdentifierChar (hv d hd) rfl)
  have hune : ∀ d ∈ u, decide (d = '(') = false := fun d hd => decide_eq_false <| by
    rintro rfl
    exact absurd (hu _ hd) (by decide)
  obtain ⟨rfl, _, _⟩ := Text.cut_unique (· = '(') heq hne rfl hune rfl
  have hequals : c ≠ '=' := ne_of_isIdentifierChar (hv c hc) rfl
  simp [isJoint, isBlank_of_isIdentifierChar (hv c hc), hequals] at hjoint

/-- No definition begins with a character that is none of an identifier. -/
theorem isPassed_singleton (hname : IsIdentifier name) (hx : isIdentifierChar x = false) :
    IsPassed name [x] := by
  intro before t
  have hskip : ∀ before v, v <:+ [] → ¬ (definition name).Begins before (v ++ x :: t) := by
    intro before v hsuffix hbegins
    obtain rfl := List.suffix_nil.mp hsuffix
    obtain ⟨u, more, heq, _, _, hstart⟩ := exists_paren_of_definition_begins hname hbegins
    cases u with
    | nil => cases hstart
    | cons c u =>
      obtain ⟨rfl, _⟩ := List.cons.inj heq
      exact absurd hstart (by simp [hx])
  have hchar := @matchesBehind_skip_cons (definition name) before [] t x hskip
  rw [List.nil_append, List.nil_append] at hchar
  rw [List.singleton_append, hchar]

/-- A list of texts that are passed over, with commas between them, is passed over. -/
theorem isPassed_join (hname : IsIdentifier name) {ts : List Text}
    (h : ∀ t ∈ ts, IsPassed name t) : IsPassed name (Text.join [','] ts) := by
  induction ts with
  | nil => exact fun before t => by simp [Text.join]
  | cons t ts ih =>
    have ht : IsPassed name t := h t List.mem_cons_self
    cases ts with
    | nil => exact ht
    | cons s ts =>
      exact (ht.append (isPassed_singleton hname rfl)).append
        (ih fun t ht => h t (List.mem_cons_of_mem _ ht))

/-! ## The helper object in front of the definition -/

/-- A helper member is passed over: what stands in front of its parentheses is one word, the
name of a method. -/
theorem member_isPassed (hname : IsIdentifier name) (k : Transform) (n : Locals) {method : Text}
    (hmethod : IsIdentifier method) : IsPassed name (k.member n method).toText := by
  have hparen : ∀ {t : Text}, IsIdentifier t → '(' ∉ t := fun ht => ht.not_mem rfl
  have hchars := hparen n.chars_identifier
  have hindex := hparen n.index_identifier
  have hsaved := hparen n.saved_identifier
  have hhead : IsPassed name (method ++ [':']) :=
    isPassed_of_no_paren hname (hparen hmethod) rfl (by decide)
  have hfunction : IsPassed name ("function".toList ++ ['(']) :=
    isPassed_word hname (Text.forall_mem_of_all rfl)
  cases k with
  | reverse =>
    have hfront : IsPassed name (n.chars ++ ")\x7b".toList ++ n.chars ++ ['.']) :=
      isPassed_of_no_paren hname (by simp [hchars]) rfl (by decide)
    have hcall : IsPassed name ("reverse".toList ++ ['(']) :=
      isPassed_word hname (Text.forall_mem_of_all rfl)
    have hend : IsPassed name (")".toList ++ ['}']) :=
      isPassed_of_no_paren hname (by decide) rfl (by decide)
    have htext : (Transform.reverse.member n method).toText = method ++ [':']
        ++ ("function".toList ++ ['(']) ++ (n.chars ++ ")\x7b".toList ++ n.chars ++ ['.'])
        ++ ("reverse".toList ++ ['(']) ++ (")".toList ++ ['}']) := by
      simp [Member.toText, Member.headText, Transform.member, Transform.params, Transform.body,
        bodyText, Text.join]
    rw [htext]
    exact (((hhead.append hfunction).append hfront).append hcall).append hend
  | splice =>
    have hfront : IsPassed name (n.chars ++ ",".toList ++ n.index ++ ")\x7b".toList ++ n.chars
        ++ ['.']) :=
      isPassed_of_no_paren hname (by simp [hchars, hindex]) rfl (by decide)
    have hcall : IsPassed name ("splice".toList ++ ['(']) :=
      isPassed_word hname (Text.forall_mem_of_all rfl)
    have hend : IsPassed name ("0,".toList ++ n.index ++ ")".toList ++ ['}']) :=
      isPassed_of_no_paren hname (by simp [hindex]) rfl (by decide)
    have htext : (Transform.splice.member n method).toText = method ++ [':']
        ++ ("function".toList ++ ['(']) ++ (n.chars ++ ",".toList ++ n.index ++ ")\x7b".toList
        ++ n.chars ++ ['.']) ++ ("splice".toList ++ ['('])
        ++ ("0,".toList ++ n.index ++ ")".toList ++ ['}']) := by
      simp [Member.toText, Member.headText, Transform.member, Transform.params, Transform.body,
        bodyText, Text.join]
    rw [htext]
    exact (((hhead.append hfunction).append hfront).append hcall).append hend
  | swap =>
    have hend : IsPassed name (n.chars ++ ",".toList ++ n.index ++ ")\x7b".toList
        ++ Text.join [';'] (Transform.swap.body n) ++ ['}']) :=
      isPassed_of_no_paren hname (by simp [Transform.body, Locals.element, Text.join, hchars,
        hindex, hsaved]) rfl (by decide)
    have htext : (Transform.swap.member n method).toText = method ++ [':']
        ++ ("function".toList ++ ['(']) ++ (n.chars ++ ",".toList ++ n.index ++ ")\x7b".toList
        ++ Text.join [';'] (Transform.swap.body n) ++ ['}']) := by
      simp [Member.toText, Member.headText, Transform.member, Transform.params, bodyText,
        Text.join_cons]
    rw [htext]
    exact (hhead.append hfunction).append hend

/-- The line that defines the helper is passed over. -/
theorem helperLine_isPassed (hname : IsIdentifier name) {helper : Text}
    (hhelper : IsIdentifier helper) (n : Locals) {method : Transform → Text}
    (hmethod : ∀ k, IsIdentifier (method k)) (ks : List Transform) :
    IsPassed name ("var ".toList ++ helper ++ "=".toList
      ++ objectText (ks.map fun k => k.member n (method k)) ++ ";\n".toList) := by
  have hfront : IsPassed name ("var ".toList ++ helper ++ "=".toList ++ ['{']) :=
    isPassed_of_no_paren hname (by simp [hhelper.not_mem (d := '(') rfl]) rfl (by decide)
  have hmembers : IsPassed name (Text.join [','] ((ks.map fun k => k.member n (method k)).map
      Member.toText)) := by
    refine isPassed_join hname fun t ht => ?_
    simp only [List.mem_map] at ht
    obtain ⟨_, ⟨k, _, rfl⟩, rfl⟩ := ht
    exact member_isPassed hname k n (hmethod k)
  have hsymbol : ∀ x, isIdentifierChar x = false → IsPassed name [x] := fun x hx =>
    isPassed_singleton hname hx
  simpa [objectText] using (((hfront.append hmembers).append (hsymbol '}' rfl)).append
    (hsymbol ';' rfl)).append (hsymbol '\n' rfl)

/-! ## The routine -/

/-- A routine that is defined by an assignment is not defined behind the keyword. -/
theorem not_keyword_begins (hname : IsIdentifier name) :
    ¬ (keywordPhrase name).Begins before (name ++ '=' :: t) := by
  rintro ⟨_, rest, heq, _, word, rfl, ⟨keyword, _, rfl, hkeyword, _, gap, rfl, ⟨c, hc, rfl⟩, _⟩, _⟩
  obtain rfl : keyword = "function".toList := hkeyword
  have hcut : name ++ '=' :: t = "function".toList ++ c :: (gap ++ (word ++ rest)) := by
    simpa using heq
  have hne : ∀ d, isIdentifierChar d = true → isJoint d = false := fun d hd => by
    have hequals : d ≠ '=' := ne_of_isIdentifierChar hd rfl
    simp [isJoint, isBlank_of_isIdentifierChar hd, hequals]
  obtain ⟨_, rfl, _⟩ := Text.cut_unique isJoint hcut (fun d hd => hne d (hname.2 d hd))
    rfl (Text.forall_mem_of_all rfl) (by simp [isJoint, hc])
  exact absurd hc (by decide)

/-- A definition takes what stands in front of the body. -/
theorem definition_takes (hname : IsIdentifier name) (hparam : IsIdentifier param)
    (hbefore : before.getLast?.any continuesPath = false) {body : Text}
    (hbody : body.head? = some '{') (rest : Text) :
    (definition name).Takes before (name ++ "=".toList ++ "function".toList ++ "(".toList ++ param
      ++ ")".toList) (body ++ rest) [] [("param", param)] := by
  obtain ⟨items, rfl⟩ : ∃ items, body = '{' :: items := List.head?_eq_some_iff.mp hbody
  have hblank : ∀ more, (param ++ more).head?.any Text.isBlank = false := fun more =>
    Text.head?_append_any hparam.ne_nil fun c hc => isBlank_of_isIdentifierChar (hparam.2 c hc)
  rw [definition_eq]
  refine Takes.append_nil ?_ (takes_ahead rfl)
  refine Takes.append_nil ?_ (takes_no_blanks rfl)
  refine Takes.append ?_ (takes_lit ")")
  refine Takes.append_nil ?_ (takes_no_blanks rfl)
  refine Takes.append ?_ (takes_label "param" (hparam.takes rfl))
  refine Takes.append ?_ (takes_spaced "(" rfl (by simp) (hblank _))
  refine takes_right ?_ ?_
  · simpa using not_keyword_begins hname
  · refine Takes.append ?_ (takes_lit "function")
    refine Takes.append ?_ (takes_spaced "=" rfl (by simp) rfl)
    exact Takes.nil_append (takes_notAfter hbefore) (takes_text name)

/-- The routine is read off its definition behind a text that is passed over. -/
theorem readFunction?_eq_some (hname : IsIdentifier name) (hparam : IsIdentifier param)
    (hfront : IsPassed name front) (hbefore : front.getLast?.any continuesPath = false)
    {body : Text} (hbody : ∀ before, Literal.IsLiteral before body)
    (hbrace : body.head? = some '{') (rest : Text) :
    readFunction? (front ++ (name ++ "=".toList ++ "function".toList ++ "(".toList ++ param
      ++ ")".toList ++ (body ++ rest))) name = some ⟨name, param, body⟩ := by
  obtain ⟨captures, hlabels, hfound⟩ :=
    matchesBehind_of_takes (definition_takes hname hparam hbefore hbrace rest) (by simp)
  have hread : Literal.read? (body ++ rest) = some body := by
    rw [Literal.read?, Literal.read_of_isLiteral (hbody []) rest]
  have hcapture : ∀ before, (Cursor.after before (body ++ rest) captures).capture "param" =
      param := fun before => by
    rw [Cursor.capture, Cursor.capture?_after, hlabels]
    rfl
  rw [readFunction?, findAll_eq, hfront, List.nil_append, hfound, List.findSome?_cons]
  simp only [hcapture]
  simp only [Cursor.after, hread, Option.map_some]

/-- The first candidate with a readable definition is the entry routine. -/
theorem findEntry_eq_ok {script : Text} {entry : Entry}
    (hcandidate : (candidates script).head? = some entry.name)
    (hread : readFunction? script entry.name = some entry) : findEntry script = .ok entry := by
  obtain ⟨more, hmore⟩ := List.head?_eq_some_iff.mp hcandidate
  simp [findEntry, hmore, hread]

end Playable.Script
