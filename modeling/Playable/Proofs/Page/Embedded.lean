import Playable.Page.VideoInfo
import Playable.Proofs.Json.Token
import Playable.Proofs.Pattern.Capture

/-!
# The embedded player response

A watch page assigns the player response to a variable. The anchor with the name of the variable
finds it, because the name occurs nowhere else outside of the response. But the anchor of the
other assignment is tried first, and it is looked for in the whole page, also in the strings of
the response. So the response is read as it is, whatever strings it holds, unless one of them
looks like that assignment.
-/

namespace Playable.Page

open Pattern Json Literal

variable {before after s t w x y rest : Text} {c d : Char} {P : Text → Prop}

/-- The name of the variable that holds the player response. -/
def responseName : Text :=
  "ytInitialPlayerResponse".toList

/-- The subscript by which the variable is found first, with the quotes around its name. -/
def subscript (quote quote' : Char) : Text :=
  "window[".toList ++ quote :: (responseName ++ [quote', ']'])

/-- The subscript in front of a text begins with a letter that stands nowhere else in it. -/
theorem subscript_append (quote quote' : Char) (t : Text) :
    subscript quote quote' ++ t =
      'w' :: ("indow[".toList ++ quote :: (responseName ++ quote' :: ']' :: t)) := by
  have hfront : "window[".toList = 'w' :: "indow[".toList := by decide
  change "window[".toList ++ quote :: (responseName ++ [quote', ']']) ++ t = _
  rw [hfront]
  simp only [List.append_assoc, List.cons_append, List.nil_append]

/-- A text that looks like an assignment to the subscript: an opener stands behind the equality
sign. -/
def Mimics (t : Text) : Prop :=
  ∃ front gap gap' opener back, (∀ c ∈ gap, c = ' ') ∧ (∀ c ∈ gap', c = ' ') ∧
    (opener = '{' ∨ opener = '[') ∧
    t = front ++ (subscript '\'' '\'' ++ (gap ++ '=' :: (gap' ++ opener :: back)))

/-- Where the subscript does not stand, nothing looks like an assignment to it. -/
theorem not_mimics (h : ¬ subscript '\'' '\'' <:+: t) : ¬ Mimics t := by
  rintro ⟨front, gap, gap', opener, back, -, -, -, rfl⟩
  exact h ⟨front, gap ++ '=' :: (gap' ++ opener :: back), List.append_assoc ..⟩

/-- The anchor of the assignment to a subscript. -/
def subscriptAnchor : Pattern :=
  lit "window[" ++ anyOf "'\"" ++ lit "ytInitialPlayerResponse" ++ anyOf "'\"" ++ lit "]" ++ blanks
    ++ lit "=" ++ blanks

/-- The anchor of the assignment to the variable. -/
def variableAnchor : Pattern :=
  lit "ytInitialPlayerResponse" ++ blanks ++ lit "=" ++ blanks

/-- The subscript is tried before the variable. -/
theorem playerResponseAnchors_eq : playerResponseAnchors = [subscriptAnchor, variableAnchor] :=
  rfl

/-- What fits the anchor of the subscript. -/
theorem exists_of_fits (h : subscriptAnchor.Fits before w rest) :
    ∃ quote quote' gap gap', quote ∈ ['\'', '"'] ∧ quote' ∈ ['\'', '"'] ∧
      (∀ c ∈ gap, Text.isBlank c = true) ∧ (∀ c ∈ gap', Text.isBlank c = true) ∧
      w = subscript quote quote' ++ (gap ++ '=' :: gap') := by
  obtain ⟨_, gap', rfl, ⟨_, equals, rfl, ⟨_, gap, rfl, ⟨_, close, rfl, ⟨_, _, rfl, ⟨_, name, rfl,
    ⟨front, _, rfl, hfront, hmark⟩, hname⟩, hmark'⟩, hclose⟩, hgap⟩, hequals⟩, hgap'⟩ := h
  obtain ⟨quote, hquote, rfl⟩ := fits_anyOf.mp hmark
  obtain ⟨quote', hquote', rfl⟩ := fits_anyOf.mp hmark'
  rw [fits_lit] at hfront hname hclose hequals
  have hfront' : front = 'w' :: "indow[".toList := hfront.trans (by decide)
  have hclose' : close = [']'] := hclose
  have hequals' : equals = ['='] := hequals
  refine ⟨quote, quote', gap, gap', hquote, hquote', hgap, hgap', ?_⟩
  have hname' : name = responseName := hname
  rw [hfront', hname', hclose', hequals', subscript_append]
  simp only [List.append_assoc, List.cons_append, List.nil_append]

/-! ## The subscript in a written value -/

/-- A blank is neither a quote nor a backslash. -/
theorem ne_of_isBlank (h : Text.isBlank c = true) : c ≠ '"' ∧ c ≠ '\\' := by
  constructor <;> rintro rfl <;> cases h

/-- Among the plain characters of a string only the space is blank. -/
theorem eq_space_of_isBlank (h : Text.isBlank c = true) (hlow : 32 ≤ c.toNat)
    (hhigh : c.toNat < 127) : c = ' ' := by
  have hcode : c.toNat = 32 := by
    simp only [Text.isBlank, Bool.or_eq_true, Bool.and_eq_true, decide_eq_true_eq] at h
    omega
  exact Char.toNat_inj.mp hcode

section Subscript

variable {quote quote' opener : Char} {gap gap' : Text}

/-- The subscript stands in a written value only in a string, because of its first letter. -/
theorem exists_string_of_subscript (hs : Woven P s)
    (hpiece : s = x ++ (subscript quote quote' ++ y)) :
    ∃ t u w rest, P t ∧ t = u ++ 'w' :: w ∧
      "indow[".toList ++ quote :: (responseName ++ quote' :: ']' :: y) =
        w.flatMap writeChar ++ '"' :: rest ∧ Woven P rest := by
  rw [subscript_append] at hpiece
  exact hs.exists_string (by decide) (by decide) (by decide) hpiece

/-- The subscript with a double quote in front of the name does not stand in a written value: it
would close a string, and the name would stand outside. -/
theorem no_double_quoted_subscript (hs : Woven P s)
    (hpiece : s = x ++ (subscript '"' quote' ++ y)) : False := by
  obtain ⟨_, _, w, rest, -, -, hbody, hrest⟩ := exists_string_of_subscript hs hpiece
  have hplain : ∀ c ∈ "indow[".toList, c ≠ '"' ∧ c ≠ '\\' := Text.forall_mem_of_all rfl
  obtain ⟨-, rfl⟩ := eq_of_plain_quote hplain hbody
  have htoken := hrest.isTokenChar rfl (by decide) 'P' (by decide : 'P' ∈ responseName)
  exact absurd htoken (by decide)

/-- The subscript with a single quote in front of the name and a double quote behind it does not
stand in a written value before an equality sign, which would stand outside of the strings. -/
theorem no_mixed_quoted_subscript (hs : Woven P s) (hgap : ∀ c ∈ gap, Text.isBlank c = true)
    (hpiece : s = x ++ (subscript '\'' '"' ++ (gap ++ '=' :: y))) : False := by
  obtain ⟨_, _, w, rest, -, -, hbody, hrest⟩ := exists_string_of_subscript hs hpiece
  have hplain : ∀ c ∈ "indow[".toList ++ '\'' :: responseName, c ≠ '"' ∧ c ≠ '\\' :=
    Text.forall_mem_of_all rfl
  have hbody' : ("indow[".toList ++ '\'' :: responseName) ++ '"' :: ']' :: (gap ++ '=' :: y) =
      w.flatMap writeChar ++ '"' :: rest := by
    rw [← hbody, List.append_assoc, List.cons_append]
  obtain ⟨-, rfl⟩ := eq_of_plain_quote hplain hbody'
  have hquote : '"' ∉ ']' :: (gap ++ ['=']) := by
    have hnot : '"' ∉ gap := fun h => (ne_of_isBlank (hgap _ h)).1 rfl
    simp [hnot]
  have htoken := hrest.isTokenChar (w := ']' :: (gap ++ ['='])) (y := y) (by simp) hquote '='
    (by simp)
  exact absurd htoken (by decide)

/-- The subscript with single quotes and an opener behind the equality sign stands in a written
value only where a string looks like it. -/
theorem no_single_quoted_subscript (hs : Woven (fun t => ¬ Mimics t) s)
    (hgap : ∀ c ∈ gap, Text.isBlank c = true) (hgap' : ∀ c ∈ gap', Text.isBlank c = true)
    (hopener : opener = '{' ∨ opener = '[')
    (hpiece : s = x ++ (subscript '\'' '\'' ++ (gap ++ '=' :: (gap' ++ opener :: y)))) :
    False := by
  obtain ⟨t, u, w, rest, ht, rfl, hbody, -⟩ := exists_string_of_subscript hs hpiece
  have hblank : ∀ c ∈ gap ++ gap', Text.isBlank c = true := List.forall_mem_append.mpr ⟨hgap, hgap'⟩
  have hfront : ∀ c ∈ "indow[".toList ++ '\'' :: (responseName ++ ['\'', ']']),
      c ≠ '"' ∧ c ≠ '\\' :=
    Text.forall_mem_of_all rfl
  generalize hname : "indow[".toList ++ '\'' :: (responseName ++ ['\'', ']']) = front at hfront
  have hbody' : (front ++ gap ++ '=' :: gap' ++ [opener]) ++ y =
      w.flatMap writeChar ++ '"' :: rest := by
    rw [← hbody, ← hname]
    simp only [List.append_assoc, List.cons_append, List.nil_append]
  have hplain : ∀ c ∈ front ++ gap ++ '=' :: gap' ++ [opener], c ≠ '"' ∧ c ≠ '\\' := by
    intro c hc
    simp only [List.mem_append, List.mem_cons, List.not_mem_nil, or_false] at hc
    rcases hc with ((hc | hc) | rfl | hc) | rfl
    · exact hfront c hc
    · exact ne_of_isBlank (hgap c hc)
    · decide
    · exact ne_of_isBlank (hgap' c hc)
    · rcases hopener with rfl | rfl <;> decide
  obtain ⟨v, rfl, -, hrange⟩ := exists_append_of_plain hplain hbody'
  have hspace : ∀ c ∈ gap ++ gap', c = ' ' := by
    intro c hc
    obtain ⟨hlow, hhigh⟩ := hrange c (by
      simp only [List.mem_append, List.mem_cons] at hc ⊢
      rcases hc with hc | hc
      · exact .inl (.inl (.inr hc))
      · exact .inl (.inr (.inr hc)))
    exact eq_space_of_isBlank (hblank c hc) hlow hhigh
  refine ht ⟨u, gap, gap', opener, v, (List.forall_mem_append.mp hspace).1,
    (List.forall_mem_append.mp hspace).2, hopener, ?_⟩
  rw [subscript_append, ← hname]
  simp only [List.append_assoc, List.cons_append, List.nil_append]

end Subscript

/-! ## The name in a page -/

/-- A page that assigns a text to the variable. -/
def assignment (before body after : Text) : Text :=
  before ++ ("var ytInitialPlayerResponse = ".toList ++ (body ++ ';' :: after))

/-- A space stands on both sides of the name. -/
theorem assignment_eq (before body after : Text) :
    assignment before body after =
      (before ++ ['v', 'a', 'r']) ++ ' ' :: (responseName ++ ' ' :: '=' :: ' ' ::
        (body ++ ';' :: after)) := by
  have hfront : "var ytInitialPlayerResponse = ".toList =
      ['v', 'a', 'r', ' '] ++ (responseName ++ [' ', '=', ' ']) := by decide
  rw [assignment, hfront]
  simp only [List.append_assoc, List.cons_append, List.nil_append]

section Place

variable {body left right : Text} (hbefore : ¬ responseName <:+: before)
  (hafter : ¬ responseName <:+: after)

include hbefore in
/-- The keyword does not complete the name. -/
theorem not_infix_var : ¬ responseName <:+: before ++ ['v', 'a', 'r'] := by
  rintro ⟨left, right, h⟩
  rw [List.append_assoc] at h
  rcases Text.append_cons_eq_append (by decide : 'v' ∉ responseName) h.symm with
    ⟨z, hz, -⟩ | ⟨z, -, hz⟩
  · exact hbefore ⟨left, z, by rw [hz, List.append_assoc]⟩
  · have hlength := congrArg List.length hz
    simp only [List.length_append, List.length_cons, List.length_nil,
      (by decide : responseName.length = 23)] at hlength
    omega

include hbefore hafter in
/-- The name stands in a page where the variable is assigned, or in the assigned text. -/
theorem place_of_name (h : assignment before body after = left ++ (responseName ++ right)) :
    left = before ++ ['v', 'a', 'r', ' '] ∨
      ∃ z z' front, body = z ++ (responseName ++ z') ∧ left = front ++ ' ' :: z ∧
        right = z' ++ ';' :: after := by
  rw [assignment_eq] at h
  have hspace : ' ' ∉ responseName := by decide
  have hne : responseName ≠ [] := by decide
  rcases Text.append_cons_eq_append hspace h with ⟨z, hz, -⟩ | ⟨z, hleft, hname⟩
  · exact absurd ⟨left, z, by rw [hz, List.append_assoc]⟩ (not_infix_var hbefore)
  rcases Text.append_cons_eq_append hspace hname with ⟨z', hz, -⟩ | ⟨z', rfl, hequals⟩
  · have hnil : z = [] := by
      have hlength := congrArg List.length hz
      simp only [List.length_append] at hlength
      exact List.eq_nil_of_length_eq_zero (by omega)
    exact .inl (by rw [hleft, hnil, List.append_assoc]; rfl)
  obtain ⟨z, rfl, hgap⟩ := Text.cons_eq_append hne (by decide : '=' ∉ responseName) hequals
  obtain ⟨z, rfl, hbody⟩ := Text.cons_eq_append hne hspace hgap
  rcases Text.append_cons_eq_append (by decide : ';' ∉ responseName) hbody with
    ⟨z', hz, hright⟩ | ⟨z', -, hz⟩
  · refine .inr ⟨z, z', before ++ "var ytInitialPlayerResponse =".toList, hz, ?_, hright⟩
    have hfront : "var ytInitialPlayerResponse =".toList =
        ['v', 'a', 'r', ' '] ++ (responseName ++ [' ', '=']) := by decide
    rw [hleft, hfront]
    simp only [List.append_assoc, List.cons_append, List.nil_append]
  · exact absurd ⟨z', right, by rw [hz, List.append_assoc]⟩ hafter

end Place

/-! ## The anchors in a page -/

/-- A literal begins with an opener. -/
theorem exists_opener_of_read? {literal : Text} (h : read? t = some literal) :
    ∃ opener more, t = opener :: more ∧ (opener = '{' ∨ opener = '[') := by
  rw [read?] at h
  split at h
  · rename_i hread
    obtain ⟨opener, closer, more, hpair, rfl⟩ := exists_paired_of_read hread
    cases hpair with
    | braces => exact ⟨'{', more, rfl, .inl rfl⟩
    | brackets => exact ⟨'[', more, rfl, .inr rfl⟩
  · cases h

section Anchors

variable {body : Text}

/-- Where the subscript stands in a page, it stands with what belongs to its assignment in the
assigned text. -/
theorem exists_piece_of_page {quote quote' opener : Char} {gap gap' left more : Text}
    (hbefore : ¬ responseName <:+: before) (hafter : ¬ responseName <:+: after)
    (hquote : quote ∈ ['\'', '"']) (hquote' : quote' ∈ ['\'', '"'])
    (hgap : ∀ c ∈ gap, Text.isBlank c = true) (hgap' : ∀ c ∈ gap', Text.isBlank c = true)
    (hopener : opener = '{' ∨ opener = '[')
    (hpage : assignment before body after =
      left ++ (subscript quote quote' ++ (gap ++ '=' :: (gap' ++ opener :: more)))) :
    ∃ x y, body = x ++ (subscript quote quote' ++ (gap ++ '=' :: (gap' ++ opener :: y))) := by
  have hsplit : left ++ (subscript quote quote' ++ (gap ++ '=' :: (gap' ++ opener :: more))) =
      (left ++ 'w' :: ("indow[".toList ++ [quote])) ++
        (responseName ++ (quote' :: ']' :: (gap ++ '=' :: (gap' ++ opener :: more)))) := by
    rw [subscript_append]
    simp only [List.append_assoc, List.cons_append, List.nil_append]
  rw [hsplit] at hpage
  rcases place_of_name hbefore hafter hpage with hleft | ⟨z, z', front, rfl, hleft, hright⟩
  · -- The name of the variable follows a space and not a quote.
    have hlast : (left ++ 'w' :: "indow[".toList) ++ [quote] =
        (before ++ ['v', 'a', 'r']) ++ [' '] := by
      simpa only [List.append_assoc, List.cons_append, List.nil_append] using hleft
    obtain rfl : quote = ' ' := (List.cons.inj (List.append_inj' hlast rfl).2).1
    exact absurd hquote (by decide)
  · -- Neither the space in front of the text nor the semicolon behind it belong to the piece.
    have hspace : ' ' ∉ 'w' :: ("indow[".toList ++ [quote]) := by
      rcases List.mem_pair.mp hquote with rfl | rfl <;> decide
    have hsemicolon : ';' ∉ quote' :: ']' :: (gap ++ '=' :: (gap' ++ [opener])) := by
      have hnot : ∀ gap : Text, (∀ c ∈ gap, Text.isBlank c = true) → ';' ∉ gap :=
        fun gap h hmem => absurd (h _ hmem) (by decide)
      simp only [List.mem_cons, List.mem_append, List.not_mem_nil, or_false, not_or]
      refine ⟨?_, by decide, hnot gap hgap, by decide, hnot gap' hgap', ?_⟩
      · rcases List.mem_pair.mp hquote' with rfl | rfl <;> decide
      · rcases hopener with rfl | rfl <;> decide
    have hright' : z' ++ ';' :: after =
        quote' :: ']' :: (gap ++ '=' :: (gap' ++ [opener])) ++ more := by
      rw [← hright]
      simp only [List.append_assoc, List.cons_append, List.nil_append]
    obtain ⟨x, -, rfl⟩ := Text.append_cons_eq_back hspace hleft.symm
    obtain ⟨y, rfl, -⟩ := Text.append_cons_eq_front hsemicolon hright'
    refine ⟨x, y, ?_⟩
    rw [subscript_append]
    simp only [List.append_assoc, List.cons_append, List.nil_append]

/-- Behind no match of the anchor of the subscript stands a literal. -/
theorem read?_subscriptAnchor (hbefore : ¬ responseName <:+: before)
    (hafter : ¬ responseName <:+: after) (hbody : Woven (fun t => ¬ Mimics t) body) :
    ∀ m ∈ subscriptAnchor.findAll (assignment before body after), read? m.rest = none := by
  intro m hm
  obtain ⟨u, v, hpage, hrun⟩ := @exists_run_of_mem_findAllFrom subscriptAnchor [] _ m 0 hm
  obtain ⟨w, rest, captures, rfl, rfl, hfits⟩ := fits_of_mem_run hrun
  obtain ⟨quote, quote', gap, gap', hquote, hquote', hgap, hgap', rfl⟩ := exists_of_fits hfits
  cases hread : read? rest with
  | none => exact hread
  | some literal =>
    obtain ⟨opener, more, rfl, hopener⟩ := exists_opener_of_read? hread
    simp only [List.append_assoc, List.cons_append] at hpage
    obtain ⟨x, y, hpiece⟩ :=
      exists_piece_of_page hbefore hafter hquote hquote' hgap hgap' hopener hpage
    simp only [List.mem_cons, List.not_mem_nil, or_false] at hquote hquote'
    rcases hquote with rfl | rfl
    · rcases hquote' with rfl | rfl
      · exact (no_single_quoted_subscript hbody hgap hgap' hopener hpiece).elim
      · exact (no_mixed_quoted_subscript hbody hgap hpiece).elim
    · exact (no_double_quoted_subscript hbody hpiece).elim

/-- The first match of the anchor of the variable lies in front of the assigned text. -/
theorem findAll_variableAnchor (hbefore : ¬ responseName <:+: before)
    (hblank : body.head?.any Text.isBlank = false) (hne : body ≠ []) (after : Text) :
    ∃ m more, variableAnchor.findAll (assignment before body after) = m :: more ∧
      m.rest = body ++ ';' :: after := by
  have hspace : ∀ c ∈ [' '], Text.isBlank c = true := List.forall_mem_singleton.mpr rfl
  have hblank' : (body ++ ';' :: after).head?.any Text.isBlank = false := by
    rwa [List.head?_append_of_ne_nil _ hne]
  have hequals : (lit "=").Takes (before ++ ['v', 'a', 'r', ' '] ++ (responseName ++ [' ']))
      ['='] ([' '] ++ (body ++ ';' :: after)) [] [] := takes_lit "="
  have htakes : variableAnchor.Takes (before ++ ['v', 'a', 'r', ' '])
      (responseName ++ [' '] ++ ['='] ++ [' ']) (body ++ ';' :: after) [] [] :=
    (((takes_lit "ytInitialPlayerResponse").append (takes_many hspace rfl)).append hequals).append
      (takes_many hspace hblank')
  have hskip : variableAnchor.matchesBehind [] ((before ++ ['v', 'a', 'r', ' ']) ++
      ((responseName ++ [' '] ++ ['='] ++ [' ']) ++ (body ++ ';' :: after))) =
      variableAnchor.matchesBehind (before ++ ['v', 'a', 'r', ' '])
        ((responseName ++ [' '] ++ ['='] ++ [' ']) ++ (body ++ ';' :: after)) := by
    refine matchesBehind_skip fun u v huv hv hbegins => ?_
    obtain ⟨_, rest, hname, rfl⟩ := hbegins.front.front.front
    obtain ⟨v, c, rfl⟩ : ∃ v' c, v = v' ++ [c] :=
      ⟨v.dropLast, v.getLast hv, (List.dropLast_concat_getLast hv).symm⟩
    have hlast : (u ++ v) ++ [c] = (before ++ ['v', 'a', 'r']) ++ [' '] := by
      simpa only [List.append_assoc, List.cons_append, List.nil_append] using huv
    obtain ⟨hfront, hc⟩ := List.append_inj' hlast rfl
    obtain rfl : c = ' ' := (List.cons.inj hc).1
    have hkeyword := not_infix_var hbefore
    rw [← hfront] at hkeyword
    rw [List.append_assoc, List.singleton_append] at hname
    obtain ⟨z, rfl, -⟩ := Text.append_cons_eq_front (by decide : ' ' ∉ responseName) hname
    exact hkeyword ⟨u, z, List.append_assoc ..⟩
  have hpage : assignment before body after = (before ++ ['v', 'a', 'r', ' ']) ++
      ((responseName ++ [' '] ++ ['='] ++ [' ']) ++ (body ++ ';' :: after)) := by
    rw [assignment_eq]
    simp only [List.append_assoc, List.cons_append, List.nil_append]
  obtain ⟨captures, -, hfound⟩ := matchesBehind_of_takes htakes (by simp)
  exact ⟨_, _, by rw [findAll_eq, hpage, hskip, hfound], rfl⟩

end Anchors

/-- The player response that is assigned to the variable is what is read from a page, whatever
strings it holds, unless one of them looks like the assignment to the subscript. -/
theorem readVideoInfo_of_assignment (videoId : Text) {fields : Json.Fields}
    {response : Record.PlayerResponse} (hbefore : ¬ responseName <:+: before)
    (hafter : ¬ responseName <:+: after) (hreadable : (Value.object fields).IsReadable)
    (hmimics : ∀ t ∈ (Value.object fields).texts, ¬ Mimics t)
    (hresponse : Record.PlayerResponse.read (.object fields) = .valid response) :
    readVideoInfo videoId (assignment before (write (.object fields)) after) =
      .ok ⟨response, legacyList? (assignment before (write (.object fields)) after)⟩ := by
  have hwoven := woven_write (.object fields) hreadable hmimics
  have hparse := parse?_write hreadable
  have hopen : ∃ more, write (.object fields) = '{' :: more := ⟨_, rfl⟩
  have hliteral :
      read? (write (.object fields) ++ ';' :: after) = some (write (.object fields)) := by
    have hpart : IsPart (writeFields fields) := isPart_writeFields hreadable.2
    rw [read?, write, read_of_isLiteral (hpart.braced [])]
  generalize write (.object fields) = body at *
  obtain ⟨tail, rfl⟩ := hopen
  have hblank : ('{' :: tail).head?.any Text.isBlank = false := rfl
  obtain ⟨m, more, hfound, hrest⟩ :=
    findAll_variableAnchor hbefore hblank (List.cons_ne_nil '{' tail) after
  have hnone := List.findSome?_eq_none_iff.mpr (read?_subscriptAnchor hbefore hafter hwoven)
  have hembedded :
      playerResponse? (assignment before ('{' :: tail) after) = some ('{' :: tail) := by
    rw [playerResponse?, readBehind?, playerResponseAnchors_eq]
    simp only [List.findSome?_cons, hnone, hfound, hrest, hliteral]
  simp only [readVideoInfo, hembedded, hparse, Option.map_some, hresponse]

/-- A response whose title holds assignments to the variable and, with double quotes, to the
subscript is read as it is. -/
theorem readVideoInfo_of_assigning_title :
    let title := "ytInitialPlayerResponse = window[\"ytInitialPlayerResponse\"] = \x7b\x7d".toList
    let fields : Json.Fields := [("videoDetails".toList, .object
      [("videoId".toList, .text "abcdefghijk".toList), ("title".toList, .text title)])]
    let response : Record.PlayerResponse :=
      ⟨⟨"abcdefghijk".toList, title, none, none, false⟩, none⟩
    let page := assignment "<b>".toList (write (.object fields)) "</b>".toList
    (∀ t ∈ (Value.object fields).texts, ¬ Mimics t) ∧
      Record.PlayerResponse.read (.object fields) = .valid response ∧
      readVideoInfo [] page = .ok ⟨response, legacyList? page⟩ := by
  intro title fields response page
  have hreadable : (Value.object fields).IsReadable :=
    ⟨by decide, ⟨by decide, trivial, trivial, trivial⟩, trivial⟩
  have hsubscript : ∀ t ∈ (Value.object fields).texts, ¬ subscript '\'' '\'' <:+: t := by
    decide +kernel
  have hmimics : ∀ t ∈ (Value.object fields).texts, ¬ Mimics t :=
    fun t ht => not_mimics (hsubscript t ht)
  exact ⟨hmimics, rfl,
    readVideoInfo_of_assignment [] (by decide) (by decide) hreadable hmimics rfl⟩

/-- A response whose title is an assignment to the subscript is refused, although it is valid. -/
theorem title_subscript_not_usable :
    let fields : Json.Fields := [("videoDetails".toList, .object
      [("videoId".toList, .text "abcdefghijk".toList),
        ("title".toList, .text "window['ytInitialPlayerResponse'] = \x7b\x7d".toList)])]
    (∃ response, Record.PlayerResponse.read (.object fields) = .valid response) ∧
      readVideoInfo "abcdefghijk".toList (assignment [] (write (.object fields)) []) =
        .error (.unusable "abcdefghijk".toList) :=
  ⟨⟨_, rfl⟩, by decide +kernel⟩

end Playable.Page
