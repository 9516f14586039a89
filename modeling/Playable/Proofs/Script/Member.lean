import Playable.Proofs.Literal.Acceptance
import Playable.Proofs.Script.Identifier
import Playable.Script.Helper

/-!
# The members of a written object

An object literal without blanks is written from a list of members. Its definition is found
behind any text in which the name cannot end, and reading its members gives the list again:
nothing inside a body adds, hides or cuts off a member.
-/

namespace Playable.Script

open Pattern

variable {c : Char} {t before rest name : Text}
  {m : Member} {ms : List Member}

/-- A member that an object can be written with: its name and its parameters are
identifiers, and its body is a literal in braces. -/
structure Member.IsWellFormed (m : Member) : Prop where
  /-- The name is an identifier. -/
  name : IsIdentifier m.name
  /-- The parameters are identifiers. -/
  params : ∀ p ∈ m.params, IsIdentifier p
  /-- The body is a literal, whatever stands in front of it. -/
  body : ∀ before, Literal.IsLiteral before m.body
  /-- The body begins with a brace. -/
  brace : m.body.head? = some '{'

/-- What is written of a member in front of its body. -/
def Member.headText (m : Member) : Text :=
  m.name ++ ":".toList ++ "function".toList ++ "(".toList ++ Text.join [','] m.params ++ ")".toList

/-- A member as it is written. -/
def Member.toText (m : Member) : Text :=
  m.headText ++ m.body

/-- An object literal with the given members. -/
def objectText (ms : List Member) : Text :=
  '{' :: Text.join [','] (ms.map Member.toText) ++ ['}']

/-- An object literal goes on with a comma and the next member, or ends. -/
def objectTail (ms : List Member) : Text :=
  (ms.map Member.toText).flatMap ([','] ++ ·) ++ ['}']

/-- The names in a joined list of identifiers. -/
theorem paramNames_join {ps : List Text} (h : ∀ p ∈ ps, IsIdentifier p) :
    paramNames (Text.join [','] ps) = ps := by
  cases hps : ps with
  | nil => rfl
  | cons p more =>
    rw [← hps]
    have hne : ps ≠ [] := by simp [hps]
    have hstrip : ∀ p ∈ ps, Text.strip p = p := fun p hp =>
      Text.trim_of_forall (h p hp).not_blank
    rw [paramNames, Text.split_join hne fun p hp => (h p hp).not_mem rfl,
      List.map_congr_left hstrip, List.map_id', List.filter_eq_self]
    intro p hp
    simpa using (h p hp).ne_nil

/-- A joined list of identifiers holds no closing parenthesis. -/
theorem ne_paren_of_mem_join {ps : List Text} (h : ∀ p ∈ ps, IsIdentifier p)
    (hc : c ∈ Text.join [','] ps) : c ≠ ')' := by
  cases ps with
  | nil => simp [Text.join] at hc
  | cons p more =>
    rw [Text.join_cons] at hc
    simp only [List.mem_append, List.mem_flatMap, List.mem_singleton] at hc
    rcases hc with hc | ⟨q, hq, rfl | hc⟩
    · exact ne_of_isIdentifierChar ((h p List.mem_cons_self).2 c hc) rfl
    · decide
    · exact ne_of_isIdentifierChar ((h q (List.mem_cons_of_mem p hq)).2 c hc) rfl

/-- The shape of a member takes what is written of it in front of the body. -/
theorem memberShape_takes (h : m.IsWellFormed) (before rest : Text) :
    memberShape.Takes before m.headText (m.body ++ rest) []
      [("params", Text.join [','] m.params), ("name", m.name)] := by
  obtain ⟨more, hbody⟩ : ∃ more, m.body = '{' :: more := List.head?_eq_some_iff.mp h.brace
  have hparams : ∀ c ∈ Text.join [','] m.params, (!")".toList.contains c) = true := by
    intro c hc
    simpa using ne_paren_of_mem_join h.params hc
  rw [hbody]
  -- From the last part of the shape to the first one.
  refine Takes.append_nil ?_ (takes_ahead rfl)
  refine Takes.append_nil ?_ (takes_no_blanks rfl)
  refine Takes.append ?_ (takes_lit ")")
  refine Takes.append ?_ (takes_label "params" (takes_many hparams rfl))
  refine Takes.append ?_ (takes_lit "(")
  refine Takes.append_nil ?_ (takes_no_blanks rfl)
  refine Takes.append ?_ (takes_lit "function")
  refine Takes.append ?_ (takes_spaced ":" rfl (by simp) rfl)
  exact takes_label "name" (takes_left (h.name.takes rfl))

/-- A member begins with an identifier or a quote. -/
theorem exists_cons_of_memberShape_begins (h : memberShape.Begins before t) :
    ∃ c more, t = c :: more ∧ (isIdentifierStart c = true ∨ c = '"' ∨ c = '\'') := by
  obtain ⟨w, rest, rfl, hw⟩ := h.front.front.front.front.front.front.front.front
  rcases hw with hw | hw | hw
  · obtain ⟨c, more, rfl, hc, _⟩ := exists_cons_of_fits_identifier hw
    exact ⟨c, more ++ rest, rfl, .inl hc⟩
  · obtain ⟨_, _, rfl, ⟨_, more, rfl, rfl, _⟩, _⟩ := hw
    exact ⟨'"', _, rfl, .inr (.inl rfl)⟩
  · obtain ⟨_, _, rfl, ⟨_, more, rfl, rfl, _⟩, _⟩ := hw
    exact ⟨'\'', _, rfl, .inr (.inr rfl)⟩

/-- The characters between and behind the members of an object do not begin a member. -/
theorem not_memberShape_begins (hc : c = ',' ∨ c = '}') :
    ¬ memberShape.Begins before (c :: t) := by
  intro h
  obtain ⟨d, more, heq, hstart⟩ := exists_cons_of_memberShape_begins h
  obtain ⟨rfl, _⟩ := List.cons.inj heq
  rcases hc with rfl | rfl <;> revert hstart <;> decide

/-- Nothing begins where the text ends. -/
theorem not_memberShape_begins_nil : ¬ memberShape.Begins before [] := by
  intro h
  obtain ⟨c, more, heq, _⟩ := exists_cons_of_memberShape_begins h
  exact List.cons_ne_nil c more heq.symm

/-- The first member of a text is read first, perhaps behind a comma. -/
theorem membersFrom_append (h : m.IsWellFormed) (fuel : Nat) (comma : Text)
    (hcomma : ∀ c ∈ comma, c = ',') (rest : Text) :
    membersFrom (fuel + 1) (comma ++ (m.toText ++ rest)) = m :: membersFrom fuel rest := by
  have hskip : memberShape.matchesBehind [] (comma ++ (m.toText ++ rest)) =
      memberShape.matchesBehind comma (m.toText ++ rest) := by
    refine matchesBehind_skip fun u v huv hv => ?_
    obtain ⟨c, v, rfl⟩ := List.exists_cons_of_ne_nil hv
    exact not_memberShape_begins (.inl (hcomma c (by simp [← huv])))
  have hhead : m.headText ≠ [] := by simp [Member.headText]
  obtain ⟨captures, hlabels, hfound⟩ :=
    matchesBehind_of_takes (memberShape_takes h comma rest) hhead
  have hfind : memberShape.find? (comma ++ (m.toText ++ rest)) =
      some (Cursor.after (comma ++ m.headText) (m.body ++ rest) captures) := by
    rw [find?_eq_head?, hskip, Member.toText, List.append_assoc, hfound]
    rfl
  have hname : (Cursor.after (comma ++ m.headText) (m.body ++ rest) captures).capture "name" =
      m.name := by
    rw [Cursor.capture, Cursor.capture?_after, hlabels]
    rfl
  have hparams : (Cursor.after (comma ++ m.headText) (m.body ++ rest) captures).capture "params" =
      Text.join [','] m.params := by
    rw [Cursor.capture, Cursor.capture?_after, hlabels]
    rfl
  have hquotes : Text.trim (fun c => c = '"' || c = '\'') m.name = m.name := by
    refine Text.trim_of_forall fun c hc => ?_
    have hdouble : c ≠ '"' := ne_of_isIdentifierChar (h.name.2 c hc) rfl
    have hsingle : c ≠ '\'' := ne_of_isIdentifierChar (h.name.2 c hc) rfl
    simp [hdouble, hsingle]
  have hbody : Literal.read (m.body ++ rest) = .ok (m.body, rest) :=
    Literal.read_of_isLiteral (h.body []) rest
  rw [membersFrom, hfind]
  simp only [Cursor.after] at hname hparams ⊢
  rw [hbody]
  simp only [hname, hparams, hquotes, paramNames_join h.params]

/-- The members behind the first one are read, up to the end of the object. -/
theorem membersFrom_objectTail (h : ∀ m ∈ ms, m.IsWellFormed) {fuel : Nat}
    (hfuel : ms.length ≤ fuel) : membersFrom fuel (objectTail ms) = ms := by
  induction ms generalizing fuel with
  | nil =>
    have hskip : memberShape.matchesBehind [] ['}'] = memberShape.matchesBehind ['}'] [] := by
      refine matchesBehind_skip (w := ['}']) fun u v huv hv => ?_
      obtain ⟨c, v, rfl⟩ := List.exists_cons_of_ne_nil hv
      have hc : c ∈ ['}'] := by simp [← huv]
      exact not_memberShape_begins (.inr (List.mem_singleton.mp hc))
    have hnone : memberShape.find? ['}'] = none := by
      rw [find?_eq_head?, hskip, matchesBehind_nil not_memberShape_begins_nil]
      rfl
    cases fuel with
    | zero => rfl
    | succ fuel => simp [objectTail, membersFrom, hnone]
  | cons m ms ih =>
    obtain ⟨fuel, rfl⟩ : ∃ k, fuel = k + 1 := Nat.exists_eq_succ_of_ne_zero (by
      rintro rfl
      simp at hfuel)
    have htail : objectTail (m :: ms) = [','] ++ (m.toText ++ objectTail ms) := by
      simp [objectTail]
    rw [htail, membersFrom_append (h m List.mem_cons_self) fuel [','] (by simp),
      ih (fun m hm => h m (List.mem_cons_of_mem _ hm)) (by simpa using hfuel)]

/-- An object begins with a brace and its first member. -/
theorem objectText_cons (m : Member) (ms : List Member) :
    objectText (m :: ms) = '{' :: (m.toText ++ objectTail ms) := by
  simp [objectText, objectTail, Text.join_cons]

/-- An object is written with at least one character for each member. -/
theorem length_le_length_objectTail (ms : List Member) : ms.length ≤ (objectTail ms).length := by
  induction ms with
  | nil => exact Nat.zero_le _
  | cons m ms ih =>
    simp only [objectTail, List.map_cons, List.flatMap_cons, List.length_append,
      List.length_cons] at ih ⊢
    omega

/-- Reading the members of a written object gives the members that it was written with. -/
theorem readMembers_objectText (h : ∀ m ∈ ms, m.IsWellFormed) :
    readMembers (objectText ms) = ms := by
  cases ms with
  | nil => exact membersFrom_objectTail h (Nat.zero_le _)
  | cons m ms =>
    have hlength := length_le_length_objectTail ms
    rw [readMembers, objectText_cons, List.length_cons, List.tail_cons]
    have hread := membersFrom_append (h m List.mem_cons_self)
      (m.toText ++ objectTail ms).length [] (by simp) (objectTail ms)
    rw [List.nil_append] at hread
    rw [hread, membersFrom_objectTail fun m hm => h m (List.mem_cons_of_mem _ hm)]
    rw [List.length_append]
    omega

/-- A written member is a part of any literal. -/
theorem Member.IsWellFormed.isPart (h : m.IsWellFormed) : Literal.IsPart m.toText := by
  have hparams : Literal.IsPart (Text.join [','] m.params) :=
    Literal.isPart_join (Literal.isPart_of_all (by decide)) fun p hp => (h.params p hp).isPart
  have hcolon : Literal.IsPart ":".toList := Literal.isPart_of_all (by decide)
  have hfunction : Literal.IsPart "function".toList := Literal.isPart_of_all (by decide)
  have hopen : Literal.IsPart "(".toList := Literal.isPart_of_all (by decide)
  have hclose : Literal.IsPart ")".toList := Literal.isPart_of_all (by decide)
  have hfront := ((h.name.isPart.append hcolon).append hfunction).append hopen
  have hhead : Literal.IsPart m.headText := (hfront.append hparams).append hclose
  exact hhead.append (Literal.isPart_of_isLiteral h.body)

/-- A written object is a literal. -/
theorem isLiteral_objectText (h : ∀ m ∈ ms, m.IsWellFormed) (before : Text) :
    Literal.IsLiteral before (objectText ms) := by
  refine Literal.IsPart.braced (Literal.isPart_join (Literal.isPart_of_all (by decide)) ?_) before
  intro t ht
  obtain ⟨m, hm, rfl⟩ := List.mem_map.mp ht
  exact (h m hm).isPart

/-! ## Finding the definition -/

/-- The definition of an object begins with its name and an equals sign. -/
theorem exists_eq_of_objectDefinition_begins (h : (objectDefinition name).Begins before t) :
    ∃ gap more, t = name ++ gap ++ '=' :: more ∧ ∀ c ∈ gap, Text.isBlank c = true := by
  obtain ⟨_, _, heq, ⟨_, _, rfl, ⟨rfl, _⟩, hname⟩, hequals⟩ := begins_append.mp h.front
  obtain ⟨_, behind, rfl, hspaced⟩ := hequals
  obtain ⟨gap, gap', rfl, hgap, _⟩ := exists_gaps_of_fits_spaced hspaced
  exact ⟨gap, gap' ++ behind, by simpa [← show _ = name from hname] using heq, hgap⟩

/-- The definition of an object is found behind the word for a variable. Its name may be any
text without blanks and equals signs. -/
theorem readObject?_eq_some {literal : Text} (hne : name ≠ [])
    (hsolid : ∀ c ∈ name, Text.isBlank c = false) (hequals : '=' ∉ name)
    (hliteral : ∀ before, Literal.IsLiteral before literal) (hbrace : literal.head? = some '{')
    (rest : Text) :
    readObject? ("var ".toList ++ (name ++ "=".toList ++ (literal ++ rest))) name =
      some literal := by
  obtain ⟨items, hitems⟩ : ∃ items, literal = '{' :: items := List.head?_eq_some_iff.mp hbrace
  have hname : ∀ c ∈ name, decide (c = '=') = false := fun c hc =>
    decide_eq_false fun heq => hequals (heq ▸ hc)
  have hskip : (objectDefinition name).matchesBehind [] ("var ".toList ++ (name ++ "=".toList
      ++ (literal ++ rest))) = (objectDefinition name).matchesBehind "var ".toList
        (name ++ "=".toList ++ (literal ++ rest)) := by
    refine matchesBehind_skip fun u v huv hv hbegins => ?_
    obtain ⟨gap, more, heq, hgap⟩ := exists_eq_of_objectDefinition_begins hbegins
    have hfront : ∀ c ∈ "var ".toList, c ≠ '=' := Text.forall_mem_of_all (by decide)
    have hcut : v ++ name ++ '=' :: (literal ++ rest) = name ++ gap ++ '=' :: more := by
      simpa using heq
    refine hv (Text.eq_nil_of_append_eq_append hne hsolid hgap ?_)
    refine (Text.cut_unique (· = '=') hcut ?_ rfl ?_ rfl).1
    · intro c hc
      rcases List.mem_append.mp hc with hc | hc
      · exact decide_eq_false (hfront c (huv ▸ List.mem_append_right u hc))
      · exact hname c hc
    · intro c hc
      rcases List.mem_append.mp hc with hc | hc
      · exact hname c hc
      · refine decide_eq_false ?_
        rintro rfl
        exact absurd (hgap _ hc) (by decide)
  have htakes : (objectDefinition name).Takes "var ".toList (name ++ "=".toList)
      (literal ++ rest) [] [] := by
    rw [hitems]
    refine Takes.append_nil ?_ (takes_ahead rfl)
    refine Takes.append ?_ (takes_spaced "=" rfl (by simp) rfl)
    exact Takes.nil_append (takes_notAfter rfl) (takes_text name)
  obtain ⟨captures, _, hfound⟩ := matchesBehind_of_takes htakes (by simp)
  have hread : Literal.read? (literal ++ rest) = some literal := by
    rw [Literal.read?, Literal.read_of_isLiteral (hliteral []) rest]
  rw [readObject?, findAll_eq, hskip, hfound, List.findSome?_cons]
  simp only [Cursor.after, hread]

end Playable.Script
