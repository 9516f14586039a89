import Playable.Proofs.Pattern.Fit

/-!
# Putting preferred matches together

A pattern takes a piece of text if the preferred match at its beginning ends right behind
it. Takings follow the form of the pattern: what a sequence takes is what its parts take
one after the other, and a repetition takes all it can.
-/

namespace Playable.Pattern

variable {p q : Pattern} {before w u v t rest : Text} {c : Char} {name : String}
  {labels labels' labels'' : List (String × Text)} {captures : List (String × Capture)}

/-- The preferred match of a pattern, behind the text `before`, is the piece `w` of a text
that goes on with `rest`. The labelled parts were `labels` before and are `labels'` then. -/
def Takes (p : Pattern) (before w rest : Text) (labels labels' : List (String × Text)) : Prop :=
  ∀ captures, labelled captures = labels → ∃ captures', labelled captures' = labels' ∧
    p.matchAt? (Cursor.after before (w ++ rest) captures) =
      some (Cursor.after (before ++ w) rest captures')

/-- A match that labels nothing is a taking that labels nothing. -/
theorem takes_of_matchAt? (h : ∀ captures, labelled captures = labels →
    p.matchAt? (Cursor.after before (w ++ rest) captures) =
      some (Cursor.after (before ++ w) rest captures)) :
    p.Takes before w rest labels labels :=
  fun captures hlabels => ⟨captures, hlabels, h captures hlabels⟩

/-- A given text takes itself. -/
theorem takes_text (w : Text) : (text w).Takes before w rest labels labels :=
  takes_of_matchAt? fun _ _ => by simp [matchAt?, run, takeText_after]

/-- The characters of a string take themselves. -/
theorem takes_lit (s : String) : (lit s).Takes before s.toList rest labels labels :=
  takes_text s.toList

/-- A class takes one of its characters. -/
theorem takes_one {p : Char → Bool} (hc : p c = true) :
    (one p).Takes before [c] rest labels labels :=
  takes_of_matchAt? fun _ _ => by simp [matchAt?, run, Cursor.after, hc]

/-- The farthest place that a repetition reaches lies behind all characters of its class. -/
theorem head?_reach {p : Char → Bool} (found : List Cursor) (hw : ∀ c ∈ w, p c = true)
    (hrest : rest.head?.any p = false) :
    (reach p captures before.length before.getLast? found (w ++ rest)).head? =
      some (Cursor.after (before ++ w) rest captures) := by
  induction w generalizing before found with
  | nil =>
    rw [List.nil_append, List.append_nil]
    cases rest with
    | nil => rfl
    | cons d rest =>
      have hd : p d = false := hrest
      simp [reach, hd, Cursor.after]
  | cons c w ih =>
    have hc : p c = true := hw c List.mem_cons_self
    have hstep := @ih (before ++ [c]) (⟨before.length, before.getLast?, c :: (w ++ rest),
      captures⟩ :: found) fun d hd => hw d (List.mem_cons_of_mem c hd)
    simpa [reach, hc] using hstep

/-- A repetition takes all characters of its class up to another one. -/
theorem takes_many {p : Char → Bool} (hw : ∀ c ∈ w, p c = true)
    (hrest : rest.head?.any p = false) : (many p).Takes before w rest labels labels :=
  takes_of_matchAt? fun _ _ => head?_reach [] hw hrest

/-- One part takes a piece of text and another one the piece behind it. -/
theorem Takes.append (hp : p.Takes before u (v ++ rest) labels labels')
    (hq : q.Takes (before ++ u) v rest labels' labels'') :
    (p ++ q).Takes before (u ++ v) rest labels labels'' := by
  intro captures hlabels
  obtain ⟨captures', hlabels', hfirst⟩ := hp captures hlabels
  obtain ⟨captures'', hlabels'', hsecond⟩ := hq captures' hlabels'
  refine ⟨captures'', hlabels'', ?_⟩
  obtain ⟨more, hmore⟩ := List.head?_eq_some_iff.mp hfirst
  obtain ⟨others, hothers⟩ := List.head?_eq_some_iff.mp hsecond
  rw [List.append_assoc]
  change ((p.run _).flatMap q.run).head? = _
  rw [hmore, List.flatMap_cons, hothers, List.append_assoc]
  rfl

/-- A part that takes nothing behind another one. -/
theorem Takes.append_nil (hp : p.Takes before w rest labels labels')
    (hq : q.Takes (before ++ w) [] rest labels' labels'') :
    (p ++ q).Takes before w rest labels labels'' := by
  have h : (p ++ q).Takes before (w ++ []) rest labels labels'' := Takes.append hp hq
  rwa [List.append_nil] at h

/-- A part that takes nothing in front of another one. -/
theorem Takes.nil_append (hp : p.Takes before [] (w ++ rest) labels labels')
    (hq : q.Takes before w rest labels' labels'') :
    (p ++ q).Takes before w rest labels labels'' :=
  Takes.append hp (by rwa [List.append_nil])

/-- At least one character of a class is taken together with all that follow. -/
theorem takes_some1 {p : Char → Bool} (hw : w ≠ []) (hall : ∀ c ∈ w, p c = true)
    (hrest : rest.head?.any p = false) : (some1 p).Takes before w rest labels labels := by
  obtain ⟨c, w, rfl⟩ := List.exists_cons_of_ne_nil hw
  exact Takes.append (u := [c]) (takes_one (hall c List.mem_cons_self))
    (takes_many (fun d hd => hall d (List.mem_cons_of_mem c hd)) hrest)

/-- A choice takes what its left side takes. -/
theorem takes_left (hp : p.Takes before w rest labels labels') :
    (either p q).Takes before w rest labels labels' := by
  intro captures hlabels
  obtain ⟨captures', hlabels', hmatch⟩ := hp captures hlabels
  obtain ⟨more, hmore⟩ := List.head?_eq_some_iff.mp hmatch
  refine ⟨captures', hlabels', ?_⟩
  change (p.run _ ++ q.run _).head? = _
  rw [hmore]
  rfl

/-- A choice takes what its right side takes where the left side does not fit. -/
theorem takes_right (hp : ¬ p.Begins before (w ++ rest))
    (hq : q.Takes before w rest labels labels') :
    (either p q).Takes before w rest labels labels' := by
  intro captures hlabels
  obtain ⟨captures', hlabels', hmatch⟩ := hq captures hlabels
  refine ⟨captures', hlabels', ?_⟩
  change (p.run _ ++ q.run _).head? = _
  rw [run_eq_nil hp, List.nil_append]
  exact hmatch

/-- An optional part is taken where it can be taken. -/
theorem takes_present (hp : p.Takes before w rest labels labels') :
    (optional p).Takes before w rest labels labels' := by
  intro captures hlabels
  obtain ⟨captures', hlabels', hmatch⟩ := hp captures hlabels
  obtain ⟨more, hmore⟩ := List.head?_eq_some_iff.mp hmatch
  refine ⟨captures', hlabels', ?_⟩
  change (p.run _ ++ [_]).head? = _
  rw [hmore]
  rfl

/-- An optional part is missing where it does not fit. -/
theorem takes_absent (hp : ¬ p.Begins before rest) :
    (optional p).Takes before [] rest labels labels := by
  refine takes_of_matchAt? fun captures _ => ?_
  change (p.run _ ++ [_]).head? = _
  rw [List.nil_append, run_eq_nil hp, List.append_nil]
  rfl

/-- A labelled part takes what it takes without the label, and remembers it. -/
theorem takes_label (name : String) (hp : p.Takes before w rest labels labels') :
    (label name p).Takes before w rest labels ((name, w) :: labels') := by
  intro captures hlabels
  obtain ⟨captures', rfl, hmatch⟩ := hp captures hlabels
  refine ⟨(name, ⟨w ++ rest, w.length⟩) :: captures', by simp [labelled], ?_⟩
  rw [matchAt?] at hmatch ⊢
  rw [run, List.head?_map, hmatch]
  simp [Cursor.after]

/-- What an earlier part took is taken once more. -/
theorem takes_same (h : labels.lookup name = some w) :
    (same name).Takes before w rest labels labels := by
  refine takes_of_matchAt? fun captures hlabels => ?_
  have hcapture : (Cursor.after before (w ++ rest) captures).capture? name = some w := by
    rw [Cursor.capture?_after, hlabels, h]
  simp [matchAt?, run, hcapture, takeText_after]

/-- The edge of a word lies between a word character and another one. -/
theorem takes_wordEdge (h : wordAt before.getLast? ≠ wordAt rest.head?) :
    wordEdge.Takes before [] rest labels labels :=
  takes_of_matchAt? fun _ _ => by simp [matchAt?, run, Cursor.after, h]

/-- A look at the character in front succeeds outside of the class. -/
theorem takes_notAfter {p : Char → Bool} (h : before.getLast?.any p = false) :
    (notAfter p).Takes before [] rest labels labels :=
  takes_of_matchAt? fun _ _ => by simp [matchAt?, run, Cursor.after, h]

/-- A look at the next character succeeds inside of the class. -/
theorem takes_ahead {p : Char → Bool} (h : rest.head?.any p = true) :
    (ahead p).Takes before [] rest labels labels :=
  takes_of_matchAt? fun _ _ => by simp [matchAt?, run, Cursor.after, h]

/-- No blanks are taken in front of another character. -/
theorem takes_no_blanks (h : rest.head?.any Text.isBlank = false) :
    blanks.Takes before [] rest labels labels :=
  takes_many (by simp) h

/-- A pattern that takes a whole text matches it. -/
theorem matchesAll_of_takes (labels : List (String × Text)) (h : p.Takes [] t [] [] labels) :
    p.matchesAll t = true := by
  obtain ⟨captures, _, hmatch⟩ := h [] rfl
  rw [List.append_nil] at hmatch
  exact List.any_eq_true.mpr ⟨_, List.mem_of_mem_head? hmatch, rfl⟩

/-- A pattern that matches a whole text reads it. -/
theorem exists_reads_of_matchesAll (h : p.matchesAll t = true) :
    ∃ labels, p.Reads [] t [] [] labels := by
  obtain ⟨e, he, hend⟩ := List.any_eq_true.mp h
  obtain ⟨w, rest, captures, rfl, rfl, hw⟩ := @reads_of_mem_run p [] t e [] he
  obtain rfl : rest = [] := List.isEmpty_iff.mp hend
  rw [List.append_nil]
  exact ⟨_, hw⟩

/-- A pattern that does not fit a whole text does not match it. -/
theorem matchesAll_eq_false (h : ¬ p.Fits [] t []) : p.matchesAll t = false := by
  refine Bool.eq_false_iff.mpr fun hall => h ?_
  obtain ⟨_, hreads⟩ := exists_reads_of_matchesAll hall
  exact hreads.fits

/-! ## Taking a piece within a search -/

/-- The matches of a search that has come to the place between `before` and `t`. -/
def matchesBehind (p : Pattern) (before t : Text) : List Cursor :=
  findAllFrom p 0 before.length before.getLast? t

/-- A search for all matches begins at the start of the text. -/
theorem findAll_eq (p : Pattern) (t : Text) : p.findAll t = p.matchesBehind [] t :=
  rfl

/-- Resuming at a place that is reached already makes no difference. -/
theorem findAllFrom_of_le {resume pos : Nat} {prev : Option Char} (h : resume ≤ pos) :
    findAllFrom p resume pos prev t = findAllFrom p 0 pos prev t := by
  induction t generalizing pos prev with
  | nil => simp [findAllFrom, Nat.not_lt.mpr h]
  | cons c t ih =>
    rw [findAllFrom, findAllFrom, if_neg (Nat.not_lt.mpr h), if_neg (Nat.not_lt_zero pos),
      ih (Nat.le_succ_of_le h)]

/-- A search goes on behind the piece of text that it resumes behind. -/
theorem findAllFrom_resume :
    findAllFrom p (before.length + w.length) before.length before.getLast? (w ++ rest) =
      p.matchesBehind (before ++ w) rest := by
  induction w generalizing before with
  | nil =>
    rw [List.nil_append, List.append_nil]
    exact findAllFrom_of_le (by simp)
  | cons c w ih =>
    have hlt : before.length < before.length + (c :: w).length := by simp
    have hstep := @ih (before ++ [c])
    rw [List.length_append, List.length_singleton, List.getLast?_concat, List.append_assoc] at hstep
    rw [List.cons_append, findAllFrom, if_pos hlt, List.length_cons, Nat.add_comm w.length 1,
      ← Nat.add_assoc]
    exact hstep

/-- A search finds the piece of text that the pattern takes, and goes on behind it. -/
theorem matchesBehind_of_takes (h : p.Takes before w rest [] labels) (hw : w ≠ []) :
    ∃ captures, labelled captures = labels ∧
      p.matchesBehind before (w ++ rest) =
        Cursor.after (before ++ w) rest captures :: p.matchesBehind (before ++ w) rest := by
  obtain ⟨captures, hlabels, hmatch⟩ := h [] rfl
  obtain ⟨c, w, rfl⟩ := List.exists_cons_of_ne_nil hw
  have hhere : p.matchAt? ⟨before.length, before.getLast?, c :: (w ++ rest), []⟩ =
      some (Cursor.after (before ++ c :: w) rest captures) := hmatch
  have hresume := @findAllFrom_resume p (before ++ [c]) w rest
  rw [List.length_append, List.length_singleton, List.getLast?_concat, List.append_assoc] at hresume
  have hpos : max (Cursor.after (before ++ c :: w) rest captures).pos (before.length + 1) =
      before.length + 1 + w.length := by
    simp only [Cursor.after, List.length_append, List.length_cons]
    omega
  refine ⟨captures, hlabels, ?_⟩
  rw [matchesBehind, List.cons_append, findAllFrom, if_neg (Nat.not_lt_zero _), hhere]
  simp only [hpos]
  rw [hresume]
  rfl

/-- A search passes over a piece of text if the pattern fits nowhere in it. -/
theorem matchesBehind_skip
    (h : ∀ u v, u ++ v = w → v ≠ [] → ¬ p.Begins (before ++ u) (v ++ rest)) :
    p.matchesBehind before (w ++ rest) = p.matchesBehind (before ++ w) rest := by
  induction w generalizing before with
  | nil => rw [List.nil_append, List.append_nil]
  | cons c w ih =>
    have hhere : p.matchAt? ⟨before.length, before.getLast?, c :: (w ++ rest), []⟩ = none := by
      have hbegins := h [] (c :: w) rfl (by simp)
      rw [List.append_nil] at hbegins
      exact List.head?_eq_none_iff.mpr (run_eq_nil hbegins)
    have hlater := @ih (before ++ [c]) fun u v huv hv => by
      simpa using h (c :: u) v (by simp [huv]) hv
    rw [matchesBehind, List.cons_append, findAllFrom, if_neg (Nat.not_lt_zero _), hhere]
    simpa [matchesBehind] using hlater

/-- A search passes over a piece of text and the character behind it if the pattern fits at
no end of the piece. -/
theorem matchesBehind_skip_cons {x : Char}
    (h : ∀ before v, v <:+ w → ¬ p.Begins before (v ++ x :: rest)) :
    p.matchesBehind before (w ++ x :: rest) = p.matchesBehind (before ++ (w ++ [x])) rest := by
  have hpiece : p.matchesBehind before (w ++ x :: rest) =
      p.matchesBehind (before ++ w) (x :: rest) :=
    matchesBehind_skip fun u v huv _ => h (before ++ u) v ⟨u, huv⟩
  have hchar : p.matchesBehind (before ++ w) ([x] ++ rest) =
      p.matchesBehind (before ++ w ++ [x]) rest := by
    refine matchesBehind_skip fun u v huv hv => ?_
    rcases List.append_eq_singleton_iff.mp huv with ⟨rfl, rfl⟩ | ⟨rfl, rfl⟩
    · exact h _ [] ⟨w, List.append_nil w⟩
    · exact absurd rfl hv
  rw [hpiece, ← List.append_assoc]
  exact hchar

/-- At the end of a text nothing is found if the pattern does not fit the empty text. -/
theorem matchesBehind_nil (h : ¬ p.Begins before []) : p.matchesBehind before [] = [] := by
  have hmatch : p.matchAt? ⟨before.length, before.getLast?, [], []⟩ = none :=
    List.head?_eq_none_iff.mpr (run_eq_nil h)
  simp [matchesBehind, findAllFrom, hmatch]

/-- The leftmost match is the first of all matches. -/
theorem findFrom?_eq_head? (p : Pattern) (pos : Nat) (prev : Option Char) (t : Text) :
    findFrom? p pos prev t = (findAllFrom p 0 pos prev t).head? := by
  induction t generalizing pos prev with
  | nil =>
    rw [findFrom?, findAllFrom, if_neg (Nat.not_lt_zero pos)]
    cases p.matchAt? ⟨pos, prev, [], []⟩ <;> rfl
  | cons c t ih =>
    rw [findFrom?, findAllFrom, if_neg (Nat.not_lt_zero pos)]
    cases p.matchAt? ⟨pos, prev, c :: t, []⟩ with
    | none => exact ih (pos + 1) (some c)
    | some m => rfl

/-- The leftmost match in a text is the first of all matches. -/
theorem find?_eq_head? (p : Pattern) (t : Text) : p.find? t = (p.matchesBehind [] t).head? :=
  findFrom?_eq_head? p 0 none t

end Playable.Pattern
