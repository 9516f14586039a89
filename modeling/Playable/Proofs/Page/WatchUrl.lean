import Playable.Proofs.Page.VideoId
import Playable.Proofs.Url.Form

/-!
# Video ids of watch URLs

The URL of a watch page names its video in the parameter `v`. The video id is not looked for among
the parameters but in the text of the URL, behind the text `v=` or `vi=`. Only a name can end in
front of an equals sign, so values never mislead the search; but a parameter whose name merely ends
like that does, if it stands in front of the right one and its value begins like a video id.
-/

namespace Playable.Page

open Pattern

/-- The URL of a watch page with encoded parameters. -/
def watchUrl (pairs : List (Text × Text)) : Text :=
  "https://www.youtube.com/watch".toList ++ '?' :: Url.formQuery pairs

/-- A parameter looks as if it named the video. -/
structure LooksLikeId (pair : Text × Text) : Prop where
  /-- Its name ends with one of the usual names. -/
  name : ['v'] <:+ pair.1 ∨ ['v', 'i'] <:+ pair.1
  /-- Its value begins with a video id. -/
  value : IsVideoId (pair.2.take 11)

variable {before rest t w id : Text} {c : Char} {pair : Text × Text}
  {pairs : List (Text × Text)} {labels : List (String × Text)} {n : Nat}
  {p : Char → Bool}

instance (t : Text) : Decidable (IsVideoId t) :=
  decidable_of_iff (t.length = idLength ∧ t.all isIdChar = true)
    (by rw [isVideoId_iff, List.all_eq_true])

instance : DecidablePred LooksLikeId := fun pair =>
  decidable_of_iff ((['v'] <:+ pair.1 ∨ ['v', 'i'] <:+ pair.1) ∧ IsVideoId (pair.2.take 11))
    ⟨fun h => ⟨h.1, h.2⟩, fun h => ⟨h.name, h.value⟩⟩

/-! ## The search in a query -/

/-- A video id behind the name of a parameter. -/
def idParameter : Pattern :=
  idBehind ["v=", "vi="]

/-- It is looked for first. -/
theorem idShapes_eq :
    idShapes = [idParameter, idBehind ["youtu.be/", "/embed/", "/shorts/", "/live/", "/v/"]] :=
  rfl

/-- The characters of a video id are kept in an encoded text. -/
theorem isFormSafe_of_isIdChar (h : isIdChar c = true) : Url.isFormSafe c = true := by
  simp only [isIdChar, Url.isFormSafe, Bool.or_eq_true, decide_eq_true_eq] at h ⊢
  tauto

/-- Where a parameter with a video id begins, a name ends in front of an equals sign and a video id
follows. -/
theorem exists_of_begins (h : idParameter.Begins before t) :
    ∃ name id more, (name = ['v'] ∨ name = ['v', 'i']) ∧ IsVideoId id ∧
      t = name ++ '=' :: (id ++ more) := by
  obtain ⟨_, more, rfl, mark, id, rfl, hmark, hid⟩ := h
  rcases hmark with hmark | hmark | ⟨_, hnone, -⟩
  · exact ⟨['v'], id, more, .inl rfl, isVideoId_of_fits hid, by rw [fits_lit.mp hmark]; rfl⟩
  · exact ⟨['v', 'i'], id, more, .inr rfl, isVideoId_of_fits hid, by rw [fits_lit.mp hmark]; rfl⟩
  · cases hnone

/-- A parameter with a video id does not begin in front of a separator without an equals sign in
between. -/
theorem not_begins_of_no_equals (ht : '=' ∉ t) (hc : c ∉ ['v', 'i', '=']) :
    ¬ idParameter.Begins before (t ++ c :: rest) := by
  intro h
  obtain ⟨name, id, more, hname, -, hcut⟩ := exists_of_begins h
  have hfront : t ++ c :: rest = (name ++ ['=']) ++ (id ++ more) := by
    rw [hcut, List.append_assoc, List.singleton_append]
  have hsubset : name ++ ['='] ⊆ ['v', 'i', '='] := by
    rcases hname with rfl | rfl <;> simp
  obtain ⟨z, rfl, -⟩ := Text.append_cons_eq_front (fun hmem => hc (hsubset hmem)) hfront
  exact ht (by simp)

/-- In front of an equals sign, a parameter with a video id begins with the whole name. -/
theorem exists_of_begins_equals (ht : '=' ∉ t) (h : idParameter.Begins before (t ++ '=' :: rest)) :
    (t = ['v'] ∨ t = ['v', 'i']) ∧ ∃ id more, IsVideoId id ∧ rest = id ++ more := by
  obtain ⟨name, id, more, hname, hid, hcut⟩ := exists_of_begins h
  have hnot : ∀ u : Text, '=' ∉ u → ∀ d ∈ u, (d == '=') = false := fun u hu d hd =>
    beq_eq_false_iff_ne.mpr fun hdc => hu (hdc ▸ hd)
  have hequals : '=' ∉ name := by
    rcases hname with rfl | rfl <;> decide
  obtain ⟨rfl, -, rfl⟩ :=
    Text.cut_unique (· == '=') hcut (hnot t ht) rfl (hnot name hequals) rfl
  exact ⟨hname, id, more, hid, rfl⟩

/-- A parameter with a video id begins in a field only where the field looks like one. -/
theorem looksLikeId_of_begins (ht : t <:+ Url.formEncode pair.1)
    (h : idParameter.Begins before (t ++ '=' :: (Url.formEncode pair.2 ++ '&' :: rest))) :
    LooksLikeId pair := by
  have hequals : '=' ∉ t := fun hmem =>
    Url.not_mem_formEncode (by decide) pair.1 (ht.subset hmem)
  obtain ⟨hname, id, more, hid, hvalue⟩ := exists_of_begins_equals hequals h
  constructor
  · rcases hname with rfl | rfl
    · exact .inl (Url.suffix_of_formEncode (Text.forall_mem_of_all rfl) ht)
    · exact .inr (Url.suffix_of_formEncode (Text.forall_mem_of_all rfl) ht)
  · obtain ⟨hlength, hall⟩ := isVideoId_iff.mp hid
    have hseparator : '&' ∉ id := fun hmem => absurd (hall _ hmem) (by decide)
    obtain ⟨z, hid', -⟩ := Text.append_cons_eq_front hseparator hvalue
    obtain ⟨s, hs, -⟩ :=
      Url.exists_append_of_formEncode (fun c hc => isFormSafe_of_isIdChar (hall c hc)) hid'
    rw [hs, show (11 : Nat) = id.length from hlength.symm, List.take_left]
    exact hid

/-- As many characters of a class are taken as are asked for. -/
theorem takes_times (hlength : w.length = n) (hall : ∀ c ∈ w, p c = true) :
    (times n p).Takes before w rest labels labels := by
  induction n generalizing before w with
  | zero =>
    obtain rfl := List.length_eq_zero_iff.mp hlength
    exact takes_lit ""
  | succ n ih =>
    obtain ⟨c, w, rfl⟩ := List.exists_cons_of_length_eq_add_one hlength
    obtain ⟨hc, hmore⟩ := List.forall_mem_cons.mp hall
    exact Takes.append (u := [c]) (takes_one hc) (ih (Nat.succ.inj hlength) hmore)

/-- Where a parameter with a video id begins, the id is taken. -/
theorem takes_idParameter {name : Text} (hname : name = ['v'] ∨ name = ['v', 'i'])
    (hid : IsVideoId id) :
    idParameter.Takes before (name ++ ['='] ++ id) rest labels (("id", id) :: labels) := by
  obtain ⟨hlength, hall⟩ := isVideoId_iff.mp hid
  refine Takes.append ?_ (takes_label "id" (takes_times hlength hall))
  rcases hname with rfl | rfl
  · exact takes_left (takes_lit "v=")
  · refine takes_right ?_ (takes_left (takes_lit "vi="))
    rintro ⟨_, _, hcut, rfl⟩
    cases hcut

/-- A search passes over a field that does not look like a video id. -/
theorem matchesBehind_formField (hpair : ¬ LooksLikeId pair) :
    idParameter.matchesBehind before (Url.formField pair.1 pair.2 ++ '&' :: rest) =
      idParameter.matchesBehind (before ++ (Url.formField pair.1 pair.2 ++ ['&'])) rest := by
  have hname : ∀ before v, v <:+ Url.formEncode pair.1 →
      ¬ idParameter.Begins before (v ++ '=' :: (Url.formEncode pair.2 ++ '&' :: rest)) :=
    fun before v hv hbegins => hpair (looksLikeId_of_begins hv hbegins)
  have hvalue : ∀ before v, v <:+ Url.formEncode pair.2 →
      ¬ idParameter.Begins before (v ++ '&' :: rest) := fun before v hv =>
    not_begins_of_no_equals
      (fun hmem => Url.not_mem_formEncode (by decide) pair.2 (hv.subset hmem)) (by decide)
  rw [Url.formField, List.append_assoc, List.cons_append, matchesBehind_skip_cons hname,
    matchesBehind_skip_cons hvalue]
  simp only [List.append_assoc, List.cons_append, List.nil_append]

/-- A search finds the beginning of the value of a field that looks like a video id. -/
theorem head?_matchesBehind_formField (hpair : LooksLikeId pair) :
    ∃ before' rest' captures, labelled captures = [("id", pair.2.take 11)] ∧
      (idParameter.matchesBehind before (Url.formField pair.1 pair.2 ++ rest)).head? =
        some (Cursor.after before' rest' captures) := by
  obtain ⟨stem, name, hname, hstem⟩ :
      ∃ stem name, (name = ['v'] ∨ name = ['v', 'i']) ∧ pair.1 = stem ++ name := by
    rcases hpair.name with ⟨stem, hstem⟩ | ⟨stem, hstem⟩
    · exact ⟨stem, _, .inl rfl, hstem.symm⟩
    · exact ⟨stem, _, .inr rfl, hstem.symm⟩
  have hkept : Url.formEncode name = name := by
    rcases hname with rfl | rfl <;> rfl
  have hall := (isVideoId_iff.mp hpair.value).2
  have hvalue : Url.formEncode pair.2 = pair.2.take 11 ++ Url.formEncode (pair.2.drop 11) := by
    conv_lhs => rw [← List.take_append_drop 11 pair.2, Url.formEncode_append,
      Url.formEncode_of_safe fun c hc => isFormSafe_of_isIdChar (hall c hc)]
  have hfield : Url.formField pair.1 pair.2 ++ rest = Url.formEncode stem ++
      (name ++ ['='] ++ pair.2.take 11 ++ (Url.formEncode (pair.2.drop 11) ++ rest)) := by
    rw [Url.formField, hstem, Url.formEncode_append, hkept, hvalue]
    simp only [List.append_assoc, List.cons_append, List.nil_append]
  have hskip : ∀ u v, u ++ v = Url.formEncode stem → v ≠ [] →
      ¬ idParameter.Begins (before ++ u)
        (v ++ (name ++ ['='] ++ pair.2.take 11 ++ (Url.formEncode (pair.2.drop 11) ++ rest))) := by
    intro u v huv hv hbegins
    have hequals : '=' ∉ v ++ name := by
      refine List.not_mem_append (fun hmem => ?_) ?_
      · exact Url.not_mem_formEncode (by decide) stem (huv ▸ List.mem_append_right u hmem)
      · rcases hname with rfl | rfl <;> decide
    rw [List.append_assoc, List.append_assoc, ← List.append_assoc] at hbegins
    obtain ⟨hwhole, -⟩ := exists_of_begins_equals hequals hbegins
    obtain ⟨c, v, rfl⟩ := List.exists_cons_of_ne_nil hv
    rcases hname with rfl | rfl <;> simp [List.append_eq_singleton_iff] at hwhole
  obtain ⟨captures, hlabels, hfound⟩ :=
    matchesBehind_of_takes (takes_idParameter hname hpair.value) (by simp)
  exact ⟨_, _, captures, hlabels, by rw [hfield, matchesBehind_skip hskip, hfound]; rfl⟩

/-- A search in a query finds the first field that looks like a video id. -/
theorem head?_matchesBehind_formQuery (hpairs : pairs.find? (LooksLikeId ·) = some pair) :
    ∃ before' rest' captures, labelled captures = [("id", pair.2.take 11)] ∧
      (idParameter.matchesBehind before (Url.formQuery pairs)).head? =
        some (Cursor.after before' rest' captures) := by
  induction pairs generalizing before with
  | nil => cases hpairs
  | cons first pairs ih =>
    by_cases hfirst : LooksLikeId first
    · rw [List.find?_cons_of_pos (by simpa using hfirst)] at hpairs
      obtain rfl := Option.some.inj hpairs
      rw [Url.formQuery, List.map_cons, Text.join_cons]
      exact head?_matchesBehind_formField hfirst
    · rw [List.find?_cons_of_neg (by simpa using hfirst)] at hpairs
      have hne : pairs ≠ [] := by
        rintro rfl
        cases hpairs
      rw [Url.formQuery_cons first.1 first.2 hne, matchesBehind_formField hfirst]
      exact ih hpairs

/-! ## The id in a watch URL -/

/-- The characters of a watch URL are not blank, so none is stripped. -/
theorem strip_watchUrl (pairs : List (Text × Text)) :
    Text.strip (watchUrl pairs) = watchUrl pairs := by
  refine Text.trim_of_forall fun c hc => ?_
  have haddress : ∀ c ∈ "https://www.youtube.com/watch".toList, Text.isBlank c = false :=
    Text.forall_mem_of_all rfl
  rcases List.mem_append.mp hc with hc | hc
  · exact haddress c hc
  rcases List.mem_cons.mp hc with rfl | hc
  · rfl
  · obtain ⟨hlow, hhigh⟩ := Url.bounds_of_mem_formQuery hc
    exact Text.isBlank_of_bounds hlow hhigh

/-- A watch URL is too long to be a bare video id. -/
theorem isBareId_watchUrl (pairs : List (Text × Text)) : isBareId (watchUrl pairs) = false := by
  have hfront : (watchUrl pairs).length = 29 + ((Url.formQuery pairs).length + 1) :=
    List.length_append
  refine Bool.eq_false_iff.mpr fun hbare => ?_
  rcases isBareId_iff.mp hbare with hid | ⟨bare, hid, hend⟩
  · have hlength := hid.length_eq
    omega
  · have hlength := congrArg List.length hend
    rw [List.length_append, hid.length_eq, List.length_singleton] at hlength
    omega

/-- The id read from a watch URL is that of the first parameter that looks like a video id. -/
theorem videoIdOf_watchUrl (hpairs : pairs.find? (LooksLikeId ·) = some pair) :
    videoIdOf (watchUrl pairs) = .ok (pair.2.take 11) := by
  have hskip : ∀ before v, v <:+ "https://www.youtube.com/watch".toList →
      ¬ idParameter.Begins before (v ++ '?' :: Url.formQuery pairs) := fun before v hv =>
    not_begins_of_no_equals (fun hmem => absurd (hv.subset hmem) (by decide)) (by decide)
  obtain ⟨before', rest', captures, hlabels, hfound⟩ := head?_matchesBehind_formQuery hpairs
  have hfind : idParameter.find? (watchUrl pairs) =
      some (Cursor.after before' rest' captures) :=
    calc idParameter.find? (watchUrl pairs)
        = (idParameter.matchesBehind [] (watchUrl pairs)).head? := find?_eq_head? ..
      _ = (idParameter.matchesBehind ([] ++ ("https://www.youtube.com/watch".toList ++ ['?']))
            (Url.formQuery pairs)).head? := congrArg List.head? (matchesBehind_skip_cons hskip)
      _ = some (Cursor.after before' rest' captures) := hfound
  have hid : (Cursor.after before' rest' captures).capture "id" = pair.2.take 11 := by
    rw [Cursor.capture, Cursor.capture?_after, hlabels]
    rfl
  simp only [videoIdOf, strip_watchUrl, isBareId_watchUrl, idShapes_eq, List.findSome?_cons,
    hfind, hid]
  rfl

/-- The id in the parameter `v` is read from a watch URL, whatever stands behind it and whatever the
values of the other parameters are, unless an earlier parameter looks as if it named the video: then
what that one names is read. -/
theorem watch_id_unless_lookalike (hid : IsVideoId id) (front back : List (Text × Text)) :
    videoIdOf (watchUrl (front ++ (['v'], id) :: back)) =
      .ok (match front.find? (LooksLikeId ·) with
        | some lookalike => lookalike.2.take 11
        | none => id) := by
  have htake : id.take 11 = id := List.take_of_length_le (Nat.le_of_eq hid.length_eq)
  have hlooks : LooksLikeId (['v'], id) := ⟨.inl List.suffix_rfl, by rwa [htake]⟩
  cases hfront : front.find? (LooksLikeId ·) with
  | some lookalike =>
    exact videoIdOf_watchUrl (by rw [List.find?_append, hfront]; rfl)
  | none =>
    have hfound : (front ++ (['v'], id) :: back).find? (LooksLikeId ·) = some (['v'], id) := by
      rw [List.find?_append, hfront, List.find?_cons_of_pos (by simpa using hlooks)]
      rfl
    rw [videoIdOf_watchUrl hfound, htake]

/-- Behind a parameter whose name ends like the usual one but whose value is too short, and one
whose value holds the usual name with an id, and in front of one that looks like an id. -/
theorem watch_id_behind_harmless_parameters :
    let front : List (Text × Text) :=
      [("prev".toList, "ZYXWVUTSRQ".toList), ("list".toList, "&v=ZYXWVUTSRQP".toList)]
    let back : List (Text × Text) := [("prev".toList, "ZYXWVUTSRQP".toList)]
    let id : Text := "a-b_C9d0efg".toList
    IsVideoId id ∧ videoIdOf (watchUrl (front ++ (['v'], id) :: back)) = .ok id := by
  intro front back id
  have hid : IsVideoId id := by decide
  exact ⟨hid, watch_id_unless_lookalike hid front back⟩

/-- The id of a parameter whose name only ends like the usual one is read instead of the right one
behind it. -/
theorem watch_id_of_previous_video :
    let previous : Text × Text := ("prev".toList, "ZYXWVUTSRQP".toList)
    let id : Text := "abcdefghijk".toList
    IsVideoId id ∧ previous.1 ≠ "v".toList ∧ previous.1 ≠ "vi".toList ∧
      watchUrl [previous, ("v".toList, id)] =
        "https://www.youtube.com/watch?prev=ZYXWVUTSRQP&v=abcdefghijk".toList ∧
      videoIdOf (watchUrl [previous, ("v".toList, id)]) = .ok previous.2 ∧ previous.2 ≠ id := by
  decide +kernel

end Playable.Page
