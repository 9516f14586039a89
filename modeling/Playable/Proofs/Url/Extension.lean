import Mathlib.Data.List.TakeWhile
import Playable.Proofs.Sequence
import Playable.Proofs.Text.Cut
import Playable.Url.Split

/-!
# Text behind a URL

Scheme and authority are cut off from the front of a URL, so text behind the URL does not change
them where a question mark or a number sign stands in between. What the text becomes depends on
the mark in front of it: behind a number sign it continues the fragment, behind a question mark the
query, and behind neither it has to bring its own question mark.
-/

namespace Playable.Url

variable {c : Char} {url more rest : Text} {otherwise : Text} {front : Text × Text} {parts : Parts}

/-- A character that starts the query or the fragment of a URL. -/
def startsPart (c : Char) : Bool :=
  c = '?' || c = '#'

/-- A character that is dropped wherever it stands in a URL. -/
def isDropped (c : Char) : Bool :=
  c = '\t' || c = '\r' || c = '\n'

/-- The scheme and the authority of a clean URL, and what stands behind them. -/
def cutFront (url : Text) : (Text × Text) × Text :=
  let (scheme, rest) := cutScheme [] url
  let (authority, rest) := cutAuthority rest
  ((scheme, authority), rest)

/-- The parts of a URL with this scheme, this authority, and this text behind them. -/
def partsOf (front : Text × Text) (rest : Text) : Parts :=
  let (rest, fragment) := Text.cutFirst '#' rest
  let (path, query) := Text.cutFirst '?' rest
  ⟨front.1, front.2, path, query.getD [], fragment.getD []⟩

/-! ## The front -/

/-- A URL is cut into its parts exactly if its authority is allowed. -/
theorem split_eq_ok_iff : split url = .ok parts ↔
    checkAuthority (cutFront (clean url)).1.2 = .ok () ∧
      parts = partsOf (cutFront (clean url)).1 (cutFront (clean url)).2 := by
  have hsplit : split url = checkAuthority (cutFront (clean url)).1.2 >>= fun _ =>
      .ok (partsOf (cutFront (clean url)).1 (cutFront (clean url)).2) := rfl
  rw [hsplit, bind_eq_ok_iff]
  exact ⟨fun ⟨_, hcheck, hparts⟩ => ⟨hcheck, (Except.ok.inj hparts).symm⟩,
    fun ⟨hcheck, hparts⟩ => ⟨(), hcheck, congrArg _ hparts.symm⟩⟩

/-- What starts the query or the fragment is a question mark or a number sign. -/
theorem startsPart_eq_true_iff : startsPart c = true ↔ c = '?' ∨ c = '#' := by
  simp [startsPart]

/-- No character of a scheme starts the query or the fragment. -/
theorem startsPart_of_isSchemeChar (h : isSchemeChar c = true) : startsPart c = false := by
  refine Bool.eq_false_iff.mpr fun hstart => ?_
  rcases startsPart_eq_true_iff.mp hstart with rfl | rfl
  · cases h
  · cases h

/-- What starts the query or the fragment ends the authority. -/
theorem endsAuthority_of_startsPart (h : startsPart c = true) : endsAuthority c = true := by
  rcases startsPart_eq_true_iff.mp h with rfl | rfl
  · rfl
  · rfl

/-- The scheme stands in front of the first colon, or it is missing. -/
theorem exists_cutScheme_front (otherwise url : Text) :
    ∃ front, url = front ++ (cutScheme otherwise url).2 ∧ ∀ c ∈ front, startsPart c = false := by
  have hnone : ∃ front, url = front ++ url ∧ ∀ c ∈ front, startsPart c = false :=
    ⟨[], rfl, fun _ hc => absurd hc List.not_mem_nil⟩
  by_cases hcolon : ':' ∈ url
  · obtain ⟨name, rest, rfl, hname⟩ := List.eq_append_cons_of_mem hcolon
    rw [cutScheme, Text.cutFirst_append_cons hname]
    dsimp only
    split
    · rename_i hscheme
      have hchars : ∀ c ∈ name, isSchemeChar c = true :=
        List.all_eq_true.mp (Bool.and_eq_true_iff.mp hscheme).2
      refine ⟨name ++ [':'], by simp, fun c hc => ?_⟩
      rcases List.mem_append.mp hc with hc | hc
      · exact startsPart_of_isSchemeChar (hchars c hc)
      · rw [List.mem_singleton.mp hc]
        rfl
    · exact hnone
  · rw [cutScheme, Text.cutFirst_of_not_mem hcolon]
    exact hnone

/-- Without a double slash in front there is no authority. -/
theorem cutAuthority_of_forall (h : ∀ rest, url ≠ '/' :: '/' :: rest) :
    cutAuthority url = ([], url) := by
  rw [cutAuthority]
  exact fun rest hrest => h rest hrest

/-- The authority holds nothing that starts the query or the fragment. -/
theorem exists_cutAuthority_front (url : Text) :
    ∃ front, url = front ++ (cutAuthority url).2 ∧ ∀ c ∈ front, startsPart c = false := by
  by_cases hslashes : ∃ rest, url = '/' :: '/' :: rest
  · obtain ⟨rest, rfl⟩ := hslashes
    refine ⟨'/' :: '/' :: rest.takeWhile (!endsAuthority ·), ?_, fun c hc => ?_⟩
    · exact congrArg ('/' :: '/' :: ·) List.takeWhile_append_dropWhile.symm
    · rcases List.mem_cons.mp hc with rfl | hc
      · rfl
      rcases List.mem_cons.mp hc with rfl | hc
      · rfl
      · have hends := List.mem_takeWhile_imp hc
        refine Bool.eq_false_iff.mpr fun hstart => ?_
        rw [endsAuthority_of_startsPart hstart] at hends
        cases hends
  · rw [cutAuthority_of_forall fun rest hrest => hslashes ⟨rest, hrest⟩]
    exact ⟨[], rfl, fun _ hc => absurd hc List.not_mem_nil⟩

/-- Nothing in front of what stands behind the authority starts the query or the fragment. -/
theorem exists_cutFront (url : Text) :
    ∃ front, url = front ++ (cutFront url).2 ∧ ∀ c ∈ front, startsPart c = false := by
  obtain ⟨scheme, hscheme, hschemeChars⟩ := exists_cutScheme_front [] url
  obtain ⟨authority, hauthority, hauthorityChars⟩ :=
    exists_cutAuthority_front (cutScheme [] url).2
  refine ⟨scheme ++ authority, ?_, fun c hc => ?_⟩
  · rw [List.append_assoc]
    exact hscheme.trans (congrArg _ hauthority)
  · exact (List.mem_append.mp hc).elim (hschemeChars c) (hauthorityChars c)

/-- What starts the query or the fragment stands behind the authority. -/
theorem mem_cutFront_iff (h : startsPart c = true) : c ∈ (cutFront url).2 ↔ c ∈ url := by
  obtain ⟨front, hfront, hchars⟩ := exists_cutFront url
  nth_rewrite 2 [hfront]
  rw [List.mem_append]
  refine ⟨.inr, fun hc => hc.resolve_left fun hc => ?_⟩
  exact Bool.false_ne_true ((hchars c hc).symm.trans h)

/-- Behind a question mark or a number sign no colon ends a scheme. -/
theorem cutScheme_of_mark (hmark : ∃ c ∈ url, startsPart c = true) (hcolon : ':' ∉ url)
    (otherwise more : Text) : cutScheme otherwise (url ++ more) = (otherwise, url ++ more) := by
  by_cases hmore : ':' ∈ more
  · obtain ⟨before, behind, rfl, hbefore⟩ := List.eq_append_cons_of_mem hmore
    have hname : ':' ∉ url ++ before := by simp [hcolon, hbefore]
    obtain ⟨c, hc, hstart⟩ := hmark
    have hnot : (url ++ before).all isSchemeChar = false :=
      List.all_eq_false.mpr ⟨c, List.mem_append_left _ hc, fun hscheme =>
        Bool.false_ne_true ((startsPart_of_isSchemeChar hscheme).symm.trans hstart)⟩
    rw [← List.append_assoc, cutScheme, Text.cutFirst_append_cons hname]
    simp only [hnot, Bool.and_false, Bool.false_eq_true, if_false]
  · have hnone : ':' ∉ url ++ more := by simp [hcolon, hmore]
    rw [cutScheme, Text.cutFirst_of_not_mem hnone]

/-- Text behind a URL does not change the scheme if something in between ends it. -/
theorem cutScheme_append (h : (∃ c ∈ url, startsPart c = true) ∨ more.head? = some '?')
    (otherwise : Text) :
    cutScheme otherwise (url ++ more) =
      ((cutScheme otherwise url).1, (cutScheme otherwise url).2 ++ more) := by
  by_cases hcolon : ':' ∈ url
  · obtain ⟨name, rest, rfl, hname⟩ := List.eq_append_cons_of_mem hcolon
    rw [List.append_assoc, List.cons_append, cutScheme, cutScheme,
      Text.cutFirst_append_cons hname, Text.cutFirst_append_cons hname]
    dsimp only
    split
    · rfl
    · rw [List.append_assoc, List.cons_append]
  · have hnone : cutScheme otherwise url = (otherwise, url) := by
      rw [cutScheme, Text.cutFirst_of_not_mem hcolon]
    rw [hnone]
    rcases h with hmark | hhead
    · exact cutScheme_of_mark hmark hcolon otherwise more
    · obtain ⟨more, rfl⟩ := List.head?_eq_some_iff.mp hhead
      have hasked : ':' ∉ url ++ ['?'] := by simp [hcolon]
      have hmark : ∃ c ∈ url ++ ['?'], startsPart c = true := ⟨'?', by simp, rfl⟩
      simpa using cutScheme_of_mark hmark hasked otherwise more

/-- Text behind a URL does not change the authority if something in between ends it. -/
theorem cutAuthority_append
    (h : (∃ c ∈ url, startsPart c = true) ∨ more.head? = some '?') :
    cutAuthority (url ++ more) = ((cutAuthority url).1, (cutAuthority url).2 ++ more) := by
  by_cases hslashes : ∃ rest, url = '/' :: '/' :: rest
  · obtain ⟨rest, rfl⟩ := hslashes
    have hstop : (∃ c ∈ rest, (!endsAuthority c) = false) ∨
        more.head?.any (!endsAuthority ·) = false := by
      refine h.imp ?_ fun hhead => ?_
      · rintro ⟨c, hc, hstart⟩
        have hslash : c ≠ '/' := by
          rintro rfl
          cases hstart
        have hrest : c ∈ rest := List.mem_of_ne_of_mem hslash (List.mem_of_ne_of_mem hslash hc)
        exact ⟨c, hrest, by rw [endsAuthority_of_startsPart hstart, Bool.not_true]⟩
      · rw [hhead]
        rfl
    exact Prod.ext (Text.takeWhile_append_of_stop hstop) (Text.dropWhile_append_of_stop hstop)
  · have hlonger : ∀ rest, url ++ more ≠ '/' :: '/' :: rest := by
      intro rest hrest
      match url, hslashes with
      | [], _ =>
        rw [List.nil_append] at hrest
        simp [hrest, startsPart] at h
      | [c], _ =>
        simp only [List.cons_append, List.nil_append, List.cons.injEq] at hrest
        simp [hrest.1, hrest.2, startsPart] at h
      | c :: d :: tail, hslashes =>
        simp only [List.cons_append, List.cons.injEq] at hrest
        exact hslashes ⟨tail, by rw [hrest.1, hrest.2.1]⟩
    rw [cutAuthority_of_forall hlonger,
      cutAuthority_of_forall fun rest hrest => hslashes ⟨rest, hrest⟩]

/-- Text behind a URL does not change scheme and authority if something in between ends them. -/
theorem cutFront_append (h : (∃ c ∈ url, startsPart c = true) ∨ more.head? = some '?') :
    cutFront (url ++ more) = ((cutFront url).1, (cutFront url).2 ++ more) := by
  have hrest : (∃ c ∈ (cutScheme [] url).2, startsPart c = true) ∨
      more.head? = some '?' := by
    refine h.imp_left fun ⟨c, hc, hstart⟩ => ⟨c, ?_, hstart⟩
    obtain ⟨front, hfront, hchars⟩ := exists_cutScheme_front [] url
    rw [hfront, List.mem_append] at hc
    exact hc.resolve_left fun hc => Bool.false_ne_true ((hchars c hc).symm.trans hstart)
  simp only [cutFront, cutScheme_append h, cutAuthority_append hrest]

/-! ## Dropped characters -/

/-- Text that does not begin with a character that is dropped in front is cleaned on its own. -/
theorem clean_append (h : more.head?.any (·.toNat ≤ 32) = false) :
    clean (url ++ more) = clean url ++ more.filter (!isDropped ·) := by
  have hkept : (fun c : Char => decide (c ≠ '\t' ∧ c ≠ '\r' ∧ c ≠ '\n')) = (!isDropped ·) := by
    funext c
    simp [isDropped, Bool.and_assoc]
  rw [clean, Text.dropWhile_append_of_stop (.inr h), List.filter_append, clean, hkept]

/-- What starts the query or the fragment is not dropped. -/
theorem mem_clean_iff (h : startsPart c = true) : c ∈ clean url ↔ c ∈ url := by
  have hbounds : ¬ c.toNat ≤ 32 ∧ c ≠ '\t' ∧ c ≠ '\r' ∧ c ≠ '\n' := by
    rcases startsPart_eq_true_iff.mp h with rfl | rfl
    · decide
    · decide
  have hdrop : c ∈ url.dropWhile (·.toNat ≤ 32) ↔ c ∈ url := by
    refine ⟨fun hc => (List.dropWhile_sublist _).subset hc, fun hc => ?_⟩
    rw [← List.takeWhile_append_dropWhile (p := fun c : Char => decide (c.toNat ≤ 32)) (l := url),
      List.mem_append] at hc
    refine hc.resolve_left fun hc => hbounds.1 ?_
    simpa using List.mem_takeWhile_imp hc
  rw [clean, List.mem_filter, hdrop, decide_eq_true hbounds.2]
  exact and_iff_left rfl

/-- Exactly the marks of a URL stand behind its authority once it is clean. -/
theorem mem_rest_iff (h : startsPart c = true) : c ∈ (cutFront (clean url)).2 ↔ c ∈ url :=
  (mem_cutFront_iff h).trans (mem_clean_iff h)

/-! ## The parts -/

/-- Text that can stand behind a URL without being dropped, and that holds no mark of a fragment. -/
structure IsPlain (more : Text) : Prop where
  /-- Its characters are neither blanks nor controls. -/
  visible : ∀ c ∈ more, 32 < c.toNat
  /-- It holds no number sign. -/
  number : '#' ∉ more

/-- No character of plain text is dropped. -/
theorem IsPlain.filter_eq_self (h : IsPlain more) : more.filter (!isDropped ·) = more := by
  refine List.filter_eq_self.mpr fun c hc => ?_
  have hvisible := h.visible c hc
  refine (Bool.not_eq_true' _).mpr (Bool.eq_false_iff.mpr fun hdropped => ?_)
  simp only [isDropped, Bool.or_eq_true, decide_eq_true_eq] at hdropped
  rcases hdropped with (rfl | rfl) | rfl
  · exact absurd hvisible (by decide)
  · exact absurd hvisible (by decide)
  · exact absurd hvisible (by decide)

/-- Plain text is not changed by cleaning. -/
theorem IsPlain.clean_append (h : IsPlain more) (url : Text) :
    clean (url ++ more) = clean url ++ more := by
  have hhead : more.head?.any (·.toNat ≤ 32) = false := by
    cases more with
    | nil => rfl
    | cons c more => simpa using h.visible c List.mem_cons_self
  rw [Url.clean_append hhead, h.filter_eq_self]

/-- Plain text behind a URL stands behind what comes after the authority, if something in between
ends the authority. -/
theorem IsPlain.split_append (hplain : IsPlain more) (h : split url = .ok parts)
    (hmark : (∃ c ∈ url, startsPart c = true) ∨ more.head? = some '?') :
    split (url ++ more) =
      .ok (partsOf (cutFront (clean url)).1 ((cutFront (clean url)).2 ++ more)) := by
  have hclean : (∃ c ∈ clean url, startsPart c = true) ∨ more.head? = some '?' :=
    hmark.imp_left fun ⟨c, hc, hstart⟩ => ⟨c, (mem_clean_iff hstart).mpr hc, hstart⟩
  refine split_eq_ok_iff.mpr ?_
  rw [hplain.clean_append, cutFront_append hclean]
  exact ⟨(split_eq_ok_iff.mp h).1, rfl⟩

/-- Text behind a number sign continues the fragment. -/
theorem partsOf_append_of_fragment (h : '#' ∈ rest) (front : Text × Text) (more : Text) :
    partsOf front (rest ++ more) =
      { partsOf front rest with fragment := (partsOf front rest).fragment ++ more } := by
  obtain ⟨asked, fragment, rfl, hasked⟩ := List.eq_append_cons_of_mem h
  rw [List.append_assoc, List.cons_append, partsOf, partsOf, Text.cutFirst_append_cons hasked,
    Text.cutFirst_append_cons hasked]
  rfl

/-- Without a number sign there is no fragment, and the first question mark starts the query. -/
theorem partsOf_of_query {path query : Text} (hfragment : '#' ∉ path ++ '?' :: query)
    (hpath : '?' ∉ path) (front : Text × Text) :
    partsOf front (path ++ '?' :: query) = ⟨front.1, front.2, path, query, []⟩ := by
  simp only [partsOf, Text.cutFirst_of_not_mem hfragment, Text.cutFirst_append_cons hpath,
    Option.getD_some, Option.getD_none]

/-- Without any mark there is nothing but a path. -/
theorem partsOf_of_path (hfragment : '#' ∉ rest) (hquery : '?' ∉ rest) (front : Text × Text) :
    partsOf front rest = ⟨front.1, front.2, rest, [], []⟩ := by
  simp only [partsOf, Text.cutFirst_of_not_mem hfragment, Text.cutFirst_of_not_mem hquery,
    Option.getD_none]

/-- Text behind a question mark, and no number sign, continues the query. -/
theorem partsOf_append_of_query (hfragment : '#' ∉ rest) (hquery : '?' ∈ rest)
    (hmore : '#' ∉ more) (front : Text × Text) :
    partsOf front (rest ++ more) =
      { partsOf front rest with query := (partsOf front rest).query ++ more } := by
  obtain ⟨path, query, rfl, hpath⟩ := List.eq_append_cons_of_mem hquery
  have hlonger : '#' ∉ path ++ '?' :: (query ++ more) := by
    rw [← List.cons_append, ← List.append_assoc, List.mem_append]
    exact not_or.mpr ⟨hfragment, hmore⟩
  rw [List.append_assoc, List.cons_append, partsOf_of_query hlonger hpath,
    partsOf_of_query hfragment hpath]

/-- A query and perhaps a fragment, as they stand behind a path. -/
def queryText (query : Text) : Option Text → Text
  | none => '?' :: query
  | some fragment => '?' :: query ++ '#' :: fragment

/-- A path, a query and perhaps a fragment are told apart by their marks. -/
theorem partsOf_append_queryText {query : Text} (hfragment : '#' ∉ rest) (hquery : '?' ∉ rest)
    (hnumber : '#' ∉ query) (fragment : Option Text) (front : Text × Text) :
    partsOf front (rest ++ queryText query fragment) =
      { partsOf front rest with query := query, fragment := fragment.getD [] } := by
  have hasked : '#' ∉ rest ++ '?' :: query := by simp [hfragment, hnumber]
  rw [partsOf_of_path hfragment hquery]
  cases fragment with
  | none => exact partsOf_of_query hasked hquery front
  | some fragment =>
    have hcut : rest ++ queryText query (some fragment) =
        (rest ++ '?' :: query) ++ '#' :: fragment := by simp [queryText]
    rw [hcut, partsOf, Text.cutFirst_append_cons hasked]
    simp only [Text.cutFirst_append_cons hquery, Option.getD_some]

/-- A query and a fragment are cleaned each on its own. -/
theorem filter_queryText (query : Text) (fragment : Option Text) :
    (queryText query fragment).filter (!isDropped ·) =
      queryText (query.filter (!isDropped ·)) (fragment.map (List.filter (!isDropped ·))) := by
  have hasked : isDropped '?' = false := rfl
  have hnumber : isDropped '#' = false := rfl
  cases fragment <;> simp [queryText, hasked, hnumber]

/-! ## Text behind a URL -/

section Longer

variable (hplain : IsPlain more) (h : split url = .ok parts)
include hplain h

/-- Behind a URL with a fragment, plain text continues the fragment. -/
theorem split_append_of_fragment (hfragment : '#' ∈ url) :
    split (url ++ more) = .ok { parts with fragment := parts.fragment ++ more } := by
  have hrest : '#' ∈ (cutFront (clean url)).2 := (mem_rest_iff rfl).mpr hfragment
  rw [hplain.split_append h (.inl ⟨'#', hfragment, rfl⟩), partsOf_append_of_fragment hrest,
    ← (split_eq_ok_iff.mp h).2]

variable (hfragment : '#' ∉ url)
include hfragment

/-- Behind a URL with a question mark and no fragment, plain text continues the query. -/
theorem split_append_of_query (hquery : '?' ∈ url) :
    split (url ++ more) = .ok { parts with query := parts.query ++ more } := by
  have hrest : '#' ∉ (cutFront (clean url)).2 := mt (mem_rest_iff rfl).mp hfragment
  have hmark : '?' ∈ (cutFront (clean url)).2 := (mem_rest_iff rfl).mpr hquery
  rw [hplain.split_append h (.inl ⟨'?', hquery, rfl⟩),
    partsOf_append_of_query hrest hmark hplain.number, ← (split_eq_ok_iff.mp h).2]

end Longer

section Path

variable (h : split url = .ok parts) (hfragment : '#' ∉ url) (hquery : '?' ∉ url)
include h hfragment hquery

/-- Behind a URL without a question mark or a fragment, a question mark starts the query and the
first number sign behind it the fragment, whatever else they hold. -/
theorem split_append_queryText {query : Text} (hnumber : '#' ∉ query) (fragment : Option Text) :
    split (url ++ queryText query fragment) = .ok { parts with
      query := query.filter (!isDropped ·)
      fragment := (fragment.map (List.filter (!isDropped ·))).getD [] } := by
  have hrest : '#' ∉ (cutFront (clean url)).2 := mt (mem_rest_iff rfl).mp hfragment
  have hmark : '?' ∉ (cutFront (clean url)).2 := mt (mem_rest_iff rfl).mp hquery
  have hkept : '#' ∉ query.filter (!isDropped ·) := fun hmem => hnumber (List.mem_filter.mp hmem).1
  have hhead : (queryText query fragment).head?.any (·.toNat ≤ 32) = false := by
    cases fragment <;> rfl
  have hasked (query : Text) (fragment : Option Text) :
      (queryText query fragment).head? = some '?' := by
    cases fragment <;> rfl
  refine split_eq_ok_iff.mpr ?_
  rw [clean_append hhead, filter_queryText, cutFront_append (.inr (hasked _ _)),
    partsOf_append_queryText hrest hmark hkept, ← (split_eq_ok_iff.mp h).2]
  exact ⟨(split_eq_ok_iff.mp h).1, rfl⟩

/-- Behind a URL without a question mark or a fragment, a question mark starts the query. -/
theorem split_append_of_path (hplain : IsPlain more) :
    split (url ++ '?' :: more) = .ok { parts with query := more } := by
  have hrest : '#' ∉ (cutFront (clean url)).2 := mt (mem_rest_iff rfl).mp hfragment
  have hmark : '?' ∉ (cutFront (clean url)).2 := mt (mem_rest_iff rfl).mp hquery
  have hnone : parts.fragment = [] := by
    rw [(split_eq_ok_iff.mp h).2, partsOf_of_path hrest hmark]
  refine (split_append_queryText h hfragment hquery hplain.number none).trans ?_
  rw [hplain.filter_eq_self, Option.map_none, Option.getD_none, ← hnone]

end Path

/-- The query of a URL without a fragment is what stands behind its first question mark, without
the characters that are dropped. -/
theorem query_eq (h : split url = .ok parts) (hfragment : '#' ∉ url) :
    parts.query = ((Text.cutFirst '?' url).2.getD []).filter (!isDropped ·) := by
  have hrest : '#' ∉ (cutFront (clean url)).2 := mt (mem_rest_iff rfl).mp hfragment
  rw [(split_eq_ok_iff.mp h).2]
  by_cases hquery : '?' ∈ url
  · obtain ⟨before, behind, rfl, hbefore⟩ := List.eq_append_cons_of_mem hquery
    have hpath : '?' ∉ (cutFront (clean before)).2 := mt (mem_rest_iff rfl).mp hbefore
    have hclean : clean (before ++ '?' :: behind) =
        clean before ++ '?' :: behind.filter (!isDropped ·) := clean_append rfl
    rw [hclean, cutFront_append (.inr rfl)] at hrest ⊢
    rw [partsOf_of_query hrest hpath, Text.cutFirst_append_cons hbefore, Option.getD_some]
  · have hmark : '?' ∉ (cutFront (clean url)).2 := mt (mem_rest_iff rfl).mp hquery
    rw [partsOf_of_path hrest hmark, Text.cutFirst_of_not_mem hquery]
    rfl

end Playable.Url
