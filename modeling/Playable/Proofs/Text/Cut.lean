import Mathlib.Data.List.Basic
import Mathlib.Tactic.Common
import Playable.Text.Blank
import Playable.Text.Word

/-!
# Cutting and joining texts

A text can be cut at the first character of a class in only one way. Splitting at a
separator undoes joining with it, and trimming changes nothing where there is nothing to
trim. Of the ASCII characters, none above the space is blank, and no blank is a word character.
-/

namespace Playable.Text

section Lists

variable {α : Type} {sep x y : α} {t u v u' v' : List α}

/-- Whether all characters of a text have a property can be evaluated. -/
theorem forall_mem_of_all {p : α → Prop} [DecidablePred p] (h : t.all (p ·) = true) :
    ∀ c ∈ t, p c := by
  simpa using h

/-- The first character of a class cuts a text in only one way. -/
theorem cut_unique (stop : α → Bool) (h : u ++ x :: v = u' ++ y :: v')
    (hu : ∀ c ∈ u, stop c = false) (hx : stop x = true)
    (hu' : ∀ c ∈ u', stop c = false) (hy : stop y = true) : u = u' ∧ x = y ∧ v = v' := by
  induction u generalizing u' with
  | nil =>
    cases u' with
    | nil => simpa using h
    | cons d u' =>
      obtain ⟨rfl, _⟩ := List.cons.inj h
      exact absurd (hu' x List.mem_cons_self) (by simp [hx])
  | cons c u ih =>
    cases u' with
    | nil =>
      obtain ⟨rfl, _⟩ := List.cons.inj h
      exact absurd (hu c List.mem_cons_self) (by simp [hy])
    | cons d u' =>
      obtain ⟨rfl, htail⟩ := List.cons.inj h
      obtain ⟨rfl, rfl, rfl⟩ := ih htail (fun c hc => hu c (List.mem_cons_of_mem _ hc))
        fun c hc => hu' c (List.mem_cons_of_mem _ hc)
      exact ⟨rfl, rfl, rfl⟩

/-- A piece of a text that does not hold a character lies on one side of it. -/
theorem append_cons_eq_append (hx : x ∉ t) (h : u ++ x :: v = u' ++ (t ++ v')) :
    (∃ z, u = u' ++ (t ++ z) ∧ v' = z ++ x :: v) ∨ ∃ z, u' = u ++ x :: z ∧ v = z ++ (t ++ v') := by
  rcases List.append_eq_append_iff.mp h with ⟨z, rfl, hz⟩ | ⟨z, rfl, hz⟩
  · cases z with
    | nil =>
      cases t with
      | nil => exact .inl ⟨[], by simp, hz.symm⟩
      | cons c t =>
        rw [List.nil_append, List.cons_append, List.cons.injEq] at hz
        exact absurd (hz.1 ▸ List.mem_cons_self) hx
    | cons c z =>
      rw [List.cons_append, List.cons.injEq] at hz
      obtain ⟨rfl, hz⟩ := hz
      exact .inr ⟨z, rfl, hz⟩
  · rcases List.append_eq_append_iff.mp hz with ⟨y, rfl, hy⟩ | ⟨y, rfl, hy⟩
    · exact .inl ⟨y, rfl, hy⟩
    · cases y with
      | nil => exact .inl ⟨[], by simp, hy.symm⟩
      | cons c y =>
        rw [List.cons_append, List.cons.injEq] at hy
        exact absurd (hy.1 ▸ List.mem_append_right z List.mem_cons_self) hx

/-- A piece at the start of a text ends in front of a character that it does not hold. -/
theorem append_cons_eq_front (hx : x ∉ t) (h : u ++ x :: v = t ++ v') :
    ∃ z, u = t ++ z ∧ v' = z ++ x :: v := by
  have h' : u ++ x :: v = [] ++ (t ++ v') := h
  rcases append_cons_eq_append hx h' with hfront | ⟨z, hnil, -⟩
  · exact hfront
  · exact absurd hnil.symm (List.append_ne_nil_of_right_ne_nil u (List.cons_ne_nil x z))

/-- A piece at the end of a text begins behind a character that it does not hold. -/
theorem append_cons_eq_back (hx : x ∉ t) (h : u ++ x :: v = u' ++ t) :
    ∃ z, u' = u ++ x :: z ∧ v = z ++ t := by
  rw [← List.append_nil t] at h ⊢
  rcases append_cons_eq_append hx h with ⟨z, -, hnil⟩ | hback
  · exact absurd hnil.symm (List.append_ne_nil_of_right_ne_nil z (List.cons_ne_nil x v))
  · exact hback

/-- A piece of a text lies behind a first character that it does not hold. -/
theorem cons_eq_append (ht : t ≠ []) (hx : x ∉ t) (h : x :: v = u' ++ (t ++ v')) :
    ∃ z, u' = x :: z ∧ v = z ++ (t ++ v') := by
  rcases append_cons_eq_append (u := []) hx h with ⟨z, hnil, -⟩ | hback
  · exact absurd (List.append_eq_nil_iff.mp (List.append_eq_nil_iff.mp hnil.symm).2).1 ht
  · exact hback

/-- Joining puts the separator in front of every text but the first. -/
theorem join_cons (sep t : List α) (ts : List (List α)) :
    join sep (t :: ts) = t ++ ts.flatMap (sep ++ ·) := by
  induction ts generalizing t with
  | nil => simp [join]
  | cons s ts ih => rw [join, ih, List.flatMap_cons, List.append_assoc, List.append_assoc]; simp

/-- Joining texts that are not empty gives a text that is not empty. -/
theorem join_ne_nil {sep : List α} {ts : List (List α)} (hts : ts ≠ []) (h : ∀ t ∈ ts, t ≠ []) :
    join sep ts ≠ [] := by
  obtain ⟨t, ts, rfl⟩ := List.exists_cons_of_ne_nil hts
  rw [join_cons]
  exact List.append_ne_nil_of_left_ne_nil (h t List.mem_cons_self) _

/-- A joined text ends like the last of the texts. -/
theorem getLast?_join {p : α → Bool} {sep : List α} {ts : List (List α)}
    (h : ∀ t ∈ ts, t ≠ [] ∧ t.getLast?.any p = false) :
    (join sep ts).getLast?.any p = false := by
  induction ts with
  | nil => rfl
  | cons t ts ih =>
    obtain ⟨ht, hts⟩ := List.forall_mem_cons.mp h
    cases ts with
    | nil => exact ht.2
    | cons s ts =>
      have hne : join sep (s :: ts) ≠ [] :=
        join_ne_nil (List.cons_ne_nil s ts) fun t ht => (hts t ht).1
      rw [join, List.getLast?_append_of_ne_nil _ hne]
      · exact ih hts
      · exact nofun

/-- A character of none of the texts and not of the separator is not of the joined text. -/
theorem not_mem_join {c : α} {sep : List α} {ts : List (List α)} (hsep : c ∉ sep)
    (h : ∀ t ∈ ts, c ∉ t) : c ∉ join sep ts := by
  cases ts with
  | nil => exact List.not_mem_nil
  | cons t ts =>
    rw [join_cons, List.mem_append, List.mem_flatMap]
    rintro (hmem | ⟨s, hs, hmem⟩)
    · exact h t List.mem_cons_self hmem
    · exact (List.mem_append.mp hmem).elim hsep (h s (List.mem_cons_of_mem t hs))

/-- With another separator behind it, a joined text is a text and a separator for each. -/
theorem join_append_cons {ts : List (List α)} (hts : ts ≠ []) (rest : List α) :
    join [sep] ts ++ sep :: rest = ts.flatMap (· ++ [sep]) ++ rest := by
  induction ts with
  | nil => exact absurd rfl hts
  | cons t ts ih =>
    cases ts with
    | nil => simp [join]
    | cons s ts =>
      have htail := ih (by simp)
      rw [show join [sep] (t :: s :: ts) = t ++ [sep] ++ join [sep] (s :: ts) from rfl,
        List.append_assoc, htail]
      simp

/-- A separator ends a piece, and anything else goes on with it. -/
theorem split_cons [DecidableEq α] (sep c : α) (t : List α) :
    split sep (c :: t) =
      if c = sep then [] :: split sep t
      else match split sep t with
        | [] => [[c]]
        | piece :: more => (c :: piece) :: more :=
  rfl

/-- A text without the separator is one piece. -/
theorem split_of_not_mem [DecidableEq α] (h : sep ∉ t) : split sep t = [t] := by
  induction t with
  | nil => rfl
  | cons c t ih =>
    have hc : c ≠ sep := fun hc => h (by simp [hc])
    have ht : sep ∉ t := fun ht => h (by simp [ht])
    rw [split_cons, ih ht, if_neg hc]

/-- The first separator ends the first piece. -/
theorem split_append_cons [DecidableEq α] (h : sep ∉ u) :
    split sep (u ++ sep :: v) = u :: split sep v := by
  induction u with
  | nil =>
    rw [List.nil_append, split_cons, if_pos rfl]
  | cons c u ih =>
    have hc : c ≠ sep := fun hc => h (by simp [hc])
    have hu : sep ∉ u := fun hu => h (by simp [hu])
    rw [List.cons_append, split_cons, ih hu, if_neg hc]

/-- A text is split at every separator. -/
theorem split_append_sep [DecidableEq α] (u v : List α) :
    split sep (u ++ sep :: v) = split sep u ++ split sep v := by
  induction hlength : u.length using Nat.strongRecOn generalizing u with
  | ind n ih =>
    by_cases hu : sep ∈ u
    · obtain ⟨first, more, rfl, hfirst⟩ := List.eq_append_cons_of_mem hu
      have hshort : more.length < n := by
        rw [← hlength, List.length_append, List.length_cons]
        omega
      rw [List.append_assoc, List.cons_append, split_append_cons hfirst, split_append_cons hfirst,
        ih _ hshort more rfl, List.cons_append]
    · rw [split_append_cons hu, split_of_not_mem hu, List.singleton_append]

/-- No piece of a text holds the separator. -/
theorem not_mem_of_mem_split [DecidableEq α] (h : u ∈ split sep t) : sep ∉ u := by
  induction hlength : t.length using Nat.strongRecOn generalizing t with
  | ind n ih =>
    by_cases hmem : sep ∈ t
    · obtain ⟨first, more, rfl, hfirst⟩ := List.eq_append_cons_of_mem hmem
      have hshort : more.length < n := by
        rw [← hlength, List.length_append, List.length_cons]
        omega
      rw [split_append_cons hfirst] at h
      rcases List.mem_cons.mp h with rfl | hmore
      · exact hfirst
      · exact ih _ hshort hmore rfl
    · rw [split_of_not_mem hmem, List.mem_singleton] at h
      rwa [h]

/-- Splitting undoes joining if no piece holds the separator. -/
theorem split_join [DecidableEq α] {ts : List (List α)} (hts : ts ≠ []) (h : ∀ t ∈ ts, sep ∉ t) :
    split sep (join [sep] ts) = ts := by
  induction ts with
  | nil => exact absurd rfl hts
  | cons t ts ih =>
    have ht : sep ∉ t := h t List.mem_cons_self
    cases ts with
    | nil => exact split_of_not_mem ht
    | cons s ts =>
      have htail : split sep (join [sep] (s :: ts)) = s :: ts :=
        ih (by simp) fun t ht => h t (List.mem_cons_of_mem _ ht)
      rw [join, List.append_assoc, List.singleton_append, split_append_cons ht, htail]
      simp

/-- The first character of a text that is not empty does not depend on what follows. -/
theorem head?_append_any {p : α → Bool} (hne : u ≠ []) (h : ∀ c ∈ u, p c = false) :
    (u ++ v).head?.any p = false := by
  obtain ⟨c, u, rfl⟩ := List.exists_cons_of_ne_nil hne
  exact h c List.mem_cons_self

/-- A text that does not begin with a character of a class behind another one does not change
whether that one does. -/
theorem any_head?_append {p : α → Bool} (hv : v.head?.any p = false) :
    (u ++ v).head?.any p = u.head?.any p := by
  cases u with
  | nil => exact hv
  | cons c u => rfl

/-- Dropping stops at once at a character that is kept. -/
theorem dropWhile_of_head? {p : α → Bool} (h : t.head?.any p = false) :
    t.dropWhile p = t := by
  cases t with
  | nil => rfl
  | cons c t =>
    have hc : p c = false := h
    simp [hc]

/-- A run of characters with a property ends where one without it follows. -/
theorem takeWhile_append_of_head? {p : α → Bool} (hu : ∀ c ∈ u, p c = true)
    (hv : v.head?.any p = false) : (u ++ v).takeWhile p = u := by
  rw [List.takeWhile_append_of_pos hu]
  cases v with
  | nil => simp
  | cons c v => rw [List.takeWhile_cons_of_neg (by simpa using hv), List.append_nil]

/-- Dropping a run of characters with a property leaves what follows. -/
theorem dropWhile_append_of_head? {p : α → Bool} (hu : ∀ c ∈ u, p c = true)
    (hv : v.head?.any p = false) : (u ++ v).dropWhile p = v := by
  rw [List.dropWhile_append_of_pos hu, dropWhile_of_head? hv]

/-- A run of characters with a property ends in a text with one that lacks it, or in front of
one. -/
theorem takeWhile_append_of_stop {p : α → Bool}
    (h : (∃ c ∈ t, p c = false) ∨ v.head?.any p = false) :
    (t ++ v).takeWhile p = t.takeWhile p := by
  induction t with
  | nil =>
    have hv := h.resolve_left fun ⟨_, hc, _⟩ => List.not_mem_nil hc
    exact takeWhile_append_of_head? (u := []) (fun _ hc => absurd hc List.not_mem_nil) hv
  | cons c t ih =>
    cases hc : p c with
    | false => simp [hc]
    | true =>
      have htail : (∃ c ∈ t, p c = false) ∨ v.head?.any p = false :=
        h.imp_left (by simpa [hc] using ·)
      simpa [hc] using ih htail

/-- What stands behind the end of such a run stays. -/
theorem dropWhile_append_of_stop {p : α → Bool}
    (h : (∃ c ∈ t, p c = false) ∨ v.head?.any p = false) :
    (t ++ v).dropWhile p = t.dropWhile p ++ v := by
  refine (List.append_right_inj (t.takeWhile p)).mp ?_
  calc t.takeWhile p ++ (t ++ v).dropWhile p
      = (t ++ v).takeWhile p ++ (t ++ v).dropWhile p := by rw [takeWhile_append_of_stop h]
    _ = t ++ v := List.takeWhile_append_dropWhile
    _ = t.takeWhile p ++ (t.dropWhile p ++ v) := by
      rw [← List.append_assoc, List.takeWhile_append_dropWhile]

/-- A text is cut at the first separator. -/
theorem cutFirst_append_cons [DecidableEq α] (h : sep ∉ u) :
    cutFirst sep (u ++ sep :: v) = (u, some v) := by
  have hkept : ∀ c ∈ u, (c ≠ sep) := fun c hc heq => h (heq ▸ hc)
  have hstop : (sep :: v).head?.any (fun c => c ≠ sep) = false := by simp
  rw [cutFirst, dropWhile_append_of_head? (by simpa using hkept) hstop,
    takeWhile_append_of_head? (by simpa using hkept) hstop]

/-- A text without the separator is not cut. -/
theorem cutFirst_of_not_mem [DecidableEq α] (h : sep ∉ t) : cutFirst sep t = (t, none) := by
  have hall : ∀ c ∈ t, decide (c ≠ sep) = true := fun c hc => by
    simpa using fun heq : c = sep => h (heq ▸ hc)
  have hnone : (t ++ []).dropWhile (· ≠ sep) = [] := dropWhile_append_of_head? hall rfl
  rw [List.append_nil] at hnone
  rw [cutFirst, hnone]

/-- A text whose first and last characters are kept has nothing to trim. -/
theorem trim_eq_self {p : α → Bool} (hfirst : t.head?.any p = false)
    (hlast : t.getLast?.any p = false) : trim p t = t := by
  rw [trim, dropWhile_of_head? hfirst, dropWhile_of_head? (by rwa [List.head?_reverse]),
    List.reverse_reverse]

/-- What is dropped behind a text with nothing to trim is all that trimming takes away. -/
theorem trim_append {p : α → Bool} (hfirst : u.head?.any p = false)
    (hlast : u.getLast?.any p = false) (hv : ∀ c ∈ v, p c = true) : trim p (u ++ v) = u := by
  cases u with
  | nil =>
    have hnone : (v ++ []).dropWhile p = [] := List.dropWhile_append_of_pos hv
    rw [List.append_nil] at hnone
    simp [trim, hnone]
  | cons c u =>
    have hbehind : ∀ d ∈ v.reverse, p d = true := fun d hd => hv d (List.mem_reverse.mp hd)
    have hfront : (c :: u ++ v).dropWhile p = c :: u ++ v := dropWhile_of_head? hfirst
    rw [trim, hfront, List.reverse_append, List.dropWhile_append_of_pos hbehind,
      dropWhile_of_head? (by rwa [List.head?_reverse]), List.reverse_reverse]

/-- A trimmed text does not end with a character that is dropped. -/
theorem getLast?_trim (p : α → Bool) (t : List α) : (trim p t).getLast?.any p = false := by
  have hhead := List.head?_dropWhile_not p (t.dropWhile p).reverse
  rw [trim, List.getLast?_reverse]
  cases hfirst : ((t.dropWhile p).reverse.dropWhile p).head? with
  | none => rfl
  | some c => simpa [hfirst] using hhead

/-- A trimmed text does not begin with a character that is dropped. -/
theorem head?_trim (p : α → Bool) (t : List α) : (trim p t).head?.any p = false := by
  have hprefix : trim p t <+: t.dropWhile p := by
    rw [← List.reverse_suffix, trim, List.reverse_reverse]
    exact List.dropWhile_suffix p
  have hhead := List.head?_dropWhile_not p t
  cases htrim : trim p t with
  | nil => rfl
  | cons c more =>
    obtain ⟨behind, hbehind⟩ := htrim ▸ hprefix
    rw [← hbehind] at hhead
    simpa using hhead

/-- A text with nothing to trim does not end with a character that is dropped. -/
theorem getLast?_of_trim_eq_self {p : α → Bool} (h : trim p t = t) :
    t.getLast?.any p = false := by
  rw [← h]
  exact getLast?_trim p t

/-- A text with nothing to trim does not begin with a character that is dropped. -/
theorem head?_of_trim_eq_self {p : α → Bool} (h : trim p t = t) : t.head?.any p = false := by
  rw [← h]
  exact head?_trim p t

/-- Only characters that are dropped stand around a trimmed text. -/
theorem exists_append_trim (p : α → Bool) (t : List α) :
    ∃ u v, t = u ++ (trim p t ++ v) ∧ (∀ c ∈ u, p c = true) ∧ ∀ c ∈ v, p c = true := by
  refine ⟨t.takeWhile p, ((t.dropWhile p).reverse.takeWhile p).reverse, ?_, ?_, ?_⟩
  · rw [trim, ← List.reverse_append, List.takeWhile_append_dropWhile, List.reverse_reverse,
      List.takeWhile_append_dropWhile]
  · exact fun c hc => List.all_eq_true.mp (List.all_takeWhile) c hc
  · exact fun c hc => List.all_eq_true.mp (List.all_takeWhile) c (List.mem_reverse.mp hc)

/-- A text of which every character is kept has nothing to trim. -/
theorem trim_of_forall {p : α → Bool} (h : ∀ c ∈ t, p c = false) : trim p t = t := by
  refine trim_eq_self ?_ ?_
  · cases hfirst : t.head? with
    | none => rfl
    | some c => exact h c (List.mem_of_mem_head? hfirst)
  · cases hlast : t.getLast? with
    | none => rfl
    | some c => exact h c (List.mem_of_getLast? hlast)

end Lists

variable {t u v : Text}

/-- A beginning that stands in front is cut off. -/
theorem after?_append (beginning t : Text) : after? beginning (beginning ++ t) = some t := by
  have hfront : beginning.isPrefixOf (beginning ++ t) = true :=
    List.isPrefixOf_iff_prefix.mpr (List.prefix_append beginning t)
  rw [after?, if_pos hfront, List.drop_left]

/-- Only with nothing in front of it a text without blanks is followed by blanks alone. -/
theorem eq_nil_of_append_eq_append (hne : t ≠ []) (ht : ∀ c ∈ t, isBlank c = false)
    (hv : ∀ c ∈ v, isBlank c = true) (h : u ++ t = t ++ v) : u = [] := by
  rcases List.eq_nil_or_concat' v with rfl | ⟨more, b, rfl⟩
  · simpa using h
  · have hlast : t.dropLast ++ [t.getLast hne] = t := List.dropLast_concat_getLast hne
    have hends : u ++ t.dropLast ++ [t.getLast hne] = t ++ more ++ [b] := by
      rw [List.append_assoc, hlast, h, List.append_assoc]
    have hcb : t.getLast hne = b := List.singleton_inj.mp (List.append_inj_right' hends rfl)
    have hsolid : isBlank b = false := hcb ▸ ht _ (List.getLast_mem hne)
    have hblank : isBlank b = true := hv b (by simp)
    exact absurd hblank (by simp [hsolid])

/-- An ASCII character above the space is not blank. -/
theorem isBlank_of_bounds {c : Char} (hlow : 32 < c.toNat) (hhigh : c.toNat < 128) :
    isBlank c = false := by
  have hcontrol : ¬ c.toNat ≤ 13 := by omega
  have hspace : ¬ c.toNat ≤ 32 := by omega
  have hwide : ¬ 128 ≤ c.toNat := by omega
  simp [isBlank, hcontrol, hspace, hwide]

/-- The code points of ASCII letters and digits. -/
theorem bounds_of_isAlphanum {c : Char} (h : c.isAlphanum = true) :
    48 ≤ c.toNat ∧ c.toNat ≤ 122 := by
  rcases Bool.or_eq_true_iff.mp h with halpha | hdigit
  · change (decide ('A'.val ≤ c.val ∧ c.val ≤ 'Z'.val) ||
      (decide ('a'.val ≤ c.val) && decide (c.val ≤ 'z'.val))) = true at halpha
    simp only [Bool.or_eq_true, Bool.and_eq_true, decide_eq_true_eq,
      UInt32.le_iff_toNat_le] at halpha
    change (65 ≤ c.toNat ∧ c.toNat ≤ 90) ∨ (97 ≤ c.toNat ∧ c.toNat ≤ 122) at halpha
    omega
  · simp only [Char.isDigit, Bool.and_eq_true, decide_eq_true_eq, UInt32.le_iff_toNat_le,
      ge_iff_le] at hdigit
    change 48 ≤ c.toNat ∧ c.toNat ≤ 57 at hdigit
    omega

/-- A blank lies in one of a few short ranges. -/
theorem exists_range_of_isBlank {c : Char} (h : isBlank c = true) :
    ∃ r ∈ (9, 13) :: (28, 32) :: wideBlanks, c.toNat ∈ List.range' r.1 (r.2 + 1 - r.1) := by
  have hmem : ∀ r : Nat × Nat, r.1 ≤ c.toNat → c.toNat ≤ r.2 →
      c.toNat ∈ List.range' r.1 (r.2 + 1 - r.1) := by
    intro r hlow hhigh
    rw [List.mem_range'_1]
    omega
  simp only [isBlank, inRanges, Bool.or_eq_true, Bool.and_eq_true, decide_eq_true_eq,
    List.any_eq_true] at h
  rcases h with (⟨hlow, hhigh⟩ | ⟨hlow, hhigh⟩) | ⟨-, r, hr, hlow, hhigh⟩
  · exact ⟨(9, 13), by simp, hmem _ hlow hhigh⟩
  · exact ⟨(28, 32), by simp, hmem _ hlow hhigh⟩
  · exact ⟨r, by simp [hr], hmem r hlow hhigh⟩

/-- No word character is blank, and neither is the dollar sign. -/
theorem isBlank_of_isWordOrDollar {c : Char} (h : isWordOrDollar c = true) :
    isBlank c = false := by
  have hall : ∀ r ∈ (9, 13) :: (28, 32) :: wideBlanks, ∀ n ∈ List.range' r.1 (r.2 + 1 - r.1),
      isWordOrDollar (Char.ofNat n) = false := by decide +kernel
  refine Bool.eq_false_iff.mpr fun hblank => ?_
  obtain ⟨r, hr, hc⟩ := exists_range_of_isBlank hblank
  have hword := hall r hr _ hc
  rw [Char.ofNat_toNat, h] at hword
  cases hword

/-- No blank is a word character. -/
theorem isWordOrDollar_of_isBlank {c : Char} (h : isBlank c = true) : isWordOrDollar c = false :=
  Bool.eq_false_iff.mpr fun hword => by simp [isBlank_of_isWordOrDollar hword] at h

end Playable.Text
