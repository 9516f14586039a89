import Playable.Page.VideoInfo
import Playable.Proofs.Json.Written
import Playable.Proofs.Pattern.Take
import Playable.Proofs.Text.Cut

/-!
# The embedded legacy list

An older watch page holds the legacy list of formats as a string behind its name. The string is cut
out at the next quote, whether it closes the string or is escaped, and then decoded. So a list
without quotes is read exactly, with all its escapes; and a list with a quote is cut behind a
backslash, which leaves a string that is not closed, and is not read at all.
-/

namespace Playable.Page

open Pattern

variable {before front t w rest : Text}

/-- The quoted name of the legacy list. -/
def listName : Text :=
  "\"adaptive_fmts\"".toList

/-- A page that holds a list behind its name. -/
def listPage (front list back : Text) : Text :=
  front ++ (listName ++ ':' :: (Json.write (.text list) ++ back))

/-! ## Finding the list -/

/-- Where a legacy list begins, its name stands in front of blanks and a colon. -/
theorem exists_of_legacyShape_begins (h : legacyShape.Begins before t) :
    ∃ gap more, (∀ c ∈ gap, Text.isBlank c = true) ∧ t = listName ++ (gap ++ ':' :: more) := by
  obtain ⟨_, more, rfl, _, colon, rfl, ⟨name, gap, rfl, hname, hgap⟩, hcolon⟩ :=
    h.front.front.front.front
  obtain rfl : name = listName := hname
  obtain rfl : colon = [':'] := hcolon
  exact ⟨gap, more, hgap, by simp only [List.append_assoc, List.singleton_append]⟩

/-- The name does not begin in front of itself: behind its first quote it would go on with a letter,
and not with blanks or a colon. -/
theorem not_begins_in_front (hfront : ¬ listName <:+: front) {u v : Text} (huv : u ++ v = front)
    (hv : v ≠ []) : ¬ legacyShape.Begins before (v ++ (listName ++ ':' :: rest)) := by
  intro h
  obtain ⟨gap, more, hgap, hcut⟩ := exists_of_legacyShape_begins h
  have hname (t : Text) : listName ++ t = '"' :: ("adaptive_fmts".toList ++ '"' :: t) := rfl
  obtain ⟨c, v, rfl⟩ := List.exists_cons_of_ne_nil hv
  rw [List.cons_append, hname, hname] at hcut
  obtain ⟨rfl, htail⟩ := List.cons.inj hcut
  obtain ⟨z, rfl, hz⟩ := Text.append_cons_eq_front (by decide : '"' ∉ "adaptive_fmts".toList) htail
  cases z with
  | nil =>
    have hafter : gap ++ ':' :: more = 'a' :: ("daptive_fmts".toList ++ '"' :: ':' :: rest) :=
      (List.cons.inj hz).2
    cases gap with
    | nil => cases hafter
    | cons d gap =>
      obtain ⟨rfl, -⟩ := List.cons.inj hafter
      exact absurd (hgap _ List.mem_cons_self) (by decide)
  | cons d z =>
    obtain ⟨rfl, -⟩ := List.cons.inj hz
    exact hfront ⟨u, z, by rw [← huv, List.append_assoc, hname]⟩

/-- The list is cut out behind its name, up to the next quote, and decoded. -/
theorem legacyList?_of_cut (hfront : ¬ listName <:+: front) (hw : '"' ∉ w) (back : Text) :
    legacyList? (front ++ (listName ++ ':' :: '"' :: (w ++ '"' :: back))) =
      (Json.parse? ('"' :: w ++ ['"'])).bind Json.Value.raw? := by
  have hall : ∀ c ∈ w, (!"\"".toList.contains c) = true := fun c hc => by
    simpa using fun heq : c = '"' => hw (heq ▸ hc)
  have htakes : legacyShape.Takes front (listName ++ [':'] ++ ['"'] ++ w ++ ['"']) back []
      [("list", w)] :=
    ((((((takes_lit "\"adaptive_fmts\"").append_nil (takes_no_blanks rfl)).append
      (takes_lit ":")).append_nil (takes_no_blanks rfl)).append (takes_lit "\"")).append
      (takes_label "list" (takes_many hall rfl))).append (takes_lit "\"")
  obtain ⟨captures, hlabels, hfound⟩ := matchesBehind_of_takes htakes (by simp)
  have hpiece : listName ++ ':' :: '"' :: (w ++ '"' :: back) =
      listName ++ [':'] ++ ['"'] ++ w ++ ['"'] ++ back := by
    simp only [List.append_assoc, List.cons_append, List.nil_append]
  have hskip : ∀ u v, u ++ v = front → v ≠ [] → ¬ legacyShape.Begins ([] ++ u)
      (v ++ (listName ++ ':' :: '"' :: (w ++ '"' :: back))) :=
    fun u v huv hv => not_begins_in_front hfront huv hv
  have hcapture : (Cursor.after (front ++ (listName ++ [':'] ++ ['"'] ++ w ++ ['"'])) back
      captures).capture "list" = w := by
    rw [Cursor.capture, Cursor.capture?_after, hlabels]
    rfl
  rw [legacyList?, find?_eq_head?, matchesBehind_skip hskip, hpiece, List.nil_append, hfound,
    List.head?_cons]
  simp only [Option.bind_eq_bind, Option.bind_some, hcapture]

/-- A list that is embedded in a page is read back if it holds no quote, and not read at all if it
does. -/
theorem embedded_list_read_unless_quoted (hfront : ¬ listName <:+: front) (list back : Text) :
    legacyList? (listPage front list back) = if '"' ∈ list then none else some list.raw := by
  split
  · next hquote =>
    -- The cut leaves the escape of the quote without the quote, and so one that is not closed.
    obtain ⟨u, v, rfl, hu⟩ := List.eq_append_cons_of_mem hquote
    have hescaped (t : Text) : (u ++ '"' :: t).flatMap Json.writeChar =
        (u.flatMap Json.writeChar ++ ['\\']) ++ '"' :: t.flatMap Json.writeChar := by
      simp [Json.writeChar]
    have hpage : listPage front (u ++ '"' :: v) back = front ++ (listName ++ ':' :: '"' ::
        ((u.flatMap Json.writeChar ++ ['\\']) ++
          '"' :: (v.flatMap Json.writeChar ++ '"' :: back))) := by
      simp [listPage, Json.write, Json.writeText, hescaped]
    have hparse : Json.parse? ('"' :: (u.flatMap Json.writeChar ++ ['\\']) ++ ['"']) = none := by
      have hspelled := Json.spellsChars_flatMap_writeChar (u ++ ['"'])
      rw [hescaped] at hspelled
      exact Json.parse?_of_unclosed hspelled
    have hw : '"' ∉ u.flatMap Json.writeChar ++ ['\\'] :=
      List.not_mem_append (Json.quote_not_mem_flatMap_writeChar hu) (by decide)
    rw [hpage, legacyList?_of_cut hfront hw, hparse, Option.bind_none]
  · next hquote =>
    have hpage : listPage front list back = front ++ (listName ++ ':' :: '"' ::
        (list.flatMap Json.writeChar ++ '"' :: back)) := by
      simp [listPage, Json.write, Json.writeText]
    have hparse : Json.parse? ('"' :: list.flatMap Json.writeChar ++ ['"']) = some (.text list) :=
      Json.parse?_write (v := .text list) trivial
    rw [hpage, legacyList?_of_cut hfront (Json.quote_not_mem_flatMap_writeChar hquote), hparse,
      Option.bind_some, Json.Value.raw?]

/-- A list with an escaped backslash, an escaped line end and an escaped letter is read back behind
a name that is not closed. -/
theorem embedded_list_read_with_escapes :
    let front : Text := "\"adaptive_fmts".toList
    let list : Text := "itag=22\\\nü".toList
    ¬ listName <:+: front ∧
      listPage front list "\x7d".toList =
        "\"adaptive_fmts\"adaptive_fmts\":\"itag=22\\\\\\n\\u00fc\"\x7d".toList ∧
      legacyList? (listPage front list "\x7d".toList) = some list.raw := by
  intro front list
  have hfront : ¬ listName <:+: front := by decide
  exact ⟨hfront, by decide +kernel, embedded_list_read_unless_quoted hfront list "\x7d".toList⟩

/-- A list with a quote is not read. -/
theorem embedded_list_lost_behind_quote :
    let list : Text := "a\"b".toList
    listPage [] list [] = "\"adaptive_fmts\":\"a\\\"b\"".toList ∧
      legacyList? (listPage [] list []) = none := by
  decide +kernel

end Playable.Page
