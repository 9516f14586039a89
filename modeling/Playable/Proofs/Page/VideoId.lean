import Playable.Page.VideoId
import Playable.Proofs.Pattern.Capture
import Playable.Proofs.Text.Cut

/-!
# Accepted video ids

A video id is pasted into the URL of a watch page as it is, so one character more asks for another
page. What is read from a URL, or from a bare text with blanks around it, always is a video id. A
text that is expected to be a video id is taken as it stands, and a line end behind the id is taken
with it.
-/

namespace Playable.Page

open Pattern

/-- A letter, a digit, an underscore or a hyphen. -/
def IsIdLetter (c : Char) : Prop :=
  ('0' ≤ c ∧ c ≤ '9') ∨ ('A' ≤ c ∧ c ≤ 'Z') ∨ ('a' ≤ c ∧ c ≤ 'z') ∨ c = '_' ∨ c = '-'

/-- Eleven letters, digits, underscores and hyphens. -/
structure IsVideoId (t : Text) : Prop where
  /-- There are eleven characters. -/
  length_eq : t.length = 11
  /-- Each of them is allowed. -/
  letters : ∀ c ∈ t, IsIdLetter c

variable {t before w rest : Text} {c : Char} {e : Cursor} {n : Nat} {p : Char → Bool}

/-- The characters of a video id are recognised. -/
theorem isIdChar_iff : isIdChar c = true ↔ IsIdLetter c := by
  change ((decide ('A' ≤ c ∧ c ≤ 'Z') || (decide ('a' ≤ c) && decide (c ≤ 'z'))) ||
    (decide ('0' ≤ c) && decide (c ≤ '9')) || decide (c = '_') || decide (c = '-')) = true ↔ _
  simp only [Bool.or_eq_true, Bool.and_eq_true, decide_eq_true_eq, IsIdLetter]
  tauto

/-- A video id consists of as many recognised characters as are asked for. -/
theorem isVideoId_iff : IsVideoId t ↔ t.length = idLength ∧ ∀ c ∈ t, isIdChar c = true :=
  ⟨fun h => ⟨h.length_eq, fun c hc => isIdChar_iff.mpr (h.letters c hc)⟩,
    fun ⟨hlength, hall⟩ => ⟨hlength, fun c hc => isIdChar_iff.mp (hall c hc)⟩⟩

/-- As many characters of a class fit as are asked for. -/
theorem fits_times : (times n p).Fits before w rest ↔ w.length = n ∧ ∀ c ∈ w, p c = true := by
  induction n generalizing before w with
  | zero =>
    refine ⟨?_, fun h => List.length_eq_zero_iff.mp h.1⟩
    rintro rfl
    exact ⟨rfl, nofun⟩
  | succ n ih =>
    constructor
    · rintro ⟨u, v, rfl, ⟨c, hc, rfl⟩, hv⟩
      obtain ⟨hlength, hall⟩ := ih.mp hv
      exact ⟨by simp [hlength], List.forall_mem_cons.mpr ⟨hc, hall⟩⟩
    · rintro ⟨hlength, hall⟩
      obtain ⟨c, v, rfl⟩ := List.exists_cons_of_length_eq_add_one hlength
      obtain ⟨hc, hmore⟩ := List.forall_mem_cons.mp hall
      exact ⟨[c], v, rfl, ⟨c, hc, rfl⟩, ih.mpr ⟨Nat.succ.inj hlength, hmore⟩⟩

/-- What fits the form of a video id is one. -/
theorem isVideoId_of_fits (h : (times idLength isIdChar).Fits before w rest) : IsVideoId w :=
  isVideoId_iff.mpr (fits_times.mp h)

/-- A bare video id is one, perhaps with a line end behind it. -/
theorem isBareId_iff : isBareId t = true ↔
    IsVideoId t ∨ ∃ bare, IsVideoId bare ∧ t = bare ++ ['\n'] := by
  simp only [isBareId, List.splitAt_eq, Bool.and_eq_true, Bool.or_eq_true, decide_eq_true_eq,
    List.all_eq_true, ← isVideoId_iff]
  constructor
  · rintro ⟨hbare, hend | hend⟩
    · rw [← List.take_append_drop idLength t, hend, List.append_nil]
      exact .inl hbare
    · refine .inr ⟨_, hbare, ?_⟩
      rw [← hend, List.take_append_drop]
  · rintro (h | ⟨bare, h, rfl⟩)
    · have hlength : t.length ≤ idLength := Nat.le_of_eq h.length_eq
      rw [List.take_of_length_le hlength, List.drop_of_length_le hlength]
      exact ⟨h, .inl rfl⟩
    · have hlength : bare.length = idLength := h.length_eq
      rw [← hlength, List.take_left, List.drop_left]
      exact ⟨h, .inr rfl⟩

/-- What is found behind a mark in a URL is a video id. -/
theorem isVideoId_of_mem_findAll {marks : List String} (h : e ∈ (idBehind marks).findAll t) :
    IsVideoId (e.capture "id") := by
  obtain ⟨u, v, rfl, he⟩ := @exists_run_of_mem_findAllFrom _ [] t e 0 h
  obtain ⟨w, rest, captures, -, rfl, hreads⟩ := reads_of_mem_run he
  obtain ⟨front, id, labels, -, -, inner, hid, hlabels⟩ := hreads
  rw [Cursor.capture, Cursor.capture?_after, hlabels, List.lookup_cons_self]
  exact isVideoId_of_fits hid.fits

/-- Without the blanks around it, no text ends with a line end. -/
theorem strip_ne_append_newline (t u : Text) : Text.strip t ≠ u ++ ['\n'] := by
  intro h
  have hlast := Text.getLast?_trim Text.isBlank t
  rw [← Text.strip, h, List.getLast?_concat] at hlast
  exact absurd hlast (by decide)

/-- Whatever is read from a URL is a video id. -/
theorem isVideoId_of_videoIdOf {id : Text} (h : videoIdOf t = .ok id) : IsVideoId id := by
  rw [videoIdOf] at h
  split at h
  · next hbare =>
    obtain rfl := Except.ok.inj h
    refine (isBareId_iff.mp hbare).resolve_right ?_
    rintro ⟨bare, -, hend⟩
    exact strip_ne_append_newline t bare hend
  · split at h
    · next m hfound =>
      obtain rfl := Except.ok.inj h
      obtain ⟨shape, hshape, hm⟩ := List.exists_of_findSome?_eq_some hfound
      rw [find?_eq_head?, ← findAll_eq] at hm
      have hmem := List.mem_of_mem_head? hm
      obtain rfl | rfl : shape = _ ∨ shape = _ := by simpa [idShapes] using hshape
      · exact isVideoId_of_mem_findAll hmem
      · exact isVideoId_of_mem_findAll hmem
    · cases h

/-- Every id that is accepted from a URL is a video id. A bare text is accepted, and kept as it is,
exactly if it is a video id or one with a line end behind it. -/
theorem accepted_ids_up_to_line_end (t : Text) :
    (∀ id, videoIdOf t = .ok id → IsVideoId id) ∧
      ∀ id, checkVideoId t = .ok id ↔
        id = t ∧ (IsVideoId t ∨ ∃ bare, IsVideoId bare ∧ t = bare ++ ['\n']) := by
  refine ⟨fun id => isVideoId_of_videoIdOf, fun id => ?_⟩
  rw [checkVideoId, ← isBareId_iff]
  split
  · next hbare => simp [hbare, eq_comm]
  · next hbare => simp [hbare]

/-- An id from the URL of a short video, and a bare id. -/
theorem accepted_ids_of_short_url :
    let url : Text := "https://youtu.be/a-b_C9d0efg?t=1".toList
    let id : Text := "a-b_C9d0efg".toList
    videoIdOf url = .ok id ∧ IsVideoId id ∧ checkVideoId id = .ok id := by
  intro url id
  have hurl : videoIdOf url = .ok id := by decide +kernel
  have hid : IsVideoId id := (accepted_ids_up_to_line_end url).1 id hurl
  exact ⟨hurl, hid, ((accepted_ids_up_to_line_end id).2 id).mpr ⟨rfl, .inl hid⟩⟩

/-- A bare text with a line end behind eleven letters is accepted with the line end, and is no
video id. -/
theorem line_end_accepted :
    let t : Text := "abcdefghijk\n".toList
    checkVideoId t = .ok t ∧ ¬ IsVideoId t := by
  intro t
  exact ⟨by decide, fun h => absurd h.length_eq (by decide)⟩

end Playable.Page
