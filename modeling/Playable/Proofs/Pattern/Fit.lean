import Mathlib.Tactic.Common
import Playable.Pattern.Search

/-!
# What a pattern can match

A place in a text is given by the text before it and the text behind it. A pattern fits a
piece of text if the piece has the described form. Every match fits, so a pattern that does
not fit cannot match.
-/

namespace Playable

/-- The place in a text between what stands before it and the rest. -/
def Cursor.after (before rest : Text) (captures : List (String × Capture)) : Cursor :=
  ⟨before.length, before.getLast?, rest, captures⟩

/-- A labelled part that matched a piece of text. -/
@[simp] theorem Capture.text_append (w rest : Text) : Capture.text ⟨w ++ rest, w.length⟩ = w :=
  List.take_left

/-- What the labelled parts matched, under their names, the latest first. -/
def labelled (captures : List (String × Capture)) : List (String × Text) :=
  captures.map fun entry => (entry.1, entry.2.text)

/-- What a name stands for is the latest part under it. -/
theorem Cursor.capture?_after (before rest : Text) (captures : List (String × Capture))
    (name : String) :
    (Cursor.after before rest captures).capture? name = (labelled captures).lookup name := by
  induction captures with
  | nil => rfl
  | cons entry captures ih =>
    obtain ⟨other, m⟩ := entry
    simp only [Cursor.capture?, Cursor.after, labelled, List.map_cons, List.lookup_cons] at ih ⊢
    cases name == other with
    | true => rfl
    | false => exact ih

namespace Pattern

variable {p q : Pattern} {before w u v t rest : Text} {e : Cursor} {c : Char}
  {captures captures' captures'' : List (String × Capture)}

/-- Moving over a piece of text leads to the place behind it. -/
theorem takeText_after (w : Text) :
    takeText w (Cursor.after before (w ++ rest) captures) =
      some (Cursor.after (before ++ w) rest captures) := by
  have hmatch : w.isPrefixOf (w ++ rest) = true :=
    List.isPrefixOf_iff_prefix.mpr (List.prefix_append w rest)
  simp [takeText, Cursor.after, hmatch]

/-- A piece of text that can be moved over stands there. -/
theorem eq_append_of_takeText (h : takeText w (Cursor.after before t captures) = some e) :
    ∃ rest, t = w ++ rest ∧ e = Cursor.after (before ++ w) rest captures := by
  by_cases hmatch : w.isPrefixOf t = true
  · obtain ⟨rest, rfl⟩ := List.isPrefixOf_iff_prefix.mp hmatch
    rw [takeText_after] at h
    exact ⟨rest, rfl, (Option.some.inj h).symm⟩
  · simp [takeText, Cursor.after, hmatch] at h

/-! ## Fitting -/

/-- A piece `w` of a text, between the text before it and the rest, has the form that a
pattern describes. What an earlier part matched is not compared. -/
def Fits : Pattern → Text → Text → Text → Prop
  | text t, _, w, _ => w = t
  | one p, _, w, _ => ∃ c, p c = true ∧ w = [c]
  | many p, _, w, _ => ∀ c ∈ w, p c = true
  | seq first second, before, w, rest =>
    ∃ u v, w = u ++ v ∧ first.Fits before u (v ++ rest) ∧ second.Fits (before ++ u) v rest
  | either left right, before, w, rest => left.Fits before w rest ∨ right.Fits before w rest
  | optional part, before, w, rest => part.Fits before w rest ∨ w = []
  | label _ part, before, w, rest => part.Fits before w rest
  | same _, _, _, _ => True
  | wordEdge, before, w, rest => w = [] ∧ wordAt before.getLast? ≠ wordAt rest.head?
  | notAfter p, before, w, _ => w = [] ∧ before.getLast?.any p = false
  | ahead p, _, w, rest => w = [] ∧ rest.head?.any p = true

/-- Exactly the characters of a string fit them. -/
theorem fits_lit {s : String} : (lit s).Fits before w rest ↔ w = s.toList :=
  Iff.rfl

/-- Exactly one character of a string fits their choice. -/
theorem fits_anyOf {s : String} :
    (anyOf s).Fits before w rest ↔ ∃ c, c ∈ s.toList ∧ w = [c] := by
  simp [anyOf, Fits]

/-- Every place that a repetition reaches lies behind characters of its class. -/
theorem mem_reach {p : Char → Bool} {found : List Cursor}
    (h : e ∈ reach p captures before.length before.getLast? found t) :
    e ∈ found ∨ ∃ w rest, t = w ++ rest ∧ (∀ c ∈ w, p c = true) ∧
      e = Cursor.after (before ++ w) rest captures := by
  induction t generalizing before found with
  | nil =>
    rcases List.mem_cons.mp h with rfl | h
    · exact .inr ⟨[], [], rfl, by simp, by simp [Cursor.after]⟩
    · exact .inl h
  | cons c t ih =>
    have hhere : ∀ e, e ∈ (⟨before.length, before.getLast?, c :: t, captures⟩ : Cursor) :: found →
        e ∈ found ∨ ∃ w rest, c :: t = w ++ rest ∧ (∀ c ∈ w, p c = true) ∧
          e = Cursor.after (before ++ w) rest captures := by
      intro e he
      rcases List.mem_cons.mp he with rfl | he
      · exact .inr ⟨[], c :: t, rfl, by simp, by simp [Cursor.after]⟩
      · exact .inl he
    rw [reach] at h
    split at h
    · rename_i hc
      have hstep : reach p captures (before.length + 1) (some c)
          (⟨before.length, before.getLast?, c :: t, captures⟩ :: found) t =
          reach p captures (before ++ [c]).length (before ++ [c]).getLast?
          (⟨before.length, before.getLast?, c :: t, captures⟩ :: found) t := by simp
      rw [hstep] at h
      rcases ih h with h | ⟨w, rest, rfl, hw, rfl⟩
      · exact hhere e h
      · exact .inr ⟨c :: w, rest, rfl, by simpa using ⟨hc, hw⟩, by simp⟩
    · exact hhere e h

/-- A piece `w` of a text, between the text before it and the rest, is read by a pattern: it
has the described form, and where what an earlier part matched must stand once more, it does.
The labelled parts were `labels` before and are `labels'` then. -/
def Reads : Pattern → Text → Text → Text → List (String × Text) → List (String × Text) → Prop
  | seq first second, before, w, rest, labels, labels' =>
    ∃ u v middle, w = u ++ v ∧ first.Reads before u (v ++ rest) labels middle ∧
      second.Reads (before ++ u) v rest middle labels'
  | either left right, before, w, rest, labels, labels' =>
    left.Reads before w rest labels labels' ∨ right.Reads before w rest labels labels'
  | optional part, before, w, rest, labels, labels' =>
    part.Reads before w rest labels labels' ∨ w = [] ∧ labels' = labels
  | label name part, before, w, rest, labels, labels' =>
    ∃ inner, part.Reads before w rest labels inner ∧ labels' = (name, w) :: inner
  | same name, _, w, _, labels, labels' => labels.lookup name = some w ∧ labels' = labels
  | p, before, w, rest, labels, labels' => p.Fits before w rest ∧ labels' = labels

/-- What is read fits. -/
theorem Reads.fits {labels labels' : List (String × Text)}
    (h : p.Reads before w rest labels labels') : p.Fits before w rest := by
  induction p generalizing before w rest labels labels' with
  | seq first second ihfirst ihsecond =>
    obtain ⟨u, v, _, rfl, hu, hv⟩ := h
    exact ⟨u, v, rfl, ihfirst hu, ihsecond hv⟩
  | either left right ihleft ihright => exact h.imp ihleft ihright
  | optional part ih => exact h.imp ih And.left
  | label name part ih =>
    obtain ⟨_, hpart, _⟩ := h
    exact ih hpart
  | same name => exact trivial
  | text | one | many | wordEdge | notAfter | ahead => exact h.1

/-- A given text behind another part is read as the end of the piece. -/
theorem reads_append_text {s : Text} {labels labels' : List (String × Text)} :
    (p ++ text s).Reads before w rest labels labels' ↔
      ∃ u, w = u ++ s ∧ p.Reads before u (s ++ rest) labels labels' := by
  constructor
  · rintro ⟨u, _, _, rfl, hu, rfl, rfl⟩
    exact ⟨u, rfl, hu⟩
  · rintro ⟨u, rfl, hu⟩
    exact ⟨u, s, labels', rfl, hu, rfl, rfl⟩

/-- The characters of a string behind another part are read as the end of the piece. -/
theorem reads_append_lit {s : String} {labels labels' : List (String × Text)} :
    (p ++ lit s).Reads before w rest labels labels' ↔
      ∃ u, w = u ++ s.toList ∧ p.Reads before u (s.toList ++ rest) labels labels' :=
  reads_append_text

/-- Every match reads a piece of the text, and ends behind it. -/
theorem reads_of_mem_run (h : e ∈ p.run (Cursor.after before t captures)) :
    ∃ w rest captures', t = w ++ rest ∧ e = Cursor.after (before ++ w) rest captures' ∧
      p.Reads before w rest (labelled captures) (labelled captures') := by
  induction p generalizing before t captures e with
  | text s =>
    obtain ⟨rest, rfl, rfl⟩ := eq_append_of_takeText (by simpa [run] using h)
    exact ⟨s, rest, captures, rfl, rfl, rfl, rfl⟩
  | one p =>
    cases t with
    | nil => simp [run, Cursor.after] at h
    | cons c t =>
      simp only [run, Cursor.after] at h
      split at h
      · rename_i hc
        rw [List.mem_singleton] at h
        exact ⟨[c], t, captures, rfl, by simp [h, Cursor.after], ⟨c, hc, rfl⟩, rfl⟩
      · simp at h
  | many p =>
    rcases mem_reach h with h | ⟨w, rest, rfl, hw, rfl⟩
    · simp at h
    · exact ⟨w, rest, captures, rfl, rfl, hw, rfl⟩
  | seq first second ihfirst ihsecond =>
    obtain ⟨d, hd, he⟩ := List.mem_flatMap.mp h
    obtain ⟨u, more, _, rfl, rfl, hu⟩ := ihfirst hd
    obtain ⟨v, rest, captures', rfl, rfl, hv⟩ := ihsecond he
    exact ⟨u ++ v, rest, captures', by simp, by simp, u, v, _, rfl, hu, hv⟩
  | either left right ihleft ihright =>
    rcases List.mem_append.mp h with h | h
    · obtain ⟨w, rest, captures', rfl, rfl, hw⟩ := ihleft h
      exact ⟨w, rest, captures', rfl, rfl, .inl hw⟩
    · obtain ⟨w, rest, captures', rfl, rfl, hw⟩ := ihright h
      exact ⟨w, rest, captures', rfl, rfl, .inr hw⟩
  | optional part ih =>
    rcases List.mem_append.mp h with h | h
    · obtain ⟨w, rest, captures', rfl, rfl, hw⟩ := ih h
      exact ⟨w, rest, captures', rfl, rfl, .inl hw⟩
    · rw [List.mem_singleton] at h
      exact ⟨[], t, captures, rfl, by simp [h], .inr ⟨rfl, rfl⟩⟩
  | label name part ih =>
    obtain ⟨d, hd, rfl⟩ := List.mem_map.mp h
    obtain ⟨w, rest, captures', rfl, rfl, hw⟩ := ih hd
    exact ⟨w, rest, (name, ⟨w ++ rest, (before ++ w).length - before.length⟩) :: captures', rfl,
      rfl, labelled captures', hw, by simp [labelled]⟩
  | same name =>
    simp only [run] at h
    split at h
    · simp at h
    · rename_i hcapture
      rw [Cursor.capture?_after] at hcapture
      obtain ⟨rest, rfl, rfl⟩ := eq_append_of_takeText (by simpa using h)
      exact ⟨_, rest, captures, rfl, rfl, hcapture, rfl⟩
  | wordEdge =>
    simp only [run] at h
    split at h
    · simp at h
    · rename_i hedge
      rw [List.mem_singleton] at h
      exact ⟨[], t, captures, rfl, by simp [h], ⟨rfl, hedge⟩, rfl⟩
  | notAfter p =>
    simp only [run] at h
    split at h
    · simp at h
    · rename_i hp
      rw [List.mem_singleton] at h
      exact ⟨[], t, captures, rfl, by simp [h], ⟨rfl, by simpa [Cursor.after] using hp⟩, rfl⟩
  | ahead p =>
    simp only [run] at h
    split at h
    · rename_i hp
      rw [List.mem_singleton] at h
      exact ⟨[], t, captures, rfl, by simp [h], ⟨rfl, hp⟩, rfl⟩
    · simp at h

/-- Every match fits, and ends behind the piece of text that it fits. -/
theorem fits_of_mem_run (h : e ∈ p.run (Cursor.after before t captures)) :
    ∃ w rest captures', t = w ++ rest ∧ e = Cursor.after (before ++ w) rest captures' ∧
      p.Fits before w rest := by
  obtain ⟨w, rest, captures', ht, he, hw⟩ := reads_of_mem_run h
  exact ⟨w, rest, captures', ht, he, hw.fits⟩

/-- A pattern fits at the beginning of a text. -/
def Begins (p : Pattern) (before t : Text) : Prop :=
  ∃ w rest, t = w ++ rest ∧ p.Fits before w rest

/-- A piece of text that a pattern fits is the beginning of what follows. -/
theorem Fits.begins (h : p.Fits before w rest) : p.Begins before (w ++ rest) :=
  ⟨w, rest, rfl, h⟩

/-- A pattern that does not fit at the beginning of a text has no match there. -/
theorem run_eq_nil (h : ¬ p.Begins before t) : p.run (Cursor.after before t captures) = [] := by
  refine List.eq_nil_iff_forall_not_mem.mpr fun e he => h ?_
  obtain ⟨w, rest, _, rfl, _, hw⟩ := fits_of_mem_run he
  exact ⟨w, rest, rfl, hw⟩

/-- One part and then another begin a text if the other begins what the first leaves. -/
theorem begins_append :
    (p ++ q).Begins before t ↔ ∃ u rest, t = u ++ rest ∧ p.Fits before u rest ∧
      q.Begins (before ++ u) rest := by
  constructor
  · rintro ⟨_, rest, rfl, u, v, rfl, hu, hv⟩
    exact ⟨u, v ++ rest, by simp, hu, v, rest, rfl, hv⟩
  · rintro ⟨u, _, rfl, hu, v, rest, rfl, hv⟩
    exact ⟨u ++ v, rest, by simp, u, v, rfl, hu, hv⟩

/-- The first part of a pattern that begins a text begins it. -/
theorem Begins.front (h : (p ++ q).Begins before t) : p.Begins before t := by
  obtain ⟨u, rest, rfl, hu, _⟩ := begins_append.mp h
  exact ⟨u, rest, rfl, hu⟩

end Pattern
end Playable
