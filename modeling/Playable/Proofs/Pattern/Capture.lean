import Playable.Proofs.Pattern.Take

/-!
# What labelled parts hold

What a search finds was matched at some place of the text, and what is remembered under a
label was fitted by a part with this label. So a property of everything that these parts fit
is a property of everything that is captured under the label.
-/

namespace Playable.Pattern

variable {p : Pattern} {name : String} {P : Text → Prop} {before t w : Text} {e : Cursor}
  {captures : List (String × Capture)}

/-- Whatever is fitted by a part under a label has a property. -/
def Labels (name : String) (P : Text → Prop) : Pattern → Prop
  | seq first second => Labels name P first ∧ Labels name P second
  | either left right => Labels name P left ∧ Labels name P right
  | optional part => Labels name P part
  | label other part =>
    (other = name → ∀ before w rest, part.Fits before w rest → P w) ∧ Labels name P part
  | _ => True

/-- A match adds only captures with the property under the label. -/
theorem captures_of_mem_run (hp : p.Labels name P)
    (h : e ∈ p.run (Cursor.after before t captures))
    (hbefore : ∀ w, (name, w) ∈ labelled captures → P w) :
    ∀ w, (name, w) ∈ labelled e.captures → P w := by
  induction p generalizing before t captures e with
  | text s =>
    obtain ⟨rest, rfl, rfl⟩ := eq_append_of_takeText (by simpa [run] using h)
    exact hbefore
  | one p =>
    cases t with
    | nil => simp [run, Cursor.after] at h
    | cons c t =>
      simp only [run, Cursor.after] at h
      split at h
      · rw [List.mem_singleton.mp h]
        exact hbefore
      · simp at h
  | many p =>
    rcases mem_reach h with h | ⟨u, rest, rfl, _, rfl⟩
    · simp at h
    · exact hbefore
  | seq first second ihfirst ihsecond =>
    obtain ⟨d, hd, he⟩ := List.mem_flatMap.mp h
    have hbetween := ihfirst hp.1 hd hbefore
    obtain ⟨u, rest, captures', rfl, rfl, -⟩ := fits_of_mem_run hd
    exact ihsecond hp.2 he hbetween
  | either left right ihleft ihright =>
    exact (List.mem_append.mp h).elim (ihleft hp.1 · hbefore) (ihright hp.2 · hbefore)
  | optional part ih =>
    rcases List.mem_append.mp h with h | h
    · exact ih hp h hbefore
    · rw [List.mem_singleton.mp h]
      exact hbefore
  | label other part ih =>
    obtain ⟨d, hd, rfl⟩ := List.mem_map.mp h
    have hpart := ih hp.2 hd hbefore
    obtain ⟨u, rest, captures', rfl, rfl, hu⟩ := fits_of_mem_run hd
    intro w hw
    rcases List.mem_cons.mp hw with hw | hw
    · obtain ⟨hname, hcaptured⟩ := Prod.mk.inj hw
      have htext : Capture.text ⟨u ++ rest, (before ++ u).length - before.length⟩ = u := by
        rw [List.length_append, Nat.add_sub_cancel_left, Capture.text_append]
      rw [show w = u from hcaptured.trans htext]
      exact hp.1 hname.symm before u rest hu
    · exact hpart w hw
  | same other =>
    simp only [run] at h
    split at h
    · simp at h
    · obtain ⟨rest, rfl, rfl⟩ := eq_append_of_takeText (by simpa using h)
      exact hbefore
  | wordEdge =>
    simp only [run] at h
    split at h
    · simp at h
    · rw [List.mem_singleton.mp h]
      exact hbefore
  | notAfter p =>
    simp only [run] at h
    split at h
    · simp at h
    · rw [List.mem_singleton.mp h]
      exact hbefore
  | ahead p =>
    simp only [run] at h
    split at h
    · rw [List.mem_singleton.mp h]
      exact hbefore
    · simp at h

/-- What a search finds was matched at a place of the text. -/
theorem exists_run_of_mem_findAllFrom {resume : Nat}
    (h : e ∈ findAllFrom p resume before.length before.getLast? t) :
    ∃ u v, t = u ++ v ∧ e ∈ p.run (Cursor.after (before ++ u) v []) := by
  induction t generalizing before resume with
  | nil =>
    rw [findAllFrom] at h
    split at h
    · simp at h
    · refine ⟨[], [], rfl, ?_⟩
      rw [List.append_nil]
      exact List.mem_of_mem_head? (Option.mem_toList.mp h)
  | cons c t ih =>
    have hlater {resume : Nat} : e ∈ findAllFrom p resume (before.length + 1) (some c) t →
        ∃ u v, c :: t = u ++ v ∧ e ∈ p.run (Cursor.after (before ++ u) v []) := by
      intro h
      have hstep := @ih (before ++ [c]) resume
      rw [List.length_append, List.length_singleton, List.getLast?_concat] at hstep
      obtain ⟨u, v, rfl, he⟩ := hstep h
      exact ⟨c :: u, v, rfl, by simpa using he⟩
    rw [findAllFrom] at h
    split at h
    · exact hlater h
    · split at h
      · rename_i m hm
        rcases List.mem_cons.mp h with rfl | h
        · refine ⟨[], c :: t, rfl, ?_⟩
          rw [List.append_nil]
          exact List.mem_of_mem_head? hm
        · exact hlater h
      · exact hlater h

/-- What a search captures under a label has the property of the parts with this label. -/
theorem capture_of_mem_findAll (hp : p.Labels name P) (h : e ∈ p.findAll t)
    (hw : e.capture? name = some w) : P w := by
  obtain ⟨u, v, rfl, he⟩ := @exists_run_of_mem_findAllFrom p [] t e 0 h
  have hcaptured := captures_of_mem_run hp he (fun w hw => absurd hw List.not_mem_nil)
  obtain ⟨x, rest, captures, -, rfl, -⟩ := fits_of_mem_run he
  rw [Cursor.capture?_after] at hw
  obtain ⟨front, back, hlabelled, -⟩ := List.lookup_eq_some_iff.mp hw
  exact hcaptured w (by simp [Cursor.after, hlabelled])

end Playable.Pattern
