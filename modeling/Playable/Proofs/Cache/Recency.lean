import Playable.Proofs.Cache.Request
import Playable.Proofs.Register

/-!
# What is forgotten, and when

Both registers of a cache are ordered, and only what is entered or moved behind a name
can push it out. So as long as a name is kept, everything behind it is recent, and
once it is gone a whole capacity of recent names has taken its place. Followed along a
history, this bounds how soon the extractor can run for a version again.
-/

namespace Playable.Cache

open Cipher Script

variable {α : Type} {capacity : Nat} {r : Register α} {name other : Text} {value value' : α}
  {Recent Recent' : Text → Prop}

/-- At least as many different names as the capacity, none of them the given one, are
recent. -/
def CrowdedOut (capacity : Nat) (name : Text) (Recent : Text → Prop) : Prop :=
  ∃ others : List Text, others.Nodup ∧ capacity ≤ others.length ∧
    ∀ o ∈ others, o ≠ name ∧ Recent o

/-- A name is kept in a register with only recent names behind it, or a whole capacity
of recent names has crowded it out. -/
def Follows (capacity : Nat) (r : Register α) (name : Text) (Recent : Text → Prop) : Prop :=
  (∃ front value back, r = front ++ (name, value) :: back ∧ ∀ o ∈ Register.names back, Recent o) ∨
    CrowdedOut capacity name Recent

/-- More names may be recent. -/
theorem CrowdedOut.mono (h : CrowdedOut capacity name Recent) (hr : ∀ o, Recent o → Recent' o) :
    CrowdedOut capacity name Recent' := by
  obtain ⟨others, hnodup, hlength, hothers⟩ := h
  exact ⟨others, hnodup, hlength, fun o ho => ⟨(hothers o ho).1, hr o (hothers o ho).2⟩⟩

/-- More names may be recent. -/
theorem Follows.mono (h : Follows capacity r name Recent) (hr : ∀ o, Recent o → Recent' o) :
    Follows capacity r name Recent' := by
  rcases h with ⟨front, value, back, rfl, hback⟩ | h
  · exact .inl ⟨front, value, back, rfl, fun o ho => hr o (hback o ho)⟩
  · exact .inr (h.mono hr)

/-- A name without a value has been crowded out. -/
theorem Follows.crowdedOut (h : Follows capacity r name Recent)
    (hnone : Register.get? r name = none) : CrowdedOut capacity name Recent := by
  rcases h with ⟨front, value, back, rfl, _⟩ | h
  · exact absurd (by simp) (Register.get?_eq_none_iff.mp hnone)
  · exact h

/-- A name at the end is followed by nothing. -/
theorem follows_of_last (front : Register α) :
    Follows capacity (front ++ [(name, value)]) name Recent :=
  .inl ⟨front, value, [], rfl, by simp⟩

/-- Moving a name to the end keeps the other names. -/
theorem mem_names_touch (h : name ∈ Register.names r) :
    name ∈ Register.names (touch r other value') := by
  rw [touch, Register.names_append, Register.names_erase, List.mem_append, List.mem_filter]
  by_cases heq : name = other
  · exact .inr (by simp [heq])
  · exact .inl ⟨h, by simpa using heq⟩

/-- Moving a name to the end keeps the names different from each other. -/
theorem nodup_touch (h : (Register.names r).Nodup) :
    (Register.names (touch r name value)).Nodup := by
  rw [touch, Register.names_append, Register.names_erase, List.nodup_append]
  refine ⟨h.filter _, List.nodup_singleton _, ?_⟩
  intro a ha b hb
  simp only [Register.names_cons, Register.names_nil, List.mem_singleton] at hb
  simpa [hb] using (List.mem_filter.mp ha).2

/-- A new name behind a register is different from the others. -/
theorem nodup_append_new (value : α) (h : (Register.names r).Nodup)
    (hnew : name ∉ Register.names r) :
    (Register.names (r ++ [(name, value)])).Nodup := by
  rw [Register.names_append, List.nodup_append]
  refine ⟨h, List.nodup_singleton _, ?_⟩
  intro a ha b hb hab
  simp only [Register.names_cons, Register.names_nil, List.mem_singleton] at hb
  exact hnew (hb ▸ hab ▸ ha)

/-- Entering a name keeps the names different from each other. -/
theorem nodup_remember (h : (Register.names r).Nodup) :
    (Register.names (remember capacity r name value)).Nodup :=
  ((List.drop_sublist _ _).map _).nodup (Register.nodup_set h)

/-- A name that is not crowded out stands in a register within the capacity. -/
theorem length_le_of_not_crowdedOut (hnodup : (Register.names r).Nodup)
    (hrecent : ∀ o ∈ Register.names r, Recent o) (hmem : name ∈ Register.names r)
    (h : ¬ CrowdedOut capacity name Recent) : r.length ≤ capacity := by
  refine Nat.le_of_not_lt fun hless => h ⟨(Register.names r).erase name, hnodup.erase name, ?_, ?_⟩
  · rw [List.length_erase_of_mem hmem, Register.names, List.length_map]
    omega
  · intro o ho
    exact ⟨((List.Nodup.mem_erase_iff hnodup).mp ho).1, hrecent o (List.mem_of_mem_erase ho)⟩

/-- A name that is not crowded out is kept when another value is entered. -/
theorem mem_remember_of_not_crowdedOut (hnodup : (Register.names r).Nodup)
    (hrecent : ∀ o ∈ Register.names r, Recent o) (hother : Recent other)
    (hmem : name ∈ Register.names r ∨ name = other) (h : ¬ CrowdedOut capacity name Recent) :
    name ∈ Register.names (remember capacity r other value) := by
  have hset : ∀ o, o ∈ Register.names (Register.set r other value) ↔
      o ∈ Register.names r ∨ o = other := by
    intro o
    rw [Register.names_set]
    split
    · next hold => exact ⟨.inl, fun ho => ho.elim id fun heq => heq ▸ hold⟩
    · simp
  have hlength := length_le_of_not_crowdedOut (Register.nodup_set hnodup)
    (fun o ho => ((hset o).mp ho).elim (hrecent o) fun heq => heq ▸ hother) ((hset name).mpr hmem) h
  rw [remember, Nat.sub_eq_zero_of_le hlength, List.drop_zero]
  exact (hset name).mpr hmem

/-- Moving another name to the end makes that name recent. -/
theorem Follows.touch (h : Follows capacity r name Recent) (hne : other ≠ name) :
    Follows capacity (touch r other value') name fun o => Recent o ∨ o = other := by
  rcases h with ⟨front, value, back, rfl, hback⟩ | h
  · refine .inl ⟨Register.erase front other, value, Register.erase back other ++ [(other, value')],
      ?_, ?_⟩
    · rw [Cache.touch, Register.erase_append, Register.erase_cons_of_ne (Ne.symm hne)]
      simp
    · intro o ho
      simp only [Register.names_append, Register.names_erase, Register.names_cons,
        Register.names_nil, List.mem_append, List.mem_filter, List.mem_singleton] at ho
      exact ho.imp (fun ho => hback o ho.1) id
  · exact .inr (h.mono fun o ho => .inl ho)

/-- Entering another name makes that name recent. If this pushes the name out, the names
that were behind it and the new one fill the capacity. -/
theorem Follows.remember (h : Follows capacity r name Recent) (hnodup : (Register.names r).Nodup)
    (hnew : other ∉ Register.names r) :
    Follows capacity (remember capacity r other value') name fun o => Recent o ∨ o = other := by
  rcases h with ⟨front, value, back, rfl, hback⟩ | h
  · rw [Cache.remember, Register.set_of_not_mem hnew]
    have hlength : (front ++ (name, value) :: back ++ [(other, value')]).length =
        front.length + back.length + 2 := by simp; omega
    simp only [hlength]
    by_cases hkept : front.length + back.length + 2 - capacity ≤ front.length
    · refine .inl ⟨front.drop (front.length + back.length + 2 - capacity), value,
        back ++ [(other, value')], ?_, ?_⟩
      · rw [List.append_assoc, List.drop_append_of_le_length hkept]
        rfl
      · intro o ho
        simp only [Register.names_append, Register.names_cons, Register.names_nil,
          List.mem_append, List.mem_singleton] at ho
        exact ho.imp (hback o) id
    · -- the cut lies behind the name, so what is left is a part of what is listed here
      have hall := nodup_append_new value' hnodup hnew
      rw [List.append_assoc, Register.names_append, List.cons_append, Register.names_cons] at hall
      obtain ⟨hnotin, hothers⟩ := List.nodup_cons.mp (List.nodup_append.mp hall).2.1
      refine .inr ⟨Register.names (back ++ [(other, value')]), hothers, ?_, ?_⟩
      · simp only [Register.names, List.length_map, List.length_append, List.length_cons,
          List.length_nil]
        omega
      · intro o ho
        refine ⟨fun he => hnotin (he ▸ ho), ?_⟩
        simp only [Register.names_append, Register.names_cons, Register.names_nil,
          List.mem_append, List.mem_singleton] at ho
        exact ho.imp (hback o) id
  · exact .inr (h.mono fun o ho => .inl ho)

/-- A name that is entered is kept. -/
theorem follows_remember_self (hcapacity : 0 < capacity) (hnew : name ∉ Register.names r) :
    Follows capacity (remember capacity r name value) name Recent := by
  rw [remember, Register.set_of_not_mem hnew, List.drop_append_of_le_length (by simp; omega)]
  exact follows_of_last _

end Playable.Cache
