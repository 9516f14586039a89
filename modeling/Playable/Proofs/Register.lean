import Mathlib.Data.List.Induction
import Mathlib.Data.List.Nodup
import Mathlib.Tactic.Common
import Playable.Register

/-!
# Looking names up in a register

A register is read through its list of names: a name has a value if and only if it
is among them. Entering a new name appends it, and taking a name out leaves the
others in their order.
-/

namespace Playable.Register

variable {α : Type} {r s : Register α} {name other : Text} {value : α}

/-- The names of two registers one behind the other. -/
@[simp] theorem names_append : names (r ++ s) = names r ++ names s :=
  List.map_append

/-- The first name of a register. -/
@[simp] theorem names_cons {entry : Text × α} : names (entry :: r) = entry.1 :: names r :=
  rfl

/-- The empty register has no names. -/
@[simp] theorem names_nil : names ([] : Register α) = [] :=
  rfl

/-- Exactly the names that are not entered have no value. -/
theorem get?_eq_none_iff : get? r name = none ↔ name ∉ names r := by
  simp only [get?, names, Option.map_eq_none_iff, List.find?_eq_none, decide_eq_true_eq,
    List.mem_map, not_exists, not_and]

/-- A name is entered exactly if it stands with some value. -/
theorem mem_names_iff : name ∈ names r ↔ ∃ value, (name, value) ∈ r := by
  simp [names]

/-- A name is looked up in front first. -/
theorem get?_cons (entry : Text × α) (r : Register α) (name : Text) :
    get? (entry :: r) name = if entry.1 = name then some entry.2 else get? r name := by
  by_cases h : entry.1 = name <;> simp [get?, h]

/-- A name that stands in front of a register has its value there. -/
theorem get?_cons_self (r : Register α) (name : Text) (value : α) :
    get? ((name, value) :: r) name = some value := by
  rw [get?_cons, if_pos rfl]

/-- A name that does not stand in front is looked up behind. -/
theorem get?_cons_of_ne {entry : Text × α} (r : Register α) (h : entry.1 ≠ name) :
    get? (entry :: r) name = get? r name := by
  rw [get?_cons, if_neg h]

/-- The first of two registers that has a value for a name decides. -/
theorem get?_append (r s : Register α) (name : Text) :
    get? (r ++ s) name = (get? r name).or (get? s name) := by
  simp only [get?, List.find?_append, Option.map_or]

/-- A name that is not entered in a register is looked up in what stands behind it. -/
theorem get?_append_of_not_mem (h : name ∉ names r) : get? (r ++ s) name = get? s name := by
  rw [get?_append, get?_eq_none_iff.mpr h]
  rfl

/-- An entry of a register without repeated names is found. -/
theorem get?_of_mem (hnodup : (names r).Nodup) (h : (name, value) ∈ r) :
    get? r name = some value := by
  induction r with
  | nil => cases h
  | cons entry r ih =>
    obtain ⟨hnew, htail⟩ := List.nodup_cons.mp hnodup
    rcases List.mem_cons.mp h with rfl | h
    · exact get?_cons_self r name value
    · have hne : entry.1 ≠ name := by
        rintro rfl
        exact hnew (List.mem_map.mpr ⟨_, h, rfl⟩)
      rw [get?_cons_of_ne r hne, ih htail h]

/-- What is found under a name is entered there. -/
theorem mem_of_get? (h : get? r name = some value) : (name, value) ∈ r := by
  obtain ⟨entry, hfound, rfl⟩ := Option.map_eq_some_iff.mp h
  have hname : entry.1 = name := by simpa using List.find?_some hfound
  exact hname ▸ List.mem_of_find?_eq_some hfound

/-- A register without repeated names can be entered in any order. -/
theorem get?_perm (hnodup : (names r).Nodup) (h : r.Perm s) (name : Text) :
    get? r name = get? s name := by
  have hnodup' : (names s).Nodup := (h.map _).nodup_iff.mp hnodup
  refine Option.ext fun value => ⟨fun hvalue => ?_, fun hvalue => ?_⟩
  · exact get?_of_mem hnodup' (h.mem_iff.mp (mem_of_get? hvalue))
  · exact get?_of_mem hnodup (h.mem_iff.mpr (mem_of_get? hvalue))

/-- Exactly the entered names are found. -/
theorem has_eq_true_iff : has r name = true ↔ name ∈ names r := by
  simp only [has, names, List.any_eq_true, decide_eq_true_eq, List.mem_map]

/-- A name is entered exactly if it has a value. -/
theorem has_eq_isSome (r : Register α) (name : Text) : has r name = (get? r name).isSome := by
  rw [Bool.eq_iff_iff, has_eq_true_iff, Option.isSome_iff_ne_none, ne_eq, get?_eq_none_iff,
    not_not]

/-- Entering a value brings in no other entry. -/
theorem mem_set {entry : Text × α} (h : entry ∈ set r name value) :
    entry ∈ r ∨ entry = (name, value) := by
  rw [set] at h
  split at h
  · obtain ⟨old, hold, rfl⟩ := List.mem_map.mp h
    split
    · exact .inr rfl
    · exact .inl hold
  · exact (List.mem_append.mp h).imp_right List.mem_singleton.mp

/-- What is found after entering values one after the other was there before, or was entered. -/
theorem mem_foldl_set {pairs : Register α} {entry : Text × α}
    (h : entry ∈ pairs.foldl (fun r entry => set r entry.1 entry.2) r) :
    entry ∈ r ∨ entry ∈ pairs := by
  induction pairs generalizing r with
  | nil => exact .inl h
  | cons first pairs ih =>
    rcases ih h with h | h
    · rcases mem_set h with h | rfl
      · exact .inl h
      · exact .inr List.mem_cons_self
    · exact .inr (List.mem_cons_of_mem first h)

/-- A register holds nothing but what was entered. -/
theorem mem_ofPairs {pairs : Register α} {entry : Text × α} (h : entry ∈ ofPairs pairs) :
    entry ∈ pairs :=
  (mem_foldl_set h).resolve_left List.not_mem_nil

/-- Entering a new name appends it. -/
theorem set_of_not_mem (h : name ∉ names r) : set r name value = r ++ [(name, value)] := by
  have hnot : ¬ (has r name = true) := fun hhas => h (has_eq_true_iff.mp hhas)
  rw [set, if_neg hnot]

/-- Replacing the value of a name in its place changes nothing under another name. -/
theorem get?_replace (r : Register α) (name other : Text) (value : α) :
    get? (r.map fun entry => if entry.1 = name then (name, value) else entry) other =
      if name = other then (get? r name).map fun _ => value else get? r other := by
  induction r with
  | nil => simp [get?]
  | cons entry r ih =>
    rw [List.map_cons, get?_cons, ih, get?_cons, get?_cons]
    by_cases hentry : entry.1 = name
    · rw [if_pos hentry, if_pos hentry, hentry]
      split <;> rfl
    · rw [if_neg hentry, if_neg hentry]
      by_cases hother : name = other
      · rw [if_pos hother, if_pos hother, if_neg (hother ▸ hentry)]
      · rw [if_neg hother, if_neg hother]

/-- Entering a value changes what is found under its name, and nothing else. -/
theorem get?_set (r : Register α) (name other : Text) (value : α) :
    get? (set r name value) other = if name = other then some value else get? r other := by
  by_cases hname : name ∈ names r
  · rw [set, if_pos (has_eq_true_iff.mpr hname), get?_replace]
    obtain ⟨old, hold⟩ := Option.ne_none_iff_exists'.mp fun hnone =>
      get?_eq_none_iff.mp hnone hname
    rw [hold]
    rfl
  · by_cases hother : name = other
    · subst hother
      rw [set_of_not_mem hname, get?_append_of_not_mem hname, get?_cons_self, if_pos rfl]
    · rw [set_of_not_mem hname, get?_append, get?_cons_of_ne _ hother, if_neg hother]
      exact Option.or_none

/-- Of the values that are entered for a name, the latest one counts. -/
theorem get?_ofPairs (pairs : Register α) (name : Text) :
    get? (ofPairs pairs) name = get? pairs.reverse name := by
  have hall : ∀ r : Register α, get? (pairs.foldl (fun r entry => set r entry.1 entry.2) r) name =
      (get? pairs.reverse name).or (get? r name) := by
    induction pairs with
    | nil => exact fun r => rfl
    | cons entry pairs ih =>
      intro r
      rw [List.foldl_cons, ih, get?_set, List.reverse_cons, get?_append, Option.or_assoc]
      by_cases hname : entry.1 = name
      · rw [if_pos hname]
        simp [get?, hname]
      · rw [if_neg hname, get?_cons_of_ne _ hname]
        rfl
  rw [ofPairs, hall]
  exact Option.or_none

/-- A name with one value in all of its entries has this value. -/
theorem get?_of_forall (h : ∀ other, (name, other) ∈ r → other = value) (hname : name ∈ names r) :
    get? r name = some value := by
  obtain ⟨found, hfound⟩ := Option.ne_none_iff_exists'.mp fun hnone =>
    get?_eq_none_iff.mp hnone hname
  rw [hfound, h found (mem_of_get? hfound)]

/-- Where names are not repeated, an entry has a new name. -/
theorem not_mem_of_nodup {entry : Text × α} (h : (names (r ++ entry :: s)).Nodup) :
    entry.1 ∉ names r := by
  rw [names_append, names_cons] at h
  intro hmem
  exact (List.nodup_append.mp h).2.2 _ hmem _ List.mem_cons_self rfl

/-- Entering new names one after the other appends them. -/
theorem foldl_set_of_nodup {pairs : Register α} (h : (names (r ++ pairs)).Nodup) :
    pairs.foldl (fun r entry => set r entry.1 entry.2) r = r ++ pairs := by
  induction pairs generalizing r with
  | nil => simp
  | cons entry pairs ih =>
    have hsplit : r ++ entry :: pairs = r ++ [(entry.1, entry.2)] ++ pairs := by simp
    rw [List.foldl_cons, set_of_not_mem (not_mem_of_nodup h), ih (by rwa [← hsplit]), hsplit]

/-- Values under different names make up a register as they are. -/
theorem ofPairs_of_nodup {pairs : Register α} (h : (names pairs).Nodup) :
    ofPairs pairs = pairs :=
  foldl_set_of_nodup (r := []) h

/-- Entering a value adds its name at the end if it is new. -/
theorem names_set (r : Register α) (name : Text) (value : α) :
    names (set r name value) = if name ∈ names r then names r else names r ++ [name] := by
  by_cases hname : name ∈ names r
  · rw [set, if_pos (has_eq_true_iff.mpr hname), if_pos hname, names, List.map_map, names]
    refine List.map_congr_left fun entry _ => ?_
    by_cases hentry : entry.1 = name <;> simp [hentry]
  · rw [set_of_not_mem hname, if_neg hname, names_append, names_cons, names_nil]

/-- The names of a register stand in the order in which they were first entered. -/
theorem names_ofPairs (pairs : Register α) : names (ofPairs pairs) = (names pairs).eraseDups := by
  induction pairs using List.reverseRecOn with
  | nil => rfl
  | append_singleton pairs entry ih =>
    have hset : ofPairs (pairs ++ [entry]) = set (ofPairs pairs) entry.1 entry.2 :=
      List.foldl_concat ..
    rw [hset, names_set, ih, names_append, List.eraseDups_append]
    by_cases hmem : entry.1 ∈ names pairs <;> simp [List.cons_removeAll, List.eraseDups_cons, hmem]

/-- Entering a value keeps the names different from each other. -/
theorem nodup_set (h : (names r).Nodup) : (names (set r name value)).Nodup := by
  rw [names_set]
  split
  · exact h
  · rename_i hnew
    rw [← List.concat_eq_append]
    exact h.concat hnew

/-- No name is entered twice. -/
theorem nodup_ofPairs (pairs : Register α) : (names (ofPairs pairs)).Nodup := by
  induction pairs using List.reverseRecOn with
  | nil => exact List.nodup_nil
  | append_singleton pairs entry ih =>
    rw [ofPairs, List.foldl_concat]
    exact nodup_set ih

/-- A register without repeated names is the list of its names with their values. -/
theorem eq_map_names {f : Text → α} (hnodup : (names r).Nodup)
    (h : ∀ name ∈ names r, get? r name = some (f name)) :
    r = (names r).map fun name => (name, f name) := by
  rw [names, List.map_map]
  refine (List.map_id r).symm.trans (List.map_congr_left fun entry hentry => ?_)
  have hvalue : get? r entry.1 = some entry.2 := get?_of_mem hnodup hentry
  have hname : entry.1 ∈ names r := List.mem_map_of_mem hentry
  exact Prod.ext rfl (Option.some.inj (hvalue.symm.trans (h _ hname)))

/-- The values that are there. -/
def present (r : Register (Option α)) : Register α :=
  r.filterMap fun entry => entry.2.map (entry.1, ·)

/-- The names of the values that are there keep their order. -/
theorem names_present_sublist (r : Register (Option α)) :
    (names (present r)).Sublist (names r) := by
  induction r with
  | nil => exact .slnil
  | cons entry r ih =>
    obtain ⟨name, value⟩ := entry
    cases value with
    | none => exact ih.cons name
    | some value => exact ih.cons_cons name

/-- A value that is there is found under its name. -/
theorem get?_present {r : Register (Option α)} (hnodup : (names r).Nodup) (name : Text) :
    get? (present r) name = (get? r name).join := by
  induction r with
  | nil => rfl
  | cons entry r ih =>
    obtain ⟨other, value⟩ := entry
    obtain ⟨hnew, hmore⟩ := List.nodup_cons.mp hnodup
    have hnone (hname : other = name) : get? (present r) name = none :=
      get?_eq_none_iff.mpr fun hmem => hnew (hname ▸ (names_present_sublist r).subset hmem)
    rw [get?_cons]
    cases value with
    | none =>
      change get? (present r) name = _
      split
      · exact hnone ‹_›
      · exact ih hmore
    | some value =>
      change get? ((other, value) :: present r) name = _
      rw [get?_cons]
      split
      · rfl
      · exact ih hmore

/-- Changing all values changes what is found, and not where. -/
theorem get?_map_value {β : Type} (r : Register α) (f : α → β) (name : Text) :
    get? (r.map fun entry => (entry.1, f entry.2)) name = (get? r name).map f := by
  induction r with
  | nil => rfl
  | cons entry r ih =>
    rw [List.map_cons, get?_cons, get?_cons, ih]
    split <;> rfl

/-- Taking a name out leaves the other names in their order. -/
theorem names_erase : names (erase r name) = (names r).filter (· ≠ name) := by
  induction r with
  | nil => rfl
  | cons entry r ih =>
    by_cases h : entry.1 = name
    · simpa [erase, names, h] using ih
    · simpa [erase, names, h] using ih

/-- Taking a name out of two registers one behind the other. -/
theorem erase_append : erase (r ++ s) name = erase r name ++ erase s name :=
  List.filter_append ..

/-- Another name in front stays when a name is taken out. -/
theorem erase_cons_of_ne {entry : Text × α} (h : entry.1 ≠ name) :
    erase (entry :: r) name = entry :: erase r name := by
  simp [erase, h]

end Playable.Register
