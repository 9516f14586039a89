import Mathlib.Data.List.Forall2
import Mathlib.Tactic.Common

/-!
# Steps that may fail, one after the other

A list is mapped element by element, and the first failure stops. So the whole succeeds with
exactly the results of its elements, or fails with the failure of the first element that has
one.
-/

namespace Playable

variable {ε α β γ : Type} {f : α → Except ε β} {xs : List α} {ys : List β} {e : ε}

/-- Two steps one after the other succeed exactly if the first one does, and the second one does on
its result. -/
theorem bind_eq_ok_iff {a : Except ε α} {g : α → Except ε β} {b : β} :
    a >>= g = .ok b ↔ ∃ x, a = .ok x ∧ g x = .ok b := by
  cases a with
  | error e => exact ⟨nofun, nofun⟩
  | ok x => exact ⟨fun h => ⟨x, rfl, h⟩, fun ⟨_, hx, h⟩ => Except.ok.inj hx ▸ h⟩

/-- A step whose result goes on into a function succeeds exactly if the step does. -/
theorem map_eq_ok_iff {a : Except ε β} {g : β → γ} {z : γ} :
    a.map g = .ok z ↔ ∃ y, a = .ok y ∧ g y = z := by
  cases a with
  | error e => exact ⟨nofun, nofun⟩
  | ok y => exact ⟨fun h => ⟨y, rfl, Except.ok.inj h⟩, fun ⟨_, hy, h⟩ => Except.ok.inj hy ▸ h ▸ rfl⟩

/-- Another wording of its failure does not make a step succeed. -/
theorem mapError_eq_ok_iff {ε' : Type} {a : Except ε β} {wording : ε → ε'} {b : β} :
    a.mapError wording = .ok b ↔ a = .ok b := by
  cases a with
  | error e => exact ⟨nofun, nofun⟩
  | ok x => exact ⟨fun h => congrArg _ (Except.ok.inj h), fun h => congrArg _ (Except.ok.inj h)⟩

/-- A list is mapped successfully exactly if every element is, each to its result. -/
theorem mapM_eq_ok_iff : xs.mapM f = .ok ys ↔ List.Forall₂ (fun x y => f x = .ok y) xs ys := by
  induction xs generalizing ys with
  | nil => exact ⟨fun h => Except.ok.inj h ▸ .nil, fun h => by cases h; rfl⟩
  | cons x xs ih =>
    rw [List.mapM_cons]
    cases hx : f x with
    | error e => exact ⟨nofun, fun h => by cases h with | cons hhead _ => cases hx.symm.trans hhead⟩
    | ok y =>
      cases hxs : xs.mapM f with
      | error e =>
        refine ⟨nofun, fun h => ?_⟩
        cases h with
        | cons _ htail => cases hxs.symm.trans (ih.mpr htail)
      | ok more =>
        constructor
        · intro h
          obtain rfl := Except.ok.inj h
          exact .cons hx (ih.mp hxs)
        · intro h
          cases h with
          | cons hhead htail =>
            obtain rfl := Except.ok.inj (hx.symm.trans hhead)
            obtain rfl := Except.ok.inj (hxs.symm.trans (ih.mpr htail))
            rfl

/-- Every result of a list that is mapped successfully is the result of an element. -/
theorem exists_mem_of_mem_mapM {y : β} (h : xs.mapM f = .ok ys) (hy : y ∈ ys) :
    ∃ x ∈ xs, f x = .ok y := by
  have hresults := mapM_eq_ok_iff.mp h
  clear h
  induction hresults with
  | nil => cases hy
  | cons hhead _ ih =>
    rcases List.mem_cons.mp hy with rfl | hy
    · exact ⟨_, List.mem_cons_self, hhead⟩
    · obtain ⟨x, hx, hresult⟩ := ih hy
      exact ⟨x, List.mem_cons_of_mem _ hx, hresult⟩

/-- A list is mapped to a failure exactly if one of its elements is, and all in front of that one
are mapped successfully. -/
theorem mapM_eq_error_iff : xs.mapM f = .error e ↔
    ∃ before x after ys, xs = before ++ x :: after ∧ before.mapM f = .ok ys ∧
      f x = .error e := by
  constructor
  · induction xs with
    | nil => exact nofun
    | cons x xs ih =>
      rw [List.mapM_cons]
      cases hx : f x with
      | error e' =>
        intro h
        obtain rfl := Except.error.inj h
        exact ⟨[], x, xs, [], rfl, rfl, hx⟩
      | ok y =>
        cases hxs : xs.mapM f with
        | ok more => exact nofun
        | error e' =>
          intro h
          obtain rfl := Except.error.inj h
          obtain ⟨before, x', after, ys, rfl, hbefore, hx'⟩ := ih hxs
          refine ⟨x :: before, x', after, y :: ys, rfl, ?_, hx'⟩
          rw [List.mapM_cons, hx, hbefore]
          rfl
  · rintro ⟨before, x, after, ys, rfl, hbefore, hx⟩
    rw [List.mapM_append, hbefore, List.mapM_cons, hx]
    rfl

/-- Two lists one behind the other are mapped successfully exactly if each of them is. -/
theorem mapM_append_eq_ok_iff {more : List α} :
    (xs ++ more).mapM f = .ok ys ↔
      ∃ front back, xs.mapM f = .ok front ∧ more.mapM f = .ok back ∧ ys = front ++ back := by
  rw [List.mapM_append, bind_eq_ok_iff]
  constructor
  · rintro ⟨front, hfront, h⟩
    obtain ⟨back, hback, hall⟩ := bind_eq_ok_iff.mp h
    exact ⟨front, back, hfront, hback, (Except.ok.inj hall).symm⟩
  · rintro ⟨front, back, hfront, hback, rfl⟩
    exact ⟨front, hfront, bind_eq_ok_iff.mpr ⟨back, hback, rfl⟩⟩

/-- A list is mapped successfully exactly if every element is. -/
theorem mapM_succeeds_iff : (∃ ys, xs.mapM f = .ok ys) ↔ ∀ x ∈ xs, ∃ y, f x = .ok y := by
  constructor
  · rintro ⟨ys, h⟩ x hx
    obtain ⟨before, after, rfl⟩ := List.append_of_mem hx
    obtain ⟨-, back, -, hback, -⟩ := mapM_append_eq_ok_iff.mp h
    rw [List.mapM_cons] at hback
    obtain ⟨y, hy, -⟩ := bind_eq_ok_iff.mp hback
    exact ⟨y, hy⟩
  · intro h
    cases hxs : xs.mapM f with
    | ok ys => exact ⟨ys, rfl⟩
    | error e =>
      obtain ⟨before, x, after, _, rfl, -, hx⟩ := mapM_eq_error_iff.mp hxs
      obtain ⟨y, hy⟩ := h x (by simp)
      cases hx.symm.trans hy

/-- A change of every result may wait until the list is mapped. -/
theorem mapM_map_result (g : β → γ) (xs : List α) :
    (xs.mapM fun x => (f x).map g) = (xs.mapM f).map (List.map g) := by
  induction xs with
  | nil => rfl
  | cons x xs ih =>
    rw [List.mapM_cons, List.mapM_cons, ih]
    cases f x with
    | error e => rfl
    | ok y => cases xs.mapM f <;> rfl

end Playable
