import Mathlib.Algebra.Order.BigOperators.Group.List
import Mathlib.Algebra.Ring.Int.Defs
import Mathlib.Data.List.FinRange
import Mathlib.Logic.Equiv.Basic
import Playable.Proofs.Cipher.Undo

/-!
# Places that a plan reads

The standard operations do not look at the characters of a signature. What they do depends on the
number of characters alone: each of them reads the text at fixed places, and no place twice. So a
plan keeps some of the characters in some order, in the same way for every text of a length. How
many it keeps is known if no splice counts from the end.
-/

namespace Playable.Cipher

variable {n : Nat} {place : Int} {c : CodePoint} {rest s t : RawText} {step : Step}
  {steps : List Step} {f g : RawText → Except UnknownOperation RawText} {places : List (Fin n)}

/-- Texts of a length are read at these places, and no place is read twice. -/
structure ReadsAt (n : Nat) (f : RawText → Except UnknownOperation RawText)
    (places : List (Fin n)) : Prop where
  /-- The places differ from each other. -/
  nodup : places.Nodup
  /-- Each text of the length turns into its characters at the places. -/
  reads : ∀ s (h : s.length = n), f s = .ok (places.map fun i => s.get (i.cast h.symm))

/-! ## Steps -/

/-- Reading every place in order changes nothing. -/
theorem map_get_cast (h : s.length = n) :
    ((List.finRange n).map fun i => s.get (i.cast h.symm)) = s := by
  subst h
  exact List.map_get_finRange s

/-- Turning around reads every place, the last one first. -/
theorem readsAt_reverse (place : Int) (n : Nat) :
    ReadsAt n (fun s => .ok (reverse place s)) (List.finRange n).reverse where
  nodup := List.nodup_reverse.mpr (List.nodup_finRange n)
  reads s h := by rw [List.map_reverse, map_get_cast h, reverse]

/-- An exchange reads every place, with the first one and another one exchanged. -/
theorem swap_eq_map {other : Fin (c :: rest).length}
    (h : other.val = (place % (c :: rest).length).toNat) :
    swap place (c :: rest) =
      (List.finRange _).map fun i => (c :: rest).get (Equiv.swap 0 other i) := by
  have hback : (c :: rest).getD other.val c = (c :: rest).get other := by
    rw [List.getD, List.getElem?_eq_getElem other.isLt]
    rfl
  have hswap : swap place (c :: rest) =
      ((c :: rest).set 0 ((c :: rest).get other)).set other.val c := by
    rw [swap, ← h, hback]
  refine hswap.trans (List.ext_getElem (by simp) fun i hi _ => ?_)
  obtain ⟨j, rfl⟩ : ∃ j : Fin (c :: rest).length, i = j.val := ⟨⟨i, by simpa using hi⟩, rfl⟩
  rw [List.getElem_map, List.getElem_finRange, List.getElem_set, List.getElem_set]
  change _ = (c :: rest).get (Equiv.swap 0 other j)
  by_cases hother : j = other
  · rw [if_pos (congrArg Fin.val hother.symm), hother, Equiv.swap_apply_right]
    rfl
  · rw [if_neg fun hval => hother (Fin.ext hval.symm)]
    by_cases hfirst : j = 0
    · subst hfirst
      rw [Equiv.swap_apply_left]
      rfl
    · rw [if_neg fun hval => hfirst (Fin.ext hval.symm),
        Equiv.swap_apply_of_ne_of_ne hfirst hother]
      rfl

/-- An exchange reads fixed places, as the other place depends on the length alone. -/
theorem exists_readsAt_swap (place : Int) (n : Nat) :
    ∃ places, ReadsAt n (fun s => .ok (swap place s)) places := by
  cases n with
  | zero =>
    refine ⟨[], List.nodup_nil, fun s h => ?_⟩
    obtain rfl := List.length_eq_zero_iff.mp h
    rfl
  | succ m =>
    have hother : (place % (m + 1 : Nat)).toNat < m + 1 :=
      (Int.toNat_lt (Int.emod_nonneg _ (by omega))).mpr (Int.emod_lt_of_pos _ (by omega))
    refine ⟨(List.finRange (m + 1)).map (Equiv.swap 0 ⟨_, hother⟩),
      (List.nodup_finRange _).map (Equiv.injective _), fun s h => ?_⟩
    cases s with
    | nil => cases h
    | cons c rest =>
      obtain rfl : rest.length = m := Nat.succ.inj h
      rw [List.map_map]
      exact congrArg Except.ok (swap_eq_map rfl)

/-- A splice reads the places behind its cut, which depends on the length alone. -/
theorem exists_readsAt_splice (place : Int) (n : Nat) :
    ∃ places, ReadsAt n (fun s => .ok (splice place s)) places := by
  let cut := if place < 0 then (n + place).toNat else min place.toNat n
  refine ⟨(List.finRange n).drop cut, (List.nodup_finRange n).sublist (List.drop_sublist ..),
    fun s h => ?_⟩
  have hcut : cutPoint place s = cut := by rw [cutPoint, h]
  rw [List.map_drop, map_get_cast h, splice, hcut]

/-- A step of a standard operation reads fixed places. -/
theorem exists_readsAt_apply (h : Catalog.standard.has step.operation = true) (n : Nat) :
    ∃ places, ReadsAt n (Catalog.standard.apply step.operation step.argument) places := by
  obtain ⟨operation, argument⟩ := step
  rcases standard_has_iff.mp h with rfl | rfl | rfl
  · exact ⟨_, readsAt_reverse (argument.getD 0) n⟩
  · exact exists_readsAt_swap (argument.getD 0) n
  · exact exists_readsAt_splice (argument.getD 0) n

/-! ## Runs -/

/-- What is read at places of what was read before, is read at some of the first places. -/
theorem ReadsAt.bind {more : List (Fin places.length)} (hf : ReadsAt n f places)
    (hg : ReadsAt places.length g more) :
    ReadsAt n (fun s => (f s).bind g) (more.map places.get) where
  nodup := hg.nodup.map hf.nodup.injective_get
  reads s h := by
    have hlength : (places.map fun i => s.get (i.cast h.symm)).length = places.length :=
      List.length_map _
    rw [hf.reads s h]
    refine (hg.reads _ hlength).trans (congrArg Except.ok ?_)
    rw [List.map_map]
    exact List.map_congr_left fun i _ => by simp

/-- Steps of standard operations read fixed places. -/
theorem exists_readsAt_runSteps (h : ∀ step ∈ steps, Catalog.standard.has step.operation = true)
    (n : Nat) : ∃ places, ReadsAt n (Plan.runSteps Catalog.standard steps) places := by
  induction steps generalizing n with
  | nil => exact ⟨List.finRange n, List.nodup_finRange n, fun s h => by rw [map_get_cast h]; rfl⟩
  | cons step steps ih =>
    obtain ⟨hstep, hmore⟩ := List.forall_mem_cons.mp h
    obtain ⟨places, hplaces⟩ := exists_readsAt_apply hstep n
    -- the places that the later steps read are places of what this one leaves
    obtain ⟨more, hrest⟩ := ih hmore places.length
    refine ⟨more.map places.get, ?_⟩
    rw [funext (runSteps_cons Catalog.standard step steps)]
    exact hplaces.bind hrest

/-- Where fixed places are read, characters may be replaced before or afterwards. -/
theorem ReadsAt.map_replace {places : List (Fin s.length)} (h : ReadsAt s.length f places)
    (replace : CodePoint → CodePoint) : f (s.map replace) = (f s).map (List.map replace) := by
  have hlength : (s.map replace).length = s.length := List.length_map _
  rw [h.reads _ hlength, h.reads s rfl, Except.map, List.map_map]
  exact congrArg Except.ok (List.map_congr_left fun i _ => by simp)

/-! ## Lengths -/

/-- How many characters a step removes, if its argument counts from the front and there are that
many. -/
def Step.removed (step : Step) : Int :=
  if step.operation = "splice".toList then step.argument.getD 0 else 0

/-- A step that can be walked backwards does not remove less than nothing. -/
theorem Step.IsReversible.removed_nonneg (h : step.IsReversible) : 0 ≤ step.removed := by
  rw [Step.removed]
  split
  · exact h.splice_nonneg ‹_›
  · exact le_rfl

/-- A step leaves what it does not remove, or nothing. -/
theorem exists_length_apply (h : step.IsReversible) (s : RawText) :
    ∃ t, Catalog.standard.apply step.operation step.argument s = .ok t ∧
      (t.length : Int) = max 0 (s.length - step.removed) := by
  obtain ⟨operation, argument⟩ := step
  rcases standard_has_iff.mp h.known with rfl | rfl | rfl
  · have hnone : Step.removed ⟨"reverse".toList, argument⟩ = 0 := rfl
    refine ⟨reverse (argument.getD 0) s, rfl, ?_⟩
    rw [reverse, List.length_reverse, hnone]
    omega
  · have hnone : Step.removed ⟨"swap".toList, argument⟩ = 0 := rfl
    refine ⟨swap (argument.getD 0) s, rfl, ?_⟩
    rw [length_swap, hnone]
    omega
  · have hfront : Step.removed ⟨"splice".toList, argument⟩ = argument.getD 0 := rfl
    have hnonneg : 0 ≤ argument.getD 0 := h.splice_nonneg rfl
    refine ⟨splice (argument.getD 0) s, rfl, ?_⟩
    rw [splice, List.length_drop, cutPoint, if_neg (by omega), hfront]
    omega

/-- Steps leave what they do not remove together, or nothing. -/
theorem exists_length_runSteps (h : ∀ step ∈ steps, step.IsReversible) (s : RawText) :
    ∃ t, Plan.runSteps Catalog.standard steps s = .ok t ∧
      (t.length : Int) = max 0 (s.length - (steps.map Step.removed).sum) := by
  induction steps generalizing s with
  | nil => exact ⟨s, rfl, by simp⟩
  | cons step steps ih =>
    obtain ⟨hstep, hmore⟩ := List.forall_mem_cons.mp h
    obtain ⟨middle, hmiddle, hleft⟩ := exists_length_apply hstep s
    obtain ⟨t, ht, hlength⟩ := ih hmore middle
    refine ⟨t, by rw [runSteps_cons, hmiddle]; exact ht, ?_⟩
    have hsum : 0 ≤ (steps.map Step.removed).sum := by
      refine List.sum_nonneg fun _ hremoved => ?_
      obtain ⟨other, hother, rfl⟩ := List.mem_map.mp hremoved
      exact (hmore other hother).removed_nonneg
    rw [List.map_cons, List.sum_cons]
    omega

/-- A plan of standard operations only selects and reorders: for each length there are places that
differ from each other, and every text of this length turns into its characters at these places. So
replacing characters before the plan or after it comes to the same, and if no splice counts from the
end, all but the removed characters are left. -/
theorem decrypt_reads_distinct_places (plan : Plan)
    (h : ∀ step ∈ plan.steps, Catalog.standard.has step.operation = true) :
    (∀ n, ∃ places, ReadsAt n (plan.decrypt Catalog.standard) places) ∧
    (∀ (replace : CodePoint → CodePoint) s, plan.decrypt Catalog.standard (s.map replace) =
      (plan.decrypt Catalog.standard s).map (List.map replace)) ∧
    ((∀ step ∈ plan.steps, step.operation = "splice".toList → 0 ≤ step.argument.getD 0) →
      ∀ s, ∃ t, plan.decrypt Catalog.standard s = .ok t ∧
        (t.length : Int) = max 0 (s.length - (plan.steps.map Step.removed).sum)) := by
  refine ⟨exists_readsAt_runSteps h, fun replace s => ?_, fun hnonneg s => ?_⟩
  · obtain ⟨places, hplaces⟩ := exists_readsAt_runSteps h s.length
    exact hplaces.map_replace replace
  · exact exists_length_runSteps (fun step hstep => ⟨h step hstep, hnonneg step hstep⟩) s

/-- The first plan counts from the end twice, the second one only from the front. -/
theorem decrypt_reads_distinct_places_from_both_ends :
    let backward : Plan := ⟨[⟨"swap".toList, some (-3)⟩, ⟨"splice".toList, some (-4)⟩,
      ⟨"reverse".toList, none⟩], List.cons_ne_nil _ _⟩
    let forward : Plan := ⟨[⟨"splice".toList, some 2⟩, ⟨"swap".toList, some (-7)⟩,
      ⟨"splice".toList, none⟩, ⟨"splice".toList, some 1⟩], List.cons_ne_nil _ _⟩
    ((∀ step ∈ backward.steps, Catalog.standard.has step.operation = true) ∧
      (∃ places, ReadsAt 6 (backward.decrypt Catalog.standard) places) ∧
      backward.decrypt Catalog.standard (Text.raw "abcdef".toList) =
        .ok (Text.raw "feac".toList) ∧
      backward.decrypt Catalog.standard ((Text.raw "abcdef".toList).map (.char ·.toChar.toUpper)) =
        .ok ((Text.raw "feac".toList).map (.char ·.toChar.toUpper))) ∧
    ((∀ step ∈ forward.steps, Catalog.standard.has step.operation = true) ∧
      (∀ step ∈ forward.steps, step.operation = "splice".toList → 0 ≤ step.argument.getD 0) ∧
      ∃ t, forward.decrypt Catalog.standard (Text.raw "abcdef".toList) = .ok t ∧
        t.length = 3) := by
  intro backward forward
  have hbackward : ∀ step ∈ backward.steps, Catalog.standard.has step.operation = true := by decide
  have hforward : ∀ step ∈ forward.steps, Catalog.standard.has step.operation = true := by decide
  have hfront : ∀ step ∈ forward.steps,
      step.operation = "splice".toList → 0 ≤ step.argument.getD 0 := by decide
  obtain ⟨hplaces, hreplace, -⟩ := decrypt_reads_distinct_places backward hbackward
  obtain ⟨t, ht, hlength⟩ :=
    (decrypt_reads_distinct_places forward hforward).2.2 hfront (Text.raw "abcdef".toList)
  have hread : backward.decrypt Catalog.standard (Text.raw "abcdef".toList) =
      .ok (Text.raw "feac".toList) := rfl
  refine ⟨⟨hbackward, hplaces 6, hread, ?_⟩, hforward, hfront, t, ht, ?_⟩
  · rw [hreplace, hread]
    rfl
  · exact Int.ofNat.inj (hlength.trans (by decide))

end Playable.Cipher
