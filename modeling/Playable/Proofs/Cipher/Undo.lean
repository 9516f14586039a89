import Mathlib.Data.Set.Function
import Mathlib.Tactic.Common
import Playable.Proofs.Cipher.Run

/-!
# Undoing a plan

A plan of the standard operations can be walked backwards: turning around and
exchanging undo themselves, and what a splice removes can be any characters of the
right number. Whatever is scrambled this way is unscrambled by the plan, and a plan
without splices only moves characters around.
-/

namespace Playable.Cipher

variable {place : Int} {first : CodePoint} {rest chars front t s : RawText}
  {argument : Option Int} {step : Step} {steps : List Step} {n : Nat}

/-- The place of an exchange lies within the text. -/
theorem place_mod_lt (place : Int) (h : chars ≠ []) :
    (place % chars.length).toNat < chars.length := by
  have hpos : (0 : Int) < chars.length := by
    have := List.length_pos_iff.mpr h
    omega
  have hlow := Int.emod_nonneg place (Int.ne_of_gt hpos)
  have hhigh := Int.emod_lt_of_pos place hpos
  omega

/-- An exchange of the first character with itself changes nothing. -/
theorem swap_of_zero (h : (place % (first :: rest).length).toNat = 0) :
    swap place (first :: rest) = first :: rest := by
  simp only [swap, h, List.getD_cons_zero, List.set_cons_zero]

/-- An exchange with a character behind the first one. -/
theorem swap_of_succ {j : Nat} (h : (place % (first :: rest).length).toNat = j + 1) :
    swap place (first :: rest) = rest.getD j first :: rest.set j first := by
  simp only [swap, h, List.getD_cons_succ, List.set_cons_zero, List.set_cons_succ]

/-- An exchange keeps the length. -/
theorem length_swap (place : Int) (chars : RawText) :
    (swap place chars).length = chars.length := by
  cases chars with
  | nil => rfl
  | cons first rest => simp only [swap, List.length_set]

/-- An exchange undoes itself. -/
theorem swap_swap (place : Int) (chars : RawText) : swap place (swap place chars) = chars := by
  cases chars with
  | nil => rfl
  | cons first rest =>
    cases hindex : (place % (first :: rest).length).toNat with
    | zero => rw [swap_of_zero hindex, swap_of_zero hindex]
    | succ j =>
      have hj : j < rest.length := by
        have := place_mod_lt place (List.cons_ne_nil first rest)
        simp only [List.length_cons] at this hindex
        omega
      -- the place depends on the length alone, so it is the same both times
      have hagain : (place % (rest.getD j first :: rest.set j first).length).toNat = j + 1 := by
        simpa only [List.length_cons, List.length_set] using hindex
      rw [swap_of_succ hindex, swap_of_succ hagain, List.set_set]
      simp [List.getD_eq_getElem?_getD, hj]

/-- A splice removes as many characters as its argument says, if there are that many. -/
theorem splice_append (h : (front.length : Int) = place) :
    splice place (front ++ chars) = chars := by
  have hcut : cutPoint place (front ++ chars) = front.length := by
    rw [cutPoint, if_neg (by omega), List.length_append]
    omega
  rw [splice, hcut, List.drop_left]

/-- The names of the standard operations. -/
theorem standard_has_iff {name : Text} : Catalog.standard.has name = true ↔
    name = "reverse".toList ∨ name = "swap".toList ∨ name = "splice".toList := by
  simp only [Catalog.has, Catalog.standard, Register.has_eq_true_iff, Register.names_cons,
    Register.names_nil, List.mem_cons, List.not_mem_nil, or_false]

/-- A step that can be walked backwards: of a standard operation, and no splice with a
negative argument. -/
structure Step.IsReversible (step : Step) : Prop where
  /-- The operation is a standard one. -/
  known : Catalog.standard.has step.operation = true
  /-- A splice counts from the front. -/
  splice_nonneg : step.operation = "splice".toList → 0 ≤ step.argument.getD 0

/-- Steps are walked backwards from a text, the last one first. What a splice removes is
put back by any characters of that number. -/
inductive Scrambled : List Step → RawText → RawText → Prop where
  /-- Without steps nothing changes. -/
  | nil {t : RawText} : Scrambled [] t t
  /-- Turning around is undone by turning around. -/
  | reverse {steps : List Step} {t s : RawText} (argument : Option Int)
      (h : Scrambled steps t s) :
      Scrambled (⟨"reverse".toList, argument⟩ :: steps) t (reverse (argument.getD 0) s)
  /-- An exchange is undone by the same exchange. -/
  | swap {steps : List Step} {t s : RawText} (argument : Option Int)
      (h : Scrambled steps t s) :
      Scrambled (⟨"swap".toList, argument⟩ :: steps) t (swap (argument.getD 0) s)
  /-- A splice is undone by putting characters in front. -/
  | splice {steps : List Step} {t s : RawText} (argument : Option Int) (front : RawText)
      (hfront : (front.length : Int) = argument.getD 0) (h : Scrambled steps t s) :
      Scrambled (⟨"splice".toList, argument⟩ :: steps) t (front ++ s)

/-- Running the steps undoes the scrambling. -/
theorem runSteps_of_scrambled (h : Scrambled steps t s) :
    Plan.runSteps Catalog.standard steps s = .ok t := by
  induction h with
  | nil => rfl
  | @reverse steps t s argument h ih =>
    rw [runSteps_cons]
    change Plan.runSteps Catalog.standard steps s.reverse.reverse = .ok t
    rw [List.reverse_reverse, ih]
  | @swap steps t s argument h ih =>
    rw [runSteps_cons]
    change Plan.runSteps Catalog.standard steps
      (Cipher.swap (argument.getD 0) (Cipher.swap (argument.getD 0) s)) = .ok t
    rw [swap_swap, ih]
  | @splice steps t s argument front hfront h ih =>
    rw [runSteps_cons]
    change Plan.runSteps Catalog.standard steps
      (Cipher.splice (argument.getD 0) (front ++ s)) = .ok t
    rw [splice_append hfront, ih]

/-- Reversible steps can be walked backwards from every text. -/
theorem exists_scrambled (h : ∀ step ∈ steps, step.IsReversible) (t : RawText) :
    ∃ s, Scrambled steps t s := by
  induction steps with
  | nil => exact ⟨t, .nil⟩
  | cons step steps ih =>
    obtain ⟨s, hs⟩ := ih fun other hother => h other (List.mem_cons_of_mem _ hother)
    have hstep := h step List.mem_cons_self
    obtain ⟨operation, argument⟩ := step
    rcases standard_has_iff.mp hstep.known with rfl | rfl | rfl
    · exact ⟨_, .reverse argument hs⟩
    · exact ⟨_, .swap argument hs⟩
    · have hnonneg := hstep.splice_nonneg rfl
      refine ⟨_, .splice argument (List.replicate (argument.getD 0).toNat (.char 'x')) ?_ hs⟩
      rw [List.length_replicate, Int.toNat_of_nonneg hnonneg]

/-- What undoes itself and keeps the length is a bijection on the texts of a length. -/
theorem bijOn_of_involutive {f : RawText → RawText} (hf : ∀ s, f (f s) = s)
    (hlength : ∀ s, (f s).length = s.length) (n : Nat) :
    Set.BijOn f {s | s.length = n} {s | s.length = n} := by
  have hmaps : Set.MapsTo f {s | s.length = n} {s | s.length = n} :=
    fun s hs => (hlength s).trans hs
  exact Set.InvOn.bijOn ⟨fun s _ => hf s, fun s _ => hf s⟩ hmaps hmaps

/-- A step that removes nothing is a bijection on the texts of each length. -/
theorem exists_bijOn_of_step (h : step.IsReversible) (hne : step.operation ≠ "splice".toList) :
    ∃ f : RawText → RawText,
      (∀ s, Catalog.standard.apply step.operation step.argument s = .ok (f s)) ∧
        ∀ n, Set.BijOn f {s | s.length = n} {s | s.length = n} := by
  obtain ⟨operation, argument⟩ := step
  rcases standard_has_iff.mp h.known with rfl | rfl | rfl
  · exact ⟨List.reverse, fun _ => rfl,
      bijOn_of_involutive (fun _ => List.reverse_reverse _) fun _ => List.length_reverse⟩
  · exact ⟨swap (argument.getD 0), fun _ => rfl, bijOn_of_involutive (swap_swap _) (length_swap _)⟩
  · exact absurd rfl hne

/-- Steps that remove nothing make up a bijection on the texts of each length. -/
theorem exists_bijOn_of_steps (h : ∀ step ∈ steps, step.IsReversible)
    (hne : ∀ step ∈ steps, step.operation ≠ "splice".toList) :
    ∃ f : RawText → RawText, (∀ s, Plan.runSteps Catalog.standard steps s = .ok (f s)) ∧
      ∀ n, Set.BijOn f {s | s.length = n} {s | s.length = n} := by
  induction steps with
  | nil => exact ⟨id, fun _ => rfl, fun n => Set.bijOn_id _⟩
  | cons step steps ih =>
    obtain ⟨f, hf, hbij⟩ := exists_bijOn_of_step (h step List.mem_cons_self)
      (hne step List.mem_cons_self)
    obtain ⟨g, hg, hmore⟩ := ih (fun other hother => h other (List.mem_cons_of_mem _ hother))
      fun other hother => hne other (List.mem_cons_of_mem _ hother)
    refine ⟨g ∘ f, fun s => ?_, fun n => (hmore n).comp (hbij n)⟩
    rw [runSteps_cons, hf]
    exact hg (f s)

/-- A plan whose steps can be walked backwards is undone by walking it backwards:
every text can be scrambled, and the plan turns each scrambled form of a text into that
text, whatever was put in front for the splices. Without splices the plan is a bijection
on the texts of each length. -/
theorem decrypt_undoes_scrambling (plan : Plan) (h : ∀ step ∈ plan.steps, step.IsReversible) :
    (∀ t, (∃ s, Scrambled plan.steps t s) ∧
      ∀ s, Scrambled plan.steps t s → plan.decrypt Catalog.standard s = .ok t) ∧
    ((∀ step ∈ plan.steps, step.operation ≠ "splice".toList) →
      ∃ f : RawText → RawText, (∀ s, plan.decrypt Catalog.standard s = .ok (f s)) ∧
        ∀ n, Set.BijOn f {s | s.length = n} {s | s.length = n}) :=
  ⟨fun t => ⟨exists_scrambled h t, fun _ hs => runSteps_of_scrambled hs⟩,
    exists_bijOn_of_steps h⟩

/-- The exchange comes at a length that the splice before it has changed, and its place is
negative. -/
theorem decrypt_undoes_swap_behind_splice :
    let plan : Plan := ⟨[⟨"splice".toList, some 2⟩, ⟨"swap".toList, some (-3)⟩,
      ⟨"reverse".toList, none⟩], List.cons_ne_nil _ _⟩
    (∀ step ∈ plan.steps, step.IsReversible) ∧
      Scrambled plan.steps (Text.raw ['a', 'b', 'c', 'd'])
        (Text.raw ['?', '!', 'c', 'd', 'b', 'a']) ∧
      plan.decrypt Catalog.standard (Text.raw ['?', '!', 'c', 'd', 'b', 'a']) =
        .ok (Text.raw ['a', 'b', 'c', 'd']) := by
  intro plan
  have hplan : ∀ step ∈ plan.steps, step.IsReversible := by
    intro step hstep
    simp only [plan, List.mem_cons, List.not_mem_nil, or_false] at hstep
    rcases hstep with rfl | rfl | rfl
    · exact ⟨rfl, fun _ => by decide⟩
    · exact ⟨rfl, by decide⟩
    · exact ⟨rfl, by decide⟩
  have hscrambled : Scrambled plan.steps (Text.raw ['a', 'b', 'c', 'd'])
      (Text.raw ['?', '!', 'c', 'd', 'b', 'a']) :=
    .splice (some 2) (Text.raw ['?', '!']) rfl (.swap (some (-3)) (.reverse none .nil))
  exact ⟨hplan, hscrambled, ((decrypt_undoes_scrambling plan hplan).1 _).2 _ hscrambled⟩

end Playable.Cipher
