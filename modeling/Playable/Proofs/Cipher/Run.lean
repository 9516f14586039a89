import Playable.Cipher.Plan
import Playable.Proofs.Register

/-!
# Running a plan

The steps of a plan are taken one after the other. Nothing but an operation that the
catalog does not hold can stop them.
-/

namespace Playable.Cipher

variable {catalog : Catalog} {name : Text} {steps : List Step}

/-- The first step of a sequence is taken first. -/
theorem runSteps_cons (catalog : Catalog) (step : Step) (steps : List Step) (s : RawText) :
    Plan.runSteps catalog (step :: steps) s =
      (catalog.apply step.operation step.argument s).bind (Plan.runSteps catalog steps) :=
  List.foldlM_cons ..

/-- An operation of the catalog can be applied to every text. -/
theorem exists_apply (h : catalog.has name = true) (argument : Option Int) (s : RawText) :
    ∃ t, catalog.apply name argument s = .ok t := by
  have hfound : catalog.find? name ≠ none := fun hnone =>
    Register.get?_eq_none_iff.mp hnone (Register.has_eq_true_iff.mp h)
  obtain ⟨operation, hoperation⟩ := Option.ne_none_iff_exists'.mp hfound
  exact ⟨_, by rw [Catalog.apply, hoperation]⟩

/-- Steps that name operations of the catalog can be taken on every text. -/
theorem exists_runSteps (h : ∀ step ∈ steps, catalog.has step.operation = true) (s : RawText) :
    ∃ t, Plan.runSteps catalog steps s = .ok t := by
  induction steps generalizing s with
  | nil => exact ⟨s, rfl⟩
  | cons step steps ih =>
    obtain ⟨hstep, hmore⟩ := List.forall_mem_cons.mp h
    obtain ⟨middle, hmiddle⟩ := exists_apply hstep step.argument s
    obtain ⟨t, ht⟩ := ih hmore middle
    exact ⟨t, by rw [runSteps_cons, hmiddle]; exact ht⟩

/-- Steps in front of one whose operation the catalog does not hold are taken, and that one
stops. -/
theorem runSteps_of_missing {before after : List Step} {step : Step}
    (hbefore : ∀ step ∈ before, catalog.has step.operation = true)
    (h : catalog.has step.operation = false) (s : RawText) :
    Plan.runSteps catalog (before ++ step :: after) s = .error ⟨step.operation⟩ := by
  induction before generalizing s with
  | nil =>
    have hfind : catalog.find? step.operation = none :=
      Register.get?_eq_none_iff.mpr fun hmem =>
        Bool.false_ne_true (h.symm.trans (Register.has_eq_true_iff.mpr hmem))
    rw [List.nil_append, runSteps_cons, Catalog.apply, hfind]
    rfl
  | cons first before ih =>
    obtain ⟨hfirst, hmore⟩ := List.forall_mem_cons.mp hbefore
    obtain ⟨middle, hmiddle⟩ := exists_apply hfirst first.argument s
    rw [List.cons_append, runSteps_cons, hmiddle]
    exact ih hmore middle

/-- Of the steps whose operation the catalog does not hold there is a first one, unless it holds
the operations of all steps. -/
theorem exists_first_missing (catalog : Catalog) (steps : List Step) :
    (∃ before step after, steps = before ++ step :: after ∧
        (∀ step ∈ before, catalog.has step.operation = true) ∧
        catalog.has step.operation = false) ∨
      ∀ step ∈ steps, catalog.has step.operation = true := by
  cases hfind : steps.find? fun step => !catalog.has step.operation with
  | none =>
    refine .inr fun step hstep => ?_
    simpa using List.find?_eq_none.mp hfind step hstep
  | some step =>
    obtain ⟨hmissing, before, after, hsteps, hbefore⟩ := List.find?_eq_some_iff_append.mp hfind
    exact .inl ⟨before, step, after, hsteps, by simpa using hbefore, by simpa using hmissing⟩

/-- The plan of the engine names operations of its catalog only. -/
def Engine.IsRunnable (engine : Engine) : Prop :=
  ∀ step ∈ engine.plan.steps, engine.catalog.has step.operation = true

/-- Whether a plan can be run is told by looking its operations up. -/
theorem Engine.isRunnable_of_all {engine : Engine}
    (h : engine.plan.steps.all (fun step => engine.catalog.has step.operation) = true) :
    ∀ e ∈ some engine, e.IsRunnable := by
  rintro _ ⟨⟩
  exact List.all_eq_true.mp h

/-- An engine whose plan can be run unscrambles every signature. -/
theorem Engine.IsRunnable.exists_decrypt {engine : Engine} (h : engine.IsRunnable)
    (scrambled : RawText) : ∃ signature, engine.decrypt scrambled = .ok signature :=
  exists_runSteps h scrambled

end Playable.Cipher
