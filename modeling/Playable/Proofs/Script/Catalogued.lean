import Playable.Proofs.Cipher.Run
import Playable.Proofs.Sequence
import Playable.Script.Extract

/-!
# Extracted plans and catalogs

The operations of an extracted plan come from the table of shapes: a step has the operation of a
member, and a member has the operation of the shape that its body fits. So whether a plan can be
run is a matter of two tables, the shapes and the catalog, and of no signature.
-/

namespace Playable.Script

open Cipher

variable {shapes : List Shape} {catalog : Catalog} {script helper body : Text}
  {params : List Text} {operation : Text} {entry : Entry} {members : Members} {call : Call}
  {step : Step} {plan : Plan}

/-- The operation of a member body is that of a shape in the table. -/
theorem exists_shape_of_classify (h : classify shapes params body = some operation) :
    ∃ shape ∈ shapes, shape.operation = operation := by
  obtain ⟨shape, hfound, hoperation⟩ := Option.map_eq_some_iff.mp h
  exact ⟨shape, List.mem_of_find?_eq_some hfound, hoperation⟩

/-- What the members of a helper object do is said by shapes in the table. -/
theorem exists_shape_of_findMembers (h : findMembers shapes script helper = .ok members)
    {name : Text} (hmem : (name, some operation) ∈ members) :
    ∃ shape ∈ shapes, shape.operation = operation := by
  rw [findMembers] at h
  split at h
  · cases h
  · obtain rfl := Except.ok.inj h
    obtain ⟨m, -, hm⟩ := List.mem_map.mp (Register.mem_ofPairs hmem)
    exact exists_shape_of_classify (Prod.mk.inj hm).2

/-- The step of a call has the operation of a member. -/
theorem exists_member_of_stepOf (h : stepOf helper members call = .ok (some step)) :
    ∃ name, (name, some step.operation) ∈ members := by
  obtain ⟨argument, -, h⟩ := bind_eq_ok_iff.mp h
  split at h
  · cases h
  · split at h
    · cases h
    · cases h
    · rename_i operation hfound
      obtain rfl := Option.some.inj (Except.ok.inj h)
      exact ⟨call.member, Register.mem_of_get? hfound⟩

/-- Every step of the plan of an entry routine has the operation of a member. -/
theorem exists_member_of_buildPlan (h : buildPlan entry helper members = .ok plan)
    (hstep : step ∈ plan.steps) : ∃ name, (name, some step.operation) ∈ members := by
  obtain ⟨steps, hsteps, h⟩ := bind_eq_ok_iff.mp h
  have hplan : Plan.ofSteps? (steps.filterMap id) = some plan := by
    split at h
    · rename_i found hfound
      exact hfound.trans (congrArg some (Except.ok.inj h))
    · cases h
  have hkept : plan.steps = steps.filterMap id := by
    rw [Plan.ofSteps?] at hplan
    split at hplan
    · cases hplan
    · rw [← Option.some.inj hplan]
  rw [hkept] at hstep
  obtain ⟨_, hmem, rfl⟩ := List.mem_filterMap.mp hstep
  obtain ⟨call, -, hcall⟩ := exists_mem_of_mem_mapM hsteps hmem
  exact exists_member_of_stepOf hcall

/-- What is declared succeeds exactly if it does without the declaration. -/
theorem declared_eq_ok_iff {α : Type} {a : Except ExtractionFault α} {x : α} :
    declared a = .ok x ↔ a = .ok x := by
  cases a <;> simp [declared]

/-- Every step of an extracted plan has the operation of a shape in the table. -/
theorem exists_shape_of_extract (h : extract shapes script = .ok plan) (hstep : step ∈ plan.steps) :
    ∃ shape ∈ shapes, shape.operation = step.operation := by
  obtain ⟨entry, -, h⟩ := bind_eq_ok_iff.mp h
  obtain ⟨helper, -, h⟩ := bind_eq_ok_iff.mp h
  obtain ⟨members, hmembers, h⟩ := bind_eq_ok_iff.mp h
  obtain ⟨name, hmem⟩ := exists_member_of_buildPlan h hstep
  exact exists_shape_of_findMembers (declared_eq_ok_iff.mp hmembers) hmem

/-- A plan whose operations are in the catalog can be run on every signature. -/
theorem exists_decrypt_of_extract (hshapes : ∀ shape ∈ shapes, catalog.has shape.operation = true)
    (h : extract shapes script = .ok plan) (s : RawText) :
    ∃ t, plan.decrypt catalog s = .ok t := by
  refine exists_runSteps (fun step hstep => ?_) s
  obtain ⟨shape, hshape, hoperation⟩ := exists_shape_of_extract h hstep
  exact hoperation ▸ hshapes shape hshape

/-- The catalog of the standard operations holds those of the standard shapes. -/
theorem standard_has_standardShapes :
    ∀ shape ∈ standardShapes, Catalog.standard.has shape.operation = true := by
  have hall : (standardShapes.map (·.operation)).all Catalog.standard.has = true := by decide
  simpa using hall

/-- An extracted plan has at least one step, and only operations of the table of shapes. Whether it
can be run does not depend on the signature: either the catalog lacks an operation of the plan, and
then every signature fails at the first one that it lacks, or every signature is unscrambled. So if
the catalog holds all operations of the table, no extracted plan can fail, and the standard catalog
holds those of the standard shapes. -/
theorem extracted_plan_fails_only_uncatalogued (shapes : List Shape) (catalog : Catalog) :
    (∀ script plan, extract shapes script = .ok plan →
      plan.steps ≠ [] ∧
      (∀ step ∈ plan.steps, ∃ shape ∈ shapes, shape.operation = step.operation) ∧
      ((∃ before step after, plan.steps = before ++ step :: after ∧
          (∀ step ∈ before, catalog.has step.operation = true) ∧
          catalog.has step.operation = false ∧
          ∀ s, plan.decrypt catalog s = .error ⟨step.operation⟩) ∨
        ((∀ step ∈ plan.steps, catalog.has step.operation = true) ∧
          ∀ s, ∃ t, plan.decrypt catalog s = .ok t))) ∧
    ((∀ shape ∈ shapes, catalog.has shape.operation = true) →
      ∀ script plan, extract shapes script = .ok plan →
        ∀ s, ∃ t, plan.decrypt catalog s = .ok t) ∧
    ∀ script plan, extract standardShapes script = .ok plan →
      ∀ s, ∃ t, plan.decrypt Catalog.standard s = .ok t := by
  refine ⟨fun script plan h => ⟨plan.steps_ne_nil, fun step => exists_shape_of_extract h, ?_⟩,
    fun hshapes script plan => exists_decrypt_of_extract hshapes,
    fun script plan => exists_decrypt_of_extract standard_has_standardShapes⟩
  rcases exists_first_missing catalog plan.steps with
    ⟨before, step, after, hsteps, hbefore, hmissing⟩ | hall
  · refine .inl ⟨before, step, after, hsteps, hbefore, hmissing, fun s => ?_⟩
    rw [Plan.decrypt, hsteps]
    exact runSteps_of_missing hbefore hmissing s
  · exact .inr ⟨hall, exists_runSteps hall⟩

/-- A script whose helper object can turn a signature around, and move its first character to the
end. -/
def sampleRotatingScript : Text :=
  "var X=\x7br:function(a)\x7ba.reverse()\x7d,o:function(a)\x7ba.push(a.shift())\x7d\x7d;".toList
    ++ "E=function(a)\x7ba=a.split(\"\");X.r(a);X.o(a,3);return a.join(\"\")\x7d;".toList
    ++ "c&&d.set(b,encodeURIComponent(E(c.s)))".toList

/-- With a shape more than the standard ones, a plan is extracted that the standard catalog fails
to run at its second step, and that a catalog with one operation more runs. -/
theorem extracted_plan_fails_only_uncatalogued_rotation :
    let shapes := standardShapes ++ [rotateShape]
    let wider := Catalog.standard.insert "rotate".toList rotate
    let steps : List Step := [⟨"reverse".toList, none⟩, ⟨"rotate".toList, some 3⟩]
    ∃ plan, extract shapes sampleRotatingScript = .ok plan ∧ plan.steps = steps ∧
      (∀ s, plan.decrypt Catalog.standard s = .error ⟨"rotate".toList⟩) ∧
      (∀ shape ∈ shapes, wider.has shape.operation = true) ∧
      ∀ s, ∃ t, plan.decrypt wider s = .ok t := by
  intro shapes wider steps
  have hextract : extract shapes sampleRotatingScript = .ok ⟨steps, List.cons_ne_nil _ _⟩ := by
    decide +kernel
  have hshapes : ∀ shape ∈ shapes, wider.has shape.operation = true := by
    have hall : (shapes.map (·.operation)).all wider.has = true := by decide
    simpa using hall
  have hlast : Catalog.standard.has "rotate".toList = false := by decide
  refine ⟨_, hextract, rfl, ?_, hshapes,
    (extracted_plan_fails_only_uncatalogued shapes wider).2.1 hshapes _ _ hextract⟩
  obtain ⟨-, -, ⟨before, step, after, hsteps, -, hmissing, hall⟩ | ⟨hall, -⟩⟩ :=
    (extracted_plan_fails_only_uncatalogued shapes Catalog.standard).1 _ _ hextract
  · have hstep : step ∈ steps := by simp [show steps = _ from hsteps]
    rcases List.mem_cons.mp hstep with rfl | hstep
    · exact absurd hmissing (by decide)
    · obtain rfl := List.mem_singleton.mp hstep
      exact hall
  · have hrotate := hall _ (List.mem_cons_of_mem _ List.mem_cons_self)
    exact absurd (hlast.symm.trans hrotate) Bool.false_ne_true

end Playable.Script
