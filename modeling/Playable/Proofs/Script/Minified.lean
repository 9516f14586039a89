import Playable.Proofs.Register
import Playable.Proofs.Script.Entry
import Playable.Proofs.Script.Routine
import Playable.Script.Extract

/-!
# Extraction recovers the plan of a minified script

A minified player script defines a helper object with three members, an entry routine that
calls them, and a place where the routine is used. Whatever identifiers it chooses and
however it writes its calls, extraction gives back the steps for which it was written.
-/

namespace Playable.Script

open Cipher

/-- The names that a minified script chooses. Reserved words are not excluded, and the names
inside the members may be equal to each other or to other names. -/
structure Names extends Locals where
  /-- The helper object. -/
  helper : Text
  /-- The entry routine. -/
  entry : Text
  /-- The parameter of the entry routine. -/
  param : Text
  /-- The members of the helper. -/
  method : Transform → Text
  /-- The helper is an identifier. -/
  helper_identifier : IsIdentifier helper
  /-- The entry routine is an identifier. -/
  entry_identifier : IsIdentifier entry
  /-- The entry routine is written with letters, digits and dollar signs. -/
  entry_plain : ∀ c ∈ entry, Text.isPlainName c = true
  /-- The parameter is an identifier. -/
  param_identifier : IsIdentifier param
  /-- The members are identifiers. -/
  method_identifier : ∀ k, IsIdentifier (method k)
  /-- The members differ. -/
  method_injective : Function.Injective method
  /-- The parameter does not hide the helper. -/
  param_ne_helper : param ≠ helper

/-- The step that a call is written for. -/
def CallSite.step (site : CallSite) : Step :=
  ⟨site.transform.operation, site.argument⟩

namespace Names

variable (n : Names) (sites : List CallSite)

/-- The call of a step. -/
def callText (site : CallSite) : Text :=
  site.toText n.helper n.param n.method

/-- The member that reverses. -/
def reverseMember : Text :=
  n.method .reverse ++ ":function(".toList ++ n.chars ++ ")\x7b".toList ++ n.chars
    ++ ".reverse()\x7d".toList

/-- The member that drops characters. -/
def spliceMember : Text :=
  n.method .splice ++ ":function(".toList ++ n.chars ++ ",".toList ++ n.index ++ ")\x7b".toList
    ++ n.chars ++ ".splice(0,".toList ++ n.index ++ ")\x7d".toList

/-- The member that exchanges two characters. -/
def swapMember : Text :=
  n.method .swap ++ ":function(".toList ++ n.chars ++ ",".toList ++ n.index ++ ")\x7b".toList
    ++ "var ".toList ++ n.saved ++ "=".toList ++ n.chars ++ "[0];".toList
    ++ n.chars ++ "[0]=".toList ++ n.chars ++ "[".toList ++ n.index ++ "%".toList ++ n.chars
    ++ ".length];".toList
    ++ n.chars ++ "[".toList ++ n.index ++ "%".toList ++ n.chars ++ ".length]=".toList ++ n.saved
    ++ "\x7d".toList

/-- The line of the helper. -/
def helperLine : Text :=
  "var ".toList ++ n.helper ++ "=\x7b".toList ++ n.reverseMember ++ ",".toList ++ n.spliceMember
    ++ ",".toList ++ n.swapMember ++ "\x7d;\n".toList

/-- The line of the entry routine, with the given calls in order. -/
def entryLine : Text :=
  n.entry ++ "=function(".toList ++ n.param ++ ")\x7b".toList
    ++ n.param ++ "=".toList ++ n.param ++ ".split(\"\");".toList
    ++ Text.join ";".toList (sites.map n.callText)
    ++ ";return ".toList ++ n.param ++ ".join(\"\")\x7d;\n".toList

/-- The line that hands the result of the entry routine to a setter. -/
def setterLine : Text :=
  "c&&d.set(b,encodeURIComponent(".toList ++ n.entry ++ "(c.s)));".toList

/-- The minified script with the given calls. -/
def script : Text :=
  n.helperLine ++ n.entryLine sites ++ n.setterLine

/-! ## The parts of the script -/

/-- The members of the helper, in the order in which they are written. -/
def members : List Member :=
  [.reverse, .splice, .swap].map fun k : Transform => k.member n.toLocals (n.method k)

/-- The members are written as they stand in the script. -/
theorem map_toText_members :
    n.members.map Member.toText = [n.reverseMember, n.spliceMember, n.swapMember] := by
  unfold members reverseMember spliceMember swapMember
  simp [Member.toText, Member.headText, Transform.member, Transform.params, Transform.body,
    bodyText, Locals.element, Text.join]

/-- The line of the helper holds an object with its members. -/
theorem helperLine_eq : n.helperLine =
    "var ".toList ++ n.helper ++ "=".toList ++ objectText n.members ++ ";\n".toList := by
  rw [objectText, map_toText_members]
  unfold helperLine
  simp [Text.join]

/-- What is written of the entry routine in front of its body. -/
def entryHead : Text :=
  n.entry ++ "=".toList ++ "function".toList ++ "(".toList ++ n.param ++ ")".toList

/-- The entry routine. -/
def routine : Entry :=
  ⟨n.entry, n.param, entryBody n.param (sites.map n.callText)⟩

/-- The line of the entry routine is what stands in front of its body, and its body. -/
theorem entryLine_eq :
    n.entryLine sites = n.entryHead ++ (n.routine sites).body ++ ";\n".toList := by
  unfold entryLine entryHead routine entryBody
  simp

/-- The last line names the entry routine. -/
theorem setterLine_eq : n.setterLine = setterText n.entry ++ "c.s)));".toList := by
  unfold setterLine setterText
  simp

/-- A script is the helper, the entry routine up to its body, the body, and the setter. -/
theorem script_eq : n.script sites = n.helperLine ++ (n.entryHead ++ ((n.routine sites).body
    ++ (";\n".toList ++ (setterText n.entry ++ "c.s)));".toList)))) := by
  rw [script, entryLine_eq, setterLine_eq]
  simp only [List.append_assoc]

/-- A helper can be written with its members. -/
theorem members_isWellFormed : ∀ m ∈ n.members, m.IsWellFormed := by
  intro m hm
  obtain ⟨k, _, rfl⟩ := List.mem_map.mp hm
  exact k.member_isWellFormed n.toLocals (n.method_identifier k)

/-- The body of the entry routine is a literal. -/
theorem routine_isLiteral (before : Text) :
    Literal.IsLiteral before (n.routine sites).body := by
  refine entryBody_isLiteral n.param_identifier (fun t ht => ?_) before
  obtain ⟨site, _, rfl⟩ := List.mem_map.mp ht
  exact callText_isPart site.access site.argument n.helper_identifier
    (n.method_identifier site.transform) n.param_identifier

/-! ## What is found in the script -/

/-- There is no ampersand in front of the setter. -/
theorem ampersand_not_mem_front :
    '&' ∉ n.helperLine ++ n.entryHead ++ (n.routine sites).body ++ ";\n".toList := by
  have hnot : ∀ {t : Text}, IsIdentifier t → '&' ∉ t := fun ht => ht.not_mem rfl
  have hmethod : ∀ k, '&' ∉ n.method k := fun k => hnot (n.method_identifier k)
  have hhelper : '&' ∉ n.helperLine := by
    unfold helperLine reverseMember spliceMember swapMember
    simp [hnot n.helper_identifier, hnot n.chars_identifier, hnot n.index_identifier,
      hnot n.saved_identifier, hmethod]
  have hhead : '&' ∉ n.entryHead := by
    unfold entryHead
    simp [hnot n.entry_identifier, hnot n.param_identifier]
  have hbody : '&' ∉ (n.routine sites).body := by
    refine ampersand_not_mem_entryBody n.param_identifier fun t ht => ?_
    obtain ⟨site, _, rfl⟩ := List.mem_map.mp ht
    exact ampersand_not_mem_callText site.access site.argument n.helper_identifier
      (n.method_identifier site.transform) n.param_identifier
  simp [hhelper, hhead, hbody]

/-- The entry routine is found. -/
theorem findEntry_script : findEntry (n.script sites) = .ok (n.routine sites) := by
  refine findEntry_eq_ok ?_ ?_
  · have hscript : n.script sites = n.helperLine ++ n.entryHead ++ (n.routine sites).body
        ++ ";\n".toList ++ (setterText n.entry ++ "c.s)));".toList) := by
      rw [script_eq]
      simp only [List.append_assoc]
    rw [hscript]
    refine head?_candidates (n.ampersand_not_mem_front sites) ?_ n.entry_identifier.ne_nil
      n.entry_plain _
    rw [getLast?_line]
    rfl
  · have hpassed : IsPassed n.entry n.helperLine := by
      rw [helperLine_eq]
      exact helperLine_isPassed n.entry_identifier n.helper_identifier n.toLocals
        n.method_identifier _
    have hline : n.helperLine.getLast?.any continuesPath = false := by
      rw [helperLine_eq, getLast?_line]
      rfl
    rw [script_eq]
    exact readFunction?_eq_some n.entry_identifier n.param_identifier hpassed hline
      (n.routine_isLiteral sites) rfl _

/-- The calls of the entry routine are those of the steps. -/
theorem calls_routine (h : sites ≠ []) :
    calls (n.routine sites) = sites.map (·.toCall n.helper n.method) :=
  calls_entryBody n.helper_identifier n.param_identifier n.method_identifier
    n.param_ne_helper.symm h n.entry

/-- The helper is the object of the first call. -/
theorem findHelper_routine (h : sites ≠ []) :
    findHelper (n.routine sites) = .ok n.helper := by
  obtain ⟨site, more, rfl⟩ := List.exists_cons_of_ne_nil h
  rw [findHelper, calls_routine n _ h, List.map_cons]
  simp only [site.readArgument_toCall]
  rfl

/-- What the members do. -/
def operations : Members :=
  [.reverse, .splice, .swap].map fun k : Transform => (n.method k, some k.operation)

/-- No two members have the same name. -/
theorem operations_nodup : (Register.names n.operations).Nodup := by
  have hnames : Register.names n.operations = [.reverse, .splice, .swap].map n.method := rfl
  rw [hnames]
  exact (by decide : [Transform.reverse, .splice, .swap].Nodup).map n.method_injective

/-- The members are found with their operations. -/
theorem findMembers_script :
    findMembers standardShapes (n.script sites) n.helper = .ok n.operations := by
  have hread : readObject? (n.script sites) n.helper = some (objectText n.members) := by
    have hscript : n.script sites = "var ".toList ++ (n.helper ++ "=".toList
        ++ (objectText n.members ++ (";\n".toList ++ n.entryLine sites ++ n.setterLine))) := by
      rw [script, helperLine_eq]
      simp only [List.append_assoc]
    rw [hscript]
    exact readObject?_eq_some n.helper_identifier.ne_nil n.helper_identifier.not_blank
      (n.helper_identifier.not_mem rfl) (isLiteral_objectText n.members_isWellFormed) rfl _
  have hoperations : (n.members.map fun m => (m.name, classify standardShapes m.params m.body)) =
      n.operations := by
    rw [members, List.map_map]
    refine List.map_congr_left fun k _ => ?_
    exact congrArg (n.method k, ·) (k.classify_bodyText n.toLocals)
  simp only [findMembers, hread, readMembers_objectText n.members_isWellFormed, hoperations,
    Register.ofPairs_of_nodup n.operations_nodup]

/-- A call of a member is the step that it is written for. -/
theorem stepOf_toCall (site : CallSite) :
    stepOf n.helper n.operations (site.toCall n.helper n.method) = .ok (some site.step) := by
  have hmem : (n.method site.transform, some site.transform.operation) ∈ n.operations := by
    refine List.mem_map.mpr ⟨site.transform, ?_, rfl⟩
    cases site.transform <;> simp
  have hget : Register.get? n.operations (site.toCall n.helper n.method).member =
      some (some site.transform.operation) :=
    Register.get?_of_mem n.operations_nodup hmem
  have hobject : (site.toCall n.helper n.method).object = n.helper := rfl
  simp only [stepOf, site.readArgument_toCall, hget, hobject, ne_eq, not_true_eq_false, if_false]
  rfl

/-- The steps of all calls, in order. -/
theorem mapM_stepOf : (sites.map (·.toCall n.helper n.method)).mapM
    (stepOf n.helper n.operations) = .ok (sites.map fun site => some site.step) := by
  induction sites with
  | nil => rfl
  | cons site sites ih =>
    rw [List.map_cons, List.mapM_cons, stepOf_toCall, ih]
    rfl

/-- The plan of a minified script is the sequence of steps for which it was written. -/
theorem extract_script (h : sites ≠ []) : extract standardShapes (n.script sites) =
    .ok ⟨sites.map CallSite.step, by simpa using h⟩ := by
  have hsteps : (sites.map fun site => some site.step).filterMap id =
      sites.map CallSite.step := by
    simp [List.filterMap_map]
  have hne : sites.map CallSite.step ≠ [] := by simpa using h
  have hplan : buildPlan (n.routine sites) n.helper n.operations =
      .ok ⟨sites.map CallSite.step, hne⟩ := by
    rw [buildPlan, calls_routine n sites h, mapM_stepOf]
    simp only [bind, Except.bind, hsteps, Plan.ofSteps?, dif_neg hne]
    rfl
  rw [extract, findEntry_script]
  simp only [declared, bind, Except.bind, findHelper_routine n sites h, findMembers_script, hplan]

end Names

/-- Names of a player script; the parameter of the members is the one of the routine. -/
def sampleNames : Names where
  chars := "a".toList
  index := "b".toList
  saved := "c".toList
  chars_identifier := by decide
  index_identifier := by decide
  saved_identifier := by decide
  helper := "Xy".toList
  entry := "$L1".toList
  param := "a".toList
  method
    | .reverse => "VP".toList
    | .splice => "e_2".toList
    | .swap => "set".toList
  helper_identifier := by decide
  entry_identifier := by decide
  entry_plain := Text.forall_mem_of_all rfl
  param_identifier := by decide
  method_identifier := by
    intro k
    cases k <;> decide
  method_injective := by
    intro j k
    cases j <;> cases k <;> decide
  param_ne_helper := by decide

/-- Calls of every form, one of them twice. -/
def sampleCalls : List CallSite :=
  [⟨.swap, .dot, some 12, by decide⟩, ⟨.reverse, .dot, none, by decide⟩,
    ⟨.splice, .double, some (-3), by decide⟩, ⟨.reverse, .single, some 40, by decide⟩,
    ⟨.swap, .dot, some 12, by decide⟩]

/-- The plan of a script with calls of every form. -/
theorem extract_script_sample : sampleCalls ≠ [] ∧
    sampleNames.script sampleCalls =
      ("var Xy=\x7bVP:function(a)\x7ba.reverse()\x7d,".toList
        ++ "e_2:function(a,b)\x7ba.splice(0,b)\x7d,".toList
        ++ "set:function(a,b)\x7bvar c=a[0];a[0]=a[b%a.length];a[b%a.length]=c\x7d\x7d;\n".toList
        ++ "$L1=function(a)\x7ba=a.split(\"\");".toList
        ++ "Xy.set(a,12);Xy.VP(a);Xy[\"e_2\"](a,-3);Xy['VP'](a,40);Xy.set(a,12);".toList
        ++ "return a.join(\"\")\x7d;\n".toList
        ++ "c&&d.set(b,encodeURIComponent($L1(c.s)));".toList) ∧
    extract standardShapes (sampleNames.script sampleCalls) =
      .ok ⟨[⟨"swap".toList, some 12⟩, ⟨"reverse".toList, none⟩, ⟨"splice".toList, some (-3)⟩,
        ⟨"reverse".toList, some 40⟩, ⟨"swap".toList, some 12⟩], by simp⟩ :=
  ⟨List.cons_ne_nil _ _, by decide +kernel,
    sampleNames.extract_script sampleCalls (List.cons_ne_nil _ _)⟩

end Playable.Script
