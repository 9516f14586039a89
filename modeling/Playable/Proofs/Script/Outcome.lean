import Playable.Proofs.Pattern.Capture
import Playable.Proofs.Script.Entry
import Playable.Proofs.Script.Routine
import Playable.Proofs.Sequence
import Playable.Script.Extract

/-!
# How extraction can end

Reading a script ends with a plan or a declared fault, with one exception: a call of the entry
routine may have an argument of more digits than an integer may be written with. It is told
which calls are read at all, so the exception is characterised exactly.
-/

namespace Playable.Script

open Cipher Pattern

variable {shapes : List Shape} {script helper w : Text} {entry : Entry} {call : Call}
  {members : Members} {e : ScriptError} {f : Number.IntegerFault} {n : Nat}

/-! ## Arguments -/

/-- A text is a numeral with digits of any script. -/
def IsNumeral (w : Text) : Prop :=
  ∃ negative digits, w = Number.numeral negative digits ∧ digits ≠ [] ∧
    ∀ c ∈ digits, Text.isDecimalDigit c = true

/-- What the shape of an argument fits is a numeral. -/
theorem isNumeral_of_fits {before rest : Text}
    (h : (optional (lit "-") ++ some1 Text.isDecimalDigit).Fits before w rest) : IsNumeral w := by
  obtain ⟨sign, digits, rfl, hsign, _, more, rfl, ⟨c, hc, rfl⟩, hmore⟩ := h
  have hdigits : ∀ d ∈ c :: more, Text.isDecimalDigit d = true := by
    intro d hd
    rcases List.mem_cons.mp hd with rfl | hd
    · exact hc
    · exact hmore d hd
  rcases hsign with rfl | rfl
  · exact ⟨true, c :: more, rfl, List.cons_ne_nil c more, hdigits⟩
  · exact ⟨false, c :: more, rfl, List.cons_ne_nil c more, hdigits⟩

/-- The argument of a call is captured as a numeral. -/
theorem callShape_labels (param : Text) : (callShape param).Labels "argument" IsNumeral := by
  have hother {name : String} {part : Pattern} (hname : name ≠ "argument")
      (hpart : part.Labels "argument" IsNumeral) :
      (label name part).Labels "argument" IsNumeral :=
    ⟨fun h => absurd h hname, hpart⟩
  have hobject : (label "object" identifier).Labels "argument" IsNumeral :=
    hother (by decide) ⟨trivial, trivial⟩
  have hdot : (lit "." ++ blanks ++ label "member" identifier).Labels "argument" IsNumeral :=
    ⟨⟨trivial, trivial⟩, hother (by decide) ⟨trivial, trivial⟩⟩
  have hquote : (label "quote" (anyOf "\"'")).Labels "argument" IsNumeral :=
    hother (by decide) trivial
  have hmember : (label "member" (someBut "\"'")).Labels "argument" IsNumeral :=
    hother (by decide) ⟨trivial, trivial⟩
  have haccess : accessShape.Labels "argument" IsNumeral :=
    ⟨hdot, ⟨⟨⟨⟨⟨trivial, trivial⟩, hquote⟩, hmember⟩, trivial⟩, trivial⟩, trivial⟩
  have hargument : argumentShape.Labels "argument" IsNumeral :=
    ⟨⟨⟨trivial, trivial⟩, fun _ _ _ _ h => isNumeral_of_fits h, trivial, trivial, trivial⟩, trivial⟩
  have hspaced : (spaced "(").Labels "argument" IsNumeral :=
    ⟨⟨trivial, trivial⟩, trivial⟩
  rw [callShape_eq]
  exact ⟨⟨⟨⟨⟨⟨⟨⟨trivial, hobject⟩, trivial⟩, haccess⟩, hspaced⟩, trivial⟩, trivial⟩, hargument⟩,
    trivial⟩

/-- The argument of a call that was found is a numeral. -/
theorem isNumeral_of_mem_calls (hcall : call ∈ calls entry) (hw : call.argument = some w) :
    IsNumeral w := by
  rw [calls_eq] at hcall
  obtain ⟨m, hm, rfl⟩ := List.mem_map.mp (List.mem_of_mem_filter hcall)
  exact capture_of_mem_findAll (callShape_labels entry.param) hm hw

/-- The argument of a call is a numeral of too many digits. -/
def Call.IsOverlong (call : Call) (n : Nat) : Prop :=
  ∃ negative digits, call.argument = some (Number.numeral negative digits) ∧
    (∀ c ∈ digits, Text.isDecimalDigit c = true) ∧ digits.length = n ∧ Number.maxDigits < n

/-- The argument of a call that was found cannot be read exactly if it has too many digits. -/
theorem readArgument_eq_error_iff (hcall : call ∈ calls entry) :
    call.readArgument = .error e ↔ ∃ n, e = .argument (.tooLong n) ∧ call.IsOverlong n := by
  constructor
  · intro h
    rw [Call.readArgument] at h
    cases hargument : call.argument with
    | none =>
      rw [hargument] at h
      cases h
    | some w =>
      obtain ⟨negative, digits, rfl, hne, hd⟩ := isNumeral_of_mem_calls hcall hargument
      simp only [hargument] at h
      cases hinteger : Number.integer (Number.numeral negative digits) with
      | ok i =>
        rw [hinteger] at h
        cases h
      | error f =>
        rw [hinteger] at h
        obtain rfl := Except.error.inj h
        obtain ⟨hlong, rfl⟩ := (Number.integer_numeral_eq_error_iff negative hne hd).mp hinteger
        exact ⟨digits.length, rfl, negative, digits, hargument, hd, rfl, hlong⟩
  · rintro ⟨_, rfl, negative, digits, hargument, hd, rfl, hlong⟩
    have hne : digits ≠ [] := List.ne_nil_of_length_pos (Nat.zero_lt_of_lt hlong)
    have hinteger := (Number.integer_numeral_eq_error_iff negative hne hd).mpr ⟨hlong, rfl⟩
    simp only [Call.readArgument, hargument, hinteger]

/-! ## The end of an extraction -/

/-- Reading a script comes to a call of its entry routine. -/
inductive Reaches (shapes : List Shape) (script : Text) : Call → Prop where
  /-- The first call is read to find the helper object. -/
  | first {entry : Entry} {call : Call} {more : List Call}
      (hentry : findEntry script = .ok entry) (hcalls : calls entry = call :: more) :
      Reaches shapes script call
  /-- Any other call is read if all calls before it are steps. -/
  | later {entry : Entry} {first call : Call} {between more : List Call} {members : Members}
      {steps : List (Option Step)} (hentry : findEntry script = .ok entry)
      (hcalls : calls entry = first :: between ++ call :: more)
      (hmembers : findMembers shapes script first.object = .ok members)
      (hsteps : (first :: between).mapM (stepOf first.object members) = .ok steps) :
      Reaches shapes script call

/-- Reading a script comes to an argument with so many digits that it cannot be read. -/
def StopsAt (shapes : List Shape) (script : Text) (n : Nat) : Prop :=
  ∃ call, Reaches shapes script call ∧ call.IsOverlong n

/-- A call stops at its argument exactly if the argument cannot be read. -/
theorem stepOf_eq_argument_iff :
    stepOf helper members call = .error (.argument f) ↔
      call.readArgument = .error (.argument f) := by
  rw [stepOf]
  cases call.readArgument with
  | error e => simp [bind, Except.bind]
  | ok argument =>
    refine ⟨fun h => ?_, nofun⟩
    simp only [bind, Except.bind, pure, Except.pure] at h
    split at h
    · cases h
    · split at h <;> cases h

/-- A call whose step is found has an argument that can be read. -/
theorem exists_readArgument {step : Option Step} (h : stepOf helper members call = .ok step) :
    ∃ argument, call.readArgument = .ok argument := by
  rw [stepOf] at h
  cases hread : call.readArgument with
  | error e =>
    rw [hread] at h
    cases h
  | ok argument => exact ⟨argument, rfl⟩

/-- Behind the entry routine and its first call come the members of the helper object, and the
steps. -/
theorem extract_eq {more : List Call} (hentry : findEntry script = .ok entry)
    (hcalls : calls entry = call :: more) : extract shapes script =
      call.readArgument.bind fun _ => (declared (findMembers shapes script call.object)).bind
        (buildPlan entry call.object) := by
  rw [extract, hentry]
  simp only [declared, bind, Except.bind, findHelper, hcalls]
  cases call.readArgument <;> rfl

/-- A plan stops at an argument exactly if one of the calls does, behind steps. -/
theorem buildPlan_eq_argument_iff :
    buildPlan entry helper members = .error (.argument f) ↔
      ∃ before call after steps, calls entry = before ++ call :: after ∧
        before.mapM (stepOf helper members) = .ok steps ∧
        call.readArgument = .error (.argument f) := by
  have hcall : (calls entry).mapM (stepOf helper members) = .error (.argument f) ↔
      ∃ before call after steps, calls entry = before ++ call :: after ∧
        before.mapM (stepOf helper members) = .ok steps ∧
        call.readArgument = .error (.argument f) := by
    simp only [mapM_eq_error_iff, stepOf_eq_argument_iff]
  rw [← hcall, buildPlan]
  cases (calls entry).mapM (stepOf helper members) with
  | error e => simp [bind, Except.bind]
  | ok steps =>
    refine ⟨fun h => ?_, nofun⟩
    simp only [bind, Except.bind, pure, Except.pure] at h
    split at h <;> cases h

/-- Extraction stops at an argument exactly if it reaches one with too many digits. -/
theorem extract_eq_argument_iff : extract shapes script = .error (.argument f) ↔
    ∃ n, f = .tooLong n ∧ StopsAt shapes script n := by
  constructor
  · intro h
    cases hentry : findEntry script with
    | error e =>
      rw [extract, hentry] at h
      cases h
    | ok entry =>
      cases hcalls : calls entry with
      | nil =>
        rw [extract, hentry] at h
        simp only [declared, bind, Except.bind, findHelper, hcalls] at h
        cases h
      | cons first more =>
        have hoverlong {call : Call} (hmem : call ∈ calls entry)
            (hread : call.readArgument = .error (.argument f)) :
            ∃ n, f = .tooLong n ∧ call.IsOverlong n := by
          obtain ⟨n, hf, hlong⟩ := (readArgument_eq_error_iff hmem).mp hread
          exact ⟨n, ScriptError.argument.inj hf, hlong⟩
        rw [extract_eq hentry hcalls] at h
        cases hread : first.readArgument with
        | error e =>
          rw [hread] at h
          obtain rfl := Except.error.inj h
          obtain ⟨n, hf, hlong⟩ := hoverlong (by simp [hcalls]) hread
          exact ⟨n, hf, first, .first hentry hcalls, hlong⟩
        | ok argument =>
          cases hmembers : findMembers shapes script first.object with
          | error e =>
            rw [hread, hmembers] at h
            cases h
          | ok members =>
            rw [hread, hmembers] at h
            obtain ⟨before, call, after, steps, hsplit, hsteps, hcall⟩ :=
              buildPlan_eq_argument_iff.mp h
            obtain ⟨n, hf, hlong⟩ := hoverlong (by simp [hsplit]) hcall
            cases before with
            | nil =>
              -- The first call is read once more, and its argument was fine before.
              obtain ⟨rfl, -⟩ := List.cons.inj (hcalls.symm.trans hsplit)
              cases hread.symm.trans hcall
            | cons other between =>
              obtain ⟨rfl, -⟩ := List.cons.inj (hcalls.symm.trans hsplit)
              exact ⟨n, hf, call, .later hentry hsplit hmembers hsteps, hlong⟩
  · rintro ⟨n, rfl, call, hreaches, hlong⟩
    cases hreaches with
    | @first entry _ more hentry hcalls =>
      have hmem : call ∈ calls entry := by simp [hcalls]
      have hread := (readArgument_eq_error_iff hmem).mpr ⟨n, rfl, hlong⟩
      rw [extract_eq hentry hcalls, hread]
      rfl
    | @later entry first _ between more members steps hentry hcalls hmembers hsteps =>
      have hmem : call ∈ calls entry := by simp [hcalls]
      have hread := (readArgument_eq_error_iff hmem).mpr ⟨n, rfl, hlong⟩
      have hplan : buildPlan entry first.object members = .error (.argument (.tooLong n)) :=
        buildPlan_eq_argument_iff.mpr ⟨first :: between, call, more, steps, hcalls, hsteps, hread⟩
      obtain ⟨step, hstep⟩ := mapM_succeeds_iff.mp ⟨steps, hsteps⟩ first List.mem_cons_self
      obtain ⟨argument, hfirst⟩ := exists_readArgument hstep
      rw [extract_eq hentry hcalls, hfirst, hmembers]
      exact hplan

/-! ## A script that stops -/

section Caller

variable {name param object member : Text} (i : Int)

/-- The entry routine that makes one call with an integer of any size. -/
def callingRoutine (name param object member : Text) (i : Int) : Entry :=
  ⟨name, param, entryBody param [callText object param member .dot (some i)]⟩

/-- A script of such an entry routine and the setter that its result is handed to. -/
def callingScript (name param object member : Text) (i : Int) : Text :=
  name ++ "=".toList ++ "function".toList ++ "(".toList ++ param ++ ")".toList
    ++ ((callingRoutine name param object member i).body
      ++ (";\n".toList ++ (setterText name ++ "c.s)));".toList)))

/-- The entry routine of such a script is found. -/
theorem findEntry_callingScript (hname : IsIdentifier name)
    (hplain : ∀ c ∈ name, Text.isPlainName c = true) (hparam : IsIdentifier param)
    (hobject : IsIdentifier object) (hmember : IsIdentifier member) :
    findEntry (callingScript name param object member i) =
      .ok (callingRoutine name param object member i) := by
  have hcalls : ∀ t ∈ [callText object param member .dot (some i)],
      '&' ∉ t ∧ Literal.IsPart t := by
    intro t ht
    rw [List.mem_singleton.mp ht]
    exact ⟨ampersand_not_mem_callText .dot (some i) hobject hmember hparam,
      callText_isPart .dot (some i) hobject hmember hparam⟩
  have hpassed : IsPassed name [] := fun _ _ => by simp
  have hread := readFunction?_eq_some hname hparam hpassed rfl
    (entryBody_isLiteral hparam fun t ht => (hcalls t ht).2) rfl
    (";\n".toList ++ (setterText name ++ "c.s)));".toList))
  refine findEntry_eq_ok ?_ hread
  have hname' : '&' ∉ name := hname.not_mem rfl
  have hparam' : '&' ∉ param := hparam.not_mem rfl
  have hbody : '&' ∉ (callingRoutine name param object member i).body :=
    ampersand_not_mem_entryBody hparam fun t ht => (hcalls t ht).1
  have hfront : '&' ∉ name ++ "=".toList ++ "function".toList ++ "(".toList ++ param
      ++ ")".toList ++ (callingRoutine name param object member i).body ++ ";\n".toList := by
    simp only [List.mem_append, not_or]
    exact ⟨⟨⟨⟨⟨⟨⟨hname', by decide⟩, by decide⟩, by decide⟩, hparam'⟩, by decide⟩, hbody⟩,
      by decide⟩
  have hscript : callingScript name param object member i =
      name ++ "=".toList ++ "function".toList ++ "(".toList ++ param ++ ")".toList
        ++ (callingRoutine name param object member i).body ++ ";\n".toList
        ++ (setterText name ++ "c.s)));".toList) := by
    simp only [callingScript, List.append_assoc]
  rw [hscript]
  refine head?_candidates hfront ?_ hname.ne_nil hplain _
  rw [getLast?_line]
  rfl

/-- The call in such a script is found. -/
theorem calls_callingRoutine (name : Text) (hparam : IsIdentifier param)
    (hobject : IsIdentifier object) (hmember : IsIdentifier member) (hne : object ≠ param) :
    calls (callingRoutine name param object member i) =
      [⟨object, member, some (Text.ofInt i)⟩] := by
  have hstart : ('\x7b' :: param ++ ['='] ++ (param ++ ['.'])
      ++ ("split(\"\")".toList ++ [';'])).getLast?.any continuesPath = false := by
    rw [← List.append_assoc _ _ [';'], List.getLast?_concat]
    rfl
  obtain ⟨captures, hlabels, hfound⟩ := matchesBehind_of_takes
    (callShape_takes .dot (some i) hobject hmember hparam _ hstart (';' :: joinText param))
    (callText_ne_nil .dot (some i) hobject)
  have hread : ∀ before rest, readCall (Cursor.after before rest captures) =
      ⟨object, member, some (Text.ofInt i)⟩ := by
    intro before rest
    simp only [readCall, Cursor.capture, Cursor.capture?_after, hlabels]
    rfl
  have hjoin : ∀ before, (callShape param).matchesBehind before (';' :: joinText param) = [] := by
    intro before
    rw [← List.nil_append (';' :: _), callShape_skip (by simp) rfl, callShape_skip_join hparam]
  have hbody : (callShape param).matchesBehind []
      (entryBody param [callText object param member .dot (some i)]) =
      (callShape param).matchesBehind ('\x7b' :: param ++ ['='] ++ (param ++ ['.'])
        ++ ("split(\"\")".toList ++ [';']))
        (callText object param member .dot (some i) ++ ';' :: joinText param) := by
    rw [entryBody_eq (List.cons_ne_nil _ _), callShape_skip_split hparam]
    simp only [List.flatMap_cons, List.flatMap_nil, List.append_nil, List.append_assoc,
      List.singleton_append]
  rw [calls_eq, findAll_eq, callingRoutine, hbody, hfound, hjoin, List.map_cons, hread]
  simp [hne]

/-- Extraction from such a script stops at an integer of too many digits. -/
theorem extract_callingScript (shapes : List Shape) (hname : IsIdentifier name)
    (hplain : ∀ c ∈ name, Text.isPlainName c = true) (hparam : IsIdentifier param)
    (hobject : IsIdentifier object) (hmember : IsIdentifier member) (hne : object ≠ param)
    (hlength : (Text.ofNat i.natAbs).length = n) (hlong : Number.maxDigits < n) :
    extract shapes (callingScript name param object member i) =
      .error (.argument (.tooLong n)) := by
  have hentry := findEntry_callingScript i hname hplain hparam hobject hmember
  have hcalls := calls_callingRoutine i name hparam hobject hmember hne
  have hdigit : ∀ c ∈ Text.ofNat i.natAbs, Text.isDecimalDigit c = true := fun c hc =>
    Number.isDecimalDigit_of_isDigit (Number.isDigit_of_mem_ofNat hc)
  refine extract_eq_argument_iff.mpr ⟨n, rfl, _, .first hentry hcalls, ?_⟩
  cases i with
  | ofNat k => exact ⟨false, Text.ofNat k, rfl, hdigit, hlength, hlong⟩
  | negSucc k => exact ⟨true, Text.ofNat (k + 1), rfl, hdigit, hlength, hlong⟩

end Caller

end Playable.Script
