import Playable.Proofs.Cache.Memory
import Playable.Proofs.Script.Outcome

/-!
# Versions without a plan

A version whose script yields no plan is remembered with its fault, so whatever asks for it next
is refused without reading a script, as long as no other version fails. An argument of too many
digits is the one failure that is not remembered.
-/

namespace Playable.Cache

open Cipher Script

variable {extract : Extractor} {cache : Cache} {event : Event} {player script : Text}
  {fault : ExtractionFault}

/-- A version that is not denied is remembered with a fault. -/
structure KeepsFailure (cache : Cache) (player : Text) (fault : ExtractionFault) : Prop where
  /-- The version is not denied. -/
  allowed : Text.isOneOf cache.denied player = false
  /-- The version has the fault. -/
  failed : Register.get? cache.failures player = some fault

/-- A value that is entered under a new name is found. -/
theorem get?_remember_self {α : Type} {capacity : Nat} {r : Register α} {name : Text} {value : α}
    (hcapacity : 0 < capacity) (hnew : name ∉ Register.names r) :
    Register.get? (remember capacity r name value) name = some value := by
  have hkept : name ∉ Register.names (r.drop (r.length + 1 - capacity)) := fun hmem =>
    hnew (((List.drop_sublist _ r).map _).subset hmem)
  rw [remember, Register.set_of_not_mem hnew, List.length_append, List.length_singleton,
    List.drop_append_of_le_length (by omega), Register.get?_append_of_not_mem hkept,
    Register.get?_cons_self]

/-- A version is refused as long as its failure is kept. -/
theorem KeepsFailure.serve (h : KeepsFailure cache player fault) {request : Request}
    (hchecked : request.checked? = some player) :
    cache.serve extract request = ⟨request, .error (.script (.fault fault)), false, cache⟩ :=
  serve_of_refused hchecked (checkSupported_of_failed h.allowed h.failed)

/-- A failure is kept unless another version fails or everything is forgotten. -/
theorem KeepsFailure.step (h : KeepsFailure cache player fault) (hs : Step extract cache event)
    (hclear : event.request ≠ .clear) (hfails : ∀ other, event.Fails other → other = player) :
    KeepsFailure event.after player fault := by
  cases hs with
  | idle => exact h
  | reuse => exact ⟨h.allowed, h.failed⟩
  | build => exact ⟨h.allowed, h.failed⟩
  | @fail other _ _ _ hfailures =>
    obtain rfl := hfails other ⟨⟨rfl, rfl⟩, _, rfl⟩
    cases hfailures.symm.trans h.failed
  | accident => exact h
  | clear => exact absurd rfl hclear

/-- A failure is kept by all requests among which nothing is forgotten and no other version
fails. -/
theorem KeepsFailure.final (h : KeepsFailure cache player fault) {requests : List Request}
    (hrequests : ∀ event ∈ history extract cache requests,
      event.request ≠ .clear ∧ ∀ other, event.Fails other → other = player) :
    KeepsFailure (final extract cache requests) player fault := by
  refine history_induction (P := fun _ cache => KeepsFailure cache player fault) ?_ [] h
  intro _ now request _ hmem hnow
  obtain ⟨hclear, hfails⟩ := hrequests _ hmem
  exact hnow.step (step_serve extract now request) hclear hfails

/-- A version whose script is read and yields no plan keeps its fault, unless an argument cannot
be read. -/
theorem exists_keepsFailure (h : (cache.serve extract (.get player script)).extracted = true)
    (hplan : ∀ plan, (cache.serve extract (.get player script)).result ≠ .ok (.plan plan))
    (hargument : ∀ f, extract script ≠ .error (.argument f)) :
    ∃ fault, extract script = .error (.fault fault) ∧
      (cache.serve extract (.get player script)).result = .error (.script (.fault fault)) ∧
      KeepsFailure (cache.serve extract (.get player script)).after player fault := by
  have hs := step_serve extract cache (.get player script)
  have hrequest : (cache.serve extract (.get player script)).request = .get player script :=
    request_serve _
  generalize cache.serve extract (.get player script) = event at hs h hplan hrequest
  cases hs with
  | idle => cases h
  | reuse => cases h
  | build => exact absurd rfl (hplan _)
  | fail hdenied hfailures _ hextract =>
    obtain ⟨rfl, rfl⟩ := Request.get.inj hrequest
    exact ⟨_, hextract, rfl, hdenied,
      get?_remember_self cache.capacity_pos (Register.get?_eq_none_iff.mp hfailures)⟩
  | accident _ _ _ hextract =>
    obtain ⟨rfl, rfl⟩ := Request.get.inj hrequest
    exact absurd hextract (hargument _)
  | clear => cases h

/-- An argument that cannot be read is not remembered. -/
theorem serve_of_argument {f : Number.IntegerFault} (hcheck : cache.checkSupported player = .ok ())
    (hcontexts : Register.get? cache.contexts player = none)
    (hextract : extract script = .error (.argument f)) :
    cache.serve extract (.get player script) =
      ⟨.get player script, .error (.script (.argument f)), true, cache⟩ := by
  simp only [serve, Cache.get, obtain, recalled, hcheck, hcontexts, Option.map_none, hextract]
  rfl

/-- A declared fault is remembered. -/
theorem serve_of_fault (hcheck : cache.checkSupported player = .ok ())
    (hcontexts : Register.get? cache.contexts player = none)
    (hextract : extract script = .error (.fault fault)) :
    cache.serve extract (.get player script) =
      ⟨.get player script, .error (.script (.fault fault)), true,
        { cache with failures := remember cache.capacity cache.failures player fault }⟩ := by
  simp only [serve, Cache.get, obtain, recalled, hcheck, hcontexts, Option.map_none, hextract]
  rfl

/-- Extraction ends with a plan of at least one step or with a declared fault, unless it comes
to an argument of too many digits, and a version for which it ended without a plan is refused
with the same fault by whatever checks it next. -/
theorem fails_as_declared_unless_overlong (shapes : List Shape) (script : Text) :
    (∀ f, Script.extract shapes script = .error (.argument f) ↔
      ∃ n, f = .tooLong n ∧ StopsAt shapes script n) ∧
    ((∀ n, ¬ StopsAt shapes script n) →
      ((∃ plan, Script.extract shapes script = .ok plan ∧ plan.steps ≠ []) ∨
        ∃ fault, Script.extract shapes script = .error (.fault fault)) ∧
      ∀ cache player, let first := serve (Script.extract shapes) cache (.get player script)
        first.extracted = true → (∀ plan, first.result ≠ .ok (.plan plan)) →
        ∃ fault, Script.extract shapes script = .error (.fault fault) ∧
          first.result = .error (.script (.fault fault)) ∧
          ∀ between, (∀ event ∈ history (Script.extract shapes) first.after between,
              event.request ≠ .clear ∧ ∀ other, event.Fails other → other = player) →
            let now := final (Script.extract shapes) first.after between
            ∀ request, request.checked? = some player → now.serve (Script.extract shapes) request =
              ⟨request, .error (.script (.fault fault)), false, now⟩) := by
  refine ⟨fun f => extract_eq_argument_iff, fun hstops => ?_⟩
  have hargument : ∀ f, Script.extract shapes script ≠ .error (.argument f) := by
    intro f hf
    obtain ⟨n, -, hn⟩ := extract_eq_argument_iff.mp hf
    exact hstops n hn
  constructor
  · cases hextract : Script.extract shapes script with
    | ok plan => exact .inl ⟨plan, rfl, plan.steps_ne_nil⟩
    | error e =>
      cases e with
      | fault fault => exact .inr ⟨fault, rfl⟩
      | argument f => exact absurd hextract (hargument f)
  · intro cache player first hextracted hplan
    obtain ⟨fault, hfault, hresult, hkeeps⟩ := exists_keepsFailure hextracted hplan hargument
    exact ⟨fault, hfault, hresult, fun between hbetween request hchecked =>
      (hkeeps.final hbetween).serve hchecked⟩

/-- A script whose entry routine calls a member that is defined, and behind it one that is not. -/
def halfDefinedScript : Text :=
  "var H=\x7bm:function(z)\x7bz.reverse()\x7d\x7d;e=function(a)\x7b".toList ++
    "a=a.split(\"\");H.m(a,4);H.n(a,5);return a.join(\"\")\x7d;".toList ++
    "c&&d.set(b,encodeURIComponent(e(c.s)));".toList

/-- A call of its entry routine. -/
def halfDefinedCall (member digit : Char) : Call :=
  ⟨['H'], [member], some [digit]⟩

/-- A version whose entry routine makes two calls with readable arguments, the second one of a
member that is not defined, is refused from then on, also behind a request for another version and
with another script. -/
theorem fails_as_declared_undefined_member :
    let run := Script.extract standardShapes
    let fault : ExtractionFault := .undefinedMember ['H'] ['n']
    let cache := fresh 1 []
    let first := cache.serve run (.get "p".toList halfDefinedScript)
    let between := [Request.lookup "q".toList, .contains "p".toList]
    let again := Request.get "p".toList "b.c(a)".toList
    (Reaches standardShapes halfDefinedScript (halfDefinedCall 'm' '4') ∧
        Reaches standardShapes halfDefinedScript (halfDefinedCall 'n' '5')) ∧
      (∀ n, ¬ StopsAt standardShapes halfDefinedScript n) ∧ first.extracted = true ∧
      (∀ plan, first.result ≠ .ok (.plan plan)) ∧
      (∀ event ∈ history run first.after between,
        event.request ≠ .clear ∧ ∀ other, event.Fails other → other = "p".toList) ∧
      first.result = .error (.script (.fault fault)) ∧
        (final run first.after between).serve run again =
          ⟨again, .error (.script (.fault fault)), false, final run first.after between⟩ := by
  intro run fault cache first between again
  let entry : Entry := ⟨['e'], ['a'],
    "\x7ba=a.split(\"\");H.m(a,4);H.n(a,5);return a.join(\"\")\x7d".toList⟩
  have hentry : findEntry halfDefinedScript = .ok entry := by decide +kernel
  have hcalls : calls entry = halfDefinedCall 'm' '4' :: [] ++ [halfDefinedCall 'n' '5'] := by
    decide +kernel
  have hmembers : findMembers standardShapes halfDefinedScript ['H'] =
      .ok [(['m'], some "reverse".toList)] := by decide +kernel
  have hsteps : [halfDefinedCall 'm' '4'].mapM (stepOf ['H'] [(['m'], some "reverse".toList)]) =
      .ok [some ⟨"reverse".toList, some 4⟩] := by decide +kernel
  have hextract : run halfDefinedScript = .error (.fault fault) := by
    have hrun : run halfDefinedScript = (halfDefinedCall 'm' '4').readArgument.bind fun _ =>
        (declared (findMembers standardShapes halfDefinedScript ['H'])).bind
          (buildPlan entry ['H']) := extract_eq hentry hcalls
    rw [hrun, hmembers]
    decide +kernel
  have hstops : ∀ n, ¬ StopsAt standardShapes halfDefinedScript n := by
    intro n hn
    have hargument : run halfDefinedScript = .error (.argument (.tooLong n)) :=
      ((fails_as_declared_unless_overlong standardShapes halfDefinedScript).1 _).mpr ⟨n, rfl, hn⟩
    cases hextract.symm.trans hargument
  have hfirst : first = ⟨.get "p".toList halfDefinedScript, .error (.script (.fault fault)), true,
      { cache with failures := [("p".toList, fault)] }⟩ :=
    serve_of_fault rfl rfl hextract
  have hextracted : first.extracted = true := by rw [hfirst]
  have hplan : ∀ plan, first.result ≠ .ok (.plan plan) := by
    rw [hfirst]
    exact nofun
  have hquiet : ∀ event ∈ history run first.after between,
      event.extracted = false ∧ event.request ≠ .clear := by
    rw [hfirst]
    decide
  have hbetween : ∀ event ∈ history run first.after between,
      event.request ≠ .clear ∧ ∀ other, event.Fails other → other = "p".toList := by
    intro event hmem
    obtain ⟨hread, hclear⟩ := hquiet event hmem
    refine ⟨hclear, fun other hfails => ?_⟩
    cases hread.symm.trans hfails.1.2
  obtain ⟨found, hfound, -, hall⟩ :=
    ((fails_as_declared_unless_overlong standardShapes halfDefinedScript).2 hstops).2 cache
      "p".toList hextracted hplan
  obtain rfl : found = fault := by
    cases hfound.symm.trans hextract
    rfl
  exact ⟨⟨.first hentry hcalls, .later hentry hcalls hmembers hsteps⟩, hstops, hextracted,
    hplan, hbetween, by rw [hfirst], hall between hbetween again rfl⟩

/-- A call with an integer of 4301 digits stops extraction, and the version is not remembered:
the extractor runs again at the next request. -/
theorem overlong_argument_not_remembered :
    let run := Script.extract standardShapes
    let script := callingScript "e".toList "a".toList "b".toList "c".toList
      (Int.ofNat (Nat.pow 10 4300))
    let request := Request.get "p".toList script
    let cache := fresh 1 []
    run script = .error (.argument (.tooLong 4301)) ∧
      history run cache [request, request] =
        [⟨request, .error (.script (.argument (.tooLong 4301))), true, cache⟩,
          ⟨request, .error (.script (.argument (.tooLong 4301))), true, cache⟩] := by
  intro run script request cache
  have hstops : ∀ m, (Text.ofNat m).length = 4301 →
      run (callingScript "e".toList "a".toList "b".toList "c".toList (Int.ofNat m)) =
        .error (.argument (.tooLong 4301)) := fun m hlength =>
    extract_callingScript (Int.ofNat m) standardShapes (by decide) (Text.forall_mem_of_all rfl)
      (by decide) (by decide) (by decide) (by decide) hlength (by decide)
  have hrun : run script = .error (.argument (.tooLong 4301)) :=
    hstops _ (Number.length_ofNat_pow 4300)
  have hget : cache.serve run request =
      ⟨request, .error (.script (.argument (.tooLong 4301))), true, cache⟩ :=
    serve_of_argument rfl rfl hrun
  refine ⟨hrun, ?_⟩
  rw [history, hget, history, hget, history]

end Playable.Cache
