import Mathlib.Data.List.Induction
import Mathlib.Data.List.Pairwise
import Mathlib.Logic.Function.Basic
import Playable.Proofs.Cache.Failure

/-!
# Interleaved calls

Several callers use one cache at a time. A call takes two turns, the check of its version
and a section in which it has the cache to itself, and the other callers may take turns in
between. Plans are looked for in the second turn, so a plan that was built in between is
found. Failures are looked for in the first turn only: a call that passed the check before
the version failed does not see the failure, and runs the extractor again.
-/

namespace Playable

open Cipher Script

/-- A call of a cache. -/
inductive Demand where
  /-- For the plan of a version, with its script at hand. -/
  | get (player script : Text)
  /-- For the plan of a version, if it is remembered. -/
  | lookup (player : Text)
  deriving DecidableEq

namespace Demand

/-- The version that a call is about. -/
def player : Demand → Text
  | get player _ => player
  | lookup player => player

/-- The call as a single request. -/
def request : Demand → Request
  | get player script => .get player script
  | lookup player => .lookup player

/-- What a call does with the cache to itself, once its version has passed the check. -/
def enter (extract : Extractor) (cache : Cache) : Demand → Event
  | get player script =>
    let reply := cache.obtain extract player script
    ⟨.get player script, reply.result.map .plan, reply.extracted, reply.cache⟩
  | lookup player =>
    match cache.recalled player with
    | some (plan, cache) => ⟨.lookup player, .ok (.plan plan), false, cache⟩
    | none => ⟨.lookup player, .ok .unknown, false, cache⟩

end Demand

/-- How far a call has come. -/
inductive Stage where
  /-- It has not begun. -/
  | waiting
  /-- Its version has passed the check. -/
  | admitted
  /-- It has ended. -/
  | ended
  deriving DecidableEq

/-- One turn of a caller. -/
structure Turn where
  /-- The number of the caller. -/
  caller : ℕ
  /-- What the turn does: the check of the version, or the call itself. -/
  event : Event

/-- A cache with its callers. -/
structure Moment where
  /-- The cache. -/
  cache : Cache
  /-- How far the calls have come. -/
  stage : ℕ → Stage

namespace Moment

variable (extract : Extractor) (calls : ℕ → Demand) (now : Moment) (i : ℕ)

/-- No call has begun. -/
def start (cache : Cache) : Moment :=
  ⟨cache, fun _ => .waiting⟩

/-- The next turn of a caller. -/
def turn : Turn where
  caller := i
  event :=
    if now.stage i = .waiting then now.cache.serve extract (.check (calls i).player)
    else (calls i).enter extract now.cache

/-- How far a caller has come after its next turn. A refusal ends the call. -/
def nextStage : Stage :=
  if now.stage i = .waiting ∧ now.cache.checkSupported (calls i).player = .ok () then .admitted
  else .ended

/-- The moment after the next turn of a caller. -/
def next : Moment where
  cache := (now.turn extract calls i).event.after
  stage := Function.update now.stage i (now.nextStage calls i)

end Moment

/-- What callers have done since a cache was handed to them. Each turn is one of any caller
whose call is not over. -/
inductive Run (extract : Extractor) (calls : ℕ → Demand) (cache : Cache) :
    List Turn → Moment → Prop where
  /-- Nobody has had a turn. -/
  | start : Run extract calls cache [] (.start cache)
  /-- One turn more. -/
  | step {past : List Turn} {now : Moment} (h : Run extract calls cache past now) (i : ℕ)
      (hstage : now.stage i ≠ .ended) :
      Run extract calls cache (past ++ [now.turn extract calls i]) (now.next extract calls i)

/-- A turn is the check of a version by a caller. -/
def Turn.Checks (turn : Turn) (caller : ℕ) (player : Text) : Prop :=
  turn.caller = caller ∧ turn.event.request = .check player

/-- A turn built the plan of a version. -/
def Turn.Builds (extract : Extractor) (turn : Turn) (player : Text) : Prop :=
  ∃ plan, turn.event.Records extract player (.ok plan)

/-- A turn found that a script of a version yields no plan. -/
def Turn.Refutes (extract : Extractor) (turn : Turn) (player : Text) : Prop :=
  ∃ fault, turn.event.Records extract player (.error (.fault fault))

/-- Since a caller checked a version, another turn found that the version has no plan. -/
def Overtaken (extract : Extractor) (past : List Turn) (caller : ℕ) (player : Text) : Prop :=
  ∃ older check since, past = older ++ check :: since ∧ check.Checks caller player ∧
    ∃ turn ∈ since, turn.Refutes extract player

namespace Cache

variable {extract : Extractor} {calls : ℕ → Demand} {cache : Cache} {player : Text}
  {past turns : List Turn} {now : Moment} {i : ℕ} {size : Int} {denied : List Text}
  {demand : Demand} {stage stage' : Stage} {event : Event}

/-- Everything that a turn can do: from a stage, with a call, to another stage. -/
inductive Advance (extract : Extractor) (cache : Cache) (demand : Demand) :
    Stage → Event → Stage → Prop where
  /-- The version is refused. -/
  | refuse {e : PlayerError} (hcheck : cache.checkSupported demand.player = .error e) :
      Advance extract cache demand .waiting ⟨.check demand.player, .error e, false, cache⟩ .ended
  /-- The version passes the check. -/
  | accept (hcheck : cache.checkSupported demand.player = .ok ()) :
      Advance extract cache demand .waiting ⟨.check demand.player, .ok .done, false, cache⟩
        .admitted
  /-- A remembered plan is returned and becomes the latest. -/
  | reuse {plan : Plan} (hcontexts : Register.get? cache.contexts demand.player = some plan) :
      Advance extract cache demand .admitted ⟨demand.request, .ok (.plan plan), false,
        { cache with contexts := touch cache.contexts demand.player plan }⟩ .ended
  /-- No plan is remembered, and none is built. -/
  | unknown {player : Text} (hdemand : demand = .lookup player)
      (hcontexts : Register.get? cache.contexts player = none) :
      Advance extract cache demand .admitted ⟨.lookup player, .ok .unknown, false, cache⟩ .ended
  /-- A plan is recovered from the script and remembered. -/
  | build {player script : Text} {plan : Plan} (hdemand : demand = .get player script)
      (hcontexts : Register.get? cache.contexts player = none)
      (hextract : extract script = .ok plan) :
      Advance extract cache demand .admitted ⟨.get player script, .ok (.plan plan), true,
        { cache with contexts := remember cache.capacity cache.contexts player plan }⟩ .ended
  /-- The script yields no plan, which is remembered. -/
  | fail {player script : Text} {fault : ExtractionFault} (hdemand : demand = .get player script)
      (hcontexts : Register.get? cache.contexts player = none)
      (hextract : extract script = .error (.fault fault)) :
      Advance extract cache demand .admitted
        ⟨.get player script, .error (.script (.fault fault)), true,
          { cache with failures := remember cache.capacity cache.failures player fault }⟩ .ended
  /-- The script cannot be read to its end, which is not remembered. -/
  | accident {player script : Text} {f : Number.IntegerFault}
      (hdemand : demand = .get player script)
      (hcontexts : Register.get? cache.contexts player = none)
      (hextract : extract script = .error (.argument f)) :
      Advance extract cache demand .admitted
        ⟨.get player script, .error (.script (.argument f)), true, cache⟩ .ended

/-- A call that has the cache to itself advances. -/
theorem advance_enter (extract : Extractor) (cache : Cache) (demand : Demand) :
    Advance extract cache demand .admitted (demand.enter extract cache) .ended := by
  cases demand with
  | get player script =>
    simp only [Demand.enter, obtain, recalled]
    cases hcontexts : Register.get? cache.contexts player with
    | some plan => exact .reuse hcontexts
    | none =>
      simp only [Option.map_none]
      cases hextract : extract script with
      | ok plan => exact .build rfl hcontexts hextract
      | error e =>
        cases e with
        | fault fault => exact .fail rfl hcontexts hextract
        | argument f => exact .accident rfl hcontexts hextract
  | lookup player =>
    simp only [Demand.enter, recalled]
    cases hcontexts : Register.get? cache.contexts player with
    | some plan => exact .reuse hcontexts
    | none => exact .unknown rfl hcontexts

/-- A turn is one of these. -/
theorem advance_turn (extract : Extractor) (calls : ℕ → Demand) (hstage : now.stage i ≠ .ended) :
    Advance extract now.cache (calls i) (now.stage i) (now.turn extract calls i).event
      (now.nextStage calls i) := by
  unfold Moment.turn Moment.nextStage
  cases hnow : now.stage i with
  | waiting =>
    cases hcheck : now.cache.checkSupported (calls i).player with
    | error e => simpa [serve, hcheck, Except.map] using Advance.refuse hcheck
    | ok _ => simpa [serve, hcheck, Except.map] using Advance.accept hcheck
  | admitted => simpa using advance_enter extract now.cache (calls i)
  | ended => exact absurd hnow hstage

/-- Two turns of a caller with nobody in between serve its request, if its version passes the
check. -/
theorem turn_next (hstage : now.stage i = .waiting)
    (hcheck : now.cache.checkSupported (calls i).player = .ok ()) :
    ((now.next extract calls i).turn extract calls i).event =
      now.cache.serve extract (calls i).request := by
  have hcache : (now.next extract calls i).cache = now.cache := by
    simp [Moment.next, Moment.turn, hstage, serve]
  have hnext : (now.next extract calls i).stage i = .admitted := by
    simp [Moment.next, Moment.nextStage, hstage, hcheck]
  rw [Moment.turn, hcache, hnext]
  cases hdemand : calls i with
  | get player script =>
    rw [hdemand] at hcheck
    change now.cache.checkSupported player = .ok () at hcheck
    simp [Demand.request, Demand.enter, serve, Cache.get, hcheck]
  | lookup player =>
    rw [hdemand] at hcheck
    change now.cache.checkSupported player = .ok () at hcheck
    simp only [Demand.request, Demand.enter, serve, lookup, hcheck]
    cases now.cache.recalled player <;> rfl

/-- A caller whose version passes the check is admitted, and nothing else happens. -/
theorem run_check (h : Run extract calls cache past now) (hstage : now.stage i = .waiting)
    (hcheck : now.cache.checkSupported (calls i).player = .ok ()) :
    Run extract calls cache
      (past ++ [⟨i, .check (calls i).player, .ok .done, false, now.cache⟩])
      ⟨now.cache, Function.update now.stage i .admitted⟩ := by
  have hstep := h.step i (by simp [hstage])
  simp only [Moment.turn, Moment.next, Moment.nextStage, hstage, hcheck, serve, and_self,
    ite_true] at hstep
  exact hstep

/-- A caller that was admitted makes its call. -/
theorem run_enter (h : Run extract calls cache past now) (hstage : now.stage i = .admitted)
    (henter : (calls i).enter extract now.cache = event) :
    Run extract calls cache (past ++ [⟨i, event⟩])
      ⟨event.after, Function.update now.stage i .ended⟩ := by
  have hstep := h.step i (by simp [hstage])
  simp only [Moment.turn, Moment.next, Moment.nextStage, hstage, henter, reduceCtorEq, false_and,
    ite_false] at hstep
  exact hstep

/-! ## What is remembered, and since when -/

/-- Every plan after a turn was there before, or was recovered in this turn. -/
theorem Advance.mem_contexts (h : Advance extract cache demand stage event stage')
    {entry : Text × Plan}
    (hmem : entry ∈ event.after.contexts) :
    entry ∈ cache.contexts ∨ event.Records extract entry.1 (.ok entry.2) := by
  cases h with
  | refuse => exact .inl hmem
  | accept => exact .inl hmem
  | reuse hcontexts =>
    rcases mem_touch hmem with hmem | rfl
    · exact .inl hmem
    · exact .inl (Register.mem_of_get? hcontexts)
  | unknown => exact .inl hmem
  | build _ _ hextract =>
    rcases mem_remember hmem with hmem | rfl
    · exact .inl hmem
    · exact .inr ⟨rfl, rfl, _, rfl, hextract⟩
  | fail => exact .inl hmem
  | accident => exact .inl hmem

/-- Every failure after a turn was there before, or was found in this turn. -/
theorem Advance.mem_failures (h : Advance extract cache demand stage event stage')
    {entry : Text × ExtractionFault}
    (hmem : entry ∈ event.after.failures) :
    entry ∈ cache.failures ∨ event.Records extract entry.1 (.error (.fault entry.2)) := by
  cases h with
  | refuse => exact .inl hmem
  | accept => exact .inl hmem
  | reuse => exact .inl hmem
  | unknown => exact .inl hmem
  | build => exact .inl hmem
  | fail _ _ hextract =>
    rcases mem_remember hmem with hmem | rfl
    · exact .inl hmem
    · exact .inr ⟨rfl, rfl, _, rfl, hextract⟩
  | accident => exact .inl hmem

/-- A caller is admitted by its check, if no failure of its version is remembered. -/
theorem Advance.admitted (h : Advance extract cache demand stage event .admitted) :
    event.request = .check demand.player ∧ event.after = cache ∧
      Register.get? cache.failures demand.player = none := by
  cases h with
  | accept hcheck => exact ⟨rfl, rfl, (checkSupported_eq_ok_iff.mp hcheck).2⟩

/-- What is remembered in a run goes back to turns of the run. -/
structure Accounted (extract : Extractor) (calls : ℕ → Demand) (past : List Turn)
    (now : Moment) : Prop where
  /-- Every plan was built. -/
  built : ∀ player ∈ Register.names now.cache.contexts, ∃ turn ∈ past, turn.Builds extract player
  /-- Every failure was found. -/
  refuted : ∀ player ∈ Register.names now.cache.failures,
    ∃ turn ∈ past, turn.Refutes extract player
  /-- Every caller that was admitted checked its version, and a failure of the version that is
  remembered was found since then. -/
  admitted : ∀ i, now.stage i = .admitted → ∃ older check since, past = older ++ check :: since ∧
    check.Checks i (calls i).player ∧
    ((calls i).player ∈ Register.names now.cache.failures →
      ∃ turn ∈ since, turn.Refutes extract (calls i).player)

/-- An element of a list is one of a longer list. -/
theorem exists_mem_past {P : Turn → Prop} (h : ∃ turn ∈ past, P turn) (last : Turn) :
    ∃ turn ∈ past ++ [last], P turn := by
  obtain ⟨turn, hmem, hturn⟩ := h
  exact ⟨turn, List.mem_append_left _ hmem, hturn⟩

/-- One turn more is accounted for. -/
theorem Accounted.step (h : Accounted extract calls past now) (hstage : now.stage i ≠ .ended) :
    Accounted extract calls (past ++ [now.turn extract calls i]) (now.next extract calls i) := by
  have hadvance := advance_turn extract calls hstage
  have hfailures : ∀ p ∈ Register.names (now.next extract calls i).cache.failures,
      p ∈ Register.names now.cache.failures ∨ (now.turn extract calls i).Refutes extract p := by
    intro p hp
    obtain ⟨fault, hmem⟩ := Register.mem_names_iff.mp hp
    exact (hadvance.mem_failures hmem).imp (fun hold => Register.mem_names_iff.mpr ⟨fault, hold⟩)
      fun hnew => ⟨fault, hnew⟩
  constructor
  · intro p hp
    obtain ⟨plan, hmem⟩ := Register.mem_names_iff.mp hp
    rcases hadvance.mem_contexts hmem with hold | hnew
    · exact exists_mem_past (h.built p (Register.mem_names_iff.mpr ⟨plan, hold⟩)) _
    · exact ⟨_, by simp, plan, hnew⟩
  · intro p hp
    rcases hfailures p hp with hold | hnew
    · exact exists_mem_past (h.refuted p hold) _
    · exact ⟨_, by simp, hnew⟩
  · intro j hj
    by_cases hij : j = i
    · subst hij
      -- the last turn of an admitted caller is its check, which remembers nothing
      have hnext : now.nextStage calls j = .admitted := by
        simpa [Moment.next] using hj
      obtain ⟨hrequest, hafter, hnone⟩ := (hnext ▸ hadvance).admitted
      refine ⟨past, _, [], rfl, ⟨rfl, hrequest⟩, fun hp => ?_⟩
      have hp : (calls j).player ∈ Register.names now.cache.failures := hafter ▸ hp
      exact absurd hp (Register.get?_eq_none_iff.mp hnone)
    · have hbefore : now.stage j = .admitted := by
        simpa [Moment.next, Function.update_of_ne hij] using hj
      obtain ⟨older, check, since, rfl, hcheck, hsince⟩ := h.admitted j hbefore
      refine ⟨older, check, since ++ [now.turn extract calls i], by simp, hcheck, fun hp => ?_⟩
      rcases hfailures _ hp with hold | hnew
      · exact exists_mem_past (hsince hold) _
      · exact ⟨_, by simp, hnew⟩

/-- Everything that is remembered in a run of a fresh cache is accounted for. -/
theorem accounted_of_run (h : Run extract calls (fresh size denied) turns now) :
    Accounted extract calls turns now := by
  induction h with
  | start => exact ⟨nofun, nofun, nofun⟩
  | step _ _ hstage ih => exact ih.step hstage

/-- A run of which a turn is the last one. -/
theorem exists_run_of_split {turn : Turn} {later : List Turn}
    (h : Run extract calls cache turns now) (hsplit : turns = past ++ turn :: later) :
    ∃ before i, Run extract calls cache past before ∧ before.stage i ≠ .ended ∧
      turn = before.turn extract calls i := by
  induction h generalizing later with
  | start => simp at hsplit
  | @step turns before hrun i hstage ih =>
    rcases List.eq_nil_or_concat' later with rfl | ⟨later, last, rfl⟩
    · obtain ⟨rfl, hturn⟩ := List.append_inj' hsplit rfl
      exact ⟨before, i, hrun, hstage, (List.singleton_inj.mp hturn).symm⟩
    · rw [← List.cons_append, ← List.append_assoc] at hsplit
      exact ih (List.append_inj' hsplit rfl).1

/-! ## Versions in both registers -/

/-- The extractor runs in the second turn of a call for a plan that is not remembered. -/
theorem Advance.extracts (h : Advance extract cache demand stage event stage')
    (hextracts : event.Extracts player) :
    stage = .admitted ∧ demand.player = player ∧ player ∉ Register.names cache.contexts ∧
      ∃ outcome, event.Records extract player outcome := by
  obtain ⟨hplayer, hextracted⟩ := hextracts
  cases h with
  | refuse => cases hextracted
  | accept => cases hextracted
  | reuse => cases hextracted
  | unknown => cases hextracted
  | build hdemand hcontexts hextract | fail hdemand hcontexts hextract
    | accident hdemand hcontexts hextract =>
    obtain rfl := Option.some.inj hplayer
    exact ⟨rfl, by rw [hdemand]; rfl, Register.get?_eq_none_iff.mp hcontexts, _, rfl, rfl, _, rfl,
      hextract⟩

/-- An event has one outcome. -/
theorem not_refutes_of_builds {turn : Turn} (h : turn.Builds extract player) :
    ¬ turn.Refutes extract player := by
  rintro ⟨fault, -, hfault, -⟩
  obtain ⟨plan, -, hplan, -⟩ := h
  cases hplan.symm.trans hfault

/-- A version stands in both registers. -/
def InBoth (cache : Cache) (player : Text) : Prop :=
  player ∈ Register.names cache.contexts ∧ player ∈ Register.names cache.failures

/-- A version comes to stand in both registers when a caller builds its plan behind the back of
which the version failed. -/
theorem exists_overtaken_of_inBoth (h : Run extract calls (fresh size denied) turns now)
    (hboth : InBoth now.cache player) :
    ∃ past turn later, turns = past ++ turn :: later ∧ turn.Builds extract player ∧
      Overtaken extract past turn.caller player ∧
      player ∈ Register.names turn.event.after.failures := by
  induction h with
  | start => exact absurd hboth.1 List.not_mem_nil
  | @step past before hrun i hstage ih =>
    have hadvance := advance_turn extract calls hstage
    obtain ⟨plan, hplan⟩ := Register.mem_names_iff.mp hboth.1
    obtain ⟨fault, hfault⟩ := Register.mem_names_iff.mp hboth.2
    rcases hadvance.mem_failures hfault with hfault | hrefutes
    · rcases hadvance.mem_contexts hplan with hplan | hbuilds
      · obtain ⟨older, turn, later, rfl, hturn⟩ :=
          ih ⟨Register.mem_names_iff.mpr ⟨plan, hplan⟩, Register.mem_names_iff.mpr ⟨fault, hfault⟩⟩
        exact ⟨older, turn, later ++ [before.turn extract calls i], by simp, hturn⟩
      · obtain ⟨hadmitted, hcaller, -⟩ := hadvance.extracts (extracts_of_records hbuilds)
        obtain ⟨older, check, since, hpast, hcheck, hsince⟩ :=
          (accounted_of_run hrun).admitted i hadmitted
        rw [hcaller] at hcheck hsince
        exact ⟨past, _, [], rfl, ⟨plan, hbuilds⟩, ⟨older, check, since, hpast, hcheck,
          hsince (Register.mem_names_iff.mpr ⟨fault, hfault⟩)⟩, hboth.2⟩
    · -- a version fails only while no plan of it is remembered
      obtain ⟨-, -, hnone, -⟩ := hadvance.extracts (extracts_of_records hrefutes)
      rcases hadvance.mem_contexts hplan with hplan | hbuilds
      · exact absurd (Register.mem_names_iff.mpr ⟨plan, hplan⟩) hnone
      · exact absurd ⟨fault, hrefutes⟩ (not_refutes_of_builds ⟨plan, hbuilds⟩)

/-- A plan that is built is remembered. -/
theorem Advance.mem_of_builds {plan : Plan}
    (h : Advance extract cache demand stage event stage')
    (hbuilds : event.Records extract player (.ok plan)) :
    player ∈ Register.names event.after.contexts := by
  obtain ⟨hextracted, hresult, script, hrequest, -⟩ := hbuilds
  cases h with
  | refuse => cases hextracted
  | accept => cases hextracted
  | reuse => cases hextracted
  | unknown => cases hextracted
  | @build _ _ plan _ hcontexts =>
    obtain ⟨rfl, -⟩ := Request.get.inj hrequest
    have hfound : Register.get? _ _ = some plan :=
      get?_remember_self cache.capacity_pos (Register.get?_eq_none_iff.mp hcontexts)
    exact Register.mem_names_iff.mpr ⟨plan, Register.mem_of_get? hfound⟩
  | fail => cases hresult
  | accident => cases hresult

/-! ## Versions that are extracted again -/

/-- The registers of a cache hold every name at most once after a turn. -/
theorem WellOrdered.advance {capacity : ℕ} (hw : WellOrdered capacity cache)
    (h : Advance extract cache demand stage event stage') :
    WellOrdered capacity event.after := by
  cases h with
  | refuse => exact hw
  | accept => exact hw
  | reuse => exact { hw with contexts_nodup := nodup_touch hw.contexts_nodup }
  | unknown => exact hw
  | build => exact { hw with contexts_nodup := nodup_remember hw.contexts_nodup }
  | fail => exact { hw with failures_nodup := nodup_remember hw.failures_nodup }
  | accident => exact hw

/-- The registers hold every name at most once in a run. -/
theorem wellOrdered_of_run (h : Run extract calls (fresh size denied) turns now) :
    WellOrdered (max 1 size).toNat now.cache := by
  induction h with
  | start => exact wellOrdered_fresh size denied
  | step _ _ hstage ih => exact ih.advance (advance_turn extract calls hstage)

/-- The callers' versions in a run. -/
def InPlay (turns : List Turn) (player : Text) : Prop :=
  ∃ turn ∈ turns, turn.event.request.player? = some player

section Room

variable {Recent : Text → Prop}

/-- A turn is about the version of the caller. -/
theorem Advance.player?_eq (h : Advance extract cache demand stage event stage') :
    event.request.player? = some demand.player := by
  cases h with
  | refuse => rfl
  | accept => rfl
  | reuse => cases demand <;> rfl
  | unknown hdemand => rw [hdemand]; rfl
  | build hdemand => rw [hdemand]; rfl
  | fail hdemand => rw [hdemand]; rfl
  | accident hdemand => rw [hdemand]; rfl

/-- A plan that is remembered or built in a turn is remembered after it, unless its version is
crowded out. -/
theorem Advance.mem_names_contexts (h : Advance extract cache demand stage event stage')
    (hnodup : (Register.names cache.contexts).Nodup)
    (hrecent : ∀ o ∈ Register.names cache.contexts, Recent o) (hdemand : Recent demand.player)
    (hroom : ¬ CrowdedOut cache.capacity player Recent)
    (hmem : player ∈ Register.names cache.contexts ∨
      ∃ plan, event.Records extract player (.ok plan)) :
    player ∈ Register.names event.after.contexts := by
  rcases hmem with hmem | ⟨plan, hbuilds⟩
  · cases h with
    | refuse => exact hmem
    | accept => exact hmem
    | reuse => exact mem_names_touch hmem
    | unknown => exact hmem
    | build hget =>
      rw [hget] at hdemand
      exact mem_remember_of_not_crowdedOut hnodup hrecent hdemand (.inl hmem) hroom
    | fail => exact hmem
    | accident => exact hmem
  · exact h.mem_of_builds hbuilds

/-- A failure that is remembered or found in a turn is remembered after it, unless its version is
crowded out. -/
theorem Advance.mem_names_failures (h : Advance extract cache demand stage event stage')
    (hnodup : (Register.names cache.failures).Nodup)
    (hrecent : ∀ o ∈ Register.names cache.failures, Recent o) (hdemand : Recent demand.player)
    (hroom : ¬ CrowdedOut cache.capacity player Recent)
    (hmem : player ∈ Register.names cache.failures ∨
      ∃ fault, event.Records extract player (.error (.fault fault))) :
    player ∈ Register.names event.after.failures := by
  rcases hmem with hmem | ⟨fault, hextracted, hresult, script, hrequest, -⟩
  · cases h with
    | refuse => exact hmem
    | accept => exact hmem
    | reuse => exact hmem
    | unknown => exact hmem
    | build => exact hmem
    | fail hget =>
      rw [hget] at hdemand
      exact mem_remember_of_not_crowdedOut hnodup hrecent hdemand (.inl hmem) hroom
    | accident => exact hmem
  · cases h with
    | refuse => cases hextracted
    | accept => cases hextracted
    | reuse => cases hextracted
    | unknown => cases hextracted
    | build => cases hresult
    | fail hget =>
      obtain ⟨rfl, -⟩ := Request.get.inj hrequest
      rw [hget] at hdemand
      exact mem_remember_of_not_crowdedOut hnodup hrecent hdemand (.inr rfl) hroom
    | accident => cases hresult

end Room

/-- The versions in play are those that the calls are about. -/
theorem exists_player_of_inPlay (h : Run extract calls cache turns now)
    (hplay : InPlay turns player) : ∃ i, (calls i).player = player := by
  obtain ⟨turn, hmem, hplayer⟩ := hplay
  obtain ⟨past, later, hsplit⟩ := List.append_of_mem hmem
  obtain ⟨before, i, -, hstage, rfl⟩ := exists_run_of_split h hsplit
  exact ⟨i, Option.some.inj ((advance_turn extract calls hstage).player?_eq.symm.trans hplayer)⟩

/-- The only version in play is not crowded out. -/
theorem not_crowdedOut_of_run {capacity : ℕ} (hcapacity : 0 < capacity)
    (h : Run extract calls cache turns now) (hcalls : ∀ i, (calls i).player = player) :
    ¬ CrowdedOut capacity player (InPlay turns) := by
  rintro ⟨others, -, hlength, hothers⟩
  obtain ⟨other, hmem⟩ := List.exists_mem_of_length_pos (hcapacity.trans_le hlength)
  obtain ⟨hne, hplay⟩ := hothers other hmem
  obtain ⟨i, rfl⟩ := exists_player_of_inPlay h hplay
  exact hne (hcalls i)

/-- What a turn found out about a version is remembered, unless the version is crowded out. -/
structure Keeps (extract : Extractor) (turns : List Turn) (cache : Cache) (player : Text) :
    Prop where
  /-- A plan that was built is remembered. -/
  plan : ∀ turn ∈ turns, turn.Builds extract player → player ∈ Register.names cache.contexts
  /-- A failure that was found is remembered. -/
  failure : ∀ turn ∈ turns, turn.Refutes extract player → player ∈ Register.names cache.failures

/-- As long as a version is not crowded out, what was found out about it is kept. -/
theorem keeps_of_run (h : Run extract calls (fresh size denied) turns now)
    (hroom : ¬ CrowdedOut (max 1 size).toNat player (InPlay turns)) :
    Keeps extract turns now.cache player := by
  induction h with
  | start => exact ⟨nofun, nofun⟩
  | @step past before hrun i hstage ih =>
    have hadvance := advance_turn extract calls hstage
    have hw := wellOrdered_of_run hrun
    have haccounted := accounted_of_run hrun
    have hpast : ∀ o, InPlay past o → InPlay (past ++ [before.turn extract calls i]) o :=
      fun o ho => exists_mem_past ho _
    have hplay : InPlay (past ++ [before.turn extract calls i]) (calls i).player :=
      ⟨_, by simp, hadvance.player?_eq⟩
    have hkeeps := ih fun hcrowded => hroom (hcrowded.mono hpast)
    rw [← hw.capacity_eq] at hroom
    constructor
    · intro turn hmem hbuilds
      refine hadvance.mem_names_contexts hw.contexts_nodup (fun o ho => hpast o ?_) hplay hroom ?_
      · obtain ⟨turn, hmem, plan, hbuilds⟩ := haccounted.built o ho
        exact ⟨turn, hmem, (extracts_of_records hbuilds).1⟩
      · rcases List.mem_append.mp hmem with hmem | hmem
        · exact .inl (hkeeps.plan turn hmem hbuilds)
        · exact .inr (List.mem_singleton.mp hmem ▸ hbuilds)
    · intro turn hmem hrefutes
      refine hadvance.mem_names_failures hw.failures_nodup (fun o ho => hpast o ?_) hplay hroom ?_
      · obtain ⟨turn, hmem, fault, hrefutes⟩ := haccounted.refuted o ho
        exact ⟨turn, hmem, (extracts_of_records hrefutes).1⟩
      · rcases List.mem_append.mp hmem with hmem | hmem
        · exact .inl (hkeeps.failure turn hmem hrefutes)
        · exact .inr (List.mem_singleton.mp hmem ▸ hrefutes)

/-- The extractor runs for a version at most once. -/
def AtMostOnce (turns : List Turn) (player : Text) : Prop :=
  turns.Pairwise fun first second =>
    ¬ (first.event.Extracts player ∧ second.event.Extracts player)

/-- Where the extractor runs for a version at most once, it runs in one turn. -/
theorem AtMostOnce.eq {first second : Turn} (h : AtMostOnce turns player) (hfirst : first ∈ turns)
    (hsecond : second ∈ turns) (hextracts : first.event.Extracts player)
    (hagain : second.event.Extracts player) : first = second := by
  have hsymm : Std.Symm fun first second : Turn =>
      ¬ (first.event.Extracts player ∧ second.event.Extracts player) :=
    ⟨fun _ _ hnot hboth => hnot hboth.symm⟩
  by_contra hne
  exact h.forall hfirst hsecond hne ⟨hextracts, hagain⟩

/-- A version in both registers was extracted twice. -/
theorem not_atMostOnce_of_inBoth (h : Run extract calls (fresh size denied) turns now)
    (hboth : InBoth now.cache player) :
    ¬ AtMostOnce turns player := by
  intro honce
  obtain ⟨built, hbuilt, plan, hbuilds⟩ := (accounted_of_run h).built player hboth.1
  obtain ⟨failed, hfailed, fault, hrefutes⟩ := (accounted_of_run h).refuted player hboth.2
  obtain rfl := honce.eq hbuilt hfailed (extracts_of_records hbuilds) (extracts_of_records hrefutes)
  exact not_refutes_of_builds ⟨plan, hbuilds⟩ ⟨fault, hrefutes⟩

/-- A relation holds throughout a list if it holds between every element and those before it. -/
theorem pairwise_of_forall_split {R : Turn → Turn → Prop}
    (h : ∀ past turn later, turns = past ++ turn :: later → ∀ first ∈ past, R first turn) :
    turns.Pairwise R := by
  induction turns using List.reverseRecOn with
  | nil => exact .nil
  | append_singleton turns last ih =>
    refine List.pairwise_append.mpr ⟨ih fun past turn later hsplit => ?_,
      List.pairwise_singleton .., fun first hfirst second hsecond => ?_⟩
    · exact h past turn (later ++ [last]) (by simp [hsplit])
    · rw [List.mem_singleton.mp hsecond]
      exact h turns last [] rfl first hfirst

/-- A turn that runs the extractor records what came out. -/
theorem exists_records_of_mem (h : Run extract calls cache turns now) {turn : Turn}
    (hmem : turn ∈ turns) (hextracts : turn.event.Extracts player) :
    ∃ outcome, turn.event.Records extract player outcome := by
  obtain ⟨past, later, hsplit⟩ := List.append_of_mem hmem
  obtain ⟨before, i, -, hstage, rfl⟩ := exists_run_of_split h hsplit
  exact ((advance_turn extract calls hstage).extracts hextracts).2.2.2

/-- The extractor runs once for a version that is not crowded out, unless a call for its plan is
overtaken by its failure, or a script could not be read to its end. -/
theorem atMostOnce_of_not_overtaken (h : Run extract calls (fresh size denied) turns now)
    (hroom : ¬ CrowdedOut (max 1 size).toNat player (InPlay turns))
    (hfree : ∀ past turn later script, turns = past ++ turn :: later →
      turn.event.request = .get player script → ¬ Overtaken extract past turn.caller player)
    (hread : turns.Pairwise fun first second =>
      (∃ f, first.event.Records extract player (.error (.argument f))) →
        ¬ second.event.Extracts player) :
    AtMostOnce turns player := by
  refine pairwise_of_forall_split fun past turn later hsplit first hfirst ⟨hextracts, hagain⟩ => ?_
  obtain ⟨before, i, hrun, hstage, rfl⟩ := exists_run_of_split h hsplit
  obtain ⟨hadmitted, hcaller, hnone, outcome, hrecords⟩ :=
    (advance_turn extract calls hstage).extracts hagain
  have hkeeps : Keeps extract past before.cache player := keeps_of_run hrun fun hcrowded =>
    hroom <| hcrowded.mono fun o ⟨turn, hmem, ho⟩ =>
      ⟨turn, by rw [hsplit]; exact List.mem_append_left _ hmem, ho⟩
  obtain ⟨outcome, houtcome⟩ := exists_records_of_mem hrun hfirst hextracts
  cases outcome with
  | ok plan => exact hnone (hkeeps.plan first hfirst ⟨plan, houtcome⟩)
  | error e =>
    cases e with
    | fault fault =>
      -- the failure is remembered, so the caller was admitted before it was found
      obtain ⟨older, check, since, hpast, hcheck, hsince⟩ :=
        (accounted_of_run hrun).admitted i hadmitted
      rw [hcaller] at hcheck hsince
      obtain ⟨-, -, script, hrequest, -⟩ := hrecords
      exact hfree past _ later script hsplit hrequest ⟨older, check, since, hpast, hcheck,
        hsince (hkeeps.failure first hfirst ⟨fault, houtcome⟩)⟩
    | argument f =>
      rw [hsplit, List.pairwise_append] at hread
      exact hread.2.2 first hfirst _ List.mem_cons_self ⟨f, houtcome⟩ hagain

/-- A call for a plan that reads no script finds the plan. -/
theorem Advance.mem_of_not_extracts {script : Text}
    (h : Advance extract cache demand stage event stage')
    (hrequest : event.request = .get player script) (hnot : ¬ event.Extracts player) :
    player ∈ Register.names cache.contexts := by
  have hplayer : event.request.player? = some player := by rw [hrequest]; rfl
  cases h with
  | refuse => cases hrequest
  | accept => cases hrequest
  | reuse hcontexts =>
    obtain rfl : demand.player = player := by
      cases demand with
      | get => exact (Request.get.inj hrequest).1
      | lookup => cases hrequest
    exact Register.mem_names_iff.mpr ⟨_, Register.mem_of_get? hcontexts⟩
  | unknown => cases hrequest
  | build | fail | accident => exact absurd ⟨hplayer, rfl⟩ hnot

/-- Where the extractor runs for a version at most once, no call for its plan is overtaken by its
failure: such a call runs the extractor again, or finds a plan that it was run for. -/
theorem not_overtaken_of_atMostOnce {turn : Turn} {later : List Turn} {script : Text}
    (h : Run extract calls (fresh size denied) turns now) (honce : AtMostOnce turns player)
    (hsplit : turns = past ++ turn :: later) (hrequest : turn.event.request = .get player script) :
    ¬ Overtaken extract past turn.caller player := by
  rintro ⟨older, check, since, hpast, -, failed, hfailed, hrefutes⟩
  have hmem : failed ∈ past := by simp [hpast, hfailed]
  have hfirst : failed.event.Extracts player := by
    obtain ⟨fault, hfault⟩ := hrefutes
    exact extracts_of_records hfault
  obtain ⟨before, i, hrun, hstage, rfl⟩ := exists_run_of_split h hsplit
  rw [AtMostOnce, hsplit, List.pairwise_append] at honce
  by_cases hagain : (before.turn extract calls i).event.Extracts player
  · exact honce.2.2 failed hmem _ List.mem_cons_self ⟨hfirst, hagain⟩
  · obtain ⟨built, hbuilt, hbuilds⟩ := (accounted_of_run hrun).built player
      ((advance_turn extract calls hstage).mem_of_not_extracts hrequest hagain)
    have hsecond : built.event.Extracts player := by
      obtain ⟨plan, hplan⟩ := hbuilds
      exact extracts_of_records hplan
    have heq : failed = built := AtMostOnce.eq honce.1 hmem hbuilt hfirst hsecond
    exact not_refutes_of_builds hbuilds (heq ▸ hrefutes)

/-- Two callers whose scripts of one version differ: the first one fails after the second one has
been admitted, and the second one builds a plan. -/
theorem exists_run_inBoth {bad good : Text} {fault : ExtractionFault} {plan : Plan}
    (hbad : extract bad = .error (.fault fault)) (hgood : extract good = .ok plan)
    (player : Text) :
    ∃ turns now, Run extract (fun i => .get player (if i = 0 then bad else good)) (fresh 1 [])
        turns now ∧ turns.map (·.caller) = [0, 1, 0, 1] ∧ InBoth now.cache player := by
  let failed : Cache := ⟨1, Nat.one_pos, [], [], [(player, fault)]⟩
  let both : Cache := ⟨1, Nat.one_pos, [], [(player, plan)], [(player, fault)]⟩
  have hfails : (Demand.get player bad).enter extract (fresh 1 []) =
      ⟨.get player bad, .error (.script (.fault fault)), true, failed⟩ := by
    simp only [Demand.enter, obtain, hbad]
    rfl
  have hbuilds : (Demand.get player good).enter extract failed =
      ⟨.get player good, .ok (.plan plan), true, both⟩ := by
    simp only [Demand.enter, obtain, hgood]
    rfl
  have hstart :
      Run extract (fun i => .get player (if i = 0 then bad else good)) (fresh 1 []) [] _ := .start
  have hadmitted := run_check (i := 1) (run_check (i := 0) hstart rfl rfl) rfl rfl
  have hrun := run_enter (i := 1) (run_enter (i := 0) hadmitted rfl hfails) rfl hbuilds
  exact ⟨_, _, hrun, rfl, by simp [InBoth, both]⟩

/-- Two callers one after the other whose script cannot be read to its end: both of them run the
extractor. -/
theorem exists_run_not_atMostOnce {script : Text} {f : Number.IntegerFault}
    (hextract : extract script = .error (.argument f)) (player : Text) :
    ∃ turns now, Run extract (fun _ => .get player script) (fresh 1 []) turns now ∧
        turns.map (·.caller) = [0, 0, 1, 1] ∧ ¬ AtMostOnce turns player := by
  have henter : (Demand.get player script).enter extract (fresh 1 []) =
      ⟨.get player script, .error (.script (.argument f)), true, fresh 1 []⟩ := by
    simp only [Demand.enter, obtain, hextract]
    rfl
  have hstart : Run extract (fun _ => .get player script) (fresh 1 []) [] _ := .start
  have hfirst := run_enter (i := 0) (run_check (i := 0) hstart rfl rfl) rfl henter
  have hsecond := run_enter (i := 1) (run_check (i := 1) hfirst rfl rfl) rfl henter
  exact ⟨_, _, hsecond, rfl, by simp [AtMostOnce, Event.Extracts, Request.player?]⟩

/-- Callers that share a fresh cache. A version comes to stand in both registers exactly if a
caller builds its plan although the version failed, and is remembered to have failed, since the
caller checked it. And if the version is not crowded out, the extractor runs for it at most once
exactly if no call for its plan is overtaken in this way by its failure, and no script of it
that cannot be read to its end is followed by another extraction. -/
theorem extracts_once_unless_overtaken (h : Run extract calls (fresh size denied) turns now)
    (player : Text) :
    ((∀ turn ∈ turns, ¬ InBoth turn.event.after player) ↔
      ∀ past turn later, turns = past ++ turn :: later → turn.Builds extract player →
        Overtaken extract past turn.caller player →
        player ∉ Register.names turn.event.after.failures) ∧
    (¬ CrowdedOut (max 1 size).toNat player (InPlay turns) →
      (AtMostOnce turns player ↔
        (∀ past turn later script, turns = past ++ turn :: later →
          turn.event.request = .get player script → ¬ Overtaken extract past turn.caller player) ∧
        turns.Pairwise fun first second =>
          (∃ f, first.event.Records extract player (.error (.argument f))) →
            ¬ second.event.Extracts player)) := by
  refine ⟨⟨fun hnever past turn later hsplit ⟨plan, hbuilds⟩ _ hfailed => ?_,
    fun hfree turn hmem hboth => ?_⟩,
    fun hroom => ⟨fun honce => ⟨?_, ?_⟩, fun ⟨hfree, hread⟩ => ?_⟩⟩
  · obtain ⟨before, i, -, hstage, rfl⟩ := exists_run_of_split h hsplit
    exact hnever _ (by simp [hsplit])
      ⟨(advance_turn extract calls hstage).mem_of_builds hbuilds, hfailed⟩
  · obtain ⟨past, later, hsplit⟩ := List.append_of_mem hmem
    obtain ⟨before, i, hrun, hstage, rfl⟩ := exists_run_of_split h hsplit
    obtain ⟨older, turn, between, hturns, hbuilds, hovertaken, hfailed⟩ :=
      exists_overtaken_of_inBoth (hrun.step i hstage) hboth
    have hwhole : turns = older ++ turn :: (between ++ later) := by
      rw [hsplit, ← List.cons_append, ← List.append_assoc, ← hturns]
      simp
    exact hfree older turn (between ++ later) hwhole hbuilds hovertaken hfailed
  · exact fun past turn later script hsplit hrequest =>
      not_overtaken_of_atMostOnce h honce hsplit hrequest
  · exact honce.imp fun hpair ⟨f, hf⟩ hsecond => hpair ⟨extracts_of_records hf, hsecond⟩
  · exact atMostOnce_of_not_overtaken h hroom hfree hread

/-- Two callers whose checks both come first: the second one finds the plan of the first. -/
theorem extracts_once_of_two_callers :
    let plan : Plan := ⟨[⟨"reverse".toList, none⟩], List.cons_ne_nil _ _⟩
    let extract : Extractor := fun _ => .ok plan
    let calls : ℕ → Demand := fun _ => .get ['a'] []
    ∃ turns now, Run extract calls (fresh 1 []) turns now ∧
      turns.map (·.caller) = [0, 1, 0, 1] ∧
      turns.map (·.event.extracted) = [false, false, true, false] ∧
      ¬ CrowdedOut (max 1 1 : Int).toNat ['a'] (InPlay turns) ∧
      AtMostOnce turns ['a'] ∧ ∀ turn ∈ turns, ¬ InBoth turn.event.after ['a'] := by
  intro plan extract calls
  have hstart : Run extract calls (fresh 1 []) [] _ := .start
  have hadmitted := run_check (i := 1) (run_check (i := 0) hstart rfl rfl) rfl rfl
  have hrun := run_enter (i := 1) (run_enter (i := 0) hadmitted rfl rfl) rfl rfl
  have hroom : ¬ CrowdedOut (max 1 1 : Int).toNat ['a'] _ :=
    not_crowdedOut_of_run (by decide) hrun fun _ => rfl
  -- no script fails, so nobody is overtaken
  have hok : ∀ (turn : Turn) (e : ScriptError), ¬ turn.event.Records extract ['a'] (.error e) :=
    fun _ _ ⟨_, _, _, _, herror⟩ => nomatch herror
  have hfree : ∀ past caller, ¬ Overtaken extract past caller ['a'] :=
    fun _ _ ⟨_, _, _, _, _, turn, _, _, hrefutes⟩ => hok turn _ hrefutes
  obtain ⟨hboth, honce⟩ := extracts_once_unless_overtaken hrun ['a']
  refine ⟨_, _, hrun, rfl, rfl, hroom, (honce hroom).mpr ⟨?_, ?_⟩, hboth.mpr ?_⟩
  · exact fun past turn _ _ _ _ => hfree past turn.caller
  · exact List.pairwise_of_forall fun first _ ⟨f, hf⟩ => absurd hf (hok first _)
  · exact fun past turn _ _ _ hovertaken => absurd hovertaken (hfree past turn.caller)

/-- A script that turns signatures around. -/
def turningScript : Text :=
  "e=function(a)\x7ba=a.split(\"\");H.r(a);return a.join(\"\")\x7d;".toList ++
    "c&&d.set(b,encodeURIComponent(e(c.s)));".toList ++
    "var H=\x7br:function(a)\x7ba.reverse()\x7d\x7d;".toList

/-- Callers for one version. The first has an empty script, which fails when the second one has
been admitted already: the second one reads its script as well, and the version comes to stand
in both registers. And a script with an integer of 4301 digits is read by two callers, although
one comes after the other. -/
theorem extracts_twice_behind_failure :
    let run := Script.extract standardShapes
    let script := callingScript "e".toList "a".toList "b".toList "c".toList
      (Int.ofNat (Nat.pow 10 4300))
    (∃ turns now,
      Run run (fun i => .get "p".toList (if i = 0 then [] else turningScript)) (fresh 1 [])
        turns now ∧
      turns.map (·.caller) = [0, 1, 0, 1] ∧
      ¬ CrowdedOut (max 1 1 : Int).toNat "p".toList (InPlay turns) ∧
      ¬ AtMostOnce turns "p".toList ∧ InBoth now.cache "p".toList) ∧
    ∃ turns now, Run run (fun _ => .get "p".toList script) (fresh 1 []) turns now ∧
      turns.map (·.caller) = [0, 0, 1, 1] ∧
      ¬ CrowdedOut (max 1 1 : Int).toNat "p".toList (InPlay turns) ∧
      ¬ AtMostOnce turns "p".toList := by
  intro run script
  have hempty : run [] = .error (.fault .noEntryShape) := by decide +kernel
  obtain ⟨plan, hplan, -⟩ := map_eq_ok_iff.mp (show
    (run turningScript).map Plan.steps = .ok [⟨"reverse".toList, none⟩] by decide +kernel)
  -- for any integer of so many digits, as the integer itself is not to be computed
  have hstops : ∀ m, (Text.ofNat m).length = 4301 →
      run (callingScript "e".toList "a".toList "b".toList "c".toList (Int.ofNat m)) =
        .error (.argument (.tooLong 4301)) := fun m hlength =>
    extract_callingScript (Int.ofNat m) standardShapes (by decide) (Text.forall_mem_of_all rfl)
      (by decide) (by decide) (by decide) (by decide) hlength (by decide)
  have hoverlong : run script = .error (.argument (.tooLong 4301)) :=
    hstops _ (Number.length_ofNat_pow 4300)
  constructor
  · obtain ⟨turns, now, hrun, hcallers, hboth⟩ := exists_run_inBoth hempty hplan "p".toList
    exact ⟨turns, now, hrun, hcallers, not_crowdedOut_of_run (by decide) hrun fun _ => rfl,
      not_atMostOnce_of_inBoth hrun hboth, hboth⟩
  · obtain ⟨turns, now, hrun, hcallers, hnot⟩ := exists_run_not_atMostOnce hoverlong "p".toList
    exact ⟨turns, now, hrun, hcallers, not_crowdedOut_of_run (by decide) hrun fun _ => rfl, hnot⟩

end Cache
end Playable
