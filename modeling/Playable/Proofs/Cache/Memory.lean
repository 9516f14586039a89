import Playable.Proofs.Cache.Extraction

/-!
# What is remembered, and why

Whatever a cache remembers about a version goes back to one extraction: the extractor
ran on a script that was given for the version, and its outcome was kept. As long as the
outcome is kept, it answers every request for the version, whatever script comes along.
The two registers stay within the capacity, share no version, and hold none that is
denied.
-/

namespace Playable

open Cipher Script

/-- The version whose plan a request asks for. -/
def Request.wanted? : Request → Option Text
  | get player _ => some player
  | lookup player => some player
  | _ => none

/-- The version that is checked before a request is served. -/
def Request.checked? : Request → Option Text
  | check player => some player
  | request => request.wanted?

/-- What a request for a plan is told of the outcome of an extraction. -/
def answerTo : Except ScriptError Plan → Except PlayerError Answer
  | .ok plan => .ok (.plan plan)
  | .error e => .error (.script e)

namespace Event

variable (extract : Extractor)

/-- The extractor ran on a script that was given for the version, and its outcome was
the answer. -/
def Records (event : Event) (player : Text) (outcome : Except ScriptError Plan) : Prop :=
  event.extracted = true ∧ event.result = answerTo outcome ∧
    ∃ script, event.request = .get player script ∧ extract script = outcome

/-- Nothing was forgotten on demand, and a request for the plan of the version was
answered with this outcome and without reading a script. -/
def Upholds (event : Event) (player : Text) (outcome : Except ScriptError Plan) : Prop :=
  event.request ≠ .clear ∧ (event.request.wanted? = some player →
    event.extracted = false ∧ event.result = answerTo outcome)

/-- The outcome goes back to an extraction for the version, and was upheld ever since. -/
def GoesBack (events : List Event) (player : Text) (outcome : Except ScriptError Plan) : Prop :=
  ∃ past origin since, events = past ++ origin :: since ∧
    origin.Records extract player outcome ∧ ∀ event ∈ since, event.Upholds player outcome

end Event

namespace Cache

variable {extract : Extractor} {capacity : Nat} {cache : Cache} {denied : List Text}
  {player : Text} {events : List Event} {event : Event} {outcome : Except ScriptError Plan}

section Entries

variable {α : Type} {r : Register α} {name : Text} {value : α} {entry : Text × α}

/-- Moving a name to the end brings in no entry but the one at the end. -/
theorem mem_touch (h : entry ∈ touch r name value) : entry ∈ r ∨ entry = (name, value) := by
  rcases List.mem_append.mp h with h | h
  · exact .inl (List.mem_of_mem_filter h)
  · exact .inr (List.mem_singleton.mp h)

/-- Entering a value brings in no other entry. -/
theorem mem_remember (h : entry ∈ remember capacity r name value) :
    entry ∈ r ∨ entry = (name, value) :=
  Register.mem_set (List.mem_of_mem_drop h)

/-- Moving a name that is entered to the end does not make a register longer. -/
theorem length_touch_le (h : name ∈ Register.names r) :
    (touch r name value).length ≤ r.length := by
  obtain ⟨entry, hentry, rfl⟩ := List.mem_map.mp h
  have hless : (Register.erase r entry.1).length < r.length :=
    List.length_filter_lt_length_iff_exists.mpr ⟨entry, hentry, by simp⟩
  rw [touch, List.length_append, List.length_singleton]
  exact hless

/-- Entering a value keeps within the capacity. -/
theorem length_remember_le : (remember capacity r name value).length ≤ capacity := by
  rw [remember, List.length_drop]
  omega

end Entries

/-- A text is one of several exactly if it is a member of their list. -/
theorem isOneOf_eq_true_iff {names : List Text} :
    Text.isOneOf names player = true ↔ player ∈ names := by
  simp [Text.isOneOf]

/-- A text is not one of several exactly if it is no member of their list. -/
theorem isOneOf_eq_false_iff {names : List Text} :
    Text.isOneOf names player = false ↔ player ∉ names := by
  rw [← Bool.not_eq_true, isOneOf_eq_true_iff]

/-- A denied version does not pass the check. -/
theorem checkSupported_of_denied (h : player ∈ cache.denied) :
    cache.checkSupported player = .error (.denied player) := by
  rw [checkSupported, if_pos (isOneOf_eq_true_iff.mpr h)]

/-- A version that failed does not pass the check. -/
theorem checkSupported_of_failed {fault : ExtractionFault}
    (hallowed : Text.isOneOf cache.denied player = false)
    (hfailed : Register.get? cache.failures player = some fault) :
    cache.checkSupported player = .error (.script (.fault fault)) := by
  simp [checkSupported, hallowed, hfailed]

/-- A request about a version that does not pass the check is refused. -/
theorem serve_of_refused {request : Request} {e : PlayerError}
    (hplayer : request.checked? = some player) (h : cache.checkSupported player = .error e) :
    cache.serve extract request = ⟨request, .error e, false, cache⟩ := by
  cases request with
  | get other script =>
    obtain rfl := Option.some.inj hplayer
    simp [serve, Cache.get, h, Except.map]
  | lookup other =>
    obtain rfl := Option.some.inj hplayer
    simp [serve, lookup, h, Except.map]
  | check other =>
    obtain rfl := Option.some.inj hplayer
    simp [serve, h, Except.map]
  | contains => cases hplayer
  | clear => cases hplayer

/-- What asks for the plan of a version is checked first. -/
theorem checked?_of_wanted? {request : Request} (h : request.wanted? = some player) :
    request.checked? = some player := by
  cases request with
  | check => cases h
  | _ => exact h

/-- The plan that is remembered for a supported version answers whatever asks for it, and becomes
the latest. -/
theorem serve_of_remembered {request : Request} {plan : Plan}
    (hwanted : request.wanted? = some player)
    (hallowed : Text.isOneOf cache.denied player = false)
    (hfailures : Register.get? cache.failures player = none)
    (hcontexts : Register.get? cache.contexts player = some plan) :
    cache.serve extract request = ⟨request, .ok (.plan plan), false,
      { cache with contexts := touch cache.contexts player plan }⟩ := by
  have hcheck := checkSupported_eq_ok_iff.mpr ⟨hallowed, hfailures⟩
  cases request with
  | get other script =>
    obtain rfl := Option.some.inj hwanted
    simp [serve, Cache.get, obtain, recalled, hcheck, hcontexts, Except.map]
  | lookup other =>
    obtain rfl := Option.some.inj hwanted
    simp [serve, lookup, recalled, hcheck, hcontexts, Except.map, answerOf]
  | contains => cases hwanted
  | check => cases hwanted
  | clear => cases hwanted

/-- The plan that is remembered for a supported version answers whatever asks for it. -/
theorem serve_of_context {request : Request} {plan : Plan}
    (hwanted : request.wanted? = some player)
    (hallowed : Text.isOneOf cache.denied player = false)
    (hfailures : Register.get? cache.failures player = none)
    (hcontexts : Register.get? cache.contexts player = some plan) :
    (cache.serve extract request).extracted = false ∧
      (cache.serve extract request).result = .ok (.plan plan) := by
  rw [serve_of_remembered hwanted hallowed hfailures hcontexts]
  exact ⟨rfl, rfl⟩

/-- Every plan after a step was there before, or was recovered in this step. -/
theorem Step.mem_contexts (hs : Step extract cache event) {entry : Text × Plan}
    (h : entry ∈ event.after.contexts) :
    entry ∈ cache.contexts ∨ event.Records extract entry.1 (.ok entry.2) := by
  cases hs with
  | idle => exact .inl h
  | reuse _ _ _ hcontexts =>
    rcases mem_touch h with h | rfl
    · exact .inl h
    · exact .inl (Register.mem_of_get? hcontexts)
  | build _ _ _ hextract =>
    rcases mem_remember h with h | rfl
    · exact .inl h
    · exact .inr ⟨rfl, rfl, _, rfl, hextract⟩
  | fail => exact .inl h
  | accident => exact .inl h
  | clear => cases h

/-- Every failure after a step was there before, or was found in this step. -/
theorem Step.mem_failures (hs : Step extract cache event) {entry : Text × ExtractionFault}
    (h : entry ∈ event.after.failures) :
    entry ∈ cache.failures ∨ event.Records extract entry.1 (.error (.fault entry.2)) := by
  cases hs with
  | idle => exact .inl h
  | reuse => exact .inl h
  | build => exact .inl h
  | fail _ _ _ hextract =>
    rcases mem_remember h with h | rfl
    · exact .inl h
    · exact .inr ⟨rfl, rfl, _, rfl, hextract⟩
  | accident => exact .inl h
  | clear => cases h

/-- The extractor runs only for a version that is not denied. -/
theorem Step.allowed (hs : Step extract cache event) (h : event.Extracts player) :
    Text.isOneOf cache.denied player = false := by
  obtain ⟨hplayer, hextracted⟩ := h
  cases hs with
  | idle => cases hextracted
  | reuse => cases hextracted
  | build hallowed => exact Option.some.inj hplayer ▸ hallowed
  | fail hallowed => exact Option.some.inj hplayer ▸ hallowed
  | accident hallowed => exact Option.some.inj hplayer ▸ hallowed
  | clear => cases hextracted

/-- What is recorded was extracted. -/
theorem extracts_of_records (h : event.Records extract player outcome) :
    event.Extracts player := by
  obtain ⟨hextracted, -, script, hrequest, -⟩ := h
  exact ⟨by rw [hrequest, Request.player?], hextracted⟩

/-- Every version with a plan after a step had one before, or was extracted and served. -/
theorem Step.names_contexts (hs : Step extract cache event)
    (h : player ∈ Register.names event.after.contexts) :
    player ∈ Register.names cache.contexts ∨ event.Extracts player ∧ event.Serves player := by
  obtain ⟨plan, hentry⟩ := Register.mem_names_iff.mp h
  refine (hs.mem_contexts hentry).imp (fun hold => Register.mem_names_iff.mpr ⟨plan, hold⟩) ?_
  intro hrecords
  have hextracts := extracts_of_records hrecords
  exact ⟨hextracts, hextracts.1, plan, hrecords.2.1⟩

/-- Every version with a failure after a step had one before, or failed in this step. -/
theorem Step.names_failures (hs : Step extract cache event)
    (h : player ∈ Register.names event.after.failures) :
    player ∈ Register.names cache.failures ∨ event.Fails player := by
  obtain ⟨fault, hentry⟩ := Register.mem_names_iff.mp h
  refine (hs.mem_failures hentry).imp (fun hold => Register.mem_names_iff.mpr ⟨fault, hold⟩) ?_
  intro hrecords
  exact ⟨extracts_of_records hrecords, _, hrecords.2.1⟩

/-- A step keeps both registers within the capacity. -/
theorem Step.length_le (hs : Step extract cache event)
    (hcontexts : cache.contexts.length ≤ cache.capacity)
    (hfailures : cache.failures.length ≤ cache.capacity) :
    event.after.contexts.length ≤ cache.capacity ∧
      event.after.failures.length ≤ cache.capacity := by
  cases hs with
  | idle => exact ⟨hcontexts, hfailures⟩
  | reuse _ _ _ hfound =>
    have hname := Register.mem_names_iff.mpr ⟨_, Register.mem_of_get? hfound⟩
    exact ⟨Nat.le_trans (length_touch_le hname) hcontexts, hfailures⟩
  | build => exact ⟨length_remember_le, hfailures⟩
  | fail => exact ⟨hcontexts, length_remember_le⟩
  | accident => exact ⟨hcontexts, hfailures⟩
  | clear => exact ⟨Nat.zero_le _, Nat.zero_le _⟩

/-- A step does not change which versions are denied. -/
theorem Step.denied_eq (hs : Step extract cache event) : event.after.denied = cache.denied := by
  cases hs <;> rfl

/-- The registers of a cache are within the capacity, share no version, and hold no
denied one. -/
structure Orderly (capacity : Nat) (denied : List Text) (cache : Cache) : Prop
    extends WellOrdered capacity cache where
  /-- The denied versions never change. -/
  denied_eq : cache.denied = denied
  /-- The plans are within the capacity. -/
  contexts_length_le : cache.contexts.length ≤ capacity
  /-- The failures are within the capacity. -/
  failures_length_le : cache.failures.length ≤ capacity
  /-- No version has both a plan and a failure. -/
  disjoint : ∀ name ∈ Register.names cache.contexts, name ∉ Register.names cache.failures
  /-- No denied version has a plan. -/
  contexts_allowed : ∀ name ∈ Register.names cache.contexts, name ∉ denied
  /-- No denied version has a failure. -/
  failures_allowed : ∀ name ∈ Register.names cache.failures, name ∉ denied

/-- A fresh cache is orderly. -/
theorem orderly_fresh (size : Int) (denied : List Text) :
    Orderly (max 1 size).toNat denied (fresh size denied) where
  toWellOrdered := wellOrdered_fresh size denied
  denied_eq := rfl
  contexts_length_le := Nat.zero_le _
  failures_length_le := Nat.zero_le _
  disjoint := by simp [fresh]
  contexts_allowed := by simp [fresh]
  failures_allowed := by simp [fresh]

/-- Every step keeps a cache orderly. -/
theorem Orderly.step (h : Orderly capacity denied cache) (hs : Step extract cache event) :
    Orderly capacity denied event.after := by
  obtain rfl := h.capacity_eq
  obtain rfl := h.denied_eq
  have hlength := hs.length_le h.contexts_length_le h.failures_length_le
  refine
    { toWellOrdered := h.toWellOrdered.step hs
      denied_eq := hs.denied_eq
      contexts_length_le := hlength.1
      failures_length_le := hlength.2
      disjoint := ?_
      contexts_allowed := ?_
      failures_allowed := ?_ }
  · intro name hcontexts hfailures
    rcases hs.names_contexts hcontexts with hcontexts | ⟨hbuilt, hserves⟩
    · rcases hs.names_failures hfailures with hfailures | hfails
      · exact h.disjoint name hcontexts hfailures
      · exact Register.get?_eq_none_iff.mp (hs.forgotten hfails.1).1 hcontexts
    · rcases hs.names_failures hfailures with hfailures | ⟨-, e, he⟩
      · exact Register.get?_eq_none_iff.mp (hs.forgotten hbuilt).2 hfailures
      · obtain ⟨-, plan, hplan⟩ := hserves
        cases hplan.symm.trans he
  · intro name hname
    rcases hs.names_contexts hname with hname | ⟨hbuilt, -⟩
    · exact h.contexts_allowed name hname
    · exact isOneOf_eq_false_iff.mp (hs.allowed hbuilt)
  · intro name hname
    rcases hs.names_failures hname with hname | ⟨hextracts, -⟩
    · exact h.failures_allowed name hname
    · exact isOneOf_eq_false_iff.mp (hs.allowed hextracts)

/-- A remembered outcome is upheld by the next request, unless it clears the cache. -/
theorem Orderly.upholds_context (h : Orderly capacity denied cache) {entry : Text × Plan}
    (hentry : entry ∈ cache.contexts) {request : Request} (hclear : request ≠ .clear) :
    (cache.serve extract request).Upholds entry.1 (.ok entry.2) := by
  have hname := Register.mem_names_iff.mpr ⟨entry.2, hentry⟩
  obtain rfl := h.denied_eq
  refine ⟨by simpa using hclear, fun hwanted => ?_⟩
  exact serve_of_context (by simpa using hwanted)
    (isOneOf_eq_false_iff.mpr (h.contexts_allowed _ hname))
    (Register.get?_eq_none_iff.mpr (h.disjoint _ hname))
    (Register.get?_of_mem h.contexts_nodup hentry)

/-- A remembered failure refuses whatever is checked for its version. -/
theorem Orderly.serve_of_failure (h : Orderly capacity denied cache)
    {entry : Text × ExtractionFault} (hentry : entry ∈ cache.failures) {request : Request}
    (hchecked : request.checked? = some entry.1) :
    cache.serve extract request = ⟨request, .error (.script (.fault entry.2)), false, cache⟩ := by
  have hname := Register.mem_names_iff.mpr ⟨entry.2, hentry⟩
  obtain rfl := h.denied_eq
  exact serve_of_refused hchecked (checkSupported_of_failed
    (isOneOf_eq_false_iff.mpr (h.failures_allowed _ hname))
    (Register.get?_of_mem h.failures_nodup hentry))

/-- A remembered failure is upheld by the next request, unless it clears the cache. -/
theorem Orderly.upholds_failure (h : Orderly capacity denied cache)
    {entry : Text × ExtractionFault} (hentry : entry ∈ cache.failures) {request : Request}
    (hclear : request ≠ .clear) :
    (cache.serve extract request).Upholds entry.1 (.error (.fault entry.2)) := by
  refine ⟨by simpa using hclear, fun hwanted => ?_⟩
  rw [h.serve_of_failure hentry (checked?_of_wanted? (by simpa using hwanted))]
  exact ⟨rfl, rfl⟩

/-- An outcome that goes back to an extraction still does after an event that upholds
it. -/
theorem goesBack_concat (h : Event.GoesBack extract events player outcome)
    (hupholds : event.Upholds player outcome) :
    Event.GoesBack extract (events ++ [event]) player outcome := by
  obtain ⟨past, origin, since, rfl, horigin, hsince⟩ := h
  refine ⟨past, origin, since ++ [event], by simp, horigin, ?_⟩
  intro e he
  rcases List.mem_append.mp he with he | he
  · exact hsince e he
  · exact List.mem_singleton.mp he ▸ hupholds

/-- An outcome goes back to the event that recorded it. -/
theorem goesBack_of_records (h : event.Records extract player outcome) :
    Event.GoesBack extract (events ++ [event]) player outcome :=
  ⟨events, event, [], rfl, h, by simp⟩

/-- Everything that a cache remembers goes back to an extraction among the events. -/
structure Traced (extract : Extractor) (events : List Event) (cache : Cache) : Prop where
  /-- Every remembered plan does. -/
  contexts : ∀ entry ∈ cache.contexts, Event.GoesBack extract events entry.1 (.ok entry.2)
  /-- Every remembered failure does. -/
  failures : ∀ entry ∈ cache.failures,
    Event.GoesBack extract events entry.1 (.error (.fault entry.2))

/-- Serving a request keeps everything traced. -/
theorem Traced.serve (h : Traced extract events cache) (ho : Orderly capacity denied cache)
    (request : Request) :
    Traced extract (events ++ [cache.serve extract request])
      (cache.serve extract request).after := by
  have hs := step_serve extract cache request
  by_cases hclear : request = .clear
  · subst hclear
    exact ⟨by simp [Cache.serve, Cache.clear], by simp [Cache.serve, Cache.clear]⟩
  · constructor
    · intro entry hentry
      rcases hs.mem_contexts hentry with hold | hnew
      · exact goesBack_concat (h.contexts entry hold) (ho.upholds_context hold hclear)
      · exact goesBack_of_records hnew
    · intro entry hentry
      rcases hs.mem_failures hentry with hold | hnew
      · exact goesBack_concat (h.failures entry hold) (ho.upholds_failure hold hclear)
      · exact goesBack_of_records hnew

/-- A refused request for a plan leaves the plans alone. -/
theorem contexts_of_error {script : Text} {e : PlayerError}
    (h : (cache.serve extract (.get player script)).result = .error e) :
    (cache.serve extract (.get player script)).after.contexts = cache.contexts := by
  have hs := step_serve extract cache (.get player script)
  generalize cache.serve extract (.get player script) = event at hs h
  cases hs with
  | idle => rfl
  | reuse => cases h
  | build => cases h
  | fail => rfl
  | accident => rfl
  | clear => cases h

/-- After any sequence of requests the registers of a cache are in order, and everything
in them goes back to an extraction that was upheld ever since. The next request is
refused without a trace if its version is denied or remembered as failed, and a failed
request for a plan leaves the plans as they are. -/
theorem memory_sound (extract : Extractor) (size : Int) (denied : List Text)
    (requests : List Request) :
    let events := history extract (fresh size denied) requests
    let cache := final extract (fresh size denied) requests
    Orderly (max 1 size).toNat denied cache ∧ Traced extract events cache ∧
      (∀ request player, request.checked? = some player →
        (player ∈ denied →
          cache.serve extract request = ⟨request, .error (.denied player), false, cache⟩) ∧
        ∀ fault, (player, fault) ∈ cache.failures → cache.serve extract request =
          ⟨request, .error (.script (.fault fault)), false, cache⟩) ∧
      ∀ player script e, (cache.serve extract (.get player script)).result = .error e →
        (cache.serve extract (.get player script)).after.contexts = cache.contexts := by
  intro events cache
  have hsound : Orderly (max 1 size).toNat denied cache ∧ Traced extract events cache := by
    refine history_induction (P := fun events cache =>
      Orderly (max 1 size).toNat denied cache ∧ Traced extract events cache) ?_ []
      ⟨orderly_fresh size denied, ⟨by simp [fresh], by simp [fresh]⟩⟩
    rintro events now request _ _ ⟨horderly, htraced⟩
    exact ⟨horderly.step (step_serve extract now request), htraced.serve horderly request⟩
  obtain ⟨horderly, htraced⟩ := hsound
  refine ⟨horderly, htraced, fun request player hchecked => ⟨fun hdenied => ?_, ?_⟩, ?_⟩
  · exact serve_of_refused hchecked (checkSupported_of_denied (horderly.denied_eq.symm ▸ hdenied))
  · exact fun fault hentry => horderly.serve_of_failure hentry hchecked
  · exact fun player script e he => contexts_of_error he

end Cache
end Playable
