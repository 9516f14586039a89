import Mathlib.Data.List.Dedup
import Mathlib.Data.List.DropRight
import Mathlib.Data.List.Perm.Subperm
import Playable.Proofs.Cache.Inclusion

/-!
# Both registers as windows on the history

What a cache remembers can be read off its history. Its plans are those of the versions that were
served last, as many different ones as the capacity, in the order of their last use. Its failures
are those of the versions that failed last, in the order in which the extractor ran for them. Being
asked for counts as a use of a plan, and not of a failure: a plan is forgotten once a whole capacity
of other versions was served after its last use, a failure once a whole capacity of other versions
failed after it, however often the version was refused in between.
-/

namespace Playable

open Cipher Script

namespace Event

/-- The extractor ran for this version and found a declared fault. -/
def Faults (event : Event) (player : Text) : Prop :=
  event.Extracts player ∧ ∃ fault, event.result = .error (.script (.fault fault))

/-- The version whose plan was returned or built. -/
def served? (event : Event) : Option Text :=
  match event.result with
  | .ok (.plan _) => event.request.player?
  | _ => none

/-- The version for which the extractor ran and found a declared fault. -/
def faulted? (event : Event) : Option Text :=
  match event.extracted, event.result with
  | true, .error (.script (.fault _)) => event.request.player?
  | _, _ => none

/-- An event has served a version exactly if it has returned or built its plan. -/
theorem served?_eq_some_iff {event : Event} {player : Text} :
    event.served? = some player ↔ event.Serves player := by
  unfold served? Serves
  split
  · next plan hresult => simp [hresult]
  · next hnone =>
    simp only [reduceCtorEq, false_iff, not_and, not_exists]
    exact fun _ => hnone

/-- An event has found the fault of a version exactly if the extractor ran for it and found one. -/
theorem faulted?_eq_some_iff {event : Event} {player : Text} :
    event.faulted? = some player ↔ event.Faults player := by
  unfold faulted? Faults Extracts
  split
  · next fault hextracted hresult => simp [hextracted, hresult]
  · next hnone =>
    simp only [reduceCtorEq, false_iff, not_and, not_exists, and_imp]
    exact fun _ hextracted fault hresult => hnone fault hextracted hresult

end Event

namespace Cache

variable {extract : Extractor} {capacity : Nat} {cache : Cache} {denied : List Text}
  {player : Text} {events : List Event} {event : Event}

/-! ## The last different names -/

section Latest

variable {names front back : List Text} {name : Text}

/-- The last different names of a list, as many as the capacity, in the order in which they occur
for the last time. -/
def latest (capacity : Nat) (names : List Text) : List Text :=
  names.dedup.rtake capacity

/-- A name at the end takes the place of its earlier occurrences. -/
theorem dedup_concat (names : List Text) (name : Text) :
    (names ++ [name]).dedup = names.dedup.filter (· ≠ name) ++ [name] := by
  induction names with
  | nil => rfl
  | cons first names ih =>
    rw [List.cons_append, List.dedup_cons, List.dedup_cons, ih]
    by_cases hmore : first ∈ names
    · rw [if_pos (List.mem_append_left _ hmore), if_pos hmore]
    · rw [if_neg hmore]
      by_cases hname : first = name
      · rw [if_pos (by simp [hname]), List.filter_cons_of_neg (by simp [hname])]
      · rw [if_neg (by simp [hmore, hname]), List.filter_cons_of_pos (by simp [hname]),
          List.cons_append]

/-- Different names within the capacity are the latest of themselves. -/
theorem latest_of_nodup (hnodup : names.Nodup) (hlength : names.length ≤ capacity) :
    latest capacity names = names := by
  rw [latest, hnodup.dedup, List.rtake, Nat.sub_eq_zero_of_le hlength, List.drop_zero]

/-- The latest names are different. -/
theorem nodup_latest (capacity : Nat) (names : List Text) : (latest capacity names).Nodup :=
  (List.drop_sublist _ _).nodup names.nodup_dedup

/-- The latest names are within the capacity. -/
theorem length_latest_le (capacity : Nat) (names : List Text) :
    (latest capacity names).length ≤ capacity := by
  rw [latest, List.rtake, List.length_drop]
  omega

/-- The last names of a list are those of any part at its end that is long enough. -/
theorem rtake_eq_of_suffix (h : back <:+ names) (hlength : capacity ≤ back.length) :
    back.rtake capacity = names.rtake capacity := by
  obtain ⟨front, rfl⟩ := h
  have hcut : (front ++ back).length - capacity = front.length + (back.length - capacity) := by
    rw [List.length_append]
    omega
  rw [List.rtake, List.rtake, hcut, List.drop_length_add_append]

/-- Taking a name out of the last different ones leaves enough of them. -/
theorem rtake_filter_rtake (hnodup : names.Nodup) (name : Text) :
    ((names.rtake (capacity + 1)).filter (· ≠ name)).rtake capacity =
      (names.filter (· ≠ name)).rtake capacity := by
  by_cases hshort : names.length ≤ capacity + 1
  · have hall : names.rtake (capacity + 1) = names := by
      rw [List.rtake, Nat.sub_eq_zero_of_le hshort, List.drop_zero]
    rw [hall]
  have hsuffix : names.rtake (capacity + 1) <:+ names := List.drop_suffix _ _
  have hlength : (names.rtake (capacity + 1)).length = capacity + 1 := by
    rw [List.rtake, List.length_drop]
    omega
  have herase : (names.rtake (capacity + 1)).filter (· ≠ name) =
      (names.rtake (capacity + 1)).erase name := by
    rw [(hsuffix.sublist.nodup hnodup).erase_eq_filter]
    exact List.filter_congr fun other _ => Bool.eq_iff_iff.mpr (by simp)
  refine rtake_eq_of_suffix (hsuffix.filter _) ?_
  rw [herase, List.length_erase]
  split <;> omega

/-- What is forgotten cannot come back among the latest names. -/
theorem latest_latest_concat (hcapacity : 0 < capacity) (names : List Text) (name : Text) :
    latest capacity (latest capacity names ++ [name]) = latest capacity (names ++ [name]) := by
  obtain ⟨more, rfl⟩ := Nat.exists_eq_succ_of_ne_zero hcapacity.ne'
  have hnodup : (names.dedup.rtake (more + 1)).Nodup := nodup_latest (more + 1) names
  simp only [latest, dedup_concat, List.rtake_concat_succ, hnodup.dedup,
    rtake_filter_rtake names.nodup_dedup]

/-- A name that is crowded out by the names of a list is crowded out by the different ones. -/
theorem crowdedOut_mem_iff (hname : name ∉ back) :
    CrowdedOut capacity name (· ∈ back) ↔ capacity ≤ back.dedup.length := by
  constructor
  · rintro ⟨others, hnodup, hlength, hothers⟩
    have hsubset : others ⊆ back.dedup := fun o ho => List.mem_dedup.mpr (hothers o ho).2
    exact hlength.trans (List.Nodup.subperm hnodup hsubset).length_le
  · intro hlength
    refine ⟨back.dedup, back.nodup_dedup, hlength, fun o ho => ?_⟩
    have hback := List.mem_dedup.mp ho
    exact ⟨fun heq => hname (heq ▸ hback), hback⟩

/-- A name is among the latest exactly if it is not crowded out by those behind its last
occurrence. -/
theorem mem_latest_iff (hname : name ∉ back) :
    name ∈ latest capacity (front ++ name :: back) ↔ ¬ CrowdedOut capacity name (· ∈ back) := by
  obtain ⟨older, holder⟩ : name :: back.dedup <:+ (front ++ name :: back).dedup := by
    rw [List.dedup_append, List.dedup_cons_of_notMem hname]
    exact List.suffix_union_right _ _
  rw [crowdedOut_mem_iff hname, latest, ← holder, Nat.not_le]
  constructor
  · intro hmem
    by_contra hfull
    have hsuffix : back.dedup <:+ older ++ name :: back.dedup := ⟨older ++ [name], by simp⟩
    rw [← rtake_eq_of_suffix hsuffix (by omega)] at hmem
    exact hname (List.mem_dedup.mp (List.mem_of_mem_drop hmem))
  · intro hroom
    rw [List.rtake, List.length_append, List.length_cons, List.drop_append_of_le_length (by omega)]
    simp

end Latest

/-! ## Steps -/

section Entries

variable {α : Type} {r : Register α} {name : Text} {value : α}

/-- Within the capacity all names of a register are the latest ones. -/
theorem names_eq_latest (hnodup : (Register.names r).Nodup) (hlength : r.length ≤ capacity) :
    Register.names r = latest capacity (Register.names r ++ []) := by
  rw [List.append_nil, latest_of_nodup hnodup (by simpa [Register.names] using hlength)]

/-- Moving a name to the end makes it the latest one. -/
theorem names_touch (hnodup : (Register.names r).Nodup) (hlength : r.length ≤ capacity)
    (hmem : name ∈ Register.names r) :
    Register.names (touch r name value) = latest capacity (Register.names r ++ [name]) := by
  have hnames : Register.names (touch r name value) =
      (Register.names r).filter (· ≠ name) ++ [name] := by
    rw [touch, Register.names_append, Register.names_erase, Register.names_cons,
      Register.names_nil]
  have hsame : (Register.names (touch r name value)).length ≤ capacity := by
    rwa [Register.names, List.length_map, length_touch hnodup hmem]
  rw [← latest_of_nodup (nodup_touch hnodup) hsame, hnames, latest, latest, dedup_concat,
    dedup_concat, hnodup.dedup, (hnodup.filter _).dedup, List.filter_filter]
  simp

/-- Entering a new name makes it the latest one. -/
theorem names_remember (hnodup : (Register.names r).Nodup) (hnew : name ∉ Register.names r) :
    Register.names (remember capacity r name value) =
      latest capacity (Register.names r ++ [name]) := by
  have hall := nodup_append_new value hnodup hnew
  rw [Register.names_append, Register.names_cons, Register.names_nil] at hall
  rw [latest, hall.dedup, remember, Register.set_of_not_mem hnew, List.rtake]
  simp [Register.names]

end Entries

/-- After a step the versions with a plan are the latest of those before it and the one that it
served. -/
theorem Step.names_contexts_eq (hs : Step extract cache event)
    (h : Orderly capacity denied cache) (hclear : event.request ≠ .clear) :
    Register.names event.after.contexts =
      latest capacity (Register.names cache.contexts ++ event.served?.toList) := by
  obtain rfl := h.capacity_eq
  have hsame := names_eq_latest h.contexts_nodup h.contexts_length_le
  cases hs with
  | @idle request result hresult =>
    have hnone : Event.served? ⟨request, result, false, cache⟩ = none :=
      Option.eq_none_iff_forall_ne_some.mpr fun player hserved =>
        (Event.served?_eq_some_iff.mp hserved).2.elim hresult
    rw [hnone]
    exact hsame
  | reuse hplayer _ _ hcontexts =>
    rw [Event.served?, hplayer]
    exact names_touch h.contexts_nodup h.contexts_length_le
      (Register.mem_names_iff.mpr ⟨_, Register.mem_of_get? hcontexts⟩)
  | build _ _ hcontexts =>
    exact names_remember h.contexts_nodup (Register.get?_eq_none_iff.mp hcontexts)
  | fail => exact hsame
  | accident => exact hsame
  | clear => exact absurd rfl hclear

/-- After a step the versions with a failure are the latest of those before it and the one whose
fault it found. -/
theorem Step.names_failures_eq (hs : Step extract cache event)
    (h : Orderly capacity denied cache) (hclear : event.request ≠ .clear) :
    Register.names event.after.failures =
      latest capacity (Register.names cache.failures ++ event.faulted?.toList) := by
  obtain rfl := h.capacity_eq
  have hsame := names_eq_latest h.failures_nodup h.failures_length_le
  cases hs with
  | idle => exact hsame
  | reuse => exact hsame
  | build => exact hsame
  | fail _ hfailures =>
    exact names_remember h.failures_nodup (Register.get?_eq_none_iff.mp hfailures)
  | accident => exact hsame
  | clear => exact absurd rfl hclear

/-! ## Histories -/

/-- What a cache remembers is what its history shows: the plans of the versions that were served
last, and the failures of the versions whose faults were found last. -/
structure Shows (capacity : Nat) (events : List Event) (cache : Cache) : Prop where
  /-- The versions with a plan, in the order of their last use. -/
  contexts : Register.names cache.contexts = latest capacity (events.filterMap Event.served?)
  /-- The versions with a failure, in the order of their extraction. -/
  failures : Register.names cache.failures = latest capacity (events.filterMap Event.faulted?)

/-- A fresh cache shows an empty history. -/
theorem shows_fresh (size : Int) (denied : List Text) :
    Shows capacity [] (fresh size denied) :=
  ⟨by simp [fresh, latest], by simp [fresh, latest]⟩

/-- The latest names stay the same if the earlier ones are reduced to their latest. -/
theorem latest_latest_append (hcapacity : 0 < capacity) (names : List Text) (name : Option Text) :
    latest capacity (latest capacity names ++ name.toList) =
      latest capacity (names ++ name.toList) := by
  cases name with
  | some name => exact latest_latest_concat hcapacity names name
  | none =>
    rw [Option.toList_none, List.append_nil, List.append_nil]
    exact latest_of_nodup (nodup_latest capacity names) (length_latest_le capacity names)

/-- A step goes on showing the history. -/
theorem Shows.step (hshows : Shows capacity events cache) (h : Orderly capacity denied cache)
    (hs : Step extract cache event) (hclear : event.request ≠ .clear) :
    Shows capacity (events ++ [event]) event.after := by
  have hcapacity : 0 < capacity := h.capacity_eq ▸ cache.capacity_pos
  have hlast (f : Event → Option Text) :
      (events ++ [event]).filterMap f = events.filterMap f ++ (f event).toList := by
    rw [List.filterMap_append]
    cases hf : f event <;> simp [hf]
  constructor
  · rw [hs.names_contexts_eq h hclear, hshows.contexts, latest_latest_append hcapacity, hlast]
  · rw [hs.names_failures_eq h hclear, hshows.failures, latest_latest_append hcapacity, hlast]

/-- After any sequence of requests without clearing a cache is in order, and what it remembers is
what its history shows. -/
theorem shows_final (extract : Extractor) (size : Int) (denied : List Text)
    {requests : List Request} (hclear : .clear ∉ requests) :
    let events := history extract (fresh size denied) requests
    let cache := final extract (fresh size denied) requests
    Orderly (max 1 size).toNat denied cache ∧ Traced extract events cache ∧
      Shows (max 1 size).toNat events cache := by
  refine history_induction (P := fun events cache => Orderly (max 1 size).toNat denied cache ∧
    Traced extract events cache ∧ Shows (max 1 size).toNat events cache) ?_ []
    ⟨orderly_fresh size denied, ⟨by simp [fresh], by simp [fresh]⟩, shows_fresh size denied⟩
  rintro events now request hrequest - ⟨horderly, htraced, hshows⟩
  have hs := step_serve extract now request
  refine ⟨horderly.step hs, htraced.serve horderly request, hshows.step horderly hs ?_⟩
  rw [request_serve]
  exact fun heq => hclear (heq ▸ hrequest)

/-! ## The next request -/

/-- What goes back to an extraction goes back to the last one of the version. -/
theorem answerTo_eq_of_goesBack {older younger : List Event} {last : Event}
    {outcome given : Except ScriptError Plan}
    (h : Event.GoesBack extract (older ++ last :: younger) player outcome)
    (hlast : last.Records extract player given)
    (hnot : ∀ event ∈ younger, ¬ event.Extracts player) : answerTo outcome = answerTo given := by
  obtain ⟨past, origin, since, heq, horigin, hsince⟩ := h
  have hsame (h : last = origin) : answerTo outcome = answerTo given := by
    rw [← horigin.2.1, ← hlast.2.1, h]
  rcases List.append_eq_append_iff.mp heq with ⟨between, rfl, hbetween⟩ | ⟨between, rfl, hbetween⟩
  · cases between with
    | nil => exact hsame (List.cons.inj hbetween).1
    | cons first between =>
      have hyounger : origin ∈ younger := by
        rw [(List.cons.inj hbetween).2]
        exact List.mem_append_right _ List.mem_cons_self
      exact absurd (extracts_of_records horigin) (hnot _ hyounger)
  · cases between with
    | nil => exact hsame (List.cons.inj hbetween).1.symm
    | cons first between =>
      have hsince' : last ∈ since := by
        rw [(List.cons.inj hbetween).2]
        exact List.mem_append_right _ List.mem_cons_self
      obtain ⟨hextracted, -, script, hrequest, -⟩ := hlast
      have hupheld := (hsince _ hsince').2 (by rw [hrequest]; rfl)
      cases hextracted.symm.trans hupheld.1

/-- Only a version with a remembered failure is refused with a fault. -/
theorem Step.get?_failures_of_refused (hs : Step extract cache event)
    (hplayer : event.request.player? = some player) {fault : ExtractionFault}
    (hextracted : event.extracted = false)
    (hresult : event.result = .error (.script (.fault fault))) :
    Register.get? cache.failures player = some fault := by
  cases hs with
  | idle _ hrefused =>
    obtain ⟨other, hother, hcheck⟩ := hrefused _ hresult
    obtain rfl := Option.some.inj (hplayer.symm.trans hother)
    unfold checkSupported at hcheck
    split at hcheck
    · cases hcheck
    · split at hcheck
      · next found hfound =>
        cases hcheck
        exact hfound
      · cases hcheck
  | reuse => cases hresult
  | build => cases hextracted
  | fail => cases hextracted
  | accident => cases hextracted
  | clear => cases hplayer

/-- Only a version with a remembered plan has a plan returned without reading a script. -/
theorem Step.mem_names_contexts_of_recalls (hs : Step extract cache event)
    (hplayer : event.request.player? = some player) {plan : Plan} (h : event.Recalls plan) :
    player ∈ Register.names cache.contexts := by
  obtain ⟨hextracted, hresult⟩ := h
  cases hs with
  | idle hnone => exact absurd hresult (hnone plan)
  | reuse hother _ _ hcontexts =>
    obtain rfl := Option.some.inj (hplayer.symm.trans hother)
    exact Register.mem_names_iff.mpr ⟨_, Register.mem_of_get? hcontexts⟩
  | build => cases hextracted
  | fail => cases hresult
  | accident => cases hresult
  | clear => cases hplayer

/-- Whether a version is among the latest ones of a history is decided by the events behind the last
one that concerns it. -/
theorem mem_latest_filterMap_iff (capacity : Nat) {f : Event → Option Text}
    (older : List Event) {younger : List Event} {last : Event} (hlast : f last = some player)
    (hnot : ∀ event ∈ younger, f event ≠ some player) :
    player ∈ latest capacity ((older ++ last :: younger).filterMap f) ↔
      ¬ CrowdedOut capacity player fun other => ∃ event ∈ younger, f event = some other := by
  have hback : player ∉ younger.filterMap f := fun hmem => by
    obtain ⟨event, hevent, heq⟩ := List.mem_filterMap.mp hmem
    exact hnot event hevent heq
  rw [List.filterMap_append, List.filterMap_cons_some hlast, mem_latest_iff hback]
  simp only [List.mem_filterMap]

section Next

variable {older younger : List Event} {last : Event} {request : Request}

/-- A request for a version is recorded as one. -/
theorem player?_serve (hwanted : request.wanted? = some player) :
    (cache.serve extract request).request.player? = some player := by
  rw [request_serve]
  exact player?_of_wanted? hwanted

/-- A version whose last extraction found a fault is refused with it exactly if fewer other versions
than the capacity have failed since then. -/
theorem Shows.refuses_iff (hshows : Shows capacity (older ++ last :: younger) cache)
    (horderly : Orderly capacity denied cache)
    (htraced : Traced extract (older ++ last :: younger) cache)
    (hwanted : request.wanted? = some player) {fault : ExtractionFault}
    (hrecords : last.Records extract player (.error (.fault fault)))
    (hlast : ∀ event ∈ younger, ¬ event.Extracts player) :
    ((cache.serve extract request).extracted = false ∧
        (cache.serve extract request).result = .error (.script (.fault fault))) ↔
      ¬ CrowdedOut capacity player fun other => ∃ event ∈ younger, event.Faults other := by
  have hfailure : last.faulted? = some player :=
    Event.faulted?_eq_some_iff.mpr ⟨extracts_of_records hrecords, fault, hrecords.2.1⟩
  have hnot : ∀ event ∈ younger, event.faulted? ≠ some player := fun event hevent heq =>
    hlast event hevent (Event.faulted?_eq_some_iff.mp heq).1
  have hkept := mem_latest_filterMap_iff capacity older hfailure hnot
  simp only [Event.faulted?_eq_some_iff] at hkept
  rw [← hkept, ← hshows.failures]
  constructor
  · rintro ⟨hextracted, hresult⟩
    have hfound := (step_serve extract cache request).get?_failures_of_refused
      (player?_serve hwanted) hextracted hresult
    exact Register.mem_names_iff.mpr ⟨fault, Register.mem_of_get? hfound⟩
  · intro hmem
    obtain ⟨found, hentry⟩ := Register.mem_names_iff.mp hmem
    have hsame : answerTo (.error (.fault found)) = answerTo (.error (.fault fault)) :=
      answerTo_eq_of_goesBack (htraced.failures _ hentry) hrecords hlast
    rw [horderly.serve_of_failure hentry (checked?_of_wanted? hwanted)]
    exact ⟨rfl, hsame⟩

/-- The plan of a version is found exactly if fewer other versions than the capacity were served
since it was last returned or built. -/
theorem Shows.recalls_iff (hshows : Shows capacity (older ++ last :: younger) cache)
    (horderly : Orderly capacity denied cache) (hwanted : request.wanted? = some player)
    (huse : last.Serves player) (hlast : ∀ event ∈ younger, ¬ event.Serves player) :
    (∃ plan, (cache.serve extract request).Recalls plan) ↔
      ¬ CrowdedOut capacity player fun other => ∃ event ∈ younger, event.Serves other := by
  have hnot : ∀ event ∈ younger, event.served? ≠ some player := fun event hevent heq =>
    hlast event hevent (Event.served?_eq_some_iff.mp heq)
  have hkept := mem_latest_filterMap_iff capacity older (Event.served?_eq_some_iff.mpr huse) hnot
  simp only [Event.served?_eq_some_iff] at hkept
  rw [← hkept, ← hshows.contexts]
  constructor
  · rintro ⟨plan, hrecalls⟩
    exact (step_serve extract cache request).mem_names_contexts_of_recalls (player?_serve hwanted)
      hrecalls
  · intro hmem
    obtain ⟨plan, hentry⟩ := Register.mem_names_iff.mp hmem
    have hclear : request ≠ .clear := by
      rintro rfl
      cases hwanted
    have hupheld : (cache.serve extract request).Upholds player (.ok plan) :=
      horderly.upholds_context hentry hclear
    exact ⟨plan, hupheld.2 (by rwa [request_serve])⟩

end Next

/-- Let the last extraction of a version have found a fault, along requests that do not clear the
cache. Then the next request for the version is refused with this fault, without reading a script,
exactly if fewer other versions than the capacity have failed since then. The requests for the
version since then make no difference. A plan is kept longer: after it was last returned or built,
the next request for it finds it exactly if fewer other versions than the capacity were served since
then. -/
theorem failures_kept_by_age_plans_by_use (extract : Extractor) (size : Int)
    (denied : List Text) (requests : List Request) (hclear : .clear ∉ requests)
    (player : Text) (request : Request) (hwanted : request.wanted? = some player) :
    let capacity := (max 1 size).toNat
    let events := history extract (fresh size denied) requests
    let next := (final extract (fresh size denied) requests).serve extract request
    (∀ older failure younger fault, events = older ++ failure :: younger →
      failure.Records extract player (.error (.fault fault)) →
      (∀ event ∈ younger, ¬ event.Extracts player) →
      ((next.extracted = false ∧ next.result = .error (.script (.fault fault))) ↔
        ¬ CrowdedOut capacity player fun other => ∃ event ∈ younger, event.Faults other)) ∧
    ∀ older use younger, events = older ++ use :: younger → use.Serves player →
      (∀ event ∈ younger, ¬ event.Serves player) →
      ((∃ plan, next.Recalls plan) ↔
        ¬ CrowdedOut capacity player fun other => ∃ event ∈ younger, event.Serves other) := by
  intro capacity events next
  obtain ⟨horderly, htraced, hshows⟩ := shows_final extract size denied hclear
  constructor
  · intro older failure younger fault hsplit hrecords hlast
    change Traced extract events _ at htraced
    change Shows capacity events _ at hshows
    rw [hsplit] at htraced hshows
    exact hshows.refuses_iff horderly htraced hwanted hrecords hlast
  · intro older use younger hsplit huse hlast
    change Shows capacity events _ at hshows
    rw [hsplit] at hshows
    exact hshows.recalls_iff horderly hwanted huse hlast

/-- One other failure does not push a failure out of two places, and one other plan does not push
out a plan that was just looked up. -/
theorem failures_kept_by_age_plans_by_use_in_two_places :
    let plan : Plan := ⟨[⟨"reverse".toList, none⟩], List.cons_ne_nil _ _⟩
    let extract : Extractor := fun script =>
      if script = [] then .error (.fault .noEntryShape) else .ok plan
    let requests := [.get ['a'] [], .get ['b'] ['x'], .get ['c'] [], .get ['d'] ['x'],
      .lookup ['b'], .get ['e'] ['x']]
    let cache := final extract (fresh 2 []) requests
    Request.clear ∉ requests ∧
      ((cache.serve extract (.lookup ['a'])).extracted = false ∧
        (cache.serve extract (.lookup ['a'])).result = .error (.script (.fault .noEntryShape))) ∧
      ∃ plan, (cache.serve extract (.get ['b'] [])).Recalls plan := by
  intro plan extract requests cache
  have hclear : Request.clear ∉ requests := by simp [requests]
  let events := history extract (fresh 2 []) requests
  -- the first event is the failure, and the fifth one the last use of the plan
  let failure := (fresh 2 []).serve extract (.get ['a'] [])
  let use := (final extract (fresh 2 []) (requests.take 4)).serve extract (.lookup ['b'])
  have hfirst : events = [] ++ failure :: events.drop 1 := rfl
  have hfifth : events = events.take 4 ++ use :: events.drop 5 := rfl
  have hfault : failure.Records extract ['a'] (.error (.fault .noEntryShape)) :=
    ⟨rfl, rfl, [], rfl, rfl⟩
  have huse : use.Serves ['b'] := Event.served?_eq_some_iff.mp (by decide +kernel)
  have hfailed : ¬ CrowdedOut (max 1 2 : Int).toNat ['a'] fun other =>
      ∃ event ∈ events.drop 1, event.Faults other := by
    simp only [← Event.faulted?_eq_some_iff, ← List.mem_filterMap]
    rw [show (events.drop 1).filterMap Event.faulted? = [['c']] by decide +kernel,
      crowdedOut_mem_iff (by decide)]
    decide
  have hserved : ¬ CrowdedOut (max 1 2 : Int).toNat ['b'] fun other =>
      ∃ event ∈ events.drop 5, event.Serves other := by
    simp only [← Event.served?_eq_some_iff, ← List.mem_filterMap]
    rw [show (events.drop 5).filterMap Event.served? = [['e']] by decide +kernel,
      crowdedOut_mem_iff (by decide)]
    decide
  refine ⟨hclear, ?_, ?_⟩
  · refine ((failures_kept_by_age_plans_by_use extract 2 [] requests hclear ['a'] (.lookup ['a'])
      rfl).1 [] failure (events.drop 1) .noEntryShape hfirst hfault ?_).mpr hfailed
    simp [events, requests, history, Event.Extracts, serve, Request.player?]
  · refine ((failures_kept_by_age_plans_by_use extract 2 [] requests hclear ['b'] (.get ['b'] [])
      rfl).2 (events.take 4) use (events.drop 5) hfifth huse ?_).mpr hserved
    simp [events, requests, history, Event.Serves, serve, Request.player?]

/-- A version fails in a cache with two places, then another one does. The first one is refused once
more, and a third one fails: the extractor runs for the first one again, although no version but the
third one was asked for since it was refused. A plan in its place is still there. -/
theorem failure_forgotten_despite_refusal :
    let broken : Extractor := Script.extract Script.standardShapes
    let working : Extractor := fun _ => .ok ⟨[⟨"reverse".toList, none⟩], List.cons_ne_nil _ _⟩
    let requests := [.get ['a'] [], .get ['b'] [], .get ['a'] [], .get ['c'] []]
    let next := fun extract => (final extract (fresh 2 []) requests).serve extract (.get ['a'] [])
    (∀ request ∈ requests, request.IsSteady fun _ => []) ∧
      (history broken (fresh 2 []) requests).map Event.faulted? =
        [some ['a'], some ['b'], none, some ['c']] ∧
      ¬ CrowdedOut 2 ['a'] (· ∈ (requests.drop 3).filterMap Request.player?) ∧
      (next broken).faulted? = some ['a'] ∧
      (next working).served? = some ['a'] ∧ (next working).extracted = false := by
  intro broken working requests next
  refine ⟨by simp [requests, Request.IsSteady], by decide +kernel, ?_, by decide +kernel,
    by decide +kernel, by decide +kernel⟩
  rw [crowdedOut_mem_iff (by decide +kernel)]
  decide +kernel

end Cache
end Playable
