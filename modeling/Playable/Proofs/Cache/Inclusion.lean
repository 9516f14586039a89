import Playable.Proofs.Cache.Memory
import Playable.Proofs.Sequence

/-!
# A larger cache remembers more

If every version comes with one script, what a cache remembers about failures does not matter to
its plans. So two caches that serve the same requests use the same plans in the same order, and the
one with less room keeps a part of what the other one keeps. A plan that is pushed out of the larger
cache was the oldest one there, so the smaller cache, which is full by then, gives it up at the same
time if it still has it.
-/

namespace Playable

open Cipher Script

/-- A version is only ever asked for with its own script. -/
def Request.IsSteady (script : Text → Text) (request : Request) : Prop :=
  ∀ player text, request = .get player text → text = script player

namespace Event

/-- A remembered plan was the answer. -/
def Recalls (event : Event) (plan : Plan) : Prop :=
  event.extracted = false ∧ event.result = .ok (.plan plan)

/-- The extractor ran and gave a plan. -/
def builds (event : Event) : Bool :=
  event.extracted && event.result.isOk

/-- The plan that one cache answers with is the answer of another one too, and takes it no more
work. -/
structure IsMatchedBy (small large : Event) : Prop where
  /-- A plan with which the one cache answers is the answer of the other one too. -/
  answers : ∀ plan, small.result = .ok (.plan plan) → large.result = .ok (.plan plan)
  /-- A plan that the one cache recalls, the other one recalls too. -/
  recalls : ∀ plan, small.Recalls plan → large.Recalls plan
  /-- A plan that the other cache has to build, the one cache has to build too. -/
  builds : large.builds = true → small.builds = true

/-- What a cache makes of a request, beside what a larger one makes of it. -/
structure Includes (small large : Event) : Prop extends small.IsMatchedBy large where
  /-- Both serve the same request. -/
  request_eq : large.request = small.request
  /-- The plans of the smaller cache are some of those of the larger one, in the same order. -/
  contexts : small.after.contexts.Sublist large.after.contexts

end Event

namespace Cache

/-! ## Entries in order of use -/

section Within

variable {α : Type} {capacity more : Nat} {r s : Register α} {name : Text} {value : α}

/-- Some entries of a register in their order: all of them, unless they use up the capacity. -/
structure Within (capacity : Nat) (r s : Register α) : Prop where
  /-- The entries are among the others, in the same order. -/
  sublist : r.Sublist s
  /-- The capacity is used up, or nothing is missing. -/
  full_or_eq : capacity ≤ r.length ∨ r = s

/-- Moving a name that is entered to the end keeps the number of entries. -/
theorem length_touch (hnodup : (Register.names r).Nodup) (h : name ∈ Register.names r) :
    (touch r name value).length = r.length := by
  have hnames : Register.names (Register.erase r name) = (Register.names r).erase name := by
    rw [Register.names_erase, hnodup.erase_eq_filter]
    exact List.filter_congr fun other _ => Bool.eq_iff_iff.mpr (by simp)
  have hlength : (Register.names (Register.erase r name)).length + 1 =
      (Register.names r).length := by
    rw [hnames, List.length_erase_add_one h]
  simpa [touch, Register.names] using hlength

/-- Entries without a name are among the others without it. -/
theorem sublist_erase (h : r.Sublist s) (hr : name ∉ Register.names r) :
    r.Sublist (Register.erase s name) := by
  have hself : Register.erase r name = r := by
    refine List.filter_eq_self.mpr fun entry hentry => ?_
    have hne : entry.1 ≠ name := fun he => hr (he ▸ List.mem_map_of_mem hentry)
    simpa using hne
  rw [← hself]
  exact h.filter _

/-- A new name is entered behind the others, of which the oldest ones are forgotten. -/
theorem remember_eq (h : name ∉ Register.names r) (hcapacity : 0 < capacity) :
    remember capacity r name value = r.drop (r.length + 1 - capacity) ++ [(name, value)] := by
  rw [remember, Register.set_of_not_mem h, List.length_append, List.length_singleton,
    List.drop_append_of_le_length (by omega)]

/-- Behind a name that is entered anew the capacity is used up if it was before. -/
theorem le_length_remember (h : name ∉ Register.names r) (hfull : capacity ≤ r.length + 1) :
    capacity ≤ (remember capacity r name value).length := by
  rw [remember, Register.set_of_not_mem h, List.length_drop, List.length_append,
    List.length_singleton]
  omega

/-- A name that both registers hold is moved to the end of both. -/
theorem Within.touch (h : Within capacity r s) (hnodup : (Register.names r).Nodup)
    (hr : name ∈ Register.names r) :
    Within capacity (touch r name value) (touch s name value) where
  sublist := (h.sublist.filter _).append (List.Sublist.refl _)
  full_or_eq := by
    rw [length_touch hnodup hr]
    exact h.full_or_eq.imp_right fun heq => congrArg (Cache.touch · name value) heq

/-- A name that only the larger register holds is moved to its end. -/
theorem Within.touch_larger (h : Within capacity r s) (hr : name ∉ Register.names r)
    (hs : name ∈ Register.names s) : Within capacity r (Cache.touch s name value) where
  sublist := (sublist_erase h.sublist hr).trans (List.sublist_append_left _ _)
  full_or_eq := .inl (h.full_or_eq.resolve_right fun heq => hr (heq ▸ hs))

/-- A name that only the larger register holds is entered into the smaller one, where it pushes
another one out. -/
theorem Within.remember_touch (h : Within capacity r s) (hcapacity : 0 < capacity)
    (hr : name ∉ Register.names r) (hs : name ∈ Register.names s) :
    Within capacity (remember capacity r name value) (Cache.touch s name value) where
  sublist := by
    rw [remember_eq hr hcapacity, Cache.touch]
    exact ((List.drop_sublist _ r).trans (sublist_erase h.sublist hr)).append (List.Sublist.refl _)
  full_or_eq := by
    have hfull : capacity ≤ r.length := h.full_or_eq.resolve_right fun heq => hr (heq ▸ hs)
    exact .inl (le_length_remember hr (by omega))

/-- A name that is new to both registers is entered into both. If this pushes out the oldest entry
of the larger one, it also pushes out the oldest entry of the smaller one. -/
theorem Within.remember (h : Within capacity r s) (hcapacity : 0 < capacity)
    (hmore : capacity ≤ more) (hlength : s.length ≤ more) (hs : name ∉ Register.names s) :
    Within capacity (remember capacity r name value) (Cache.remember more s name value) := by
  have hr : name ∉ Register.names r := fun hmem => hs ((h.sublist.map _).subset hmem)
  have hparts : (r.drop (r.length + 1 - capacity)).Sublist (s.drop (s.length + 1 - more)) := by
    have hdrop : s.length + 1 - more ≤ r.length + 1 - capacity := by
      rcases h.full_or_eq with hfull | rfl <;> omega
    exact (h.sublist.drop _).trans (List.drop_sublist_drop_left s hdrop)
  constructor
  · rw [remember_eq hr hcapacity, remember_eq hs (by omega)]
    exact hparts.append (List.Sublist.refl _)
  · by_cases hroom : capacity ≤ r.length + 1
    · exact .inl (le_length_remember hr hroom)
    · obtain rfl : r = s := h.full_or_eq.resolve_left (by omega)
      refine .inr ?_
      rw [remember_eq hr hcapacity, remember_eq hr (by omega)]
      have hnone : r.length + 1 - capacity = r.length + 1 - more := by omega
      rw [hnone]

end Within

/-! ## Versions with one script each -/

variable {extract : Extractor} {script : Text → Text} {cache : Cache} {player : Text}
  {request : Request} {event : Event} {plan : Plan} {capacity more : Nat} {denied : List Text}

/-- The plan of a version: none if the version is denied, or if its script yields none. -/
def planOf? (extract : Extractor) (script : Text → Text) (denied : List Text) (player : Text) :
    Option Plan :=
  if Text.isOneOf denied player then none else (extract (script player)).toOption

/-- A version that is not denied has the plan that its script yields. -/
theorem planOf?_eq_some_iff : planOf? extract script denied player = some plan ↔
    Text.isOneOf denied player = false ∧ extract (script player) = .ok plan := by
  rw [planOf?]
  cases Text.isOneOf denied player <;> cases extract (script player) <;> simp [Except.toOption]

/-- What is remembered about a version is whether it has a plan, and which one. -/
structure Settled (extract : Extractor) (script : Text → Text) (cache : Cache) : Prop where
  /-- The remembered plans are those of their versions. -/
  contexts : ∀ entry ∈ cache.contexts, planOf? extract script cache.denied entry.1 = some entry.2
  /-- The versions with a failure have no plan. -/
  failures : ∀ entry ∈ cache.failures, planOf? extract script cache.denied entry.1 = none

/-- Nothing is remembered by a fresh cache. -/
theorem settled_fresh (size : Int) (denied : List Text) :
    Settled extract script (fresh size denied) :=
  ⟨by simp [fresh], by simp [fresh]⟩

/-- Requests with the scripts of their versions keep everything settled. -/
theorem Settled.serve (h : Settled extract script cache) (hrequest : request.IsSteady script) :
    Settled extract script (cache.serve extract request).after := by
  have hs := step_serve extract cache request
  have hnew : ∀ player outcome, (cache.serve extract request).Records extract player outcome →
      extract (script player) = outcome ∧ Text.isOneOf cache.denied player = false := by
    rintro player outcome hrecords
    have hallowed := hs.allowed (extracts_of_records hrecords)
    obtain ⟨-, -, text, hget, rfl⟩ := hrecords
    rw [request_serve] at hget
    exact ⟨congrArg extract (hrequest player text hget).symm, hallowed⟩
  constructor <;> rw [hs.denied_eq]
  · intro entry hentry
    rcases hs.mem_contexts hentry with hold | hrecords
    · exact h.contexts entry hold
    · obtain ⟨hplan, hallowed⟩ := hnew _ _ hrecords
      exact planOf?_eq_some_iff.mpr ⟨hallowed, hplan⟩
  · intro entry hentry
    rcases hs.mem_failures hentry with hold | hrecords
    · exact h.failures entry hold
    · obtain ⟨hfault, -⟩ := hnew _ _ hrecords
      refine Option.eq_none_iff_forall_ne_some.mpr fun plan hplan => ?_
      cases hfault.symm.trans (planOf?_eq_some_iff.mp hplan).2

/-- A version with a plan has no failure. -/
theorem Settled.get?_failures (h : Settled extract script cache)
    (hplan : planOf? extract script cache.denied player = some plan) :
    Register.get? cache.failures player = none := by
  refine Register.get?_eq_none_iff.mpr fun hmem => ?_
  obtain ⟨fault, hentry⟩ := Register.mem_names_iff.mp hmem
  cases (h.failures _ hentry).symm.trans hplan

/-- A version that is remembered is remembered with its plan. -/
theorem Settled.get?_contexts (h : Settled extract script cache)
    (hplan : planOf? extract script cache.denied player = some plan)
    (hmem : player ∈ Register.names cache.contexts) :
    Register.get? cache.contexts player = some plan := by
  obtain ⟨found, hfound⟩ := Option.ne_none_iff_exists'.mp fun hnone =>
    Register.get?_eq_none_iff.mp hnone hmem
  exact hfound.trans ((h.contexts _ (Register.mem_of_get? hfound)).symm.trans hplan)

/-- A remembered plan is recalled, and becomes the latest. -/
theorem Settled.serve_of_mem (h : Settled extract script cache)
    (hplan : planOf? extract script cache.denied player = some plan)
    (hmem : player ∈ Register.names cache.contexts) (hwanted : request.wanted? = some player) :
    cache.serve extract request = ⟨request, .ok (.plan plan), false,
      { cache with contexts := touch cache.contexts player plan }⟩ :=
  serve_of_remembered hwanted (planOf?_eq_some_iff.mp hplan).1 (h.get?_failures hplan)
    (h.get?_contexts hplan hmem)

/-- A plan that is not remembered is built if the script is at hand. -/
theorem Settled.get_of_not_mem (h : Settled extract script cache)
    (hplan : planOf? extract script cache.denied player = some plan)
    (hmem : player ∉ Register.names cache.contexts) :
    cache.serve extract (.get player (script player)) =
      ⟨.get player (script player), .ok (.plan plan), true,
        { cache with contexts := remember cache.capacity cache.contexts player plan }⟩ := by
  obtain ⟨hallowed, hextract⟩ := planOf?_eq_some_iff.mp hplan
  have hcheck := checkSupported_eq_ok_iff.mpr ⟨hallowed, h.get?_failures hplan⟩
  have hnone := Register.get?_eq_none_iff.mpr hmem
  simp only [Cache.serve, Cache.get, obtain, recalled, hcheck, hnone, Option.map_none, hextract]
  rfl

/-- A plan that is not remembered is not found by looking it up. -/
theorem Settled.lookup_of_not_mem (h : Settled extract script cache)
    (hplan : planOf? extract script cache.denied player = some plan)
    (hmem : player ∉ Register.names cache.contexts) :
    cache.serve extract (.lookup player) = ⟨.lookup player, .ok .unknown, false, cache⟩ := by
  have hcheck := checkSupported_eq_ok_iff.mpr
    ⟨(planOf?_eq_some_iff.mp hplan).1, h.get?_failures hplan⟩
  have hnone := Register.get?_eq_none_iff.mpr hmem
  simp only [Cache.serve, lookup, recalled, hcheck, hnone, Option.map_none]
  rfl

/-- A request for the plan of a version is about that version. -/
theorem player?_of_wanted? (h : request.wanted? = some player) : request.player? = some player := by
  cases request with
  | get => exact h
  | lookup => exact h
  | contains => cases h
  | check => cases h
  | clear => cases h

/-- A request for the plan of a version that has none changes no plans and returns none. -/
theorem Settled.step_of_no_plan (h : Settled extract script cache) (hs : Step extract cache event)
    (hrequest : event.request.IsSteady script) (hwanted : event.request.wanted? = some player)
    (hnone : planOf? extract script cache.denied player = none) :
    event.after.contexts = cache.contexts ∧ ∀ plan, event.result ≠ .ok (.plan plan) := by
  cases hs with
  | idle hresult => exact ⟨rfl, hresult⟩
  | reuse hplayer _ _ hcontexts =>
    obtain rfl := Option.some.inj (hplayer.symm.trans (player?_of_wanted? hwanted))
    cases hnone.symm.trans (h.contexts _ (Register.mem_of_get? hcontexts))
  | build hallowed _ _ hextract =>
    obtain rfl := Option.some.inj hwanted
    obtain rfl := hrequest _ _ rfl
    cases hnone.symm.trans (planOf?_eq_some_iff.mpr ⟨hallowed, hextract⟩)
  | fail => exact ⟨rfl, nofun⟩
  | accident => exact ⟨rfl, nofun⟩
  | clear => cases hwanted

/-- A request that asks for no plan, or for that of a version without one, changes no plans and
returns none, unless everything is forgotten. -/
theorem Settled.serve_of_no_plan (h : Settled extract script cache)
    (hrequest : request.IsSteady script) (hclear : request ≠ .clear)
    (hnone : ∀ player, request.wanted? = some player →
      planOf? extract script cache.denied player = none) :
    (cache.serve extract request).after.contexts = cache.contexts ∧
      ∀ plan, (cache.serve extract request).result ≠ .ok (.plan plan) := by
  have hs := step_serve extract cache request
  have hsame : (cache.serve extract request).request = request := request_serve request
  cases request with
  | get player text => exact h.step_of_no_plan hs (hsame ▸ hrequest) rfl (hnone player rfl)
  | lookup player => exact h.step_of_no_plan hs (hsame ▸ hrequest) rfl (hnone player rfl)
  | contains player => exact ⟨rfl, nofun⟩
  | check player =>
    refine ⟨rfl, fun plan hplan => ?_⟩
    obtain ⟨_, -, hdone⟩ := map_eq_ok_iff.mp hplan
    cases hdone
  | clear => exact absurd rfl hclear

/-- Only a plan is ever built. -/
theorem Step.exists_plan_of_builds (hs : Step extract cache event) (h : event.builds = true) :
    ∃ plan, event.result = .ok (.plan plan) := by
  cases hs with
  | idle => cases h
  | reuse => cases h
  | build => exact ⟨_, rfl⟩
  | fail => cases h
  | accident => cases h
  | clear => cases h

/-! ## Two caches -/

/-- Two caches of different capacities that have served the same requests. -/
structure Covers (extract : Extractor) (script : Text → Text) (denied : List Text)
    (capacity more : Nat) (small large : Cache) : Prop where
  /-- The smaller cache is in order. -/
  small_orderly : Orderly capacity denied small
  /-- The larger cache is in order. -/
  large_orderly : Orderly more denied large
  /-- The smaller cache remembers what there is to know about its versions. -/
  small_settled : Settled extract script small
  /-- The larger cache remembers what there is to know about its versions. -/
  large_settled : Settled extract script large
  /-- The plans of the smaller cache are among those of the larger one. -/
  within : Within capacity small.contexts large.contexts

/-- What two caches of different capacities make of one request. -/
structure Trails (capacity : Nat) (small large : Event) : Prop extends
    small.IsMatchedBy large where
  /-- The plans of the smaller cache stay among those of the larger one. -/
  within : Within capacity small.after.contexts large.after.contexts

variable {small large : Cache}

/-- A smaller cache starts out as a part of a larger one. -/
theorem covers_fresh {size more : Int} :
    Covers extract script denied (max 1 size).toNat (max 1 more).toNat (fresh size denied)
      (fresh more denied) where
  small_orderly := orderly_fresh size denied
  large_orderly := orderly_fresh more denied
  small_settled := settled_fresh size denied
  large_settled := settled_fresh more denied
  within := ⟨List.Sublist.refl _, .inr rfl⟩

/-- If there is no plan to be had, nothing changes in either cache. -/
theorem Covers.trails_of_no_plan (h : Covers extract script denied capacity more small large)
    (hrequest : request.IsSteady script) (hclear : request ≠ .clear)
    (hnone : ∀ player, request.wanted? = some player →
      planOf? extract script denied player = none) :
    Trails capacity (small.serve extract request) (large.serve extract request) := by
  obtain ⟨hsmall, hsilent⟩ := h.small_settled.serve_of_no_plan hrequest hclear
    (h.small_orderly.denied_eq ▸ hnone)
  obtain ⟨hlarge, hquiet⟩ := h.large_settled.serve_of_no_plan hrequest hclear
    (h.large_orderly.denied_eq ▸ hnone)
  refine ⟨⟨fun plan hanswer => absurd hanswer (hsilent plan),
    fun plan hrecalls => absurd hrecalls.2 (hsilent plan), ?_⟩, hsmall ▸ hlarge ▸ h.within⟩
  intro hbuilds
  obtain ⟨plan, hplan⟩ := (step_serve extract large request).exists_plan_of_builds hbuilds
  exact absurd hplan (hquiet plan)

/-- A plan that the larger cache remembers becomes its latest one, and also that of the smaller
cache unless this one does not have it and is given no script. -/
theorem Covers.trails_of_mem (h : Covers extract script denied capacity more small large)
    (hrequest : request.IsSteady script) (hwanted : request.wanted? = some player)
    (hplan : planOf? extract script denied player = some plan)
    (hlarge : player ∈ Register.names large.contexts) :
    Trails capacity (small.serve extract request) (large.serve extract request) := by
  obtain rfl := h.small_orderly.capacity_eq
  have hplansmall := h.small_orderly.denied_eq.symm ▸ hplan
  have hplanlarge := h.large_orderly.denied_eq.symm ▸ hplan
  rw [h.large_settled.serve_of_mem hplanlarge hlarge hwanted]
  by_cases hsmall : player ∈ Register.names small.contexts
  · rw [h.small_settled.serve_of_mem hplansmall hsmall hwanted]
    exact ⟨⟨fun _ hr => hr, fun _ hr => hr, id⟩,
      h.within.touch h.small_orderly.contexts_nodup hsmall⟩
  · cases request with
    | get other text =>
      obtain rfl := Option.some.inj hwanted
      obtain rfl := hrequest _ _ rfl
      rw [h.small_settled.get_of_not_mem hplansmall hsmall]
      exact ⟨⟨fun _ hr => hr, nofun, nofun⟩,
        h.within.remember_touch small.capacity_pos hsmall hlarge⟩
    | lookup other =>
      obtain rfl := Option.some.inj hwanted
      rw [h.small_settled.lookup_of_not_mem hplansmall hsmall]
      exact ⟨⟨nofun, nofun, nofun⟩, h.within.touch_larger hsmall hlarge⟩
    | contains => cases hwanted
    | check => cases hwanted
    | clear => cases hwanted

/-- A plan that the larger cache does not remember is built for both caches, or for none. -/
theorem Covers.trails_of_not_mem (h : Covers extract script denied capacity more small large)
    (hmore : capacity ≤ more) (hrequest : request.IsSteady script)
    (hwanted : request.wanted? = some player)
    (hplan : planOf? extract script denied player = some plan)
    (hlarge : player ∉ Register.names large.contexts) :
    Trails capacity (small.serve extract request) (large.serve extract request) := by
  obtain rfl := h.small_orderly.capacity_eq
  obtain rfl := h.large_orderly.capacity_eq
  have hplansmall := h.small_orderly.denied_eq.symm ▸ hplan
  have hplanlarge := h.large_orderly.denied_eq.symm ▸ hplan
  have hsmall : player ∉ Register.names small.contexts := fun hmem =>
    hlarge ((h.within.sublist.map _).subset hmem)
  cases request with
  | get other text =>
    obtain rfl := Option.some.inj hwanted
    obtain rfl := hrequest _ _ rfl
    rw [h.small_settled.get_of_not_mem hplansmall hsmall,
      h.large_settled.get_of_not_mem hplanlarge hlarge]
    exact ⟨⟨fun _ hr => hr, nofun, fun _ => rfl⟩,
      h.within.remember small.capacity_pos hmore h.large_orderly.contexts_length_le hlarge⟩
  | lookup other =>
    obtain rfl := Option.some.inj hwanted
    rw [h.small_settled.lookup_of_not_mem hplansmall hsmall,
      h.large_settled.lookup_of_not_mem hplanlarge hlarge]
    exact ⟨⟨nofun, nofun, nofun⟩, h.within⟩
  | contains => cases hwanted
  | check => cases hwanted
  | clear => cases hwanted

/-- Whatever is requested, the smaller cache trails the larger one. -/
theorem Covers.trails (h : Covers extract script denied capacity more small large)
    (hmore : capacity ≤ more) (hrequest : request.IsSteady script) :
    Trails capacity (small.serve extract request) (large.serve extract request) := by
  by_cases hclear : request = .clear
  · subst hclear
    exact ⟨⟨nofun, nofun, nofun⟩, ⟨List.Sublist.refl _, .inr rfl⟩⟩
  by_cases hnone : ∀ player, request.wanted? = some player →
      planOf? extract script denied player = none
  · exact h.trails_of_no_plan hrequest hclear hnone
  · obtain ⟨player, hsome⟩ := not_forall.mp hnone
    obtain ⟨hwanted, hsome⟩ := Classical.not_imp.mp hsome
    obtain ⟨plan, hplan⟩ := Option.ne_none_iff_exists'.mp hsome
    by_cases hlarge : player ∈ Register.names large.contexts
    · exact h.trails_of_mem hrequest hwanted hplan hlarge
    · exact h.trails_of_not_mem hmore hrequest hwanted hplan hlarge

/-- A request served by both caches leaves the smaller one a part of the larger one. -/
theorem Covers.serve (h : Covers extract script denied capacity more small large)
    (hmore : capacity ≤ more) (hrequest : request.IsSteady script) :
    Covers extract script denied capacity more (small.serve extract request).after
      (large.serve extract request).after where
  small_orderly := h.small_orderly.step (step_serve extract small request)
  large_orderly := h.large_orderly.step (step_serve extract large request)
  small_settled := h.small_settled.serve hrequest
  large_settled := h.large_settled.serve hrequest
  within := (h.trails hmore hrequest).within

/-- What the larger cache makes of a request includes what the smaller one makes of it. -/
theorem Covers.includes (h : Covers extract script denied capacity more small large)
    (hmore : capacity ≤ more) (hrequest : request.IsSteady script) :
    (small.serve extract request).Includes (large.serve extract request) where
  toIsMatchedBy := (h.trails hmore hrequest).toIsMatchedBy
  request_eq := by rw [request_serve, request_serve]
  contexts := (h.trails hmore hrequest).within.sublist

/-- Event by event, a larger cache includes what a smaller one makes of the same requests. -/
theorem Covers.history (h : Covers extract script denied capacity more small large)
    (hmore : capacity ≤ more) {requests : List Request}
    (hrequests : ∀ request ∈ requests, request.IsSteady script) :
    List.Forall₂ Event.Includes (Cache.history extract small requests)
      (Cache.history extract large requests) := by
  induction requests generalizing small large with
  | nil => exact .nil
  | cons request requests ih =>
    have hhead := hrequests request List.mem_cons_self
    have htail := fun other hother => hrequests other (List.mem_cons_of_mem request hother)
    exact .cons (h.includes hmore hhead) (ih (h.serve hmore hhead) htail)

/-- What happens to the larger of two caches happens at least as often to the smaller one, if each
time it happens to both. -/
theorem countP_le_of_forall₂ {p : Event → Bool} {events others : List Event}
    (h : List.Forall₂ (fun small large => p large = true → p small = true) events others) :
    others.countP p ≤ events.countP p := by
  induction h with
  | nil => exact Nat.le_refl _
  | @cons small large events others hp _ ih =>
    rw [List.countP_cons, List.countP_cons]
    by_cases hlarge : p large = true
    · rw [if_pos hlarge, if_pos (hp hlarge)]
      exact Nat.add_le_add_right ih 1
    · rw [if_neg hlarge]
      exact Nat.le_add_right_of_le ih

/-- Two fresh caches with the same denied versions serve the same requests, in which every version
comes with one script. After each of them the plans of the smaller cache are some of the plans of
the larger one in the same order, any plan that the smaller cache recalls is recalled by the larger
one, and the larger cache has built no more plans than the smaller one. -/
theorem larger_cache_includes_smaller (extract : Extractor) (script : Text → Text)
    (denied : List Text) {size more : Int} (hsize : size ≤ more) (requests : List Request)
    (hrequests : ∀ request ∈ requests, request.IsSteady script) :
    List.Forall₂ Event.Includes (history extract (fresh size denied) requests)
        (history extract (fresh more denied) requests) ∧
      ∀ served, ((history extract (fresh more denied) requests).take served).countP Event.builds ≤
        ((history extract (fresh size denied) requests).take served).countP Event.builds := by
  have hmore : (max 1 size).toNat ≤ (max 1 more).toNat := by omega
  have hfresh : Covers extract script denied _ _ (fresh size denied) (fresh more denied) :=
    covers_fresh
  have hincludes := hfresh.history hmore hrequests
  refine ⟨hincludes, fun served => countP_le_of_forall₂ ?_⟩
  exact List.forall₂_take served (hincludes.imp fun _ _ hevent => hevent.builds)

/-- With room for both versions, one that was used before another one is still remembered. -/
theorem larger_cache_includes_smaller_two_versions :
    let plan : Plan := ⟨[⟨"reverse".toList, none⟩], List.cons_ne_nil _ _⟩
    let extract : Extractor := fun _ => .ok plan
    let requests := [Request.get ['a'] ['a'], .get ['b'] ['b'], .lookup ['a'], .get ['a'] ['a']]
    let small := history extract (fresh 1 []) requests
    let large := history extract (fresh 2 []) requests
    (1 : Int) ≤ 2 ∧ (∀ request ∈ requests, request.IsSteady id) ∧
      List.Forall₂ Event.Includes small large ∧
      (∀ served, (large.take served).countP Event.builds ≤
        (small.take served).countP Event.builds) ∧
      small.countP Event.builds = 3 ∧ large.countP Event.builds = 2 := by
  intro plan extract requests small large
  have hrequests : ∀ request ∈ requests, request.IsSteady id := by
    simp [requests, Request.IsSteady]
  obtain ⟨hincludes, hbuilds⟩ :=
    larger_cache_includes_smaller extract id [] (by decide : (1 : Int) ≤ 2) requests hrequests
  exact ⟨by decide, hrequests, hincludes, hbuilds, by decide, by decide⟩

end Cache
end Playable
