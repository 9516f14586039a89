import Mathlib.Tactic.Common
import Playable.Cache

/-!
# Histories of requests

A cache is used by a sequence of requests. Serving one of them gives an answer and
the cache for the next one, and the history of a sequence records every step. What a
step can do is said once, by cases: it leaves the cache alone, recalls a plan, builds
one, remembers a failure, is stopped by an accident of the script, or forgets
everything.
-/

namespace Playable

open Cipher Script

/-- A request to a cache. -/
inductive Request where
  /-- The plan of a version, with its script at hand. -/
  | get (player script : Text)
  /-- The plan of a version, if it is remembered. -/
  | lookup (player : Text)
  /-- Whether the plan of a version is remembered. -/
  | contains (player : Text)
  /-- Whether a version is neither denied nor remembered as failed. -/
  | check (player : Text)
  /-- Forget everything. -/
  | clear
  deriving DecidableEq

/-- The version that a request is about. -/
def Request.player? : Request → Option Text
  | get player _ => some player
  | lookup player => some player
  | contains player => some player
  | check player => some player
  | clear => none

/-- What a request answers unless it is refused. -/
inductive Answer where
  /-- A plan, remembered or built. -/
  | plan (plan : Plan)
  /-- No plan is remembered. -/
  | unknown
  /-- Whether a plan is remembered. -/
  | known (b : Bool)
  /-- Nothing more than that the request was served. -/
  | done
  deriving DecidableEq

/-- One served request. -/
structure Event where
  /-- What was asked. -/
  request : Request
  /-- What was answered. -/
  result : Except PlayerError Answer
  /-- Whether a script was read to find the answer. -/
  extracted : Bool
  /-- The cache after the request. -/
  after : Cache

namespace Event

/-- The extractor ran for this version. -/
def Extracts (event : Event) (player : Text) : Prop :=
  event.request.player? = some player ∧ event.extracted = true

/-- The plan of this version was returned or built. -/
def Serves (event : Event) (player : Text) : Prop :=
  event.request.player? = some player ∧ ∃ plan, event.result = .ok (.plan plan)

/-- The extractor ran for this version and failed. -/
def Fails (event : Event) (player : Text) : Prop :=
  event.Extracts player ∧ ∃ e, event.result = .error e

end Event

namespace Cache

/-- The answer for a plan that may be remembered. -/
def answerOf : Option Plan → Answer
  | some plan => .plan plan
  | none => .unknown

/-- Serve one request. -/
def serve (extract : Extractor) (cache : Cache) (request : Request) : Event :=
  match request with
  | .get player script =>
    let reply := cache.get extract player script
    ⟨request, reply.result.map .plan, reply.extracted, reply.cache⟩
  | .lookup player =>
    let reply := cache.lookup player
    ⟨request, reply.result.map answerOf, reply.extracted, reply.cache⟩
  | .contains player => ⟨request, .ok (.known (cache.has player)), false, cache⟩
  | .check player => ⟨request, (cache.checkSupported player).map fun _ => .done, false, cache⟩
  | .clear => ⟨request, .ok .done, false, cache.clear⟩

/-- The history of a sequence of requests. -/
def history (extract : Extractor) : Cache → List Request → List Event
  | _, [] => []
  | cache, request :: more =>
    let event := cache.serve extract request
    event :: history extract event.after more

/-- The cache after a sequence of requests. -/
def final (extract : Extractor) (cache : Cache) (requests : List Request) : Cache :=
  requests.foldl (fun cache request => (cache.serve extract request).after) cache

/-- Everything that serving a request can do to a cache. -/
inductive Step (extract : Extractor) (cache : Cache) : Event → Prop where
  /-- The cache is left alone and no plan is returned; a refusal has its cause in the
  check. -/
  | idle {request : Request} {result : Except PlayerError Answer}
      (hresult : ∀ plan, result ≠ .ok (.plan plan))
      (hrefused : ∀ e, result = .error e →
        ∃ player, request.player? = some player ∧ cache.checkSupported player = .error e) :
      Step extract cache ⟨request, result, false, cache⟩
  /-- A remembered plan is returned and becomes the latest. -/
  | reuse {request : Request} {player : Text} {plan : Plan}
      (hplayer : request.player? = some player)
      (hdenied : Text.isOneOf cache.denied player = false)
      (hfailures : Register.get? cache.failures player = none)
      (hcontexts : Register.get? cache.contexts player = some plan) :
      Step extract cache ⟨request, .ok (.plan plan), false,
        { cache with contexts := touch cache.contexts player plan }⟩
  /-- A plan is recovered from a script and remembered. -/
  | build {player script : Text} {plan : Plan}
      (hdenied : Text.isOneOf cache.denied player = false)
      (hfailures : Register.get? cache.failures player = none)
      (hcontexts : Register.get? cache.contexts player = none)
      (hextract : extract script = .ok plan) :
      Step extract cache ⟨.get player script, .ok (.plan plan), true,
        { cache with contexts := remember cache.capacity cache.contexts player plan }⟩
  /-- A script yields no plan, which is remembered. -/
  | fail {player script : Text} {fault : ExtractionFault}
      (hdenied : Text.isOneOf cache.denied player = false)
      (hfailures : Register.get? cache.failures player = none)
      (hcontexts : Register.get? cache.contexts player = none)
      (hextract : extract script = .error (.fault fault)) :
      Step extract cache ⟨.get player script, .error (.script (.fault fault)), true,
        { cache with failures := remember cache.capacity cache.failures player fault }⟩
  /-- A script cannot be read to its end, which is not remembered. -/
  | accident {player script : Text} {fault : Number.IntegerFault}
      (hdenied : Text.isOneOf cache.denied player = false)
      (hfailures : Register.get? cache.failures player = none)
      (hcontexts : Register.get? cache.contexts player = none)
      (hextract : extract script = .error (.argument fault)) :
      Step extract cache ⟨.get player script, .error (.script (.argument fault)), true, cache⟩
  /-- Everything is forgotten. -/
  | clear : Step extract cache ⟨.clear, .ok .done, false, cache.clear⟩

variable {extract : Extractor} {cache : Cache}

/-- A version passes the check exactly if it is neither denied nor remembered as
failed. -/
theorem checkSupported_eq_ok_iff {player : Text} :
    cache.checkSupported player = .ok () ↔
      Text.isOneOf cache.denied player = false ∧ Register.get? cache.failures player = none := by
  unfold checkSupported
  cases hd : Text.isOneOf cache.denied player with
  | true => simp
  | false => cases hf : Register.get? cache.failures player <;> simp

/-- A refusal leaves the cache alone. -/
theorem step_refused {request : Request} {player : Text} {e : PlayerError}
    (hplayer : request.player? = some player) (hcheck : cache.checkSupported player = .error e) :
    Step extract cache ⟨request, .error e, false, cache⟩ :=
  .idle (by simp) fun e' he' => ⟨player, hplayer, Except.error.inj he' ▸ hcheck⟩

/-- Serving a request is one of the steps. -/
theorem step_serve (extract : Extractor) (cache : Cache) (request : Request) :
    Step extract cache (cache.serve extract request) := by
  cases request with
  | get player script =>
    simp only [serve, Cache.get]
    cases hcheck : cache.checkSupported player with
    | error e => exact step_refused rfl hcheck
    | ok _ =>
      obtain ⟨hdenied, hfailures⟩ := checkSupported_eq_ok_iff.mp hcheck
      simp only [obtain, recalled]
      cases hcontexts : Register.get? cache.contexts player with
      | some plan => exact .reuse rfl hdenied hfailures hcontexts
      | none =>
        simp only [Option.map_none]
        cases hextract : extract script with
        | ok plan => exact .build hdenied hfailures hcontexts hextract
        | error e =>
          cases e with
          | fault fault => exact .fail hdenied hfailures hcontexts hextract
          | argument fault => exact .accident hdenied hfailures hcontexts hextract
  | lookup player =>
    simp only [serve, lookup]
    cases hcheck : cache.checkSupported player with
    | error e => exact step_refused rfl hcheck
    | ok _ =>
      obtain ⟨hdenied, hfailures⟩ := checkSupported_eq_ok_iff.mp hcheck
      simp only [recalled]
      cases hcontexts : Register.get? cache.contexts player with
      | some plan => exact .reuse rfl hdenied hfailures hcontexts
      | none => exact .idle (by simp [Except.map, answerOf]) (by simp [Except.map])
  | contains player => exact .idle (by simp) (by simp)
  | check player =>
    simp only [serve]
    cases hcheck : cache.checkSupported player with
    | error e => exact step_refused rfl hcheck
    | ok _ => exact .idle (by simp [Except.map]) (by simp [Except.map])
  | clear => exact .clear

/-- A part of a history is the history of a part of the requests. -/
theorem history_eq_append {requests : List Request} {past future : List Event}
    (h : history extract cache requests = past ++ future) :
    ∃ first second, requests = first ++ second ∧ past = history extract cache first ∧
      future = history extract (final extract cache first) second := by
  induction past generalizing cache requests with
  | nil => exact ⟨[], requests, rfl, rfl, h.symm⟩
  | cons event past ih =>
    cases requests with
    | nil => cases h
    | cons request requests =>
      obtain ⟨rfl, hmore⟩ := List.cons.inj h
      obtain ⟨first, second, rfl, rfl, rfl⟩ := ih hmore
      exact ⟨request :: first, second, rfl, rfl, rfl⟩

/-- What holds before a sequence of requests and is preserved by every event of its
history holds after all of them. The property may speak about the events so far. -/
theorem history_induction {P : List Event → Cache → Prop} {requests : List Request}
    (hstep : ∀ events now, ∀ request ∈ requests,
      now.serve extract request ∈ history extract cache requests → P events now →
      P (events ++ [now.serve extract request]) (now.serve extract request).after)
    (events : List Event) (h : P events cache) :
    P (events ++ history extract cache requests) (final extract cache requests) := by
  induction requests generalizing events cache with
  | nil => simpa [history, final] using h
  | cons request requests ih =>
    have hhead := hstep events cache request List.mem_cons_self List.mem_cons_self h
    have htail := ih (fun events now other hr he => hstep events now other
      (List.mem_cons_of_mem _ hr) (List.mem_cons_of_mem _ he)) _ hhead
    simpa [history, final] using htail

/-- The request of an event. -/
@[simp] theorem request_serve (request : Request) :
    (cache.serve extract request).request = request := by
  cases request <;> rfl

/-- A history records the requests in order. -/
theorem map_request_history (extract : Extractor) (cache : Cache) (requests : List Request) :
    (history extract cache requests).map (·.request) = requests := by
  induction requests generalizing cache with
  | nil => rfl
  | cons request requests ih => simp [history, ih]

end Cache
end Playable
