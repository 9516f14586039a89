import Playable.Proofs.Cache.Memory
import Playable.Proofs.Network.Steady
import Playable.Session

/-!
# A cache saves downloads and nothing else

Several visits may share one cache. On a steady site where the script URLs of a player
version all serve the same script, what the cache remembers about a version is what the
next download of its script would bring to light. So each visit ends as it would with a
fresh cache, and the only requests it may spare are those for a player script.
-/

namespace Playable.Session

open Cipher Network Page Record Script

/-- Visit a video: fetch what is needed, and resolve it. -/
def visit (extract : Extractor) (site : Site) (cache : Cache) (videoId : Text) : Outcome Video :=
  let fetched := fetch extract site cache videoId []
  match fetched.result with
  | .error e => ⟨.error e, fetched.cache, fetched.log⟩
  | .ok data =>
    let resolution := resolve site data fetched.log
    ⟨resolution.result, fetched.cache, resolution.log⟩

/-- Visit videos one after the other with one cache. -/
def visits (extract : Extractor) (site : Site) : Cache → List Text → List (Outcome Video)
  | _, [] => []
  | cache, videoId :: more =>
    let outcome := visit extract site cache videoId
    outcome :: visits extract site outcome.cache more

/-- A watch page of the site refers to this player script. -/
def RefersTo (answer : Text → Response) (url : Text) : Prop :=
  ∃ videoId page, served answer (Settings.watchUrl videoId) = .ok page ∧
    scriptUrl? page = .ok (some url)

/-- The player scripts of one version are all the same, or none of them is served. -/
def SameScripts (answer : Text → Response) : Prop :=
  ∀ u v, RefersTo answer u → RefersTo answer v → playerId u = playerId v →
    (served answer u).toOption = (served answer v).toOption

/-- The spared requests are the full ones, or lack the requests for one player script. -/
def Spares (answer : Text → Response) (full spared : List Text) : Prop :=
  spared = full ∨ ∃ front url n back, RefersTo answer url ∧
    full = front ++ List.replicate n url ++ back ∧ spared = front ++ back

/-- The script of a URL is served, and its extraction has this outcome. -/
def Yields (extract : Extractor) (answer : Text → Response) (url : Text)
    (outcome : Except ScriptError Plan) : Prop :=
  ∃ script, served answer url = .ok script ∧ extract script = outcome

/-- What a cache remembers about a version is what every player script of the version
yields. -/
structure Agrees (extract : Extractor) (answer : Text → Response) (cache : Cache) : Prop where
  /-- The scripts of a version with a plan yield the plan. -/
  contexts : ∀ entry ∈ cache.contexts, ∀ url, RefersTo answer url → playerId url = entry.1 →
    Yields extract answer url (.ok entry.2)
  /-- The scripts of a version with a failure yield the failure. -/
  failures : ∀ entry ∈ cache.failures, ∀ url, RefersTo answer url → playerId url = entry.1 →
    Yields extract answer url (.error (.fault entry.2))

/-- An outcome whose result goes on into a function. -/
def mapOutcome {α β : Type} (f : α → β) (outcome : Outcome α) : Outcome β :=
  ⟨outcome.result.map f, outcome.cache, outcome.log⟩

/-- What a visit makes of the outcome of an extraction. -/
def engineOfOutcome : Except ScriptError Plan → Except SessionError (Option Engine)
  | .ok plan => .ok (some (engineOf plan))
  | .error (.fault _) => .ok none
  | .error e => .error (.player (.script e))

variable {extract : Extractor} {answer : Text → Response} {site : Site}
  {cache : Cache} {url videoId script : Text} {log full spared : List Text} {plan : Plan}
  {fault : ExtractionFault} {event : Event} {denied : List Text}

/-- A denied version stops the visit without a download. -/
theorem engineFor_of_denied (h : playerId url ∈ cache.denied) :
    engineFor extract site cache url log =
      ⟨.error (.player (.denied (playerId url))), cache, log⟩ := by
  simp [engineFor, Cache.lookup, Cache.checkSupported_of_denied h]

/-- A version that failed has no engine, and nothing is downloaded. -/
theorem engineFor_of_failed (hallowed : Text.isOneOf cache.denied (playerId url) = false)
    (hfailures : Register.get? cache.failures (playerId url) = some fault) :
    engineFor extract site cache url log = ⟨.ok none, cache, log⟩ := by
  simp [engineFor, Cache.lookup, Cache.checkSupported_of_failed hallowed hfailures]

/-- The engine of a remembered plan is had without a download. -/
theorem engineFor_of_context (hallowed : Text.isOneOf cache.denied (playerId url) = false)
    (hfailures : Register.get? cache.failures (playerId url) = none)
    (hcontexts : Register.get? cache.contexts (playerId url) = some plan) :
    engineFor extract site cache url log = ⟨.ok (some (engineOf plan)),
      { cache with contexts := Cache.touch cache.contexts (playerId url) plan }, log⟩ := by
  have hcheck := Cache.checkSupported_eq_ok_iff.mpr ⟨hallowed, hfailures⟩
  simp [engineFor, Cache.lookup, Cache.recalled, hcheck, hcontexts]

section Unknown

variable (hallowed : Text.isOneOf cache.denied (playerId url) = false)
  (hfailures : Register.get? cache.failures (playerId url) = none)
  (hcontexts : Register.get? cache.contexts (playerId url) = none) {later : List Text}
include hallowed hfailures hcontexts

/-- The script of an unknown version has to be downloaded. -/
theorem engineFor_of_unserved {e : DownloadError}
    (h : download site url log = (.error e, later)) :
    engineFor extract site cache url log = ⟨.error (.download e), cache, later⟩ := by
  have hcheck := Cache.checkSupported_eq_ok_iff.mpr ⟨hallowed, hfailures⟩
  simp [engineFor, Cache.lookup, Cache.recalled, hcheck, hcontexts, h]

/-- The script of an unknown version decides about its engine. -/
theorem engineFor_of_served (h : download site url log = (.ok script, later)) :
    engineFor extract site cache url log = ⟨engineOfOutcome (extract script),
      (cache.serve extract (.get (playerId url) script)).after, later⟩ := by
  have hcheck := Cache.checkSupported_eq_ok_iff.mpr ⟨hallowed, hfailures⟩
  have hget : (cache.get extract (playerId url) script).result =
      (extract script).mapError .script := by
    simp only [Cache.get, Cache.obtain, Cache.recalled, hcheck, hcontexts, Option.map_none]
    cases extract script with
    | ok plan => rfl
    | error e => cases e <;> rfl
  simp only [engineFor, Cache.lookup, Cache.recalled, hcheck, hcontexts, h, Option.map_none,
    engineOutcome, hget, Cache.serve]
  cases extract script with
  | ok plan => rfl
  | error e => cases e <;> rfl

end Unknown

section Page

variable {later : List Text} {page : Text}

/-- Without a watch page there is nothing to fetch. -/
theorem fetch_of_unserved {e : DownloadError}
    (h : download site (Settings.watchUrl videoId) log = (.error e, later)) :
    fetch extract site cache videoId log = ⟨.error (.download e), cache, later⟩ := by
  simp only [fetch, h]

variable (h : download site (Settings.watchUrl videoId) log = (.ok page, later))
include h

/-- A watch page has to be read. -/
theorem fetch_of_unreadable {e : PageError} (hinfo : readVideoInfo videoId page = .error e) :
    fetch extract site cache videoId log = ⟨.error (.page e), cache, later⟩ := by
  simp only [fetch, h, hinfo]

variable {info : VideoInfo} (hinfo : readVideoInfo videoId page = .ok info)
include hinfo

/-- The player script of a page has to be found. -/
theorem fetch_of_lost_script {e : Url.UrlError} (hscript : scriptUrl? page = .error e) :
    fetch extract site cache videoId log = ⟨.error (.url e), cache, later⟩ := by
  simp only [fetch, h, hinfo, hscript]

/-- A page without a player script has no engine. -/
theorem fetch_of_no_script (hscript : scriptUrl? page = .ok none) :
    fetch extract site cache videoId log = ⟨.ok ⟨info, none, none⟩, cache, later⟩ := by
  simp only [fetch, h, hinfo, hscript]

/-- The player script of a page decides about the engine. -/
theorem fetch_of_script (hscript : scriptUrl? page = .ok (some url)) :
    fetch extract site cache videoId log =
      mapOutcome (fun engine => ⟨info, engine, some (playerId url)⟩)
        (engineFor extract site cache url later) := by
  simp only [fetch, h, hinfo, hscript, mapOutcome]
  cases (engineFor extract site cache url later).result <;> rfl

end Page

/-- A fresh cache remembers nothing that could disagree. -/
theorem agrees_fresh (size : Int) (denied : List Text) :
    Agrees extract answer (Cache.fresh size denied) :=
  ⟨by simp [Cache.fresh], by simp [Cache.fresh]⟩

/-- What every player script of the version of this one yields. -/
theorem yields_of_served (hsame : SameScripts answer) (hurl : RefersTo answer url)
    (hscript : served answer url = .ok script) {other : Text} (hother : RefersTo answer other)
    (hplayer : playerId other = playerId url) :
    Yields extract answer other (extract script) := by
  have heq := hsame other url hother hurl hplayer
  rw [hscript] at heq
  cases hserved : served answer other with
  | error e => simp [hserved, Except.toOption] at heq
  | ok text =>
    have htext : text = script := by simpa [hserved, Except.toOption] using heq
    exact ⟨text, hserved, htext ▸ rfl⟩

/-- A step keeps the cache in agreement if what it records is what every player script of
the version yields. -/
theorem Agrees.step (h : Agrees extract answer cache) (hs : Cache.Step extract cache event)
    (hnew : ∀ player outcome, event.Records extract player outcome →
      ∀ url, RefersTo answer url → playerId url = player → Yields extract answer url outcome) :
    Agrees extract answer event.after where
  contexts entry hentry := (hs.mem_contexts hentry).elim (h.contexts entry) (hnew _ _)
  failures entry hentry := (hs.mem_failures hentry).elim (h.failures entry) (hnew _ _)

/-- Reading a served player script keeps the cache in agreement. -/
theorem Agrees.get (h : Agrees extract answer cache) (hsame : SameScripts answer)
    (hurl : RefersTo answer url) (hscript : served answer url = .ok script) :
    Agrees extract answer (cache.serve extract (.get (playerId url) script)).after := by
  refine h.step (Cache.step_serve extract cache _) ?_
  rintro player outcome ⟨-, -, other, hrequest, rfl⟩ v hv hplayer
  obtain ⟨rfl, rfl⟩ := Request.get.inj ((Cache.request_serve _).symm.trans hrequest)
  exact yields_of_served hsame hurl hscript hv hplayer

/-- Returning a remembered plan keeps the cache in agreement. -/
theorem Agrees.touch (h : Agrees extract answer cache) {player : Text}
    (hcontexts : Register.get? cache.contexts player = some plan) :
    Agrees extract answer
      { cache with contexts := Cache.touch cache.contexts player plan } where
  contexts entry hentry := by
    rcases Cache.mem_touch hentry with hold | rfl
    · exact h.contexts entry hold
    · exact h.contexts _ (Register.mem_of_get? hcontexts)
  failures := h.failures

/-- Nothing needs to be spared. -/
theorem spares_refl (log : List Text) : Spares answer log log :=
  .inl rfl

/-- The same requests may follow. -/
theorem Spares.append (h : Spares answer full spared) (more : List Text) :
    Spares answer (full ++ more) (spared ++ more) := by
  rcases h with rfl | ⟨front, url, n, back, hurl, rfl, rfl⟩
  · exact .inl rfl
  · exact .inr ⟨front, url, n, back ++ more, hurl, by simp, by simp⟩

/-- The requests for a player script may be spared. -/
theorem spares_script (hurl : RefersTo answer url) (log : List Text) (n : Nat) :
    Spares answer (log ++ List.replicate n url) log :=
  .inr ⟨log, url, n, [], hurl, by simp, by simp⟩

/-- An outcome with a used cache matches the one with a fresh cache: the results are
equal, at most one player script was not asked for, and the used cache is still in
agreement and denies the same versions. -/
structure Matches (extract : Extractor) (answer : Text → Response) (denied : List Text)
    {α : Type} (fresh used : Outcome α) : Prop where
  /-- The results are equal. -/
  result : used.result = fresh.result
  /-- At most one player script was not asked for. -/
  log : Spares answer fresh.log used.log
  /-- The cache is in agreement afterwards. -/
  agrees : Agrees extract answer used.cache
  /-- The same versions are denied afterwards. -/
  denied_eq : used.cache.denied = denied

/-- Outcomes with the same result and the same requests match if the used cache is in
agreement. -/
theorem matches_same (hagrees : Agrees extract answer cache) (hdenied : cache.denied = denied)
    {α : Type} (result : Except SessionError α) (log : List Text) (fresh : Cache) :
    Matches extract answer denied ⟨result, fresh, log⟩ ⟨result, cache, log⟩ :=
  ⟨rfl, spares_refl log, hagrees, hdenied⟩

/-- Finding an engine with a used cache matches finding it with a fresh one. -/
theorem engineFor_matches (hsame : SameScripts answer) (hagrees : Agrees extract answer cache)
    (hdenied : cache.denied = denied) (hurl : RefersTo answer url) (shared : Bool) (size : Int)
    (log : List Text) :
    Matches extract answer denied
      (engineFor extract (Site.steady answer shared) (Cache.fresh size denied) url log)
      (engineFor extract (Site.steady answer shared) cache url log) := by
  subst hdenied
  obtain ⟨n, hn⟩ := exists_download_steady answer shared url
  cases hallowed : Text.isOneOf cache.denied (playerId url) with
  | true =>
    have hmem := Cache.isOneOf_eq_true_iff.mp hallowed
    have hfresh : playerId url ∈ (Cache.fresh size cache.denied).denied := hmem
    rw [engineFor_of_denied hmem, engineFor_of_denied hfresh]
    exact matches_same hagrees rfl _ _ _
  | false =>
  have hfresh : Text.isOneOf (Cache.fresh size cache.denied).denied (playerId url) = false :=
    hallowed
  -- what is remembered is what the fresh cache has to download
  cases hfailures : Register.get? cache.failures (playerId url) with
  | some fault =>
    obtain ⟨script, hserved, hextract⟩ :=
      hagrees.failures _ (Register.mem_of_get? hfailures) url hurl rfl
    rw [engineFor_of_failed hallowed hfailures,
      engineFor_of_served hfresh rfl rfl (hserved ▸ hn log), hextract]
    exact ⟨rfl, spares_script hurl log n, hagrees, rfl⟩
  | none =>
  cases hcontexts : Register.get? cache.contexts (playerId url) with
  | some plan =>
    obtain ⟨script, hserved, hextract⟩ :=
      hagrees.contexts _ (Register.mem_of_get? hcontexts) url hurl rfl
    rw [engineFor_of_context hallowed hfailures hcontexts,
      engineFor_of_served hfresh rfl rfl (hserved ▸ hn log), hextract]
    exact ⟨rfl, spares_script hurl log n, hagrees.touch hcontexts, rfl⟩
  | none =>
  cases hserved : served answer url with
  | error e =>
    rw [engineFor_of_unserved hallowed hfailures hcontexts (hserved ▸ hn log),
      engineFor_of_unserved hfresh rfl rfl (hserved ▸ hn log)]
    exact matches_same hagrees rfl _ _ _
  | ok script =>
    rw [engineFor_of_served hallowed hfailures hcontexts (hserved ▸ hn log),
      engineFor_of_served hfresh rfl rfl (hserved ▸ hn log)]
    exact ⟨rfl, spares_refl _, hagrees.get hsame hurl hserved,
      (Cache.step_serve extract cache _).denied_eq⟩

/-- What matches still does if both results go on into the same function. -/
theorem Matches.map {α β : Type} {fresh used : Outcome α}
    (h : Matches extract answer denied fresh used) (f : α → β) :
    Matches extract answer denied (mapOutcome f fresh) (mapOutcome f used) :=
  ⟨congrArg (Except.map f) h.result, h.log, h.agrees, h.denied_eq⟩

/-- Fetching with a used cache matches fetching with a fresh one. -/
theorem fetch_matches (hsame : SameScripts answer) (hagrees : Agrees extract answer cache)
    (hdenied : cache.denied = denied) (shared : Bool) (size : Int) (videoId : Text)
    (log : List Text) :
    Matches extract answer denied
      (fetch extract (Site.steady answer shared) (Cache.fresh size denied) videoId log)
      (fetch extract (Site.steady answer shared) cache videoId log) := by
  obtain ⟨n, hn⟩ := exists_download_steady answer shared (Settings.watchUrl videoId)
  cases hserved : served answer (Settings.watchUrl videoId) with
  | error e =>
    rw [fetch_of_unserved (hserved ▸ hn log), fetch_of_unserved (hserved ▸ hn log)]
    exact matches_same hagrees hdenied _ _ _
  | ok page =>
  have hpage := hserved ▸ hn log
  cases hinfo : readVideoInfo videoId page with
  | error e =>
    rw [fetch_of_unreadable hpage hinfo, fetch_of_unreadable hpage hinfo]
    exact matches_same hagrees hdenied _ _ _
  | ok info =>
  cases hscript : scriptUrl? page with
  | error e =>
    rw [fetch_of_lost_script hpage hinfo hscript, fetch_of_lost_script hpage hinfo hscript]
    exact matches_same hagrees hdenied _ _ _
  | ok reference =>
  cases reference with
  | none =>
    rw [fetch_of_no_script hpage hinfo hscript, fetch_of_no_script hpage hinfo hscript]
    exact matches_same hagrees hdenied _ _ _
  | some url =>
    have hurl : RefersTo answer url := ⟨videoId, page, hserved, hscript⟩
    rw [fetch_of_script hpage hinfo hscript, fetch_of_script hpage hinfo hscript]
    exact (engineFor_matches hsame hagrees hdenied hurl shared size _).map _

/-- The streams of a manifest depend on its download alone. -/
theorem manifestStreams_congr {first second : Site} {manifestUrl : Option Text}
    (h : ∀ url, manifestUrl = some url →
      (download second url later).1 = (download first url log).1) :
    (manifestStreams second manifestUrl later).1 = (manifestStreams first manifestUrl log).1 := by
  match manifestUrl with
  | none => rfl
  | some [] => rfl
  | some (c :: url) =>
    have hdownload := h (c :: url) rfl
    simp only [manifestStreams]
    revert hdownload
    generalize download second (c :: url) later = reply
    generalize download first (c :: url) log = same
    obtain ⟨result, later⟩ := reply
    obtain ⟨result, log⟩ := same
    rintro rfl
    cases result <;> rfl

/-- The streams of a manifest on a steady site do not depend on what was asked before. -/
theorem exists_manifestStreams_steady (answer : Text → Response) (shared : Bool)
    (manifestUrl : Option Text) :
    ∃ streams more, ∀ log, manifestStreams (Site.steady answer shared) manifestUrl log =
      (streams, log ++ more) := by
  match manifestUrl with
  | none => exact ⟨_, [], fun log => by rw [manifestStreams, List.append_nil]⟩
  | some [] => exact ⟨_, [], fun log => by rw [manifestStreams, List.append_nil]⟩
  | some (c :: url) =>
    obtain ⟨n, hn⟩ := exists_download_steady answer shared (c :: url)
    cases hserved : served answer (c :: url) with
    | error e => exact ⟨_, _, fun log => by simp only [manifestStreams, hn, hserved]; rfl⟩
    | ok playlist => exact ⟨_, _, fun log => by simp only [manifestStreams, hn, hserved]; rfl⟩

/-- Resolving on a steady site does not depend on what was asked before. -/
theorem exists_resolve_steady (answer : Text → Response) (shared : Bool) (fetched : Fetched) :
    ∃ result info more, ∀ log,
      resolve (Site.steady answer shared) fetched log = ⟨result, info, log ++ more⟩ := by
  cases hdata : fetched.info.response.streamingData with
  | none => exact ⟨_, _, [], fun log => by simp only [resolve, hdata, List.append_nil]; rfl⟩
  | some data =>
    obtain ⟨streams, more, hmore⟩ :=
      exists_manifestStreams_steady answer shared data.hlsManifestUrl
    let resolved := resolve (Site.steady answer shared) fetched []
    refine ⟨resolved.result, resolved.info, more, fun log => ?_⟩
    simp only [resolved, resolve, hdata, hmore]
    split
    · cases streams <;> rfl
    · split <;> rfl

/-- Visiting with a used cache matches visiting with a fresh one. -/
theorem visit_matches (hsame : SameScripts answer) (hagrees : Agrees extract answer cache)
    (hdenied : cache.denied = denied) (shared : Bool) (size : Int) (videoId : Text) :
    Matches extract answer denied
      (visit extract (Site.steady answer shared) (Cache.fresh size denied) videoId)
      (visit extract (Site.steady answer shared) cache videoId) := by
  have h := fetch_matches hsame hagrees hdenied shared size videoId []
  unfold visit
  revert h
  generalize fetch extract (Site.steady answer shared) (Cache.fresh size denied) videoId [] = fresh
  generalize fetch extract (Site.steady answer shared) cache videoId [] = used
  intro h
  obtain ⟨result, freshCache, freshLog⟩ := fresh
  obtain ⟨usedResult, usedCache, usedLog⟩ := used
  obtain rfl : usedResult = result := h.result
  cases usedResult with
  | error e => exact ⟨rfl, h.log, h.agrees, h.denied_eq⟩
  | ok data =>
    obtain ⟨resolved, info, more, hresolve⟩ := exists_resolve_steady answer shared data
    simp only [hresolve]
    exact ⟨rfl, h.log.append more, h.agrees, h.denied_eq⟩

/-- A visit ends like the same visit with a fresh cache: it has the same result, and asks
for the same URLs in the same order, except that it may spare the requests for one player
script. -/
def EndsLikeFresh (extract : Extractor) (answer : Text → Response) (shared : Bool) (size : Int)
    (denied : List Text) (videoId : Text) (used : Outcome Video) : Prop :=
  let fresh := visit extract (Site.steady answer shared) (Cache.fresh size denied) videoId
  used.result = fresh.result ∧ Spares answer fresh.log used.log

/-- Visits that share a cache in agreement with the site end like visits with fresh ones. -/
theorem visits_of_agrees (hsame : SameScripts answer) (hagrees : Agrees extract answer cache)
    (hdenied : cache.denied = denied) (shared : Bool) (size : Int) (videoIds : List Text) :
    List.Forall₂ (EndsLikeFresh extract answer shared size denied) videoIds
      (visits extract (Site.steady answer shared) cache videoIds) := by
  induction videoIds generalizing cache with
  | nil => exact .nil
  | cons videoId more ih =>
    have h := visit_matches hsame hagrees hdenied shared size videoId
    exact .cons ⟨h.result, h.log⟩ (ih h.agrees h.denied_eq)

/-- A cache changes nothing but the downloads of player scripts. On a steady site where
the player scripts of a version are all the same, each of a sequence of visits that share
a cache ends like the same visit with a fresh cache that denies the same versions,
whatever the two caches have room for. -/
theorem visits_end_like_fresh (extract : Extractor) (answer : Text → Response)
    (hsame : SameScripts answer) (shared : Bool) (size freshSize : Int) (denied : List Text)
    (videoIds : List Text) :
    List.Forall₂ (EndsLikeFresh extract answer shared freshSize denied) videoIds
      (visits extract (Site.steady answer shared) (Cache.fresh size denied) videoIds) :=
  visits_of_agrees hsame (agrees_fresh size denied) rfl shared freshSize videoIds

/-- A watch page that refers to one of the player scripts of a version. -/
def sampleWatchPage (script : Char) : Text :=
  "\"jsUrl\":\"/s/player/v/".toList ++ script :: "\"".toList ++
    "ytInitialPlayerResponse = \x7b\"videoDetails\":\x7b\"videoId\":\"a\"\x7d,".toList ++
    "\"streamingData\":\x7b\x7d\x7d".toList

/-- Two watch pages refer to two player scripts of one version, and any other URL serves
the same script. -/
def sampleAnswer (url : Text) : Response :=
  if url = Settings.watchUrl ['a'] then .page 200 (sampleWatchPage '1')
  else if url = Settings.watchUrl ['b'] then .page 200 (sampleWatchPage '2')
  else .page 200 ['x']

/-- The player scripts of the sample are all the same. -/
theorem sameScripts_sampleAnswer : SameScripts sampleAnswer := by
  have hscript : ∀ u, RefersTo sampleAnswer u → served sampleAnswer u = .ok ['x'] := by
    rintro u ⟨videoId, page, hpage, hu⟩
    have hpages : page = sampleWatchPage '1' ∨ page = sampleWatchPage '2' ∨ page = ['x'] := by
      simp only [served, sampleAnswer] at hpage
      split at hpage
      · exact .inl (Except.ok.inj hpage).symm
      split at hpage
      · exact .inr (.inl (Except.ok.inj hpage).symm)
      · exact .inr (.inr (Except.ok.inj hpage).symm)
    rcases hpages with rfl | rfl | rfl
    · have hfirst : scriptUrl? (sampleWatchPage '1') =
          .ok (some "https://www.youtube.com/s/player/v/1".toList) := by decide +kernel
      obtain rfl := Option.some.inj (Except.ok.inj (hfirst.symm.trans hu))
      decide +kernel
    · have hsecond : scriptUrl? (sampleWatchPage '2') =
          .ok (some "https://www.youtube.com/s/player/v/2".toList) := by decide +kernel
      obtain rfl := Option.some.inj (Except.ok.inj (hsecond.symm.trans hu))
      decide +kernel
    · have hnone : scriptUrl? ['x'] = .ok none := by decide +kernel
      cases hnone.symm.trans hu
  intro u v hu hv _
  rw [hscript u hu, hscript v hv]

/-- Two visits of the sample, whose pages refer to different scripts of one version. -/
theorem visits_end_like_fresh_two_scripts :
    SameScripts sampleAnswer ∧
      List.Forall₂ (EndsLikeFresh standardExtractor sampleAnswer true 1 []) [['a'], ['b']]
        (visits standardExtractor (Site.steady sampleAnswer true) (Cache.fresh 1 [])
          [['a'], ['b']]) :=
  ⟨sameScripts_sampleAnswer,
    visits_end_like_fresh standardExtractor sampleAnswer sameScripts_sampleAnswer true 1 1 []
      [['a'], ['b']]⟩

end Playable.Session
