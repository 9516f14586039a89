import Playable.Proofs.Cache.Failure
import Playable.Proofs.Session.Requests
import Playable.Service

/-!
# Requests that are refused

A request is checked before anything is asked for: its path, its method, the password, the
parameter and the video id in it. A request that fails one of these checks leaves the cache as it
was and asks a site for nothing, so its answer depends on the request alone. A request that passes
asks for a watch page, and the cache changes only if everything that the formats need is fetched.
-/

namespace Playable

open Cipher Network Page Record Script

namespace Session

variable {extract : Extractor} {site : Site} {cache : Cache} {url videoId : Text}
  {log : List Text} {e : SessionError}

/-- A fetch asks for the watch page first. -/
theorem exists_log_fetch (extract : Extractor) (site : Site) (cache : Cache) (videoId : Text)
    (log : List Text) :
    ∃ more, (fetch extract site cache videoId log).log =
      log ++ Settings.watchUrl videoId :: more := by
  obtain ⟨pages, ⟨tries, hone, -, rfl⟩, hpages⟩ :=
    exists_requests site (Settings.watchUrl videoId) log
  obtain ⟨again, rfl⟩ := Nat.exists_eq_add_of_le' hone
  rw [List.replicate_succ] at hpages
  by_cases hneeded : ∃ url, Needs site cache videoId log url
  · obtain ⟨url, hshown, hunknown⟩ := hneeded
    obtain ⟨scripts, -, hscripts⟩ := exists_requests site url
      (download site (Settings.watchUrl videoId) log).2
    rw [fetch_log_of_shown hshown, engineFor_log_of_unknown hunknown, hscripts, hpages]
    exact ⟨_, List.append_assoc ..⟩
  · rw [fetch_log_of_not_needed (not_exists.mp hneeded), hpages]
    exact ⟨_, rfl⟩

/-- Looking for an engine leaves the cache as it was if there is a reason to stop. -/
theorem cache_engineFor_of_error (h : (engineFor extract site cache url log).result = .error e) :
    (engineFor extract site cache url log).cache = cache := by
  by_cases hdenied : playerId url ∈ cache.denied
  · rw [engineFor_of_denied hdenied]
  have hallowed : Text.isOneOf cache.denied (playerId url) = false :=
    Cache.isOneOf_eq_false_iff.mpr hdenied
  cases hfailures : Register.get? cache.failures (playerId url) with
  | some fault => rw [engineFor_of_failed hallowed hfailures]
  | none =>
  cases hcontexts : Register.get? cache.contexts (playerId url) with
  | some plan =>
    rw [engineFor_of_context hallowed hfailures hcontexts] at h
    cases h
  | none =>
  cases hdownload : download site url log with
  | mk result later =>
  cases result with
  | error e => rw [engineFor_of_unserved hallowed hfailures hcontexts hdownload]
  | ok script =>
    rw [engineFor_of_served hallowed hfailures hcontexts hdownload] at h ⊢
    cases hextract : extract script with
    | ok plan =>
      rw [hextract] at h
      cases h
    | error failure =>
      cases failure with
      | fault f =>
        rw [hextract] at h
        cases h
      | argument f =>
        have hcheck := Cache.checkSupported_eq_ok_iff.mpr ⟨hallowed, hfailures⟩
        exact congrArg (·.after) (Cache.serve_of_argument hcheck hcontexts hextract)

/-- A fetch that fails leaves the cache as it was. -/
theorem cache_fetch_of_error (h : (fetch extract site cache videoId log).result = .error e) :
    (fetch extract site cache videoId log).cache = cache := by
  cases hdownload : download site (Settings.watchUrl videoId) log with
  | mk result later =>
  cases result with
  | error e => rw [fetch_of_unserved hdownload]
  | ok page =>
  cases hinfo : readVideoInfo videoId page with
  | error e => rw [fetch_of_unreadable hdownload hinfo]
  | ok info =>
  cases hscript : scriptUrl? page with
  | error e => rw [fetch_of_lost_script hdownload hinfo hscript]
  | ok reference =>
  cases reference with
  | none => rw [fetch_of_no_script hdownload hinfo hscript]
  | some url =>
    rw [fetch_of_script hdownload hinfo hscript, mapOutcome] at h ⊢
    cases hengine : (engineFor extract site cache url later).result with
    | ok engine =>
      rw [hengine] at h
      cases h
    | error e => exact cache_engineFor_of_error hengine

/-- The manifest is asked for behind everything else. -/
theorem prefix_manifestStreams (site : Site) (manifestUrl : Option Text) (log : List Text) :
    log <+: (manifestStreams site manifestUrl log).2 := by
  rcases manifestUrl with _ | _ | ⟨c, url⟩
  · exact List.prefix_refl log
  · exact List.prefix_refl log
  · obtain ⟨requests, -, hlog⟩ := exists_requests site (c :: url) log
    have hmanifest : (manifestStreams site (some (c :: url)) log).2 =
        (download site (c :: url) log).2 := by
      simp only [manifestStreams]
      cases download site (c :: url) log with
      | mk result later => cases result <;> rfl
    rw [hmanifest, hlog]
    exact List.prefix_append log requests

/-- So nothing that was asked for is lost when fetched data are resolved. -/
theorem prefix_log_resolve (site : Site) (fetched : Fetched) (log : List Text) :
    log <+: (resolve site fetched log).log := by
  cases hdata : fetched.info.response.streamingData with
  | none => simp only [resolve, hdata, List.prefix_refl]
  | some data =>
    have hmanifest := prefix_manifestStreams site data.hlsManifestUrl log
    have hlog : (resolve site fetched log).log =
        (manifestStreams site data.hlsManifestUrl log).2 := by
      simp only [resolve, hdata]
      split
      · split <;> rfl
      · split <;> rfl
    rwa [hlog]

end Session

namespace Service

/-- A request that passes all checks, and asks for the video with an id. -/
structure Seeks (password : Option Text) (request : Request) (videoId : Text) : Prop where
  /-- The path is that of the videos. -/
  endpoint : endpoint? request.path = some .video
  /-- The method is the one that is allowed. -/
  method : request.method.map Char.toUpper = "GET".toList
  /-- The password comes with the request, if there is one. -/
  authorized : authorized password request = true
  /-- The parameter gives the id of the video. -/
  url : ∃ url, parameter? request.query "d" = some url ∧ videoIdOf url = .ok videoId

/-- What is done for a video begins with its watch page. If what the formats need cannot be
fetched, that is the answer, and the cache stays as it was. -/
structure Begins (site : Site) (cache : Cache) (videoId : Text) (handled : Handled) : Prop where
  /-- The watch page is asked for first. -/
  asks : ∃ more, handled.log = Settings.watchUrl videoId :: more
  /-- A fetch that fails decides the answer. -/
  failed : ∀ e, (Session.fetch Session.standardExtractor site cache videoId []).result = .error e →
    handled.answer = refusal e ∧ handled.cache = cache

variable {password : Option Text} {request : Request} {videoId : Text}

/-- A request that passes all checks is answered with what can be fetched for the video. -/
theorem Seeks.handle_eq (h : Seeks password request videoId) (site : Site) (cache : Cache) :
    ∃ url, videoIdOf url = .ok videoId ∧
      handle password site cache request = handleVideo site cache url := by
  obtain ⟨url, hparameter, hid⟩ := h.url
  refine ⟨url, hid, ?_⟩
  simp [handle, h.endpoint, h.method, h.authorized, hparameter]

/-- A request that fails a check is answered without a site and a cache. -/
theorem exists_answer_of_not_seeks (h : ∀ videoId, ¬ Seeks password request videoId) :
    ∃ answer, ∀ site cache, handle password site cache request = ⟨answer, cache, []⟩ := by
  cases hendpoint : endpoint? request.path with
  | none => exact ⟨_, fun site cache => by simp only [handle, hendpoint]; rfl⟩
  | some endpoint =>
  by_cases hmethod : request.method.map Char.toUpper = "GET".toList
  · cases endpoint with
    | health => exact ⟨_, fun site cache => by simp only [handle, hendpoint, hmethod]; rfl⟩
    | video =>
    cases hauthorized : authorized password request with
    | false =>
      exact ⟨_, fun site cache => by simp only [handle, hendpoint, hmethod, hauthorized]; rfl⟩
    | true =>
    cases hparameter : parameter? request.query "d" with
    | none => exact ⟨_, fun site cache => by
        simp only [handle, hendpoint, hmethod, hauthorized, hparameter]; rfl⟩
    | some url =>
    cases hid : videoIdOf url with
    | ok videoId => exact absurd ⟨hendpoint, hmethod, hauthorized, url, hparameter, hid⟩ (h videoId)
    | error e => exact ⟨_, fun site cache => by
        simp only [handle, hendpoint, hmethod, hauthorized, hparameter, handleVideo, hid]; rfl⟩
  · exact ⟨_, fun site cache => by simp only [handle, hendpoint, if_pos hmethod]; rfl⟩

/-- Resolving the video of a URL begins with its watch page. -/
theorem begins_handleVideo {url : Text} (hid : videoIdOf url = .ok videoId) (site : Site)
    (cache : Cache) : Begins site cache videoId (handleVideo site cache url) := by
  obtain ⟨more, hlog⟩ :=
    Session.exists_log_fetch Session.standardExtractor site cache videoId []
  cases hfetch : (Session.fetch Session.standardExtractor site cache videoId []).result with
  | error e =>
    have hhandled : handleVideo site cache url = ⟨refusal e,
        (Session.fetch Session.standardExtractor site cache videoId []).cache,
        (Session.fetch Session.standardExtractor site cache videoId []).log⟩ := by
      simp only [handleVideo, hid, hfetch]
    rw [hhandled, hlog, Session.cache_fetch_of_error hfetch]
    refine ⟨⟨more, rfl⟩, fun other hother => ?_⟩
    obtain rfl := Except.error.inj (hfetch.symm.trans hother)
    exact ⟨rfl, rfl⟩
  | ok fetched =>
    have hresolved : (handleVideo site cache url).log = (Session.resolve site fetched
        (Session.fetch Session.standardExtractor site cache videoId []).log).log := by
      simp only [handleVideo, hid, hfetch]
      split <;> rfl
    obtain ⟨later, hlater⟩ := Session.prefix_log_resolve site fetched
      (Session.fetch Session.standardExtractor site cache videoId []).log
    refine ⟨⟨more ++ later, by rw [hresolved, ← hlater, hlog]; rfl⟩, fun e he => ?_⟩
    cases hfetch.symm.trans he

/-- A request that passes all checks is handled for its video. -/
theorem Seeks.begins (h : Seeks password request videoId) (site : Site) (cache : Cache) :
    Begins site cache videoId (handle password site cache request) := by
  obtain ⟨url, hid, hhandle⟩ := h.handle_eq site cache
  rw [hhandle]
  exact begins_handleVideo hid site cache

/-- A request is answered without a site and a cache exactly if it fails one of the checks: then it
asks for nothing, and the cache stays as it was. A request that passes them asks for the watch page
of its video first, and if what the formats need cannot be fetched, the cache stays as it was. -/
theorem refused_request_changes_nothing (password : Option Text) (request : Request) :
    ((∀ videoId, ¬ Seeks password request videoId) ↔
      ∃ answer, ∀ site cache, handle password site cache request = ⟨answer, cache, []⟩) ∧
    ∀ videoId, Seeks password request videoId → ∀ site cache,
      Begins site cache videoId (handle password site cache request) := by
  refine ⟨⟨exists_answer_of_not_seeks, ?_⟩, fun videoId h => h.begins⟩
  rintro ⟨answer, hanswer⟩ videoId h
  obtain ⟨more, hlog⟩ := (h.begins (Site.ofPages [] false) (Cache.fresh 1 [])).asks
  rw [hanswer] at hlog
  cases hlog

end Service

end Playable
