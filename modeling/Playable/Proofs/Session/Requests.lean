import Playable.Proofs.Network.Dependence
import Playable.Proofs.Session.Transparency

/-!
# What a fetch asks for

A fetch asks for the watch page, and behind it at most for the player script to which the page
refers. The script is asked for exactly if nothing is known about its version, that is, if the
version is neither denied nor remembered with a failure or a plan. A fetch that ends before the
script is there leaves the cache as it was.
-/

namespace Playable

open Cipher Network Page Record Script

namespace Network

/-- The requests for one page, which is asked for again a few times if need be. -/
def AsksFor (url : Text) (requests : List Text) : Prop :=
  ∃ tries, 1 ≤ tries ∧ tries ≤ Settings.downloadAttempts ∧ requests = List.replicate tries url

/-- A download asks for its URL and for nothing else. -/
theorem exists_requests (site : Site) (url : Text) (log : List Text) :
    ∃ requests, AsksFor url requests ∧ (download site url log).2 = log ++ requests := by
  obtain ⟨tries, ⟨hone, htries⟩, hlog⟩ := exists_download_log site url log
  exact ⟨_, ⟨tries, hone, htries, rfl⟩, hlog⟩

end Network

/-- Nothing is known about a version: it is not denied, and neither a failure nor a plan of it is
remembered. -/
structure Cache.Unknown (cache : Cache) (player : Text) : Prop where
  /-- The version is not denied. -/
  not_denied : player ∉ cache.denied
  /-- No failure of the version is remembered. -/
  not_failed : player ∉ Register.names cache.failures
  /-- No plan of the version is remembered. -/
  not_built : player ∉ Register.names cache.contexts

namespace Session

/-- The watch page of a video is there and can be used, and it refers to this player script. -/
def ShowsScript (site : Site) (videoId : Text) (log : List Text) (url : Text) : Prop :=
  ∃ page info, (download site (Settings.watchUrl videoId) log).1 = .ok page ∧
    readVideoInfo videoId page = .ok info ∧ scriptUrl? page = .ok (some url)

/-- The watch page of a video refers to this player script, and nothing is known about its
version. -/
structure Needs (site : Site) (cache : Cache) (videoId : Text) (log : List Text) (url : Text) :
    Prop where
  /-- The watch page refers to the script. -/
  shown : ShowsScript site videoId log url
  /-- Nothing is known about the version. -/
  unknown : cache.Unknown (playerId url)

variable {extract : Extractor} {site : Site} {cache : Cache} {url other videoId : Text}
  {log : List Text}

/-- A watch page refers to one player script at most. -/
theorem ShowsScript.unique (h : ShowsScript site videoId log url)
    (hother : ShowsScript site videoId log other) : url = other := by
  obtain ⟨page, info, hpage, -, hscript⟩ := h
  obtain ⟨page', info', hpage', -, hscript'⟩ := hother
  obtain rfl := Except.ok.inj (hpage.symm.trans hpage')
  exact Option.some.inj (Except.ok.inj (hscript.symm.trans hscript'))

/-- A page that can be read and refers to a player script shows it. -/
theorem showsScript_of_readable (page : Text)
    (hpage : (download site (Settings.watchUrl videoId) log).1 = .ok page)
    (hinfo : (readVideoInfo videoId page).toOption.isSome = true)
    (hscript : scriptUrl? page = .ok (some url)) : ShowsScript site videoId log url := by
  cases hread : readVideoInfo videoId page with
  | error e => rw [hread] at hinfo; cases hinfo
  | ok info => exact ⟨page, info, hpage, hread, hscript⟩

/-! ## The engine of a version -/

/-- A version about which something is known is not downloaded. -/
theorem engineFor_log_of_known (h : ¬ cache.Unknown (playerId url)) :
    (engineFor extract site cache url log).log = log := by
  by_cases hdenied : playerId url ∈ cache.denied
  · rw [engineFor_of_denied hdenied]
  have hallowed : Text.isOneOf cache.denied (playerId url) = false :=
    Cache.isOneOf_eq_false_iff.mpr hdenied
  cases hfailures : Register.get? cache.failures (playerId url) with
  | some fault => rw [engineFor_of_failed hallowed hfailures]
  | none =>
  cases hcontexts : Register.get? cache.contexts (playerId url) with
  | some plan => rw [engineFor_of_context hallowed hfailures hcontexts]
  | none =>
    exact absurd ⟨hdenied, Register.get?_eq_none_iff.mp hfailures,
      Register.get?_eq_none_iff.mp hcontexts⟩ h

section Unknown

variable (h : cache.Unknown (playerId url))
include h

/-- A version about which nothing is known passes all checks. -/
theorem checks_of_unknown : Text.isOneOf cache.denied (playerId url) = false ∧
    Register.get? cache.failures (playerId url) = none ∧
    Register.get? cache.contexts (playerId url) = none :=
  ⟨Cache.isOneOf_eq_false_iff.mpr h.not_denied, Register.get?_eq_none_iff.mpr h.not_failed,
    Register.get?_eq_none_iff.mpr h.not_built⟩

/-- The requests for the script of a version about which nothing is known are those of its
download. -/
theorem engineFor_log_of_unknown :
    (engineFor extract site cache url log).log = (download site url log).2 := by
  obtain ⟨hallowed, hfailures, hcontexts⟩ := checks_of_unknown h
  cases hdownload : download site url log with
  | mk result later =>
  cases result with
  | error e => rw [engineFor_of_unserved hallowed hfailures hcontexts hdownload]
  | ok script => rw [engineFor_of_served hallowed hfailures hcontexts hdownload]

end Unknown

/-! ## The requests of a fetch -/

section Shown

variable (h : ShowsScript site videoId log url)
include h

/-- A fetch goes from the watch page to the engine of the script to which the page refers. -/
theorem exists_fetch_of_shown (extract : Extractor) (cache : Cache) : ∃ info,
    fetch extract site cache videoId log =
      mapOutcome (fun engine => ⟨info, engine, some (playerId url)⟩)
        (engineFor extract site cache url
          (download site (Settings.watchUrl videoId) log).2) := by
  obtain ⟨page, info, hpage, hinfo, hscript⟩ := h
  exact ⟨info, fetch_of_script (Prod.ext hpage rfl) hinfo hscript⟩

/-- A fetch goes on to ask for what the engine of a script needs. -/
theorem fetch_log_of_shown : (fetch extract site cache videoId log).log =
    (engineFor extract site cache url (download site (Settings.watchUrl videoId) log).2).log := by
  obtain ⟨info, hfetch⟩ := exists_fetch_of_shown h extract cache
  rw [hfetch, mapOutcome]

end Shown

/-- Without a player script a fetch asks for nothing but the watch page. -/
theorem fetch_log_of_not_shown (h : ∀ url, ¬ ShowsScript site videoId log url) :
    (fetch extract site cache videoId log).log =
      (download site (Settings.watchUrl videoId) log).2 := by
  cases hdownload : download site (Settings.watchUrl videoId) log with
  | mk result later =>
  cases result with
  | error e => rw [fetch_of_unserved hdownload]
  | ok page =>
  cases hinfo : readVideoInfo videoId page with
  | error e => rw [fetch_of_unreadable hdownload hinfo]
  | ok info =>
  cases hscript : scriptUrl? page with
  | error e => rw [fetch_of_lost_script hdownload hinfo hscript]
  | ok reference =>
  cases reference with
  | none => rw [fetch_of_no_script hdownload hinfo hscript]
  | some url => exact absurd ⟨page, info, by rw [hdownload], hinfo, hscript⟩ (h url)

/-- A fetch that needs no player script asks for nothing but the watch page. -/
theorem fetch_log_of_not_needed (h : ∀ url, ¬ Needs site cache videoId log url) :
    (fetch extract site cache videoId log).log =
      (download site (Settings.watchUrl videoId) log).2 := by
  by_cases hshown : ∃ url, ShowsScript site videoId log url
  · obtain ⟨url, hshown⟩ := hshown
    rw [fetch_log_of_shown hshown, engineFor_log_of_known fun hunknown => h url ⟨hshown, hunknown⟩]
  · exact fetch_log_of_not_shown (not_exists.mp hshown)

/-- The requests and the failures of a fetch. -/
structure AsksAsNeeded (site : Site) (cache : Cache) (videoId : Text) (log : List Text)
    (outcome : Outcome Fetched) : Prop where
  /-- The watch page is asked for first, and then the script that is needed, or nothing. -/
  asks : ∃ pages scripts, outcome.log = log ++ pages ++ scripts ∧
    AsksFor (Settings.watchUrl videoId) pages ∧
    (∀ url, Needs site cache videoId log url → AsksFor url scripts) ∧
    ((∀ url, ¬ Needs site cache videoId log url) → scripts = [])
  /-- A denied version stops the fetch. -/
  denied : ∀ url, ShowsScript site videoId log url → playerId url ∈ cache.denied →
    outcome.result = .error (.player (.denied (playerId url))) ∧ outcome.cache = cache
  /-- Without a watch page the fetch fails, and the cache stays as it was. -/
  unserved : ∀ e, (download site (Settings.watchUrl videoId) log).1 = .error e →
    outcome.result = .error (.download e) ∧ outcome.cache = cache
  /-- With a watch page that cannot be used the fetch fails, and the cache stays as it was. -/
  unusable : ∀ page e, (download site (Settings.watchUrl videoId) log).1 = .ok page →
    readVideoInfo videoId page = .error e →
    outcome.result = .error (.page e) ∧ outcome.cache = cache
  /-- With a script reference that is no URL the fetch fails, and the cache stays as it was. -/
  unresolved : ∀ page info e, (download site (Settings.watchUrl videoId) log).1 = .ok page →
    readVideoInfo videoId page = .ok info → scriptUrl? page = .error e →
    outcome.result = .error (.url e) ∧ outcome.cache = cache
  /-- Without a script that is needed the fetch fails, and the cache stays as it was. -/
  unserved_script : ∀ url e, Needs site cache videoId log url →
    (download site url (download site (Settings.watchUrl videoId) log).2).1 = .error e →
    outcome.result = .error (.download e) ∧ outcome.cache = cache

/-- Whatever the site answers and the cache remembers, a fetch asks for the watch page, and then for
the player script to which the page refers exactly if nothing is known about its version. A denied
version is refused without its script, and a fetch that fails before the script is there leaves the
cache as it was. -/
theorem fetch_asks_as_needed (extract : Extractor) (site : Site) (cache : Cache) (videoId : Text)
    (log : List Text) :
    AsksAsNeeded site cache videoId log (fetch extract site cache videoId log) where
  asks := by
    obtain ⟨pages, hpages, hlog⟩ := exists_requests site (Settings.watchUrl videoId) log
    by_cases hneeded : ∃ url, Needs site cache videoId log url
    · obtain ⟨url, hshown, hunknown⟩ := hneeded
      obtain ⟨scripts, hscripts, hmore⟩ := exists_requests site url (log ++ pages)
      refine ⟨pages, scripts, ?_, hpages, fun other hother => ?_, fun hnone => ?_⟩
      · rw [fetch_log_of_shown hshown, engineFor_log_of_unknown hunknown, hlog, hmore]
      · rwa [← hshown.unique hother.shown]
      · exact absurd ⟨hshown, hunknown⟩ (hnone url)
    · have hnot := not_exists.mp hneeded
      refine ⟨pages, [], ?_, hpages, fun url hurl => absurd hurl (hnot url), fun _ => rfl⟩
      rw [fetch_log_of_not_needed hnot, hlog, List.append_nil]
  denied url hshown hdenied := by
    obtain ⟨info, hfetch⟩ := exists_fetch_of_shown hshown extract cache
    rw [hfetch, engineFor_of_denied hdenied]
    exact ⟨rfl, rfl⟩
  unserved e hunserved := by
    rw [fetch_of_unserved (Prod.ext hunserved rfl)]
    exact ⟨rfl, rfl⟩
  unusable page e hpage hinfo := by
    rw [fetch_of_unreadable (Prod.ext hpage rfl) hinfo]
    exact ⟨rfl, rfl⟩
  unresolved page info e hpage hinfo hscript := by
    rw [fetch_of_lost_script (Prod.ext hpage rfl) hinfo hscript]
    exact ⟨rfl, rfl⟩
  unserved_script url e hneeded hunserved := by
    obtain ⟨info, hfetch⟩ := exists_fetch_of_shown hneeded.shown extract cache
    obtain ⟨hallowed, hfailures, hcontexts⟩ := checks_of_unknown hneeded.unknown
    rw [hfetch, engineFor_of_unserved hallowed hfailures hcontexts (Prod.ext hunserved rfl)]
    exact ⟨rfl, rfl⟩

/-- A fetch with a fresh cache asks for the player script. The version yields no plan, and with the
cache as it is then, a fetch of another video does not ask for the script of the same version. -/
theorem fetch_asks_as_needed_twice :
    let site := Site.steady sampleAnswer true
    let script := "https://www.youtube.com/s/player/v/1".toList
    let first := fetch standardExtractor site (Cache.fresh 1 []) ['a'] []
    let second := fetch standardExtractor site first.cache ['b'] []
    Needs site (Cache.fresh 1 []) ['a'] [] script ∧
      AsksAsNeeded site (Cache.fresh 1 []) ['a'] [] first ∧
      first.log = [Settings.watchUrl ['a'], script] ∧
      ShowsScript site ['b'] [] "https://www.youtube.com/s/player/v/2".toList ∧
      AsksAsNeeded site first.cache ['b'] [] second ∧
      second.log = [Settings.watchUrl ['b']] := by
  intro site script first second
  have hfirst : ShowsScript site ['a'] [] script :=
    showsScript_of_readable (sampleWatchPage '1') (by decide +kernel) (by decide +kernel)
      (by decide +kernel)
  have hsecond : ShowsScript site ['b'] [] "https://www.youtube.com/s/player/v/2".toList :=
    showsScript_of_readable (sampleWatchPage '2') (by decide +kernel) (by decide +kernel)
      (by decide +kernel)
  have hunknown : (Cache.fresh 1 []).Unknown (playerId script) :=
    ⟨List.not_mem_nil, List.not_mem_nil, List.not_mem_nil⟩
  exact ⟨⟨hfirst, hunknown⟩, fetch_asks_as_needed .., by decide +kernel, hsecond,
    fetch_asks_as_needed .., by decide +kernel⟩

end Session

end Playable
