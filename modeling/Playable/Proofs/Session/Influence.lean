import Playable.Proofs.Network.Dependence
import Playable.Proofs.Sequence
import Playable.Proofs.Session.Transparency
import Playable.Proofs.Signing.Isolation

/-!
# What a player script has influence on

The script of a player version is needed for formats whose URL carries no signature yet. All else in
a video comes from the watch page and the manifest. So if a site changes the script that it serves,
or serves one without a plan, only the streams of those formats change or are missing.
-/

namespace Playable

open Cipher Network Page Record Script Signing

/-- Whether the URL of a format carries a signature already. -/
def Signing.isSigned (format : Format) : Bool :=
  match format.cipher with
  | none => false
  | some cipher => (hasSignature cipher.url).toOption.getD false

/-- A stream, and the format that it is made from unless it comes from a manifest. -/
structure Sourced where
  /-- The format. -/
  source : Option Format
  /-- The stream. -/
  stream : Stream
  deriving DecidableEq

namespace Sourced

/-- Whether there was nothing to sign: the stream comes from a manifest, or from a format that is
signed already. -/
def isReady (delivery : Sourced) : Bool :=
  delivery.source.all isSigned

end Sourced

namespace Signing

/-- The streams that formats deliver one by one, each with its format. -/
def sourced (engine : Option Engine) (formats : List Format) : List Sourced :=
  formats.flatMap fun format =>
    ((streamsOf engine [format]).toOption.getD []).map (⟨some format, ·⟩)

variable {engine other : Option Engine} {format : Format} {formats : List Format}
  {streams : List Stream}

/-- What formats deliver one by one is what they deliver side by side. -/
theorem map_stream_sourced (h : streamsOf engine formats = .ok streams) :
    (sourced engine formats).map (·.stream) = streams := by
  induction formats generalizing streams with
  | nil => exact Except.ok.inj h
  | cons format formats ih =>
    have hsplit : streamsOf engine ([format] ++ formats) = .ok streams := h
    obtain ⟨part, more, hpart, hmore, rfl⟩ := streamsOf_append_eq_ok_iff.mp hsplit
    rw [sourced, List.flatMap_cons, List.map_append, hpart]
    exact congrArg₂ _ (by simp [Except.toOption, Function.comp_def]) (ih hmore)

/-- A format that is signed already is delivered as it is, whatever the engine. -/
theorem signOrDrop_of_signed (engine : Option Engine) (h : isSigned format = true) :
    signOrDrop engine format = .ok (some format) := by
  unfold isSigned at h
  cases hcipher : format.cipher with
  | none => simp [hcipher] at h
  | some cipher =>
    cases hsigned : hasSignature cipher.url with
    | error e => simp [hcipher, hsigned, Except.toOption] at h
    | ok signed =>
      obtain rfl : signed = true := by simpa [hcipher, hsigned, Except.toOption] using h
      simp only [signOrDrop, signFormat, hcipher, hsigned]
      rfl

/-- Without an engine, a format that is not signed yet delivers no stream. -/
theorem streamsOf_of_unsigned (h : isSigned format = false) :
    (streamsOf none [format]).toOption.getD [] = [] := by
  rw [streamsOf_singleton]
  by_cases hurl : HasBadUrl format
  · obtain ⟨o, ho⟩ := exists_signOrDrop_of_badUrl none hurl
    rw [ho]
    rfl
  · have hway : ¬ HasWay none format := by
      rintro ⟨cipher, hcipher, hsigned | ⟨-, hengine⟩⟩
      · simp [isSigned, hcipher, hsigned, Except.toOption] at h
      · cases hengine
    rw [signOrDrop_of_no_way hurl hway]
    split <;> rfl

/-- The streams of formats that are signed already do not depend on the engine. -/
theorem filter_sourced (engine other : Option Engine) (formats : List Format) :
    (sourced engine formats).filter (·.isReady) = (sourced other formats).filter (·.isReady) := by
  simp only [sourced, List.filter_flatMap]
  refine List.flatMap_congr fun format _ => ?_
  cases hsigned : isSigned format with
  | true => rw [streamsOf_singleton, streamsOf_singleton, signOrDrop_of_signed engine hsigned,
      signOrDrop_of_signed other hsigned]
  | false => simp [List.filter_map, Function.comp_def, Sourced.isReady, hsigned]

/-- Without an engine, all streams are those of formats that are signed already. -/
theorem isReady_of_mem_sourced {delivery : Sourced} (h : delivery ∈ sourced none formats) :
    delivery.isReady = true := by
  obtain ⟨format, -, hdelivery⟩ := List.mem_flatMap.mp h
  obtain ⟨stream, hstream, rfl⟩ := List.mem_map.mp hdelivery
  cases hsigned : isSigned format with
  | true => simpa [Sourced.isReady] using hsigned
  | false =>
    rw [streamsOf_of_unsigned hsigned] at hstream
    cases hstream

end Signing

namespace Session

/-- The streams of fetched data, each with the format that it is made from. -/
def deliveries (site : Site) (fetched : Fetched) (log : List Text) : List Sourced :=
  match fetched.info.response.streamingData with
  | none => []
  | some data =>
    let manifest := ((manifestStreams site data.hlsManifestUrl log).1.toOption.getD []).map
      (⟨none, ·⟩)
    if fetched.info.response.videoDetails.isLive then manifest
    else sourced fetched.engine (recorded fetched.info.legacyList data) ++ manifest

/-- The streams of a visit, each with the format that it is made from. -/
def visitDeliveries (extract : Extractor) (site : Site) (cache : Cache) (videoId : Text) :
    List Sourced :=
  let fetched := fetch extract site cache videoId []
  match fetched.result with
  | .error _ => []
  | .ok data => deliveries site data fetched.log

variable {extract : Extractor} {site first second : Site} {cache : Cache}
  {videoId url page script : Text} {log later : List Text} {fetched other : Fetched}
  {manifestUrl : Option Text} {video : Video} {fault : ExtractionFault}

/-- A video that is resolved is that of the watch page, with the streams that are delivered. -/
theorem eq_of_resolve (h : (resolve site fetched log).result = .ok video) :
    video = videoOf fetched.info ((deliveries site fetched log).map (·.stream)) := by
  cases hdata : fetched.info.response.streamingData with
  | none => simp [resolve, hdata] at h
  | some data =>
    cases hlive : fetched.info.response.videoDetails.isLive with
    | true =>
      simp only [resolve, hdata, hlive, if_true] at h
      cases hmanifest : (manifestStreams site data.hlsManifestUrl log).1 with
      | error e => rw [hmanifest] at h; cases h
      | ok hls =>
        rw [hmanifest] at h
        obtain rfl := Except.ok.inj h
        simp [deliveries, hdata, hlive, hmanifest, Except.toOption, Function.comp_def]
    | false =>
      rw [resolve_result_eq site hdata hlive log] at h
      obtain ⟨streams, hstreams, h⟩ := bind_eq_ok_iff.mp h
      obtain ⟨hls, hmanifest, h⟩ := bind_eq_ok_iff.mp h
      obtain rfl := Except.ok.inj h
      have hformats := map_stream_sourced (mapError_eq_ok_iff.mp hstreams)
      simp [deliveries, hdata, hlive, mapError_eq_ok_iff.mp hmanifest, hformats, Except.toOption,
        Function.comp_def]

/-- Without an engine there is nothing to sign in any stream. -/
theorem isReady_of_mem_deliveries (hengine : fetched.engine = none) {delivery : Sourced}
    (h : delivery ∈ deliveries site fetched log) : delivery.isReady = true := by
  have hmanifest : ∀ streams : List Stream, delivery ∈ streams.map (⟨none, ·⟩) →
      delivery.isReady = true := by
    intro streams hmem
    obtain ⟨stream, -, rfl⟩ := List.mem_map.mp hmem
    rfl
  unfold deliveries at h
  split at h
  · cases h
  · split at h
    · exact hmanifest _ h
    · rw [hengine] at h
      exact (List.mem_append.mp h).elim isReady_of_mem_sourced (hmanifest _)

/-- A visit that succeeds has read its watch page, has settled whether there is an engine, and has
delivered its streams. -/
theorem exists_fetched (hpage : download site (Settings.watchUrl videoId) [] = (.ok page, log))
    (hscript : scriptUrl? page = .ok (some url))
    (h : (visit extract site cache videoId).result = .ok video) :
    ∃ fetched, readVideoInfo videoId page = .ok fetched.info ∧
      (engineFor extract site cache url log).result = .ok fetched.engine ∧
      visitDeliveries extract site cache videoId =
        deliveries site fetched (engineFor extract site cache url log).log ∧
      video = videoOf fetched.info
        ((visitDeliveries extract site cache videoId).map (·.stream)) := by
  unfold visit at h
  unfold visitDeliveries
  cases hinfo : readVideoInfo videoId page with
  | error e =>
    rw [fetch_of_unreadable hpage hinfo] at h
    cases h
  | ok info =>
    rw [fetch_of_script hpage hinfo hscript] at h ⊢
    cases hengine : (engineFor extract site cache url log).result with
    | error e =>
      simp only [mapOutcome, hengine, Except.map] at h
      cases h
    | ok engine =>
      simp only [mapOutcome, hengine, Except.map] at h ⊢
      exact ⟨_, rfl, rfl, rfl, eq_of_resolve h⟩

/-- With a fresh cache, a script without a plan leaves no engine. -/
theorem engine_eq_none_of_fault {size : Int} {denied : List Text} {engine : Option Engine}
    (h : (engineFor extract site (Cache.fresh size denied) url log).result = .ok engine)
    (hserved : (download site url log).1 = .ok script)
    (hfault : extract script = .error (.fault fault)) : engine = none := by
  have hdownload : download site url log = (.ok script, (download site url log).2) :=
    Prod.ext hserved rfl
  cases hallowed : Text.isOneOf denied (playerId url) with
  | true =>
    rw [engineFor_of_denied (Cache.isOneOf_eq_true_iff.mp hallowed)] at h
    cases h
  | false =>
    rw [engineFor_of_served hallowed rfl rfl hdownload, hfault] at h
    exact (Except.ok.inj h).symm

/-! ## Two sites -/

/-- What the cache makes of a script asks for nothing. -/
theorem engineOutcome_log (reply : Reply Plan) (log : List Text) :
    (engineOutcome reply log).log = log := by
  unfold engineOutcome
  split <;> rfl

/-- Finding an engine asks for nothing but the player script. -/
theorem exists_engineFor_log (extract : Extractor) (site : Site) (cache : Cache) (url : Text)
    (log : List Text) :
    ∃ n, (engineFor extract site cache url log).log = log ++ List.replicate n url := by
  obtain ⟨n, -, hn⟩ := exists_download_log site url log
  have hnone : log = log ++ List.replicate 0 url := (List.append_nil log).symm
  obtain ⟨result, hdownload⟩ : ∃ result, download site url log =
      (result, log ++ List.replicate n url) := ⟨_, Prod.ext rfl hn⟩
  simp only [engineFor, hdownload]
  cases (cache.lookup (playerId url)).result with
  | error e =>
    refine ⟨0, Eq.trans ?_ hnone⟩
    cases e with
    | denied => rfl
    | script e => cases e <;> rfl
  | ok known =>
    cases known with
    | some plan => exact ⟨0, hnone⟩
    | none =>
      refine ⟨n, ?_⟩
      cases result with
      | error e => rfl
      | ok script => exact engineOutcome_log _ _

/-- However an engine is found, any other URL was asked for as often afterwards as before. -/
theorem count_engineFor_log {asked : Text} (h : asked ≠ url) :
    (engineFor extract site cache url log).log.count asked = log.count asked := by
  obtain ⟨n, hn⟩ := exists_engineFor_log extract site cache url log
  rw [hn]
  simp [List.count_replicate, h.symm]

/-- The streams of a manifest do not depend on the player script. -/
theorem manifestStreams_eq (h : AgreeBut url first second) (hmanifest : manifestUrl ≠ some url)
    (hcount : ∀ other, other ≠ url → later.count other = log.count other) :
    (manifestStreams second manifestUrl later).1 = (manifestStreams first manifestUrl log).1 := by
  refine manifestStreams_congr fun other hother => ?_
  have hne : other ≠ url := fun heq => hmanifest (heq ▸ hother)
  exact h.download_eq hne (hcount other hne)

/-- The streams for which there is nothing to sign do not depend on the player script. -/
theorem filter_deliveries (h : AgreeBut url first second) (hinfo : other.info = fetched.info)
    (hmanifest : ∀ data, fetched.info.response.streamingData = some data →
      data.hlsManifestUrl ≠ some url)
    (hcount : ∀ other, other ≠ url → later.count other = log.count other) :
    (deliveries second other later).filter (·.isReady) =
      (deliveries first fetched log).filter (·.isReady) := by
  unfold deliveries
  rw [hinfo]
  split
  · rfl
  next data hdata =>
    rw [manifestStreams_eq h (hmanifest data hdata) hcount]
    split
    · rfl
    · simp only [List.filter_append]
      rw [filter_sourced other.engine fetched.engine]

/-- If two sites differ in nothing but the player script of a watch page, visits of the page with
fresh caches have the same video, except for streams of formats whose URL is not signed yet: what is
left without these is the same, in the same order. If the script of the first site has no plan, its
video has no such streams, so that its streams are among those of the second one, in the same
order. -/
theorem script_influences_only_unsigned (extract : Extractor) {first second : Site}
    {videoId page url : Text} (hsites : AgreeBut url first second)
    (hpage : (download first (Settings.watchUrl videoId) []).1 = .ok page)
    (hscript : scriptUrl? page = .ok (some url)) (hwatch : url ≠ Settings.watchUrl videoId)
    (hmanifest : ∀ info data, readVideoInfo videoId page = .ok info →
      info.response.streamingData = some data → data.hlsManifestUrl ≠ some url)
    (size : Int) (denied : List Text) {video other : Video}
    (hfirst : (visit extract first (Cache.fresh size denied) videoId).result = .ok video)
    (hsecond : (visit extract second (Cache.fresh size denied) videoId).result = .ok other) :
    let delivered := visitDeliveries extract first (Cache.fresh size denied) videoId
    let changed := visitDeliveries extract second (Cache.fresh size denied) videoId
    (video.streams = delivered.map (·.stream) ∧ other.streams = changed.map (·.stream)) ∧
      (other.videoId = video.videoId ∧ other.title = video.title ∧ other.isLive = video.isLive) ∧
      changed.filter (·.isReady) = delivered.filter (·.isReady) ∧
      ∀ script fault, (download first url []).1 = .ok script →
        extract script = .error (.fault fault) →
        (∀ delivery ∈ delivered, delivery.isReady = true) ∧
          video.streams.Sublist other.streams := by
  intro delivered changed
  obtain ⟨result, n, hdownload⟩ := exists_download_eq first (Settings.watchUrl videoId) 0
  have hwatched := hdownload first rfl rfl [] rfl
  obtain rfl : result = .ok page := by rw [← hpage, hwatched]
  obtain ⟨fetched, hinfo, hengine, hdelivered, hvideo⟩ := exists_fetched hwatched hscript hfirst
  obtain ⟨refetched, hreinfo, -, hchanged, hother⟩ := exists_fetched
    (hdownload second (hsites.respond _ hwatch.symm) hsites.shared [] rfl) hscript hsecond
  have hsame : refetched.info = fetched.info := Except.ok.inj (hreinfo.symm.trans hinfo)
  have hready : changed.filter (·.isReady) = delivered.filter (·.isReady) := by
    refine (congrArg _ hchanged).trans (Eq.trans ?_ (congrArg _ hdelivered.symm))
    refine filter_deliveries hsites hsame (hmanifest _ · hinfo) fun asked hasked => ?_
    rw [count_engineFor_log hasked, count_engineFor_log hasked]
  refine ⟨⟨congrArg Video.streams hvideo, congrArg Video.streams hother⟩, ?_, hready, ?_⟩
  · rw [hvideo, hother, hsame]
    exact ⟨rfl, rfl, rfl⟩
  · intro script fault hserved hfault
    have hnone : fetched.engine = none := by
      refine engine_eq_none_of_fault hengine ?_ hfault
      rw [← hserved]
      exact download_result_eq first (by simp [List.count_replicate, hwatch.symm])
    have hall : ∀ delivery ∈ delivered, delivery.isReady = true := by
      intro delivery hdelivery
      replace hdelivered : delivered = _ := hdelivered
      rw [hdelivered] at hdelivery
      exact isReady_of_mem_deliveries hnone hdelivery
    have hkept : delivered.Sublist changed := by
      rw [← List.filter_eq_self.mpr hall, ← hready]
      exact List.filter_sublist
    rw [hvideo, hother]
    exact ⟨hall, hkept.map _⟩

/-- A watch page with one format that is signed already and one that is not. -/
def halfSignedPage : Text :=
  "\"jsUrl\":\"/s/player/v/1\"ytInitialPlayerResponse = ".toList ++
    "\x7b\"videoDetails\":\x7b\"videoId\":\"a\"\x7d,\"streamingData\":\x7b\"formats\":[".toList ++
    "\x7b\"itag\":18,\"url\":\"v?sig=x\"\x7d,".toList ++
    "\x7b\"itag\":22,\"signatureCipher\":\"s=ab&url=v\"\x7d]\x7d\x7d".toList

/-- The player script of the watch page. -/
def halfSignedScriptUrl : Text :=
  "https://www.youtube.com/s/player/v/1".toList

/-- A site that serves the watch page and its player script. -/
def halfSignedSite (script : Text) : Site where
  respond url _ :=
    if url = Settings.watchUrl ['a'] then .page 200 halfSignedPage
    else if url = halfSignedScriptUrl then .page 200 script
    else .page 404 []
  shared := true

/-- A script that turns signatures around. -/
def reversingScript : Text :=
  "e=function(a)\x7ba=a.split(\"\");H.r(a);return a.join(\"\")\x7d;".toList ++
    "c&&d.set(b,encodeURIComponent(e(c.s)));".toList ++
    "var H=\x7br:function(a)\x7ba.reverse()\x7d\x7d;".toList

/-- An empty script costs the format that is not signed yet, and nothing else. -/
theorem script_influences_only_unsigned_empty_script :
    let first := halfSignedSite []
    let second := halfSignedSite reversingScript
    let cache := Cache.fresh 1 []
    AgreeBut halfSignedScriptUrl first second ∧
      (download first (Settings.watchUrl ['a']) []).1 = .ok halfSignedPage ∧
      scriptUrl? halfSignedPage = .ok (some halfSignedScriptUrl) ∧
      standardExtractor [] = .error (.fault .noEntryShape) ∧
      ∃ video other, (visit standardExtractor first cache ['a']).result = .ok video ∧
        (visit standardExtractor second cache ['a']).result = .ok other ∧
        video.streams.map (·.itag) = [18] ∧ other.streams.map (·.itag) = [18, 22] ∧
        video.streams.Sublist other.streams := by
  intro first second cache
  have hsites : AgreeBut halfSignedScriptUrl first second := by
    refine ⟨fun url hurl => ?_, rfl⟩
    simp only [first, second, halfSignedSite, if_neg hurl]
  have hpage : (download first (Settings.watchUrl ['a']) []).1 = .ok halfSignedPage := by
    decide +kernel
  have hscript : scriptUrl? halfSignedPage = .ok (some halfSignedScriptUrl) := by decide +kernel
  have hmanifest : ∀ info data, readVideoInfo ['a'] halfSignedPage = .ok info →
      info.response.streamingData = some data → data.hlsManifestUrl ≠ some halfSignedScriptUrl := by
    intro info data hinfo hdata hurl
    obtain ⟨_, hread, hnone⟩ := map_eq_ok_iff.mp (show
      ((readVideoInfo ['a'] halfSignedPage).map fun info =>
        info.response.streamingData.all (·.hlsManifestUrl.isNone)) = .ok true by decide +kernel)
    obtain rfl := Except.ok.inj (hinfo.symm.trans hread)
    simp [hdata, hurl] at hnone
  have hfault : standardExtractor [] = .error (.fault .noEntryShape) := by decide +kernel
  obtain ⟨video, hfirst, hlone⟩ := map_eq_ok_iff.mp (show
    (visit standardExtractor first cache ['a']).result.map (·.streams.map (·.itag)) = .ok [18] by
      decide +kernel)
  obtain ⟨other, hsecond, hboth⟩ := map_eq_ok_iff.mp (show
    (visit standardExtractor second cache ['a']).result.map (·.streams.map (·.itag)) =
      .ok [18, 22] by decide +kernel)
  obtain ⟨-, -, -, hlost⟩ := script_influences_only_unsigned standardExtractor hsites hpage hscript
    (by decide) hmanifest 1 [] hfirst hsecond
  exact ⟨hsites, hpage, hscript, hfault, video, other, hfirst, hsecond, hlone, hboth,
    (hlost [] .noEntryShape (by decide +kernel) hfault).2⟩

end Session

end Playable
