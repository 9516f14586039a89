import Playable.Cache
import Playable.Manifest.Variant
import Playable.Network.Download
import Playable.Page.ScriptUrl
import Playable.Page.VideoId
import Playable.Page.VideoInfo
import Playable.Signing

/-!
# Resolving a video

To resolve a video, its watch page is downloaded and read, the plan of the player
version is looked up or recovered from the player script, and the formats of the
page are signed. Streams of a manifest need no signature and are added behind.
-/

namespace Playable

open Cipher Record Network Page

/-- Why a video is not resolved. -/
inductive SessionError where
  /-- There is no video id. -/
  | videoId (e : VideoIdError)
  /-- A page or a script cannot be downloaded. -/
  | download (e : DownloadError)
  /-- The watch page cannot be used. -/
  | page (e : PageError)
  /-- The player version is refused, or its script cannot be read. -/
  | player (e : PlayerError)
  /-- A URL is refused. -/
  | url (e : Url.UrlError)
  /-- A format stops the delivery. -/
  | obstacle (o : Signing.Obstacle)
  /-- The page says nothing about formats. -/
  | noFormats
  deriving DecidableEq, Repr

/-- What is known about a video once its pages are fetched. -/
structure Fetched where
  /-- The data of the watch page. -/
  info : VideoInfo
  /-- What unscrambles signatures, if the player version has a plan. -/
  engine : Option Engine
  /-- The player version, if the page names a script. -/
  player : Option Text

/-- The outcome of a request that uses the network and the cache. -/
structure Outcome (α : Type) where
  /-- The result. -/
  result : Except SessionError α
  /-- The cache afterwards. -/
  cache : Cache
  /-- The URLs asked for in this visit. -/
  log : List Text

namespace Session

/-- What reads a script into a plan, with the shapes of the standard operations. -/
def standardExtractor : Extractor :=
  Script.extract Script.standardShapes

/-- The engine of a plan over the standard catalog. -/
def engineOf (plan : Plan) : Engine :=
  ⟨plan, Catalog.standard⟩

/-- The outcome of asking the cache for a plan. A version whose script yields no plan
for a declared reason has no engine, and everything else stops the request. -/
def engineOutcome (reply : Reply Plan) (log : List Text) : Outcome (Option Engine) :=
  match reply.result with
  | .ok plan => ⟨.ok (some (engineOf plan)), reply.cache, log⟩
  | .error (.script (.fault _)) => ⟨.ok none, reply.cache, log⟩
  | .error e => ⟨.error (.player e), reply.cache, log⟩

/-- The engine of the player version behind a script URL. The script is downloaded
only if the version is not remembered. -/
def engineFor (extract : Extractor) (site : Site) (cache : Cache) (url : Text)
    (log : List Text) : Outcome (Option Engine) :=
  let player := playerId url
  let found := cache.lookup player
  match found.result with
  | .ok none =>
    match download site url log with
    | (.error e, log) => ⟨.error (.download e), found.cache, log⟩
    | (.ok script, log) => engineOutcome (found.cache.get extract player script) log
  | .ok (some plan) => ⟨.ok (some (engineOf plan)), found.cache, log⟩
  | .error (.script (.fault _)) => ⟨.ok none, found.cache, log⟩
  | .error e => ⟨.error (.player e), found.cache, log⟩

/-- Fetch what is needed to resolve a video. -/
def fetch (extract : Extractor) (site : Site) (cache : Cache) (videoId : Text)
    (log : List Text) : Outcome Fetched :=
  match download site (Settings.watchUrl videoId) log with
  | (.error e, log) => ⟨.error (.download e), cache, log⟩
  | (.ok page, log) =>
    match readVideoInfo videoId page with
    | .error e => ⟨.error (.page e), cache, log⟩
    | .ok info =>
      match scriptUrl? page with
      | .error e => ⟨.error (.url e), cache, log⟩
      | .ok none => ⟨.ok ⟨info, none, none⟩, cache, log⟩
      | .ok (some url) =>
        let outcome := engineFor extract site cache url log
        match outcome.result with
        | .error e => ⟨.error e, outcome.cache, outcome.log⟩
        | .ok engine => ⟨.ok ⟨info, engine, some (playerId url)⟩, outcome.cache, outcome.log⟩

/-- The streams of the manifest, if there is one that can be downloaded. -/
def manifestStreams (site : Site) (manifestUrl : Option Text) (log : List Text) :
    Except Url.UrlError (List Stream) × List Text :=
  match manifestUrl with
  | none | some [] => (.ok [], log)
  | some url =>
    match download site url log with
    | (.error _, log) => (.ok [], log)
    | (.ok playlist, log) => (Manifest.streams playlist (some url), log)

/-- The data of a video with the formats of its legacy list added. -/
def withLegacy (legacyList : Option RawText) (data : StreamingData) : StreamingData :=
  match legacyList with
  | none => data
  | some list => if list = [] then data else Signing.addLegacy data list

/-- The outcome of resolving fetched data. -/
structure Resolution where
  /-- The resolved video. -/
  result : Except SessionError Video
  /-- The fetched data afterwards. -/
  info : VideoInfo
  /-- The URLs asked for in this visit. -/
  log : List Text

/-- The video of fetched data and its streams. -/
def videoOf (info : VideoInfo) (streams : List Stream) : Video :=
  let details := info.response.videoDetails
  ⟨details.videoId, details.title, details.isLive, streams⟩

/-- Resolve fetched data. Of a broadcast only the manifest counts. Otherwise the
legacy list is added to the formats, where it stays, and the streams of the formats
come first. The manifest is asked for even if a format stops the delivery. -/
def resolve (site : Site) (fetched : Fetched) (log : List Text) : Resolution :=
  let info := fetched.info
  match info.response.streamingData with
  | none => ⟨.error .noFormats, info, log⟩
  | some data =>
    let (hls, log) := manifestStreams site data.hlsManifestUrl log
    if info.response.videoDetails.isLive then
      match hls with
      | .error e => ⟨.error (.url e), info, log⟩
      | .ok hls => ⟨.ok (videoOf info hls), info, log⟩
    else
      let data := withLegacy info.legacyList data
      let info := { info with response := { info.response with streamingData := some data } }
      match Signing.streamsOf fetched.engine (data.formats ++ data.adaptiveFormats), hls with
      | .error o, _ => ⟨.error (.obstacle o), info, log⟩
      | .ok _, .error e => ⟨.error (.url e), info, log⟩
      | .ok streams, .ok hls => ⟨.ok (videoOf info (streams ++ hls)), info, log⟩

end Session
end Playable
