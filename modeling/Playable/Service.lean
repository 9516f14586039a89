import Playable.Session

/-!
# The service

Videos are resolved on request. A request names a path and carries parameters and
headers; the answer is a status and a body. Where a password is set, it has to
come with the request.
-/

namespace Playable.Service

open Record

/-- A request to the service. -/
structure Request where
  /-- The method. -/
  method : Text
  /-- The path. -/
  path : Text
  /-- The parameters in order. -/
  query : List (Text × Text)
  /-- The headers. -/
  headers : List (Text × Text)
  deriving DecidableEq, Repr

/-- The body of an answer. -/
inductive Body where
  /-- The service is well. -/
  | healthy
  /-- A reason in words. -/
  | detail (t : Text)
  /-- The parameters that do not fit. -/
  | invalid (paths : List Path)
  /-- A resolved video. -/
  | video (v : Video)
  deriving DecidableEq, Repr

/-- A body as a value. -/
def Body.toValue : Body → Json.Value
  | healthy => objectValue [("status", .text "healthy".toList)]
  | detail t => objectValue [("detail", .text t)]
  | invalid paths => objectValue [("locs", .list ((pathNames paths).map .text))]
  | video v => v.toValue

/-- An answer of the service. -/
structure Answer where
  /-- The status. -/
  status : Int
  /-- The body, where the status allows one. -/
  body : Option Body
  deriving DecidableEq, Repr

/-- An answer that gives a reason in words. Some statuses allow no body. -/
def refuse (status : Int) (reason : Text) : Answer :=
  ⟨status, if status < 200 ∨ status = 304 then none else some (.detail reason)⟩

/-- The value of a parameter; the last one counts. -/
def parameter? (query : List (Text × Text)) (name : String) : Option Text :=
  (query.reverse.find? (·.1 = name.toList)).map (·.2)

/-- The value of a header, whose name is not case-sensitive; the first one counts. -/
def header? (headers : List (Text × Text)) (name : String) : Option Text :=
  (headers.find? (Text.lowerAscii ·.1 = name.toList)).map (·.2)

/-- Whether a request may pass: no password is set, or the request carries it. -/
def authorized (password : Option Text) (request : Request) : Bool :=
  match password with
  | none | some [] => true
  | some password =>
    parameter? request.query "api_password" = some password
      || header? request.headers "api_password" = some password

/-- How an obstacle is put into words. -/
def obstacleMessage : Signing.Obstacle → Text
  | .url e => e.message
  | .encoding e => e.message
  | .number => Number.unwritableMessage
  | .operation e => e.message
  | .record paths => Text.join [',', ' '] (pathNames paths)

/-- The wording for data without formats. -/
def noFormatsMessage : Text :=
  "VideoInfo contained no StreamingData, which is essential for downloading.".toList

/-- The answer to a request for a video that is not resolved. -/
def refusal : SessionError → Answer
  | .videoId e => refuse 400 e.message
  | .download e => refuse e.status e.message
  | .page e => refuse 404 e.message
  | .player (.denied player) => refuse 422 (PlayerError.denied player).message
  | .player (.script (.fault f)) => refuse 422 f.message
  | .player (.script e) => refuse 500 ("Descrambling failed: ".toList ++ e.message)
  | .url e => refuse 500 ("Descrambling failed: ".toList ++ e.message)
  | .obstacle (.operation e) => refuse 400 e.message
  | .obstacle o => refuse 500 ("Descrambling failed: ".toList ++ obstacleMessage o)
  | .noFormats => refuse 400 noFormatsMessage

/-- An answer, with the cache after it and the URLs asked for. -/
structure Handled where
  /-- The answer. -/
  answer : Answer
  /-- The cache afterwards. -/
  cache : Cache
  /-- The URLs asked for. -/
  log : List Text

/-- Resolve the video of a URL. -/
def handleVideo (site : Network.Site) (cache : Cache) (url : Text) : Handled :=
  match Page.videoIdOf url with
  | .error e => ⟨refusal (.videoId e), cache, []⟩
  | .ok videoId =>
    let fetched := Session.fetch Session.standardExtractor site cache videoId []
    match fetched.result with
    | .error e => ⟨refusal e, fetched.cache, fetched.log⟩
    | .ok data =>
      let resolution := Session.resolve site data fetched.log
      match resolution.result with
      | .error e => ⟨refusal e, fetched.cache, resolution.log⟩
      | .ok video => ⟨⟨200, some (.video video)⟩, fetched.cache, resolution.log⟩

/-- What the service offers. -/
inductive Endpoint where
  /-- Tell whether the service is well. -/
  | health
  /-- Resolve a video. -/
  | video
  deriving DecidableEq, Repr

/-- The endpoint of a path. Slashes at the end of the path do not matter. -/
def endpoint? (path : Text) : Option Endpoint :=
  let trimmed := (path.reverse.dropWhile (· = '/')).reverse
  if trimmed = "/health".toList then some .health
  else if trimmed = "/descrambler/video".toList then some .video
  else none

/-- Answer a request. A wrong method is refused before the password is checked, and
the password before the parameters. -/
def handle (password : Option Text) (site : Network.Site) (cache : Cache)
    (request : Request) : Handled :=
  match endpoint? request.path with
  | none => ⟨refuse 404 "Not Found".toList, cache, []⟩
  | some endpoint =>
    if request.method.map Char.toUpper ≠ "GET".toList then
      ⟨refuse 405 "Method Not Allowed".toList, cache, []⟩
    else match endpoint with
      | .health => ⟨⟨200, some .healthy⟩, cache, []⟩
      | .video =>
        if !authorized password request then
          ⟨refuse 403 "Could not validate credentials".toList, cache, []⟩
        else match parameter? request.query "d" with
          | none => ⟨⟨422, some (.invalid [["query".toList, "d".toList]])⟩, cache, []⟩
          | some url => handleVideo site cache url

end Playable.Service
