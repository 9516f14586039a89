import Playable.Settings
import Playable.Text.Basic

/-!
# Downloads

A download is tried a few times. A page that the other side refuses for good is
not asked for again; the two exceptions are a request that took too long and one
that came too early.
-/

namespace Playable.Network

/-- What comes back for a request. -/
inductive Response where
  /-- A page with its status. -/
  | page (status : Int) (text : Text)
  /-- Nothing, for too long. -/
  | timeout
  /-- The request could not be made. -/
  | failure (reason : Text)
  deriving DecidableEq, Repr

/-- Why one request yields no page. -/
inductive Failure where
  /-- It took too long. -/
  | timeout
  /-- The status is not one of success. -/
  | status (code : Int)
  /-- The request could not be made. -/
  | request (reason : Text)
  deriving DecidableEq, Repr

/-- Why a download failed. -/
structure DownloadError where
  /-- The URL that was asked for. -/
  url : Text
  /-- What the last request ran into. -/
  failure : Failure
  deriving DecidableEq, Repr

namespace DownloadError

/-- The status that stands for a failure. -/
def status (e : DownloadError) : Int :=
  match e.failure with
  | .timeout => 409
  | .status code => code
  | .request _ => 502

/-- The wording of a failure. -/
def message (e : DownloadError) : Text :=
  match e.failure with
  | .timeout => "Timeout while downloading ".toList ++ e.url
  | .status code =>
    "HTTP error ".toList ++ Text.ofInt code ++ " while downloading ".toList ++ e.url
  | .request reason => "Error downloading ".toList ++ e.url ++ ": ".toList ++ reason

/-- Whether it is worth trying again: not after an error on our side, with two
exceptions. -/
def retryable (e : DownloadError) : Bool :=
  match e.failure with
  | .status code => !(400 ≤ code && code < 500) || code = 408 || code = 429
  | _ => true

end DownloadError

/-- The outcome of one request. -/
def outcome (url : Text) : Response → Except DownloadError Text
  | .page status text =>
    if 200 ≤ status ∧ status < 300 then .ok text else .error ⟨url, .status status⟩
  | .timeout => .error ⟨url, .timeout⟩
  | .failure reason => .error ⟨url, .request reason⟩

/-- The world that is asked for pages. -/
structure Site where
  /-- What comes back for the n-th request of a URL on one connection. -/
  respond : Text → Nat → Response
  /-- Whether the downloads of one visit share a connection. -/
  shared : Bool

/-- Ask for a URL at most `attempts` times, where it was asked for `asked` times
before on the same connection. The URLs asked for are added to the log. -/
def tryDownload (site : Site) (url : Text) (attempts asked : Nat) (log : List Text) :
    Except DownloadError Text × List Text :=
  match outcome url (site.respond url asked), attempts with
  | .ok text, _ => (.ok text, log ++ [url])
  | .error e, attempts + 2 =>
    if e.retryable then tryDownload site url (attempts + 1) (asked + 1) (log ++ [url])
    else (.error e, log ++ [url])
  | .error e, _ => (.error e, log ++ [url])

/-- Download a page. The log holds the URLs asked for in this visit. -/
def download (site : Site) (url : Text) (log : List Text) :
    Except DownloadError Text × List Text :=
  tryDownload site url Settings.downloadAttempts (if site.shared then log.count url else 0) log

/-- The site of a list of pages. Each URL has its responses in order, and the last
one repeats; any other URL is not found. -/
def Site.ofPages (pages : List (Text × List Response)) (shared : Bool) : Site where
  shared := shared
  respond url n :=
    match pages.find? (·.1 = url) with
    | none => .page 404 []
    | some (_, responses) =>
      (responses[n]?.or responses.getLast?).getD (.page 404 [])

end Playable.Network
