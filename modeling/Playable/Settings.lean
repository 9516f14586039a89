import Playable.Text.Basic

/-!
# Settings

The values that hold unless something else is asked for: where pages are found,
which player versions are refused, and how requests are made.
-/

namespace Playable.Settings

/-- The origin that script references are resolved against. -/
def origin : Text :=
  "https://www.youtube.com".toList

/-- The URL of the watch page of a video. -/
def watchUrl (videoId : Text) : Text :=
  "https://www.youtube.com/watch?v=".toList ++ videoId

/-- Player versions that are known not to work. -/
def deniedPlayers : List Text :=
  ["5352eb4f".toList]

/-- How many player versions are remembered. -/
def cacheSize : Int :=
  1

/-- How often a download is tried. -/
def downloadAttempts : Nat :=
  3

/-- The seconds after which a request is given up. -/
def timeout : Int :=
  30

/-- What requests say about who makes them. -/
def userAgent : Text :=
  ("Mozilla/5.0 (Windows NT 10.0; Win64; x64) AppleWebKit/537.36 (KHTML, like Gecko) "
    ++ "Chrome/136.0.0.0 Safari/537.36").toList

end Playable.Settings
