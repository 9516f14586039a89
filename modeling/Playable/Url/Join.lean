import Playable.Url.Split

/-!
# Resolving URLs

A reference is resolved against the URL of the document in which it stands. What
the reference leaves out is taken from there, and the dots in its path are
resolved. Schemes that have no such hierarchy leave the reference as it is.
-/

namespace Playable.Url

/-- Schemes under which references are resolved. -/
def relativeSchemes : List Text :=
  ["", "ftp", "http", "gopher", "nntp", "imap", "wais", "file", "https", "shttp", "mms",
    "prospero", "rtsp", "rtsps", "rtspu", "sftp", "svn", "svn+ssh", "ws", "wss"].map String.toList

/-- Schemes whose URLs have an authority. -/
def authoritySchemes : List Text :=
  ["", "ftp", "http", "gopher", "nntp", "telnet", "imap", "wais", "file", "mms", "https",
    "shttp", "snews", "prospero", "rtsp", "rtsps", "rtspu", "rsync", "svn", "svn+ssh", "sftp",
    "nfs", "git", "git+ssh", "ws", "wss"].map String.toList

/-- Schemes whose last path segment may carry parameters. -/
def parameterSchemes : List Text :=
  ["", "ftp", "hdl", "prospero", "http", "imap", "https", "shttp", "rtsp", "rtsps", "rtspu",
    "sip", "sips", "mms", "sftp", "tel"].map String.toList

/-- The part of a path up to and including the last slash, and the rest. -/
def cutLastSegment (path : Text) : Text × Text :=
  let segment := (path.reverse.takeWhile (· ≠ '/')).reverse
  (path.take (path.length - segment.length), segment)

/-- A path without the parameters of its last segment, and those parameters. -/
def cutParameters (scheme path : Text) : Text × Text :=
  if Text.isOneOf parameterSchemes scheme then
    let (front, segment) := cutLastSegment path
    match Text.cutFirst ';' segment with
    | (name, some parameters) => (front ++ name, parameters)
    | (_, none) => (path, [])
  else (path, [])

/-- Put the parts of a URL together. Where the scheme calls for an authority, a path
without one still gets the double slash, unless it already starts with it. -/
def Parts.toText (u : Parts) : Text :=
  let located :=
    if u.authority ≠ [] ∨
        (u.scheme ≠ [] ∧ Text.isOneOf authoritySchemes u.scheme ∧ u.path.take 2 ≠ ['/', '/']) then
      let path := if u.path ≠ [] ∧ u.path.head? ≠ some '/' then '/' :: u.path else u.path
      '/' :: '/' :: u.authority ++ path
    else u.path
  let named := if u.scheme = [] then located else u.scheme ++ ':' :: located
  let asked := if u.query = [] then named else named ++ '?' :: u.query
  if u.fragment = [] then asked else asked ++ '#' :: u.fragment

/-- Put the parameters of the last segment back behind a path. -/
def withParameters (path parameters : Text) : Text :=
  if parameters = [] then path else path ++ ';' :: parameters

/-- Resolve the dots of a path that is given by its segments: a single dot is
dropped, and a double dot drops the segment before it, if there is one. -/
def resolveDots (segments : List Text) : List Text :=
  let resolved := segments.foldl (fun kept segment =>
    if segment = ['.', '.'] then kept.tail
    else if segment = ['.'] then kept
    else segment :: kept) []
  let resolved := match segments.getLast? with
    | some last => if last = ['.'] ∨ last = ['.', '.'] then [] :: resolved else resolved
    | none => resolved
  resolved.reverse

/-- Drop the empty segments that are neither the first nor the last. -/
def dropInnerEmpty : List Text → List Text
  | [] => []
  | [segment] => [segment]
  | first :: more => first :: more.dropLast.filter (!·.isEmpty) ++ more.getLast?.toList

/-- The segments of a path that is relative to another one. -/
def segmentsFrom (basePath path : Text) : List Text :=
  if path.head? = some '/' then Text.split '/' path
  else
    let base := Text.split '/' basePath
    let base := if base.getLast? = some [] then base else base.dropLast
    dropInnerEmpty (base ++ Text.split '/' path)

/-- Resolve a reference against a URL. -/
def join (base reference : Text) : Except UrlError Text := do
  if base = [] then return reference
  if reference = [] then return base
  let b ← split base
  let r ← splitWith b.scheme reference
  if r.scheme ≠ b.scheme ∨ !Text.isOneOf relativeSchemes r.scheme then return reference
  let (path, parameters) := cutParameters r.scheme r.path
  let (basePath, baseParameters) := cutParameters b.scheme b.path
  if Text.isOneOf authoritySchemes r.scheme ∧ r.authority ≠ [] then
    return { r with path := withParameters path parameters }.toText
  let authority := if Text.isOneOf authoritySchemes r.scheme then b.authority else r.authority
  if path = [] ∧ parameters = [] then
    let query := if r.query = [] then b.query else r.query
    return { r with authority, path := withParameters basePath baseParameters, query }.toText
  let resolved := Text.join ['/'] (resolveDots (segmentsFrom basePath path))
  let resolved := if resolved = [] then ['/'] else resolved
  return { r with authority, path := withParameters resolved parameters }.toText

end Playable.Url
