import Playable.Url.Authority

/-!
# Parts of a URL

A URL is cut into scheme, authority, path, query and fragment. Nothing is decoded,
and only an authority that breaks its rules is refused.
-/

namespace Playable.Url

/-- The parts of a URL, without the delimiters between them. -/
structure Parts where
  /-- The scheme in lower case; empty if there is none. -/
  scheme : Text
  /-- What stands between the double slash and the path. -/
  authority : Text
  /-- The path. -/
  path : Text
  /-- What stands behind the question mark. -/
  query : Text
  /-- What stands behind the number sign. -/
  fragment : Text
  deriving DecidableEq, Repr

/-- A character that a scheme may hold. -/
def isSchemeChar (c : Char) : Bool :=
  c.isAlphanum || c = '+' || c = '-' || c = '.'

/-- Drop controls and spaces in front, and tabulators and line ends everywhere. -/
def clean (url : Text) : Text :=
  (url.dropWhile (·.toNat ≤ 32)).filter fun c => c ≠ '\t' ∧ c ≠ '\r' ∧ c ≠ '\n'

/-- The scheme in front of the first colon, if it looks like one, and the rest;
otherwise the given scheme and the whole text. -/
def cutScheme (otherwise url : Text) : Text × Text :=
  match Text.cutFirst ':' url with
  | (name, some rest) =>
    if name.head?.any Char.isAlpha && name.all isSchemeChar then (Text.lowerAscii name, rest)
    else (otherwise, url)
  | (_, none) => (otherwise, url)

/-- A character that ends the authority. -/
def endsAuthority (c : Char) : Bool :=
  c = '/' || c = '?' || c = '#'

/-- The authority behind a double slash, and the rest. -/
def cutAuthority : Text → Text × Text
  | '/' :: '/' :: rest => (rest.takeWhile (!endsAuthority ·), rest.dropWhile (!endsAuthority ·))
  | rest => ([], rest)

/-- Cut a URL into its parts. The given scheme is used if the URL has none. -/
def splitWith (scheme url : Text) : Except UrlError Parts := do
  let (scheme, rest) := cutScheme scheme (clean url)
  let (authority, rest) := cutAuthority rest
  checkAuthority authority
  let (rest, fragment) := Text.cutFirst '#' rest
  let (path, query) := Text.cutFirst '?' rest
  return ⟨scheme, authority, path, query.getD [], fragment.getD []⟩

/-- Cut a URL into its parts. -/
def split (url : Text) : Except UrlError Parts :=
  splitWith [] url

end Playable.Url
