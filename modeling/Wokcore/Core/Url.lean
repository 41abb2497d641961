import Mathlib.Data.String.Basic

/-!
# Texts and URLs as the source reads them

Two small vocabularies from outside the repository. `isWhiteSpace` and `isControl` are the Unicode
properties behind `str::trim` and `char::is_control`. `Url` is what the `url` crate's parser hands
back, as the record of the parts the source asks for; the parser itself stays a parameter of
everything that uses it.
-/

set_option autoImplicit false

namespace Wokcore.Core

/-- The `White_Space` property, which `str::trim` removes. -/
def isWhiteSpace (c : Char) : Bool :=
  let n := c.toNat
  (9 ≤ n && n ≤ 13) || n == 0x20 || n == 0x85 || n == 0xA0 || n == 0x1680
    || (0x2000 ≤ n && n ≤ 0x200A) || n == 0x2028 || n == 0x2029 || n == 0x202F || n == 0x205F
    || n == 0x3000

/-- The general category `Cc`. -/
def isControl (c : Char) : Bool :=
  let n := c.toNat
  n ≤ 0x1F || (0x7F ≤ n && n ≤ 0x9F)

variable (value : String)

/-- `value.trim().is_empty()`. -/
def isBlank : Bool := value.toList.all isWhiteSpace

/-- `value.chars().any(char::is_control)`. -/
def hasControl : Bool := value.toList.any isControl

/-- `value.contains(['{', '}'])`. -/
def hasBrace : Bool := value.toList.any fun c => c == '\x7b' || c == '\x7d'

/-- `value.starts_with(start)`. -/
def startsWith (start : String) : Bool := start.toList.isPrefixOf value.toList

/-- `value.ends_with(ending)`. -/
def endsWith (ending : String) : Bool := ending.toList.isSuffixOf value.toList

/-- `value.trim_end_matches(c)`. -/
def trimEndMatches (c : Char) : String :=
  .ofList (value.toList.reverse.dropWhile (· == c)).reverse

/-- `url::Host`. -/
inductive Host where
  | domain (name : String)
  | ipv4 (address : BitVec 32)
  | ipv6 (address : BitVec 128)
deriving DecidableEq, Repr

/-- A parsed URL: its serialization and the parts the source reads. -/
structure Url where
  serialization : String
  scheme : String
  username : String
  password : Option String
  host : Option Host
  /-- `port_or_known_default`. -/
  port : Option Nat
  path : String
  query : Option String
  fragment : Option String
deriving DecidableEq, Repr

/-- `Url::parse`, with any error forgotten: the source never looks at it. -/
abbrev UrlParser := String → Option Url

/-- The `url` crate: the parser, and the operations that build one URL from another. -/
structure UrlLibrary where
  parse : UrlParser
  join : Url → String → Option Url
  setPath : Url → String → Url
  /-- `path_segments_mut().pop_if_empty().push(segment)`, `none` if the URL has no path segments. -/
  pushSegment : Url → String → Option Url
  /-- `query_pairs_mut().append_pair(key, value)`. -/
  appendPair : Url → String → String → Url

/-! ## Plain URLs -/

/-- The URL `scheme://host/path`, or `scheme:path` where there is no host. -/
def plainUrl (scheme : String) (host path : String) : Url where
  serialization := scheme ++ ":" ++ (if host.isEmpty then "" else "//" ++ host) ++ path
  scheme
  username := ""
  password := none
  host := if host.isEmpty then none else some (.domain host)
  port := if scheme = "http" then some 80 else if scheme = "https" then some 443 else none
  path
  query := none
  fragment := none

/-- A lower-case URL taken apart that is a scheme, a host and a path and no more. -/
def splitPlain : Option Url :=
  let scheme := String.ofList (value.toList.takeWhile (· ≠ ':'))
  match value.toList.dropWhile (· ≠ ':') with
  | ':' :: '/' :: '/' :: rest =>
    let path := rest.dropWhile (· ≠ '/')
    some (plainUrl scheme (.ofList (rest.takeWhile (· ≠ '/')))
      (if path.isEmpty then "/" else .ofList path))
  | ':' :: path => some (plainUrl scheme "" (.ofList path))
  | _ => none

/-- What the parser makes of a plain URL. -/
def parsePlain : Option Url :=
  (splitPlain value).filter fun url => splitPlain url.serialization = some url

/-- The `url` crate on plain URLs whose path ends in a slash where another is joined to it. -/
def plainUrls : UrlLibrary where
  parse := parsePlain
  join base relative := some { base with
    serialization := base.serialization ++ relative
    path := base.path ++ relative }
  setPath url path := { url with path }
  pushSegment url segment := some { url with
    serialization := url.serialization ++ segment
    path := url.path ++ segment }
  appendPair url key value := { url with
    serialization := url.serialization ++ "?" ++ key ++ "=" ++ value
    query := some (key ++ "=" ++ value) }

end Wokcore.Core
