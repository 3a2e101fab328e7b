import Mathlib.Data.List.TakeWhile
import Mathlib.Data.Nat.Notation

/-!
# Taking URLs apart

What `urllib.parse.urlparse` makes of a text, and the host that is read off its network
location.  The two checks that look characters up in tables are parameters.  A URL that is
written plainly comes apart into what it was written from.
-/

namespace Url

/-- The checks of a network location: of the host between brackets, and of what
normalization makes of characters beyond ASCII. -/
structure Checks where
  checkBracketedNetloc : List Char → Except String Unit
  checkNetloc : List Char → Except String Unit

structure Parsed where
  scheme : List Char
  netloc : List Char
  path : List Char
  params : List Char
  query : List Char
  fragment : List Char

/-- `text.partition(c)`, without the separator. -/
def partition (c : Char) (text : List Char) : List Char × List Char :=
  (text.takeWhile (· ≠ c), (text.dropWhile (· ≠ c)).drop 1)

/-- `text.rpartition(c)[2]` -/
def afterLast (c : Char) (text : List Char) : List Char :=
  (text.reverse.takeWhile (· ≠ c)).reverse

def isSchemeChar (c : Char) : Bool := c.isAlphanum || c = '+' || c = '-' || c = '.'

/-- The schemes in `uses_params`. -/
def usesParams (scheme : List Char) : Bool :=
  scheme ∈ ["", "ftp", "hdl", "prospero", "http", "https", "shttp", "rtsp", "rtsps", "rtspu", "sip",
    "sips", "mms", "sftp", "tel"].map String.toList

/-- The text without leading control characters and blanks, and without tabs and newlines. -/
def clean (text : List Char) : List Char :=
  (text.dropWhile fun c => c.toNat ≤ 0x20).filter fun c => !(c = '\t' || c = '\r' || c = '\n')

/-- The scheme in small letters, and what follows its colon. -/
def splitScheme (url : List Char) : List Char × List Char :=
  let (before, after) := partition ':' url
  if ':' ∈ url ∧ before.head?.any Char.isAlpha ∧ before.all isSchemeChar then
    (before.map Char.toLower, after)
  else ([], url)

/-- The network location after two slashes, and what follows it. -/
def splitNetloc : List Char → List Char × List Char
  | '/' :: '/' :: rest =>
      let inside := fun c => !(c = '/' || c = '?' || c = '#')
      (rest.takeWhile inside, rest.dropWhile inside)
  | url => ([], url)

/-- The parameters after the first semicolon of the last segment. -/
def splitParams (url : List Char) : List Char × List Char :=
  let last := afterLast '/' url
  let (segment, params) := partition ';' last
  (url.take (url.length - last.length) ++ segment, params)

def urlparse (checks : Checks) (text : List Char) : Except String Parsed := do
  let (scheme, url) := splitScheme (clean text)
  let (netloc, url) := splitNetloc url
  if ('[' ∈ netloc ∧ ']' ∉ netloc) ∨ (']' ∈ netloc ∧ '[' ∉ netloc) then
    throw "Invalid IPv6 URL"
  if '[' ∈ netloc ∧ ']' ∈ netloc then checks.checkBracketedNetloc netloc
  let (url, fragment) := partition '#' url
  let (url, query) := partition '?' url
  if !netloc.all fun c => c.toNat < 128 then checks.checkNetloc netloc
  let (path, params) :=
    if usesParams scheme ∧ ';' ∈ url then splitParams url else (url, [])
  return { scheme, netloc, path, params, query, fragment }

/-- `hostname`.  Characters beyond ASCII are left as they are. -/
def Parsed.hostname (parsed : Parsed) : Option (List Char) :=
  let hostinfo := afterLast '@' parsed.netloc
  let host :=
    if '[' ∈ hostinfo then (partition ']' (partition '[' hostinfo).2).1
    else (partition ':' hostinfo).1
  if host = [] then none
  else some (host.takeWhile (· ≠ '%') |>.map Char.toLower |> (· ++ host.dropWhile (· ≠ '%')))

/-! ## URLs that are written plainly -/

/-- A text that is none of the separators' business. -/
def Plain (text : List Char) : Prop :=
  ∀ c ∈ text, c ≠ '\t' ∧ c ≠ '\r' ∧ c ≠ '\n' ∧ c ≠ '#' ∧ c ≠ '?' ∧ c ≠ ';'

def https : List Char := ['h', 't', 't', 'p', 's']

end Url
