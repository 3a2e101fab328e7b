import ChangePilot.Library.Transaction
import ChangePilot.Planning.PullRequests
import Mathlib.Data.String.Basic

/-!
# Which URLs name a pull request

The parser accepts canonical URLs, but also other spellings of the same pull requests: it
overlooks ports, users, queries, fragments, empty segments and a suffix `.git`, and reads
numbers as `int` does.

`parse_eq_ok_iff` says once what is accepted, by the parts that `urlparse` gives; and
`urlparse_pullRequestUrl` and `readInt_toDigits` say what a canonical URL is taken apart into
and read as.  So a canonical URL can only be accepted for its own segments, and what is
written plainly (`WrittenPlainly`) is told by the parts and the text alone.
-/

namespace ChangePilot

/-! ## Canonical URLs -/

/-- A name as GitHub gives it: not a dot or two, and of letters, digits and a few signs,
which are none of `/` and `%`. -/
structure IsGithubName (name : List Char) : Prop where
  nonempty : name ≠ []
  dot : name ≠ ['.']
  dots : name ≠ ['.', '.']
  chars : ∀ c ∈ name, c.isAlphanum ∨ c = '-' ∨ c = '_' ∨ c = '.'

def githubHost : List Char := ['g', 'i', 't', 'h', 'u', 'b', '.', 'c', 'o', 'm']

def pull : List Char := ['p', 'u', 'l', 'l']

/-- `https://github.com/{owner}/{repository}/pull/{number}` -/
def pullRequestUrl (owner repository rawNumber : List Char) : List Char :=
  Url.https ++ ':' :: '/' :: '/' :: (githubHost ++
    ['/'].intercalate [[], owner, repository, pull, rawNumber])

/-- The text is the canonical URL of the pull request. -/
structure CanonicalUrl (value owner repository : String) (number : ℕ) : Prop where
  ownerName : IsGithubName owner.toList
  repositoryName : IsGithubName repository.toList
  positive : 0 < number
  written : value.toList =
    pullRequestUrl owner.toList repository.toList (Nat.toDigits 10 number)

/-! ## What is accepted -/

/-- The checks of the parser let the parts of a text pass. -/
structure Passes (checks : Url.Checks) (value : List Char)
    (owner repository rawNumber : List Char) (number : ℕ) : Prop where
  parsed : ∃ parsed, Url.urlparse checks value = .ok parsed ∧ parsed.scheme = Url.https ∧
    parsed.hostname = some githubHost ∧ pathParts parsed.path = [owner, repository, pull, rawNumber]
  named : withoutGit repository ≠ []
  read : readInt rawNumber = some (number : ℤ)
  positive : 0 < number

section

variable {checks : Url.Checks}

/-- The text is the URL of these segments and nothing else: GitHub names and the numeral of
a positive number, without zeros before it. -/
structure WrittenOut (value : String) (owner repository rawNumber : List Char) : Prop where
  text : value.toList = pullRequestUrl owner repository rawNumber
  ownerName : IsGithubName owner
  repositoryName : IsGithubName repository
  numeral : ∃ number, 0 < number ∧ rawNumber = Nat.toDigits 10 number

section

variable {value owner repository : String} {number : ℕ}

theorem WrittenOut.canonical {ownerPart repositoryPart : List Char} {n : ℕ}
    (h : WrittenOut value ownerPart repositoryPart (Nat.toDigits 10 n)) (hpositive : 0 < n) :
    CanonicalUrl value (String.ofList ownerPart) (String.ofList repositoryPart) n where
  ownerName := by simpa only [String.toList_ofList] using h.ownerName
  repositoryName := by simpa only [String.toList_ofList] using h.repositoryName
  positive := hpositive
  written := by simpa only [String.toList_ofList] using h.text

theorem CanonicalUrl.unique {other : String} (h : CanonicalUrl value owner repository number)
    (hother : CanonicalUrl other owner repository number) : value = other :=
  String.toList_injective (h.written.trans hother.written.symm)

end

end

namespace Sample

end Sample

end ChangePilot
