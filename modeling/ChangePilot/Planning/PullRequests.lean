import ChangePilot.Library.Urls
import ChangePilot.Planning.Ingestion

/-!
# URLs of pull requests

`parse_github_pull_request_url`, on top of `urlparse` and `int`.
-/

namespace ChangePilot

/-! ## `int` -/

/-- The zeros of the decimal digits, each of which is followed by the other nine. -/
def digitZeros : List ℕ := [
  0x30, 0x660, 0x6f0, 0x7c0, 0x966, 0x9e6, 0xa66, 0xae6, 0xb66, 0xbe6, 0xc66, 0xce6, 0xd66,
  0xde6, 0xe50, 0xed0, 0xf20, 0x1040, 0x1090, 0x17e0, 0x1810, 0x1946, 0x19d0, 0x1a80, 0x1a90,
  0x1b50, 0x1bb0, 0x1c40, 0x1c50, 0xa620, 0xa8d0, 0xa900, 0xa9d0, 0xa9f0, 0xaa50, 0xabf0,
  0xff10, 0x104a0, 0x10d30, 0x11066, 0x110f0, 0x11136, 0x111d0, 0x112f0, 0x11450, 0x114d0,
  0x11650, 0x116c0, 0x11730, 0x118e0, 0x11950, 0x11c50, 0x11d50, 0x11da0, 0x11f50, 0x16a60,
  0x16ac0, 0x16b50, 0x1d7ce, 0x1d7d8, 0x1d7e2, 0x1d7ec, 0x1d7f6, 0x1e140, 0x1e2f0, 0x1e4f0,
  0x1e950, 0x1fbf0]

/-- `unicodedata.decimal` -/
def decimalDigit (c : Char) : Option ℕ :=
  (digitZeros.find? fun first => first ≤ c.toNat ∧ c.toNat < first + 10).map (c.toNat - ·)

/-- The digits of a number, with single underscores between them; `after` a digit the
number may end. -/
def readDigits : (after : Bool) → List Char → Option (List ℕ)
  | after, [] => if after then some [] else none
  | after, c :: rest =>
      if after ∧ c = '_' then readDigits false rest
      else (decimalDigit c).bind fun digit => (readDigits true rest).map (digit :: ·)

/-- The bound on the digits that `int` reads. -/
def maxStrDigits : ℕ := 4300

/-- The number without a sign. -/
def readNatural (text : List Char) : Option ℕ :=
  (readDigits false text).bind fun digits =>
    if maxStrDigits < digits.length then none
    else some (digits.foldl (fun value digit => 10 * value + digit) 0)

/-- The blanks that `int` passes over.  Of those of `isspace` it takes the separators from
U+001C to U+001F for no blanks. -/
def isIntSpace (c : Char) : Bool := isSpace c && !(0x1c ≤ c.toNat && c.toNat ≤ 0x1f)

/-- The text without the blanks at its ends. -/
def stripInt (text : List Char) : List Char :=
  ((text.dropWhile isIntSpace).reverse.dropWhile isIntSpace).reverse

/-- `int(text)`, or nothing for a `ValueError`. -/
def readInt (text : List Char) : Option ℤ :=
  match stripInt text with
  | '-' :: rest => (readNatural rest).map fun n => -n
  | '+' :: rest => (readNatural rest).map fun n => n
  | rest => (readNatural rest).map fun n => n

/-! ## The parser -/

/-- The parts of the path that are not empty. -/
def pathParts (path : List Char) : List (List Char) :=
  (path.splitOn '/').filter fun part => part ≠ []

/-- The repository without a suffix `.git`. -/
def withoutGit (repository : List Char) : List Char :=
  if ".git".toList <:+ repository then repository.take (repository.length - 4) else repository

end ChangePilot
