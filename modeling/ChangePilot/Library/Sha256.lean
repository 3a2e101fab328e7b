import Mathlib.Data.List.GetD
import Mathlib.Tactic.Common

/-!
# SHA-256

The hash function on lists of bytes, in natural numbers below `2 ^ 32`, and its
hexadecimal digest.
-/

namespace Sha256

/-- The eight words of the hash state. -/
structure State where
  a : ℕ
  b : ℕ
  c : ℕ
  d : ℕ
  e : ℕ
  f : ℕ
  g : ℕ
  h : ℕ

def roundConstants : List ℕ := [
  0x428a2f98, 0x71374491, 0xb5c0fbcf, 0xe9b5dba5, 0x3956c25b, 0x59f111f1, 0x923f82a4, 0xab1c5ed5,
  0xd807aa98, 0x12835b01, 0x243185be, 0x550c7dc3, 0x72be5d74, 0x80deb1fe, 0x9bdc06a7, 0xc19bf174,
  0xe49b69c1, 0xefbe4786, 0x0fc19dc6, 0x240ca1cc, 0x2de92c6f, 0x4a7484aa, 0x5cb0a9dc, 0x76f988da,
  0x983e5152, 0xa831c66d, 0xb00327c8, 0xbf597fc7, 0xc6e00bf3, 0xd5a79147, 0x06ca6351, 0x14292967,
  0x27b70a85, 0x2e1b2138, 0x4d2c6dfc, 0x53380d13, 0x650a7354, 0x766a0abb, 0x81c2c92e, 0x92722c85,
  0xa2bfe8a1, 0xa81a664b, 0xc24b8b70, 0xc76c51a3, 0xd192e819, 0xd6990624, 0xf40e3585, 0x106aa070,
  0x19a4c116, 0x1e376c08, 0x2748774c, 0x34b0bcb5, 0x391c0cb3, 0x4ed8aa4a, 0x5b9cca4f, 0x682e6ff3,
  0x748f82ee, 0x78a5636f, 0x84c87814, 0x8cc70208, 0x90befffa, 0xa4506ceb, 0xbef9a3f7, 0xc67178f2]

def initial : State :=
  ⟨0x6a09e667, 0xbb67ae85, 0x3c6ef372, 0xa54ff53a, 0x510e527f, 0x9b05688c, 0x1f83d9ab, 0x5be0cd19⟩

def word (number : ℕ) : ℕ := number % 4294967296

/-- A word turned right by `n` bits. -/
def turn (x n : ℕ) : ℕ := x >>> n ||| word (x <<< (32 - n))

def round (s : State) (constant input : ℕ) : State :=
  let mixed := turn s.e 6 ^^^ turn s.e 11 ^^^ turn s.e 25
  let choice := (s.e &&& s.f) ^^^ ((4294967295 ^^^ s.e) &&& s.g)
  let first := s.h + mixed + choice + constant + input
  let other := turn s.a 2 ^^^ turn s.a 13 ^^^ turn s.a 22
  let majority := (s.a &&& s.b) ^^^ (s.a &&& s.c) ^^^ (s.b &&& s.c)
  ⟨word (first + other + majority), s.a, s.b, s.c, word (s.d + first), s.e, s.f, s.g⟩

/-- The word that follows a window of sixteen words of the message schedule. -/
def nextWord (window : List ℕ) : ℕ :=
  let early := window.getD 1 0
  let late := window.getD 14 0
  word (window.getD 0 0 + (turn early 7 ^^^ turn early 18 ^^^ early >>> 3) + window.getD 9 0 +
    (turn late 17 ^^^ turn late 19 ^^^ late >>> 10))

def rounds : List ℕ → List ℕ → State → State
  | [], _, s => s
  | constant :: rest, window, s =>
      rounds rest (window.tail ++ [nextWord window]) (round s constant (window.headD 0))

def compress (s : State) (block : List ℕ) : State :=
  let r := rounds roundConstants block s
  ⟨word (s.a + r.a), word (s.b + r.b), word (s.c + r.c), word (s.d + r.d), word (s.e + r.e),
    word (s.f + r.f), word (s.g + r.g), word (s.h + r.h)⟩

/-- A one bit, zeros, and the length in bits, up to a whole number of blocks. -/
def pad (bytes : List ℕ) : List ℕ :=
  bytes ++ [128] ++ List.replicate ((119 - bytes.length % 64) % 64) 0 ++
    (List.range 8).map fun i => bytes.length * 8 / Nat.pow 256 (7 - i) % 256

def words : List ℕ → List ℕ
  | a :: b :: c :: d :: rest => (a * 16777216 + b * 65536 + c * 256 + d) :: words rest
  | _ => []

def blocks : ℕ → List ℕ → List (List ℕ)
  | 0, _ => []
  | n + 1, words => words.take 16 :: blocks n (words.drop 16)

def hash (bytes : List ℕ) : State :=
  let padded := words (pad bytes)
  (blocks (padded.length / 16) padded).foldl compress initial

/-! ## Hexadecimal digests -/

def hexDigits : List Char := "0123456789abcdef".toList

/-- The `n` last hexadecimal digits of a number. -/
def hex (number : ℕ) : ℕ → List Char
  | 0 => []
  | n + 1 => hexDigits.getD (number / Nat.pow 16 n % 16) '0' :: hex number n

@[simp] theorem length_hex (number n : ℕ) : (hex number n).length = n := by
  induction n with
  | zero => rfl
  | succ n ih => simp [hex, ih]

theorem mem_hexDigits_of_mem_hex {number n : ℕ} {digit : Char} (h : digit ∈ hex number n) :
    digit ∈ hexDigits := by
  induction n with
  | zero => simp [hex] at h
  | succ n ih =>
      rcases List.mem_cons.mp h with rfl | h
      · rcases Nat.lt_or_ge (number / Nat.pow 16 n % 16) hexDigits.length with hlt | hge
        · rw [List.getD_eq_getElem _ _ hlt]
          exact List.getElem_mem hlt
        · rw [List.getD_eq_default _ _ hge]
          decide
      · exact ih h

/-- The digest of a text in UTF-8. -/
def hexDigest (text : String) : String :=
  let s := hash (text.toByteArray.data.toList.map UInt8.toNat)
  String.ofList <| hex s.a 8 ++ hex s.b 8 ++ hex s.c 8 ++ hex s.d 8 ++ hex s.e 8 ++ hex s.f 8 ++
    hex s.g 8 ++ hex s.h 8

theorem length_hexDigest (text : String) : (hexDigest text).length = 64 := by
  simp [hexDigest]

theorem mem_hexDigits_of_mem_hexDigest {text : String} {digit : Char}
    (h : digit ∈ (hexDigest text).toList) : digit ∈ hexDigits := by
  simp only [hexDigest, String.toList_ofList, List.mem_append] at h
  rcases h with ((((((h | h) | h) | h) | h) | h) | h) | h <;> exact mem_hexDigits_of_mem_hex h

end Sha256
