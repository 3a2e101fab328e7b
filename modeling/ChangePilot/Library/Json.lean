import Mathlib.Data.List.Basic
import Mathlib.Tactic.Common

/-!
# Canonical JSON texts

JSON values over a type of scalars, and the text without blanks in which strings are
escaped to printable ASCII.  The text of a value determines the value
(`encode_injective`): a scalar ends where the first character stands that no scalar
contains, an escaped character says where it ends, and a bracket closes what it opened.
-/

inductive Json (S : Type) where
  | scalar (value : S)
  | str (text : String)
  | arr (items : List (Json S))
  | obj (members : List (String × Json S))

namespace Json

/-! ## Strings -/

def hexDigits : List Char := "0123456789abcdef".toList

def hexDigit (n : ℕ) : Char := hexDigits.getD (n % 16) '0'

/-- Four hexadecimal digits. -/
def hex4 (n : ℕ) : List Char :=
  [hexDigit (n / 4096), hexDigit (n / 256), hexDigit (n / 16), hexDigit n]

def unicodeEscape (n : ℕ) : List Char := '\\' :: 'u' :: hex4 n

/-- A character as it stands in a string; one beyond the first plane becomes a pair of
surrogates. -/
def escapeChar (c : Char) : List Char :=
  if c = '\\' then ['\\', '\\']
  else if c = '\"' then ['\\', '\"']
  else if c = '\n' then ['\\', 'n']
  else if c = '\r' then ['\\', 'r']
  else if c = '\t' then ['\\', 't']
  else if c = '\x0c' then ['\\', 'f']
  else if c = '\x08' then ['\\', 'b']
  else if 32 ≤ c.toNat ∧ c.toNat ≤ 126 then [c]
  else if c.toNat < 65536 then unicodeEscape c.toNat
  else unicodeEscape (0xd800 + (c.toNat - 65536) / 1024) ++
    unicodeEscape (0xdc00 + (c.toNat - 65536) % 1024)

def quote (text : String) : List Char := '\"' :: text.toList.flatMap escapeChar ++ ['\"']

/-! ## Values -/

section

variable {S : Type} (token : S → List Char)

mutual

def encode : Json S → List Char
  | .scalar value => token value
  | .str text => quote text
  | .arr items => '[' :: encodeItems items
  | .obj members => '\x7b' :: encodeMembers members

/-- The items and the bracket that closes them. -/
def encodeItems : List (Json S) → List Char
  | [] => [']']
  | item :: rest => encode item ++ encodeMoreItems rest

def encodeMoreItems : List (Json S) → List Char
  | [] => [']']
  | item :: rest => ',' :: (encode item ++ encodeMoreItems rest)

def encodeMembers : List (String × Json S) → List Char
  | [] => ['\x7d']
  | (key, value) :: rest => quote key ++ ':' :: (encode value ++ encodeMoreMembers rest)

def encodeMoreMembers : List (String × Json S) → List Char
  | [] => ['\x7d']
  | (key, value) :: rest => ',' :: (quote key ++ ':' :: (encode value ++ encodeMoreMembers rest))

end

end

/-! ## Reading a string back -/

def hexValue (c : Char) : ℕ := hexDigits.idxOf c

def hex4Value (a b c d : Char) : ℕ :=
  hexValue a * 4096 + hexValue b * 256 + hexValue c * 16 + hexValue d

/-- The character of a code unit, which may need the one escaped after it. -/
def readUnit (unit : ℕ) (rest : List Char) : Option (Char × List Char) :=
  if 0xd800 ≤ unit ∧ unit < 0xe000 then
    match rest with
    | '\\' :: 'u' :: a :: b :: c :: d :: rest =>
        some (Char.ofNat (65536 + (unit - 0xd800) * 1024 + (hex4Value a b c d - 0xdc00)), rest)
    | _ => none
  else some (Char.ofNat unit, rest)

/-- The character at the head of the rest of a string, and what follows it. -/
def readChar : List Char → Option (Char × List Char)
  | '\\' :: '\\' :: rest => some ('\\', rest)
  | '\\' :: '\"' :: rest => some ('\"', rest)
  | '\\' :: 'n' :: rest => some ('\n', rest)
  | '\\' :: 'r' :: rest => some ('\r', rest)
  | '\\' :: 't' :: rest => some ('\t', rest)
  | '\\' :: 'f' :: rest => some ('\x0c', rest)
  | '\\' :: 'b' :: rest => some ('\x08', rest)
  | '\\' :: 'u' :: a :: b :: c :: d :: rest => readUnit (hex4Value a b c d) rest
  | c :: rest => some (c, rest)
  | [] => none

theorem hexValue_hexDigit (n : ℕ) : hexValue (hexDigit n) = n % 16 := by
  have hall : ∀ d < 16, hexDigits.idxOf (hexDigits.getD d '0') = d := by decide
  exact hall (n % 16) (Nat.mod_lt n (by decide))

theorem hex4Value_hex4 {n : ℕ} (h : n < 65536) :
    hex4Value (hexDigit (n / 4096)) (hexDigit (n / 256)) (hexDigit (n / 16)) (hexDigit n) = n := by
  simp only [hex4Value, hexValue_hexDigit]
  omega

theorem readChar_unicodeEscape {n : ℕ} (h : n < 65536) (rest : List Char) :
    readChar (unicodeEscape n ++ rest) = readUnit n rest := by
  show readUnit (hex4Value _ _ _ _) rest = _
  rw [hex4Value_hex4 h]

theorem readUnit_pair {high low : ℕ} (hhigh : 0xd800 ≤ high ∧ high < 0xe000) (hlow : low < 65536)
    (rest : List Char) : readUnit high (unicodeEscape low ++ rest) =
      some (Char.ofNat (65536 + (high - 0xd800) * 1024 + (low - 0xdc00)), rest) := by
  unfold readUnit
  rw [if_pos hhigh]
  simp only [unicodeEscape, hex4, List.cons_append, List.nil_append, hex4Value_hex4 hlow]

/-- No character is a surrogate. -/
theorem toNat_range (c : Char) :
    c.toNat < 0xd800 ∨ 0xdfff < c.toNat ∧ c.toNat < 0x110000 := by
  have hvalid := c.valid
  rwa [UInt32.isValidChar, Nat.isValidChar] at hvalid

theorem readChar_escapeChar (c : Char) (rest : List Char) :
    readChar (escapeChar c ++ rest) = some (c, rest) := by
  have hrange := toNat_range c
  unfold escapeChar
  split_ifs with hbackslash hquote hn hr ht hf hb hplain hbmp
  · rw [hbackslash]; rfl
  · rw [hquote]; rfl
  · rw [hn]; rfl
  · rw [hr]; rfl
  · rw [ht]; rfl
  · rw [hf]; rfl
  · rw [hb]; rfl
  · rw [List.singleton_append]
    unfold readChar
    split <;> simp_all
  · rw [readChar_unicodeEscape hbmp]
    unfold readUnit
    rw [if_neg (by omega), Char.ofNat_toNat]
  · have hvalue : 65536 + (0xd800 + (c.toNat - 65536) / 1024 - 0xd800) * 1024 +
        (0xdc00 + (c.toNat - 65536) % 1024 - 0xdc00) = c.toNat := by omega
    rw [List.append_assoc, readChar_unicodeEscape (by omega),
      readUnit_pair (by omega) (by omega), hvalue, Char.ofNat_toNat]

theorem readChar_quote (rest : List Char) : readChar ('\"' :: rest) = some ('\"', rest) := rfl

/-- No escaped character begins as the closing quote does. -/
theorem escapeChar_append_ne_quote (c : Char) (first second : List Char) :
    escapeChar c ++ first ≠ '\"' :: second := by
  intro h
  have hread := readChar_escapeChar c first
  rw [h, readChar_quote] at hread
  obtain ⟨rfl, rfl⟩ := Prod.mk.inj (Option.some.inj hread)
  have hlength := congrArg List.length h
  simp [escapeChar] at hlength

theorem escape_append_inj {a b first second : List Char}
    (h : a.flatMap escapeChar ++ '\"' :: first = b.flatMap escapeChar ++ '\"' :: second) :
    a = b ∧ first = second := by
  induction a generalizing b with
  | nil =>
      cases b with
      | nil => exact ⟨rfl, (List.cons.inj h).2⟩
      | cons d b =>
          rw [List.flatMap_cons, List.append_assoc] at h
          exact absurd h.symm (escapeChar_append_ne_quote d _ _)
  | cons c a ih =>
      cases b with
      | nil =>
          rw [List.flatMap_cons, List.append_assoc] at h
          exact absurd h (escapeChar_append_ne_quote c _ _)
      | cons d b =>
          simp only [List.flatMap_cons, List.append_assoc] at h
          have hread := congrArg readChar h
          rw [readChar_escapeChar, readChar_escapeChar] at hread
          obtain ⟨rfl, hrest⟩ := Prod.mk.inj (Option.some.inj hread)
          obtain ⟨rfl, hfollowing⟩ := ih hrest
          exact ⟨rfl, hfollowing⟩

/-- A quoted text ends at its closing quote. -/
theorem quote_append_inj {a b : String} {first second : List Char}
    (h : quote a ++ first = quote b ++ second) : a = b ∧ first = second := by
  simp only [quote, List.cons_append, List.append_assoc, List.nil_append] at h
  obtain ⟨htext, hrest⟩ := escape_append_inj (List.cons.inj h).2
  exact ⟨String.toList_injective htext, hrest⟩

/-! ## The text determines the value -/

/-- The characters of scalars. -/
def Bare (c : Char) : Prop := c.isAlphanum ∨ c ∈ ['-', '+', '.']

instance (c : Char) : Decidable (Bare c) := inferInstanceAs (Decidable (_ ∨ _))

/-- What follows is not part of a scalar. -/
def Delimited (text : List Char) : Prop := ∀ c rest, text = c :: rest → ¬ Bare c

/-- Scalars have texts of their own, of characters that nothing else begins with. -/
structure Tokens {S : Type} (token : S → List Char) : Prop where
  injective : Function.Injective token
  ne_nil : ∀ value, token value ≠ []
  bare : ∀ value, ∀ c ∈ token value, Bare c

theorem delimited_nil : Delimited [] := by
  intro c rest h
  cases h

theorem delimited_cons {c : Char} (h : ¬ Bare c) (rest : List Char) : Delimited (c :: rest) := by
  intro d following heq
  rwa [← (List.cons.inj heq).1]

theorem bare_append_inj {a b first second : List Char} (ha : ∀ c ∈ a, Bare c)
    (hb : ∀ c ∈ b, Bare c) (hfirst : Delimited first) (hsecond : Delimited second)
    (h : a ++ first = b ++ second) : a = b ∧ first = second := by
  induction a generalizing b with
  | nil =>
      cases b with
      | nil => exact ⟨rfl, h⟩
      | cons d b => exact absurd (hb d (List.mem_cons_self ..)) (hfirst d _ h)
  | cons c a ih =>
      cases b with
      | nil => exact absurd (ha c (List.mem_cons_self ..)) (hsecond c _ h.symm)
      | cons d b =>
          obtain ⟨rfl, hrest⟩ := List.cons.inj h
          obtain ⟨rfl, hfollowing⟩ := ih (fun x hx => ha x (List.mem_cons_of_mem _ hx))
            (fun x hx => hb x (List.mem_cons_of_mem _ hx)) hrest
          exact ⟨rfl, hfollowing⟩

section

variable {S : Type} {token : S → List Char}

/-- What a value begins with says which of the four kinds it is of. -/
def kind : Json S → ℕ
  | .scalar _ => 0
  | .str _ => 1
  | .arr _ => 2
  | .obj _ => 3

def kindOf (c : Char) : ℕ :=
  if Bare c then 0 else if c = '\"' then 1 else if c = '[' then 2 else if c = '\x7b' then 3 else 4

theorem exists_head (htoken : Tokens token) (json : Json S) :
    ∃ c rest, encode token json = c :: rest ∧ kindOf c = json.kind := by
  cases json with
  | scalar value =>
      cases htext : token value with
      | nil => exact absurd htext (htoken.ne_nil value)
      | cons c rest =>
          have hbare : Bare c := htoken.bare value c (htext ▸ List.mem_cons_self ..)
          exact ⟨c, rest, htext, if_pos hbare⟩
  | str text => exact ⟨'\"', _, rfl, rfl⟩
  | arr items => exact ⟨'[', _, rfl, rfl⟩
  | obj members => exact ⟨'\x7b', _, rfl, rfl⟩

theorem kind_eq (htoken : Tokens token) {a b : Json S} {first second : List Char}
    (h : encode token a ++ first = encode token b ++ second) : a.kind = b.kind := by
  obtain ⟨c, rest, ha, hc⟩ := exists_head htoken a
  obtain ⟨d, following, hb, hd⟩ := exists_head htoken b
  rw [ha, hb] at h
  rw [← hc, ← hd, (List.cons.inj h).1]

/-- No value begins as what closes or separates values does. -/
theorem encode_append_ne_cons (htoken : Tokens token) {c : Char} (hc : kindOf c = 4)
    (json : Json S) (first second : List Char) : encode token json ++ first ≠ c :: second := by
  intro h
  obtain ⟨d, rest, hjson, hd⟩ := exists_head htoken json
  rw [hjson] at h
  rw [(List.cons.inj h).1, hc] at hd
  cases json <;> cases hd

theorem delimited_moreItems (items : List (Json S)) (first : List Char) :
    Delimited (encodeMoreItems token items ++ first) := by
  cases items with
  | nil => exact delimited_cons (by decide) _
  | cons item rest => exact delimited_cons (by decide) _

theorem delimited_moreMembers (members : List (String × Json S)) (first : List Char) :
    Delimited (encodeMoreMembers token members ++ first) := by
  cases members with
  | nil => exact delimited_cons (by decide) _
  | cons entry rest => exact delimited_cons (by decide) _

mutual

/-- A value and what follows it are both determined by their text. -/
theorem encode_append_inj (htoken : Tokens token) : ∀ (a b : Json S) {first second : List Char},
    Delimited first → Delimited second →
      encode token a ++ first = encode token b ++ second → a = b ∧ first = second := by
  intro a b first second hfirst hsecond h
  -- the first character tells which of the four it is
  have hkind := kind_eq htoken h
  cases a with
  | scalar value =>
      cases b with
      | scalar other =>
          obtain ⟨htext, hrest⟩ := bare_append_inj (htoken.bare value) (htoken.bare other) hfirst
            hsecond h
          exact ⟨congrArg Json.scalar (htoken.injective htext), hrest⟩
      | _ => cases hkind
  | str text =>
      cases b with
      | str other =>
          obtain ⟨rfl, hrest⟩ := quote_append_inj h
          exact ⟨rfl, hrest⟩
      | _ => cases hkind
  | arr items =>
      cases b with
      | arr others =>
          obtain ⟨rfl, hrest⟩ := encodeItems_append_inj htoken items others (List.cons.inj h).2
          exact ⟨rfl, hrest⟩
      | _ => cases hkind
  | obj members =>
      cases b with
      | obj others =>
          obtain ⟨rfl, hrest⟩ := encodeMembers_append_inj htoken members others (List.cons.inj h).2
          exact ⟨rfl, hrest⟩
      | _ => cases hkind
termination_by a => sizeOf a

theorem encodeItems_append_inj (htoken : Tokens token) :
    ∀ (a b : List (Json S)) {first second : List Char},
      encodeItems token a ++ first = encodeItems token b ++ second → a = b ∧ first = second := by
  intro a b first second h
  cases a with
  | nil =>
      cases b with
      | nil => exact ⟨rfl, (List.cons.inj h).2⟩
      | cons other others =>
          rw [encodeItems, encodeItems, List.append_assoc] at h
          exact absurd h.symm (encode_append_ne_cons htoken rfl other _ _)
  | cons item rest =>
      cases b with
      | nil =>
          rw [encodeItems, encodeItems, List.append_assoc] at h
          exact absurd h (encode_append_ne_cons htoken rfl item _ _)
      | cons other others =>
          rw [encodeItems, encodeItems, List.append_assoc, List.append_assoc] at h
          obtain ⟨rfl, hrest⟩ := encode_append_inj htoken item other
            (delimited_moreItems rest first) (delimited_moreItems others second) h
          obtain ⟨rfl, hfollowing⟩ := encodeMoreItems_append_inj htoken rest others hrest
          exact ⟨rfl, hfollowing⟩
termination_by a => sizeOf a

theorem encodeMoreItems_append_inj (htoken : Tokens token) :
    ∀ (a b : List (Json S)) {first second : List Char},
      encodeMoreItems token a ++ first = encodeMoreItems token b ++ second →
        a = b ∧ first = second := by
  intro a b first second h
  cases a with
  | nil =>
      cases b with
      | nil => exact ⟨rfl, (List.cons.inj h).2⟩
      | cons other others => exact absurd (List.cons.inj h).1 (by decide)
  | cons item rest =>
      cases b with
      | nil => exact absurd (List.cons.inj h).1 (by decide)
      | cons other others =>
          rw [encodeMoreItems, encodeMoreItems, List.cons_append, List.cons_append] at h
          have htail := (List.cons.inj h).2
          rw [List.append_assoc, List.append_assoc] at htail
          obtain ⟨rfl, hrest⟩ := encode_append_inj htoken item other
            (delimited_moreItems rest first) (delimited_moreItems others second) htail
          obtain ⟨rfl, hfollowing⟩ := encodeMoreItems_append_inj htoken rest others hrest
          exact ⟨rfl, hfollowing⟩
termination_by a => sizeOf a

theorem encodeMembers_append_inj (htoken : Tokens token) :
    ∀ (a b : List (String × Json S)) {first second : List Char},
      encodeMembers token a ++ first = encodeMembers token b ++ second →
        a = b ∧ first = second := by
  intro a b first second h
  cases a with
  | nil =>
      cases b with
      | nil => exact ⟨rfl, (List.cons.inj h).2⟩
      | cons other others => exact absurd (List.cons.inj h).1 (by decide)
  | cons entry rest =>
      cases entry with | mk key value =>
      cases b with
      | nil => exact absurd (List.cons.inj h).1 (by decide)
      | cons other others =>
          obtain ⟨otherKey, otherValue⟩ := other
          rw [encodeMembers, encodeMembers, List.append_assoc, List.append_assoc] at h
          obtain ⟨hkey, hvalue⟩ := quote_append_inj h
          rw [List.cons_append, List.cons_append] at hvalue
          have hmore := (List.cons.inj hvalue).2
          rw [List.append_assoc, List.append_assoc] at hmore
          obtain ⟨rfl, hrest⟩ := encode_append_inj htoken value otherValue
            (delimited_moreMembers rest first) (delimited_moreMembers others second) hmore
          obtain ⟨rfl, hfollowing⟩ := encodeMoreMembers_append_inj htoken rest others hrest
          exact ⟨by rw [hkey], hfollowing⟩
termination_by a => sizeOf a

theorem encodeMoreMembers_append_inj (htoken : Tokens token) :
    ∀ (a b : List (String × Json S)) {first second : List Char},
      encodeMoreMembers token a ++ first = encodeMoreMembers token b ++ second →
        a = b ∧ first = second := by
  intro a b first second h
  cases a with
  | nil =>
      cases b with
      | nil => exact ⟨rfl, (List.cons.inj h).2⟩
      | cons other others => exact absurd (List.cons.inj h).1 (by decide)
  | cons entry rest =>
      cases entry with | mk key value =>
      cases b with
      | nil => exact absurd (List.cons.inj h).1 (by decide)
      | cons other others =>
          obtain ⟨otherKey, otherValue⟩ := other
          rw [encodeMoreMembers, encodeMoreMembers, List.cons_append, List.cons_append] at h
          have htail := (List.cons.inj h).2
          rw [List.append_assoc, List.append_assoc] at htail
          obtain ⟨hkey, hvalue⟩ := quote_append_inj htail
          rw [List.cons_append, List.cons_append] at hvalue
          have hmore := (List.cons.inj hvalue).2
          rw [List.append_assoc, List.append_assoc] at hmore
          obtain ⟨rfl, hrest⟩ := encode_append_inj htoken value otherValue
            (delimited_moreMembers rest first) (delimited_moreMembers others second) hmore
          obtain ⟨rfl, hfollowing⟩ := encodeMoreMembers_append_inj htoken rest others hrest
          exact ⟨by rw [hkey], hfollowing⟩
termination_by a => sizeOf a

end

theorem encode_injective (htoken : Tokens token) : Function.Injective (encode token) := by
  intro a b h
  have happend : encode token a ++ [] = encode token b ++ [] := congrArg (· ++ []) h
  exact (encode_append_inj htoken a b delimited_nil delimited_nil happend).1

end

end Json
