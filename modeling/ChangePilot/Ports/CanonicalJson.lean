import ChangePilot.Library.Json
import ChangePilot.Ports.Tools
import Mathlib.Data.List.Sort
import Mathlib.Data.String.Basic

/-!
# Canonical JSON of Python values

What `json.dumps` with sorted keys and without blanks makes of a value whose mappings
have string keys.  The texts of floats are taken as given.
-/

namespace ChangePilot

/-! ## Scalars -/

/-- A scalar; `constant` is one of `None`, `False` and `True`. -/
inductive PyScalar where
  | constant (value : Option Bool)
  | int (value : ℤ)
  | float (value : PyFloat)

def constantText : Option Bool → String
  | none => "null"
  | some true => "true"
  | some false => "false"

def PyScalar.text (floatText : PyFloat → String) : PyScalar → String
  | constant value => constantText value
  | int value => toString value
  | float value => floatText value

def PyScalar.token (floatText : PyFloat → String) (value : PyScalar) : List Char :=
  (value.text floatText).toList

/-- What is known of `float.__repr__` and of the texts of the infinities and of `nan`:
different floats have different texts, and none is that of another scalar. -/
structure FloatTexts (floatText : PyFloat → String) : Prop where
  injective : Function.Injective floatText
  bare : ∀ value, ∀ c ∈ (floatText value).toList, Json.Bare c
  ne_empty : ∀ value, floatText value ≠ ""
  ne_int : ∀ value (number : ℤ), floatText value ≠ toString number
  ne_constant : ∀ value constant, floatText value ≠ constantText constant

/-! ## Texts of integers -/

theorem natRepr_injective : Function.Injective Nat.repr := by
  intro a b h
  have hdigits : Nat.toDigits 10 a = Nat.toDigits 10 b := by
    rw [← Nat.toList_repr, ← Nat.toList_repr, h]
  rw [← @Nat.ofDigitChars_ten_toDigits a, hdigits, Nat.ofDigitChars_ten_toDigits]

theorem isDigit_of_mem_natRepr {n : ℕ} {c : Char} (h : c ∈ (Nat.repr n).toList) : c.isDigit := by
  rw [Nat.toList_repr] at h
  exact Nat.isDigit_of_mem_toDigits (by decide) (by decide) h

theorem natRepr_ne_nil (n : ℕ) : (Nat.repr n).toList ≠ [] := by
  rw [Nat.toList_repr]
  exact Nat.toDigits_ne_nil

/-- An integer is written as digits, with a sign if it is negative. -/
theorem toList_toString_int (number : ℤ) :
    (0 ≤ number ∧ (toString number).toList = (Nat.repr number.toNat).toList) ∨
      (number < 0 ∧ (toString number).toList = '-' :: (Nat.repr number.natAbs).toList) := by
  cases number with
  | ofNat n => exact .inl ⟨Int.natCast_nonneg n, rfl⟩
  | negSucc n =>
      refine .inr ⟨Int.negSucc_lt_zero n, ?_⟩
      show ("-" ++ Nat.repr (n + 1)).toList = _
      rw [String.toList_append]
      rfl

theorem toString_int_injective : Function.Injective fun number : ℤ => toString number := by
  intro a b h
  have hlists : (toString a).toList = (toString b).toList := congrArg String.toList h
  have hsign : ∀ n (rest : List Char), (Nat.repr n).toList ≠ '-' :: rest := by
    intro n rest h
    have hdigit : '-'.isDigit := isDigit_of_mem_natRepr (h ▸ List.mem_cons_self ..)
    exact absurd hdigit (by decide)
  rcases toList_toString_int a with ⟨ha, htext⟩ | ⟨ha, htext⟩ <;>
    rcases toList_toString_int b with ⟨hb, hother⟩ | ⟨hb, hother⟩ <;>
    rw [htext, hother] at hlists
  · have habs := natRepr_injective (String.toList_injective hlists)
    omega
  · exact absurd hlists (hsign _ _)
  · exact absurd hlists.symm (hsign _ _)
  · have habs := natRepr_injective (String.toList_injective (List.cons.inj hlists).2)
    omega

theorem bare_of_isDigit {c : Char} (h : c.isDigit) : Json.Bare c := by
  refine .inl ?_
  rw [Char.isAlphanum, h, Bool.or_true]

theorem bare_toString_int {number : ℤ} {c : Char} (h : c ∈ (toString number).toList) :
    Json.Bare c := by
  rcases toList_toString_int number with ⟨_, htext⟩ | ⟨_, htext⟩ <;> rw [htext] at h
  · exact bare_of_isDigit (isDigit_of_mem_natRepr h)
  · rcases List.mem_cons.mp h with rfl | hdigit
    · exact .inr (by decide)
    · exact bare_of_isDigit (isDigit_of_mem_natRepr hdigit)

/-- What an integer's text begins with is no letter. -/
theorem toString_int_ne_constant (number : ℤ) (constant : Option Bool) :
    toString number ≠ constantText constant := by
  intro h
  have hletter : ∃ c rest, (constantText constant).toList = c :: rest ∧ c.isDigit = false ∧
      c ≠ '-' := by
    rcases constant with _ | _ | _
    · exact ⟨'n', _, rfl, rfl, by decide⟩
    · exact ⟨'f', _, rfl, rfl, by decide⟩
    · exact ⟨'t', _, rfl, rfl, by decide⟩
  obtain ⟨c, rest, htext, hdigit, hsign⟩ := hletter
  rw [← h] at htext
  rcases toList_toString_int number with ⟨_, hnumber⟩ | ⟨_, hnumber⟩ <;> rw [htext] at hnumber
  · have hc : c.isDigit := isDigit_of_mem_natRepr (hnumber ▸ List.mem_cons_self ..)
    rw [hdigit] at hc
    cases hc
  · exact hsign (List.cons.inj hnumber).1

theorem constantText_injective : Function.Injective constantText := by
  intro a b h
  rcases a with _ | _ | _ <;> rcases b with _ | _ | _ <;>
    first | rfl | exact absurd h (by decide)

theorem constantText_ne_empty (constant : Option Bool) : constantText constant ≠ "" := by
  rcases constant with _ | _ | _ <;> exact by decide

theorem bare_constantText {constant : Option Bool} {c : Char}
    (h : c ∈ (constantText constant).toList) : Json.Bare c := by
  have hletters : (constantText constant).toList.all Char.isAlphanum := by
    rcases constant with _ | _ | _ <;> rfl
  exact .inl (List.all_eq_true.mp hletters c h)

theorem toString_int_ne_empty (number : ℤ) : toString number ≠ "" := by
  intro h
  rcases toList_toString_int number with ⟨_, htext⟩ | ⟨_, htext⟩ <;> rw [h] at htext
  · exact natRepr_ne_nil _ htext.symm
  · cases htext

/-! ## Tokens -/

namespace FloatTexts

variable {floatText : PyFloat → String}

theorem text_injective (h : FloatTexts floatText) :
    Function.Injective (PyScalar.text floatText) := by
  intro a b heq
  cases a with
  | constant value =>
      cases b with
      | constant other => exact congrArg PyScalar.constant (constantText_injective heq)
      | int other => exact absurd heq.symm (toString_int_ne_constant other value)
      | float other => exact absurd heq.symm (h.ne_constant other value)
  | int value =>
      cases b with
      | constant other => exact absurd heq (toString_int_ne_constant value other)
      | int other => exact congrArg PyScalar.int (toString_int_injective heq)
      | float other => exact absurd heq.symm (h.ne_int other value)
  | float value =>
      cases b with
      | constant other => exact absurd heq (h.ne_constant value other)
      | int other => exact absurd heq (h.ne_int value other)
      | float other => exact congrArg PyScalar.float (h.injective heq)

theorem text_ne_empty (h : FloatTexts floatText) (value : PyScalar) :
    value.text floatText ≠ "" := by
  cases value with
  | constant value => exact constantText_ne_empty value
  | int value => exact toString_int_ne_empty value
  | float value => exact h.ne_empty value

theorem tokens (h : FloatTexts floatText) : Json.Tokens (PyScalar.token floatText) where
  injective a b heq := h.text_injective (String.toList_injective heq)
  ne_nil value hnil := h.text_ne_empty value (String.toList_injective hnil)
  bare value c hc := by
    cases value with
    | constant value => exact bare_constantText hc
    | int value => exact bare_toString_int hc
    | float value => exact h.bare value c hc

end FloatTexts

/-! ## Values -/

mutual

/-- The JSON value of a Python value, the members of a mapping sorted by key; `none` for
what `json.dumps` refuses, and for mappings with keys that are no strings. -/
def Value.json? : Value → Option (Json PyScalar)
  | .none => some (.scalar (.constant Option.none))
  | .bool value => some (.scalar (.constant (some value)))
  | .int value => some (.scalar (.int value))
  | .float value => some (.scalar (.float value))
  | .str text => some (.str text)
  | .list items | .tuple items => (jsonItems? items).map Json.arr
  | .dict entries => do
      let members ← jsonEntries? entries
      if (members.map Prod.fst).Nodup then
        some (.obj (members.insertionSort fun a b => a.1 ≤ b.1))
      else Option.none
  | _ => Option.none

def Value.jsonItems? : List Value → Option (List (Json PyScalar))
  | [] => some []
  | item :: rest => do return (← item.json?) :: (← jsonItems? rest)

def Value.jsonEntries? : List (Value × Value) → Option (List (String × Json PyScalar))
  | [] => some []
  | (.str key, value) :: rest => do return (key, ← value.json?) :: (← jsonEntries? rest)
  | _ :: _ => Option.none

end

/-- A mapping whose members come in the order of their keys. -/
theorem Value.json?_dict {entries : List (Value × Value)}
    {members : List (String × Json PyScalar)} (h : jsonEntries? entries = some members)
    (hsorted : (members.map Prod.fst).Pairwise (· < ·)) :
    (Value.dict entries).json? = some (.obj members) := by
  have hle : members.Pairwise fun a b => a.1 ≤ b.1 :=
    (List.pairwise_map.mp hsorted).imp fun hlt => hlt.le
  have hnodup : (members.map Prod.fst).Nodup := hsorted.imp fun hlt => hlt.ne
  rw [json?, h]
  show (if (members.map Prod.fst).Nodup then _ else _) = _
  rw [if_pos hnodup, hle.insertionSort_eq]

/-- The text of a JSON value. -/
def jsonText (floatText : PyFloat → String) (json : Json PyScalar) : String :=
  String.ofList (json.encode (PyScalar.token floatText))

/-- What `json.dumps` writes of a value that has a canonical text is that text; it may
still refuse the value, as it does with very long integers. -/
structure Runtime.DumpsJson (runtime : Runtime) (floatText : PyFloat → String) : Prop where
  floats : FloatTexts floatText
  dumps : ∀ value json text, value.json? = some json →
    runtime.jsonDumps true value = .ok text → text = jsonText floatText json

theorem Runtime.DumpsJson.text_injective {runtime : Runtime} {floatText : PyFloat → String}
    (h : runtime.DumpsJson floatText) : Function.Injective (jsonText floatText) := by
  intro a b heq
  exact Json.encode_injective h.floats.tokens (String.ofList_injective heq)

end ChangePilot
