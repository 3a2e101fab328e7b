import Mathlib.Data.List.DropRight
import Mathlib.Data.List.TakeWhile
import Mathlib.Data.Nat.Notation

/-!
# Trimming lists

What is left of a list when the elements with a property are taken off both of its ends.
It lies between what was taken off, and every element without the property lies in it.
-/

namespace Trimming

variable {α : Type} {p : α → Bool}

/-- The list without what has the property at its two ends. -/
def trim (p : α → Bool) (xs : List α) : List α :=
  ((xs.dropWhile p).reverse.dropWhile p).reverse

/-- What is taken off at the beginning. -/
def lead (p : α → Bool) (xs : List α) : List α := xs.takeWhile p

theorem forall_mem_lead (xs : List α) : ∀ x ∈ lead p xs, p x = true := fun _ hx =>
  List.mem_takeWhile_imp hx

/-- The list is what is left, between what was taken off. -/
theorem exists_eq_append (p : α → Bool) (xs : List α) :
    ∃ trail, xs = lead p xs ++ trim p xs ++ trail ∧ ∀ x ∈ trail, p x = true := by
  refine ⟨((xs.dropWhile p).reverse.takeWhile p).reverse, ?_, fun x hx => ?_⟩
  · have hrest : trim p xs ++ ((xs.dropWhile p).reverse.takeWhile p).reverse = xs.dropWhile p := by
      rw [trim, ← List.reverse_append, List.takeWhile_append_dropWhile, List.reverse_reverse]
    rw [List.append_assoc, hrest]
    exact List.takeWhile_append_dropWhile.symm
  · exact List.mem_takeWhile_imp (List.mem_reverse.mp hx)

/-- What is left comes right after what is taken off. -/
theorem trim_prefix (xs : List α) : trim p xs <+: xs.drop (lead p xs).length := by
  obtain ⟨trail, hxs, _⟩ := exists_eq_append p xs
  have hdrop := congrArg (List.drop (lead p xs).length) hxs
  rw [List.append_assoc, List.drop_left] at hdrop
  exact ⟨trail, hdrop.symm⟩

theorem length_trim_le (xs : List α) : (trim p xs).length ≤ xs.length := by
  obtain ⟨trail, hxs, _⟩ := exists_eq_append p xs
  have hlength := congrArg List.length hxs
  rw [List.length_append, List.length_append] at hlength
  omega

/-- Nothing is left when there is nothing without the property. -/
theorem trim_eq_nil_iff {xs : List α} : trim p xs = [] ↔ ∀ x ∈ xs, p x = true := by
  constructor
  · intro h
    obtain ⟨trail, hxs, htrail⟩ := exists_eq_append p xs
    intro x hx
    rw [hxs, h, List.append_nil] at hx
    exact (List.mem_append.mp hx).elim (forall_mem_lead xs x) (htrail x)
  · intro h
    rw [trim, List.dropWhile_eq_nil_iff.mpr h]
    rfl

/-- A list with something left goes on with it after what is taken off. -/
theorem lead_append {xs : List α} (h : trim p xs ≠ []) (rest : List α) :
    lead p (xs ++ rest) = lead p xs := by
  obtain ⟨x, hx, hkept⟩ : ∃ x ∈ xs, p x = false := by
    by_contra hnone
    refine h (trim_eq_nil_iff.mpr fun x hx => ?_)
    cases hp : p x with
    | true => rfl
    | false => exact absurd ⟨x, hx, hp⟩ hnone
  induction xs with
  | nil => cases hx
  | cons y ys ih =>
      cases hy : p y with
      | false => rw [List.cons_append, lead, lead, List.takeWhile_cons_of_neg (by simp [hy]),
          List.takeWhile_cons_of_neg (by simp [hy])]
      | true =>
          have hmem : x ∈ ys := (List.mem_cons.mp hx).resolve_left fun heq => by
            rw [heq, hy] at hkept
            cases hkept
          have hrest : trim p ys ≠ [] := fun hnil => by
            rw [trim_eq_nil_iff.mp hnil x hmem] at hkept
            cases hkept
          rw [List.cons_append, lead, lead, List.takeWhile_cons_of_pos hy,
            List.takeWhile_cons_of_pos hy]
          exact congrArg (y :: ·) (ih hrest hmem)

/-- An element without the property lies within what is left. -/
theorem mem_range_of_not (before after : List α) {x : α} (hx : p x = false) :
    (lead p (before ++ x :: after)).length ≤ before.length ∧
      before.length < (lead p (before ++ x :: after)).length +
        (trim p (before ++ x :: after)).length := by
  constructor
  · -- the lead ends before the element
    induction before with
    | nil => rw [List.nil_append, lead, List.takeWhile_cons_of_neg (by simp [hx]), List.length_nil]
    | cons y ys ih =>
        cases hy : p y with
        | false =>
            rw [List.cons_append, lead, List.takeWhile_cons_of_neg (by simp [hy])]
            exact Nat.zero_le _
        | true =>
            rw [List.cons_append, lead, List.takeWhile_cons_of_pos hy]
            exact Nat.succ_le_succ ih
  · -- and it is not in what comes after what is left
    obtain ⟨trail, hxs, htrail⟩ := exists_eq_append p (before ++ x :: after)
    by_contra hout
    have hget : (before ++ x :: after)[before.length]? = some x := by
      rw [List.getElem?_append_right (Nat.le_refl _), Nat.sub_self]
      rfl
    rw [hxs, List.getElem?_append_right (by rw [List.length_append]; omega)] at hget
    rw [htrail x (List.mem_of_getElem? hget)] at hx
    cases hx

theorem head_trim (p : α → Bool) (xs : List α) : ∀ x ∈ (trim p xs).head?, p x = false := by
  intro x hx
  obtain ⟨trail, hxs, _⟩ := exists_eq_append p xs
  have hdrop : xs.dropWhile p = trim p xs ++ trail := by
    have hboth := List.takeWhile_append_dropWhile (p := p) (l := xs)
    rw [← lead] at hboth
    exact List.append_cancel_left (hboth.trans (hxs.trans (List.append_assoc _ _ _)))
  cases htrim : trim p xs with
  | nil =>
      rw [htrim] at hx
      cases hx
  | cons y ys =>
      rw [htrim] at hx
      obtain rfl := Option.some.inj hx
      have hhead := List.head?_dropWhile_not p xs
      rw [hdrop, htrim] at hhead
      simpa using hhead

theorem trim_trim (xs : List α) : trim p (trim p xs) = trim p xs := by
  have hdrop : (trim p xs).dropWhile p = trim p xs := by
    cases htrim : trim p xs with
    | nil => rfl
    | cons y ys =>
        have hhead := head_trim p xs y (by rw [htrim]; rfl)
        exact List.dropWhile_cons_of_neg (by simp [hhead])
  rw [trim, hdrop]
  exact List.rdropWhile_idempotent p (xs.dropWhile p)

theorem trim_append_of_forall {before rest : List α} (h : ∀ x ∈ before, p x = true) :
    trim p (before ++ rest) = trim p rest := by
  rw [trim, List.dropWhile_append_of_pos h]
  rfl

end Trimming
