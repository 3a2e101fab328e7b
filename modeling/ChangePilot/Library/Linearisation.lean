import Mathlib.Data.List.MinMax
import Mathlib.Data.List.Perm.Basic
import Mathlib.Order.Defs.LinearOrder

/-!
# Greedy linearisation

Some elements block others.  `linearise` lists a finite set of elements, taking
at each position, among the elements that no remaining one blocks, the one with
the least key.

`Greedy` says this of a finished list, position by position; it does not mention
the algorithm, and a list is determined by it and by its elements.
-/

namespace Linearisation

variable {α κ : Type} [LinearOrder κ] (blocks : α → α → Prop) [DecidableRel blocks] (key : α → κ)

/-- The elements that no remaining one blocks. -/
def leaves (remaining : List α) : List α :=
  remaining.filter fun x => ∀ y ∈ remaining, ¬ blocks y x

def linearise : ℕ → List α → Option (List α)
  | _, [] => some []
  | 0, _ :: _ => none
  | fuel + 1, remaining =>
      match (leaves blocks remaining).argmin key with
      | none => none
      | some x => (linearise fuel (remaining.filter fun y => key y ≠ key x)).map (x :: ·)

/-- Every element is, among itself and the later ones, the unblocked one with the
least key. -/
def Greedy : List α → Prop
  | [] => True
  | x :: rest =>
      (∀ y ∈ rest, ¬ blocks y x) ∧
        (∀ y ∈ leaves blocks (x :: rest), key x ≤ key y) ∧ Greedy rest

variable {blocks key}

theorem mem_leaves {remaining : List α} {x : α} :
    x ∈ leaves blocks remaining ↔ x ∈ remaining ∧ ∀ y ∈ remaining, ¬ blocks y x := by
  simp [leaves]

theorem leaves_congr {xs ys : List α} (h : ∀ x, x ∈ xs ↔ x ∈ ys) (x : α) :
    x ∈ leaves blocks xs ↔ x ∈ leaves blocks ys := by
  simp [mem_leaves, h]

theorem Greedy.of_append {xs ys : List α} (h : Greedy blocks key (xs ++ ys)) :
    Greedy blocks key ys := by
  induction xs with
  | nil => exact h
  | cons x xs ih => exact ih h.2.2

/-! ## The result -/

/-- Removing the elements with the key of a member removes just that member. -/
theorem perm_cons_filter {remaining : List α} {x : α} (hx : x ∈ remaining)
    (hkeys : (remaining.map key).Nodup) :
    List.Perm (x :: remaining.filter fun y => key y ≠ key x) remaining := by
  induction remaining with
  | nil => simp at hx
  | cons a rest ih =>
      obtain ⟨ha, hrest⟩ := List.nodup_cons.mp hkeys
      rcases List.mem_cons.mp hx with rfl | hx
      · have hall : rest.filter (fun y => key y ≠ key x) = rest := by
          refine List.filter_eq_self.mpr fun y hy => ?_
          have : key y ≠ key x := fun h => ha (h ▸ List.mem_map_of_mem hy)
          simpa using this
        rw [List.filter_cons_of_neg (by simp), hall]
      · have hne : key a ≠ key x := fun h => ha (h ▸ List.mem_map_of_mem hx)
        rw [List.filter_cons_of_pos (by simpa using hne)]
        exact (List.Perm.swap a x _).trans ((ih hx hrest).cons a)

theorem linearise_spec :
    ∀ {fuel : ℕ} {remaining result : List α}, (remaining.map key).Nodup →
      linearise blocks key fuel remaining = some result →
        result.Perm remaining ∧ Greedy blocks key result := by
  intro fuel
  induction fuel with
  | zero =>
      intro remaining result _ h
      cases remaining with
      | nil =>
          obtain rfl : [] = result := by simpa [linearise] using h
          exact ⟨.nil, trivial⟩
      | cons a rest => simp [linearise] at h
  | succ fuel ih =>
      intro remaining result hkeys h
      cases remaining with
      | nil =>
          obtain rfl : [] = result := by simpa [linearise] using h
          exact ⟨.nil, trivial⟩
      | cons a rest =>
          rw [linearise.eq_def] at h
          simp only at h
          split at h
          -- no leaf is left, so nothing is returned
          case h_1 => simp at h
          case h_2 x hx =>
            obtain ⟨tail, htail, rfl⟩ := Option.map_eq_some_iff.mp h
            have hleaf : x ∈ leaves blocks (a :: rest) := List.argmin_mem hx
            have hmem := (mem_leaves.mp hleaf).1
            have hperm := perm_cons_filter hmem hkeys
            have hsub : (((a :: rest).filter fun y => key y ≠ key x).map key).Nodup :=
              hkeys.sublist (List.filter_sublist.map key)
            obtain ⟨htailPerm, hgreedy⟩ := ih hsub htail
            -- the chosen leaf and the rest are the remaining nodes again
            have hall : (x :: tail).Perm (a :: rest) := (htailPerm.cons x).trans hperm
            refine ⟨hall, fun y hy => ?_, fun y hy => ?_, hgreedy⟩
            · exact (mem_leaves.mp hleaf).2 y (hall.mem_iff.mp (List.mem_cons_of_mem _ hy))
            -- it was a leaf of least key among all of them
            · exact List.le_of_mem_argmin ((leaves_congr (fun z => hall.mem_iff) y).mp hy) hx

/-- When blocking goes along with a greater rank, there is always a leaf to take. -/
theorem linearise_isSome {all : List α} (rank : α → ℕ)
    (hrank : ∀ x, ∀ y ∈ all, blocks y x → rank x < rank y) :
    ∀ {fuel : ℕ} {remaining : List α}, remaining ⊆ all → (remaining.map key).Nodup →
      remaining.length ≤ fuel → (linearise blocks key fuel remaining).isSome := by
  intro fuel
  induction fuel with
  | zero =>
      intro remaining _ _ hlength
      obtain rfl := List.length_eq_zero_iff.mp (Nat.le_zero.mp hlength)
      rfl
  | succ fuel ih =>
      intro remaining hall hkeys hlength
      cases remaining with
      | nil => rfl
      | cons a rest =>
          rw [linearise.eq_def]
          simp only
          cases hmin : (leaves blocks (a :: rest)).argmin key with
          | none =>
              -- An element of greatest rank is a leaf.
              obtain ⟨top, htop⟩ := Option.ne_none_iff_exists'.mp
                (mt List.argmax_eq_none.mp (List.cons_ne_nil a rest) :
                  (a :: rest).argmax rank ≠ none)
              have hleaf : top ∈ leaves blocks (a :: rest) := by
                refine mem_leaves.mpr ⟨List.argmax_mem htop, fun y hy hblocks => ?_⟩
                exact absurd (hrank _ _ (hall hy) hblocks) (not_lt.mpr (List.le_of_mem_argmax hy htop))
              rw [List.argmin_eq_none.mp hmin] at hleaf
              exact absurd hleaf List.not_mem_nil
          | some x =>
              have hmem := (mem_leaves.mp (List.argmin_mem hmin)).1
              have hperm := perm_cons_filter hmem hkeys
              have hshort := hperm.length_eq
              simp only [List.length_cons] at hshort hlength
              rw [Option.isSome_map]
              exact ih (fun y hy => hall (List.mem_of_mem_filter hy))
                (hkeys.sublist (List.filter_sublist.map key)) (by omega)

end Linearisation
