import Mathlib.Data.List.Forall2
import Mathlib.Data.List.Infix
import Mathlib.Tactic.Common

/-!
# Numbered logs

A log whose entries are numbered from one on, in order.  To drop as many entries as a
number says is to keep those above it, and a reader who goes on from the last number it
has seen reads the log without gaps and without repetition.
-/

namespace NumberedLog

variable {α : Type} (sequence : α → ℕ)

def Numbered (log : List α) : Prop :=
  ∀ (i : ℕ) (h : i < log.length), sequence log[i] = i + 1

variable {sequence} {log first second : List α} {entry other : α}

theorem numbered_nil : Numbered sequence [] := nofun

theorem Numbered.concat (h : Numbered sequence log) (hentry : sequence entry = log.length + 1) :
    Numbered sequence (log ++ [entry]) := by
  intro i hi
  rw [List.length_append, List.length_singleton] at hi
  by_cases hlast : i < log.length
  · rw [List.getElem_append_left hlast]
    exact h i hlast
  · have hi : i = log.length := by omega
    subst hi
    rwa [List.getElem_concat_length rfl]

theorem Numbered.of_isPrefix (h : Numbered sequence second) (hbegins : first <+: second) :
    Numbered sequence first := by
  intro i hi
  rw [hbegins.getElem hi]
  exact h i _

/-- The entry at the head of what is left is the next one. -/
theorem Numbered.sequence_of_drop (h : Numbered sequence log) {n : ℕ} {rest : List α}
    (hdrop : log.drop n = entry :: rest) : sequence entry = n + 1 := by
  have hlt : n < log.length := by
    by_contra hle
    rw [List.drop_of_length_le (not_lt.mp hle)] at hdrop
    cases hdrop
  rw [List.drop_eq_getElem_cons hlt] at hdrop
  rw [← (List.cons.inj hdrop).1]
  exact h n hlt

theorem Numbered.mem_drop_iff (h : Numbered sequence log) {n : ℕ} :
    entry ∈ log.drop n ↔ entry ∈ log ∧ n < sequence entry := by
  rw [List.mem_drop_iff_getElem]
  constructor
  · rintro ⟨i, hi, rfl⟩
    exact ⟨List.getElem_mem _, by rw [h]; omega⟩
  · rintro ⟨hmem, hlt⟩
    obtain ⟨i, hi, rfl⟩ := List.mem_iff_getElem.mp hmem
    rw [h i hi] at hlt
    obtain ⟨k, rfl⟩ := Nat.exists_eq_add_of_le (Nat.le_of_lt_succ hlt)
    exact ⟨k, by omega, rfl⟩

theorem Numbered.filter_eq_drop (h : Numbered sequence log) (n : ℕ) :
    (log.filter fun entry => n < sequence entry) = log.drop n := by
  have hseen : ∀ entry ∈ log.take n, ¬ n < sequence entry := by
    intro entry hentry
    obtain ⟨i, hi, rfl⟩ := List.mem_iff_getElem.mp hentry
    rw [List.getElem_take, h]
    rw [List.length_take] at hi
    omega
  have hnew : ∀ entry ∈ log.drop n, n < sequence entry := fun entry hentry =>
    (h.mem_drop_iff.mp hentry).2
  conv_lhs => rw [← List.take_append_drop n log]
  rw [List.filter_append, List.filter_eq_nil_iff.mpr (by simpa using hseen), List.nil_append]
  exact List.filter_eq_self.mpr (by simpa using hnew)

theorem Numbered.eq_of_sequence_eq (h : Numbered sequence log) (hentry : entry ∈ log)
    (hother : other ∈ log) (heq : sequence entry = sequence other) : entry = other := by
  obtain ⟨i, hi, rfl⟩ := List.mem_iff_getElem.mp hentry
  obtain ⟨j, hj, rfl⟩ := List.mem_iff_getElem.mp hother
  rw [h i hi, h j hj] at heq
  have hij : i = j := by omega
  subst hij
  rfl

theorem Numbered.pairwise (h : Numbered sequence log) :
    log.Pairwise fun a b => sequence a < sequence b := by
  rw [List.pairwise_iff_getElem]
  intro i j hi hj hij
  rw [h i hi, h j hj]
  omega

/-- What a reader has read of a log does not change as the log grows: the entries above
`after` up to the cursor, which has not run ahead of the log. -/
theorem drop_take_of_isPrefix {cursor after : ℕ} (hbegins : first <+: second)
    (hcursor : cursor ≤ max after first.length) :
    (second.take cursor).drop after = (first.take cursor).drop after := by
  obtain ⟨rest, rfl⟩ := hbegins
  by_cases hle : cursor ≤ first.length
  · rw [List.take_append_of_le_length hle]
  · have hafter : cursor ≤ after := by omega
    rw [List.drop_of_length_le, List.drop_of_length_le]
    · exact (List.length_take_le ..).trans hafter
    · exact (List.length_take_le ..).trans hafter

/-- Reading one more entry. -/
theorem drop_take_succ {cursor after : ℕ} {rest : List α} (hafter : after ≤ cursor)
    (hdrop : log.drop cursor = entry :: rest) :
    (log.take (cursor + 1)).drop after = (log.take cursor).drop after ++ [entry] ∧
      log.drop (cursor + 1) = rest := by
  have hlt : cursor < log.length := by
    by_contra hle
    rw [List.drop_of_length_le (not_lt.mp hle)] at hdrop
    cases hdrop
  rw [List.drop_eq_getElem_cons hlt] at hdrop
  obtain ⟨rfl, rfl⟩ := List.cons.inj hdrop
  refine ⟨?_, rfl⟩
  rw [List.take_succ_eq_append_getElem hlt, List.drop_append_of_le_length]
  rw [List.length_take]
  omega

/-! ## Copies of a log -/

variable {β : Type} {R : α → β → Prop} {copies : List β} {copy : β}

theorem exists_copy (h : List.Forall₂ R log copies) (hentry : entry ∈ log) :
    ∃ copy ∈ copies, R entry copy := by
  induction h with
  | nil => cases hentry
  | cons hhead _ ih =>
      rcases List.mem_cons.mp hentry with rfl | hrest
      · exact ⟨_, List.mem_cons_self .., hhead⟩
      · obtain ⟨copy, hcopy, hshows⟩ := ih hrest
        exact ⟨copy, List.mem_cons_of_mem _ hcopy, hshows⟩

theorem exists_original (h : List.Forall₂ R log copies) (hcopy : copy ∈ copies) :
    ∃ entry ∈ log, R entry copy := by
  obtain ⟨entry, hentry, hshows⟩ := exists_copy (h.flip (R := flip R)) hcopy
  exact ⟨entry, hentry, hshows⟩

end NumberedLog
