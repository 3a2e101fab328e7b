import Mathlib.Data.Nat.Find
import Mathlib.Order.Monotone.Basic

/-!
# Readings at different moments

A state is read part by part while it changes, each part at a moment of its own.  What
is read is torn if a part changes after it was read and, with that change or after it,
another part changes before it is read.  A reading that is not torn is the state of one
moment; the converse holds where no part returns to what it was.
-/

namespace Readings

variable {State Part Content : Type}

section

variable (part : Part → State → Content) (states : ℕ → State) (readAt : Part → ℕ)

/-- The change after moment `c` is to a part that has been read. -/
def Overtakes (c : ℕ) : Prop :=
  ∃ q, readAt q ≤ c ∧ part q (states (c + 1)) ≠ part q (states c)

/-- The change after moment `c` is to a part that is still to be read. -/
def Precedes (c : ℕ) : Prop :=
  ∃ q, c < readAt q ∧ part q (states (c + 1)) ≠ part q (states c)

def Torn : Prop := ∃ c c', c ≤ c' ∧ Overtakes part states readAt c ∧ Precedes part states readAt c'

/-- No part is again what it has once ceased to be. -/
def NeverReturns : Prop :=
  ∀ q a b c, a ≤ b → b ≤ c → part q (states a) = part q (states c) →
    part q (states b) = part q (states a)

end

variable {part : Part → State → Content} {states : ℕ → State} {readAt : Part → ℕ}

theorem part_eq_of_unchanged {q : Part} {a b : ℕ} (hab : a ≤ b)
    (h : ∀ c, a ≤ c → c < b → part q (states (c + 1)) = part q (states c)) :
    part q (states b) = part q (states a) := by
  induction b, hab using Nat.le_induction with
  | base => rfl
  | succ b hab ih =>
      calc part q (states (b + 1))
          = part q (states b) := h b hab b.lt_succ_self
        _ = part q (states a) := ih fun c hac hcb => h c hac (Nat.lt_succ_of_lt hcb)

/-- The moment is that of the first change to a part that has been read. -/
theorem exists_moment (hnot : ¬ Torn part states readAt) {first last : ℕ} (hle : first ≤ last)
    (hfirst : ∀ q, first ≤ readAt q) (hlast : ∀ q, readAt q ≤ last) :
    ∃ n, first ≤ n ∧ n ≤ last ∧ ∀ q, part q (states (readAt q)) = part q (states n) := by
  classical
  obtain ⟨n, hn, hnlast, hbefore, hafter⟩ : ∃ n, first ≤ n ∧ n ≤ last ∧
      (∀ c, c < n → ¬ Overtakes part states readAt c) ∧
        ∀ c, n ≤ c → c < last → ¬ Precedes part states readAt c := by
    by_cases h : ∃ c, Overtakes part states readAt c ∧ c < last
    · obtain ⟨⟨q, hq, hchange⟩, hlt⟩ := Nat.find_spec h
      refine ⟨Nat.find h, (hfirst q).trans hq, hlt.le, fun c hc hovertakes => ?_,
        fun c hc _ hprecedes => hnot ⟨_, c, hc, ⟨q, hq, hchange⟩, hprecedes⟩⟩
      exact Nat.find_min h hc ⟨hovertakes, hc.trans hlt⟩
    · refine ⟨last, hle, le_refl _, fun c hc hovertakes => h ⟨c, hovertakes, hc⟩,
        fun c hc hlt => absurd hlt (not_lt.mpr hc)⟩
  refine ⟨n, hn, hnlast, fun q => ?_⟩
  rcases le_total (readAt q) n with hq | hq
  · refine (part_eq_of_unchanged hq fun c hc hlt => ?_).symm
    by_contra hchange
    exact hbefore c hlt ⟨q, hc, hchange⟩
  · refine part_eq_of_unchanged hq fun c hc hlt => ?_
    by_contra hchange
    exact hafter c hc (hlt.trans_le (hlast q)) ⟨q, hlt, hchange⟩

theorem not_torn_of_moment (hreturns : NeverReturns part states) {n : ℕ}
    (h : ∀ q, part q (states (readAt q)) = part q (states n)) : ¬ Torn part states readAt := by
  intro htorn
  obtain ⟨c, c', hle, ⟨q, hq, hchange⟩, ⟨q', hq', hchange'⟩⟩ := htorn
  rcases le_or_gt n c with hn | hn
  · -- the later change lies between the moment and the reading of its part
    have hnow := hreturns q' n c' (readAt q') (hn.trans hle) hq'.le (h q').symm
    have hnext := hreturns q' n (c' + 1) (readAt q') (by omega) hq' (h q').symm
    exact hchange' (hnext.trans hnow.symm)
  · -- the earlier change lies between the reading of its part and the moment
    have hnow := hreturns q (readAt q) c n hq hn.le (h q)
    have hnext := hreturns q (readAt q) (c + 1) n (by omega) hn (h q)
    exact hchange (hnext.trans hnow.symm)

end Readings
