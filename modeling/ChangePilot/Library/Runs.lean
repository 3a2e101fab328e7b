import Mathlib.Data.List.Basic

/-!
# Runs of a transition function

A run applies `next` to one event after another.  `Along P` says that every event
of the run satisfies `P` in the state it meets.  A property that a step keeps
exactly when its event satisfies `P`, and that no step can bring back, holds at the
end of a run exactly when it holds along it (`run_iff_along`).
-/

namespace Runs

variable {S E : Type} (next : S → E → S) (P : S → E → Prop)

def run (s : S) (events : List E) : S := events.foldl next s

/-- Every event satisfies `P` in the state it meets. -/
def Along : S → List E → Prop
  | _, [] => True
  | s, event :: rest => P s event ∧ Along (next s event) rest

variable {next P}

@[simp] theorem run_cons (s : S) (event : E) (rest : List E) :
    run next s (event :: rest) = run next (next s event) rest := rfl

/-- What a step keeps under `P` holds at the end of a run along which `P` holds. -/
theorem Along.run {I : S → Prop} (hnext : ∀ s event, P s event → I s → I (next s event)) :
    ∀ {events : List E} {s : S}, Along next P s events → I s → I (run next s events) := by
  intro events
  induction events with
  | nil => exact fun _ h => h
  | cons event rest ih => exact fun h hs => ih h.2 (hnext _ event h.1 hs)

theorem run_iff_along {Inv Good : S → Prop}
    (hinv : ∀ s event, Inv s → Inv (next s event))
    (hback : ∀ s event, Inv s → Good (next s event) → Good s)
    (hstep : ∀ s event, Inv s → Good s → (Good (next s event) ↔ P s event)) :
    ∀ {events : List E} {s : S}, Inv s → Good s →
      (Good (Runs.run next s events) ↔ Along next P s events) := by
  have hstart : ∀ (events : List E) {s : S}, Inv s → Good (Runs.run next s events) → Good s := by
    intro events
    induction events with
    | nil => exact fun _ h => h
    | cons event rest ih =>
        intro s hs hgood
        exact hback s event hs (ih (hinv s event hs) hgood)
  intro events
  induction events with
  | nil => exact fun _ hgood => iff_of_true hgood trivial
  | cons event rest ih =>
      intro s hs hgood
      constructor
      · intro hrun
        have hnext : Good (next s event) := hstart rest (hinv s event hs) hrun
        exact ⟨(hstep s event hs hgood).mp hnext, (ih (hinv s event hs) hnext).mp hrun⟩
      · intro halong
        have hnext : Good (next s event) := (hstep s event hs hgood).mpr halong.1
        exact (ih (hinv s event hs) hnext).mpr halong.2

end Runs
