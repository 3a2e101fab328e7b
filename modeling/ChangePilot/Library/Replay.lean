import Mathlib.Data.List.Basic

/-!
# Logs that are replayed

An event leads from one state to the next, or does not fit the state.  A log replays from
a start if each of its events fits the state that the events before it lead to.
-/

variable {State Event : Type} (next : State → Event → Option State)

/-- From `start` the events of the log lead to `final`, one after the other. -/
def Replays (start : State) (log : List Event) (final : State) : Prop :=
  log.foldlM next start = some final

namespace Replays

variable {next} {start middle final : State} {log more : List Event} {event : Event}

@[simp] theorem nil_iff : Replays next start [] final ↔ start = final := by
  rw [Replays, List.foldlM_nil]
  exact Option.some_inj

@[simp] theorem cons_iff : Replays next start (event :: log) final ↔
    ∃ middle, next start event = some middle ∧ Replays next middle log final := by
  rw [Replays, List.foldlM_cons]
  exact Option.bind_eq_some_iff

theorem append_iff : Replays next start (log ++ more) final ↔
    ∃ middle, Replays next start log middle ∧ Replays next middle more final := by
  rw [Replays, List.foldlM_append]
  exact Option.bind_eq_some_iff

theorem append (h : Replays next start log middle) (hmore : Replays next middle more final) :
    Replays next start (log ++ more) final := append_iff.mpr ⟨middle, h, hmore⟩

end Replays
