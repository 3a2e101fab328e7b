import ChangePilot.Library.Program
import Mathlib.Data.List.Basic

/-!
# Programs that are interrupted

A program with nobody else acting performs one operation after the other.  Before each of
them it may be interrupted: the operation fails with an error of its own, or nothing is
done any more.  The trace of a routine are the states in which it performs its operations;
what an interruption leaves is read off from it.
-/

/-- What comes in the place of an operation: it fails, or the program stops. -/
inductive Interruption (ε : Type) where
  | fails (error : ε)
  | stops

namespace Prog

variable {Op : Type} {Ans : Op → Type} {ε α β σ : Type}
  (exec : (op : Op) → σ → Except ε (Ans op) × σ)

/-- Run `p` to its end. -/
def alone : Prog Op (fun op => Except ε (Ans op)) α → σ → α × σ
  | ret a, s => (a, s)
  | call op k, s => alone (k (exec op s).1) (exec op s).2

/-- Run `p`, interrupted before the operation of number `n` if it comes that far.  There is
no result if it stops. -/
def interrupted (i : Interruption ε) :
    ℕ → Prog Op (fun op => Except ε (Ans op)) α → σ → Option α × σ
  | _, ret a, s => (some a, s)
  | 0, call _ k, s =>
      match i with
      | .fails e => (some (alone exec (k (.error e)) s).1, (alone exec (k (.error e)) s).2)
      | .stops => (none, s)
  | n + 1, call op k, s => interrupted i n (k (exec op s).1) (exec op s).2

theorem alone_bind (f : α → Prog Op (fun op => Except ε (Ans op)) β) :
    ∀ (p : Prog Op (fun op => Except ε (Ans op)) α) (s : σ),
      alone exec (p >>= f) s = alone exec (f (alone exec p s).1) (alone exec p s).2 := by
  intro p
  induction p with
  | ret a => exact fun _ => rfl
  | call op k ih => exact fun s => ih _ _

end Prog

namespace Routine

variable {Op : Type} {Ans : Op → Type} {ε α β σ : Type}
  (exec : (op : Op) → σ → Except ε (Ans op) × σ)

/-- With nobody interrupting it, the routine returns `a` and leaves `t`. -/
def Does (x : Routine Op (fun op => Except ε (Ans op)) ε α) (s : σ) (a : α) (t : σ) : Prop :=
  Prog.alone exec (ExceptT.run x) s = (.ok a, t)

/-- What is left when a program that goes on with `h` is interrupted in the state `s`. -/
def broken (i : Interruption ε) (h : Except ε α → Prog Op (fun op => Except ε (Ans op)) β) (s : σ) :
    Option β × σ :=
  match i with
  | .fails e =>
      (some (Prog.alone exec (h (.error e)) s).1, (Prog.alone exec (h (.error e)) s).2)
  | .stops => (none, s)

/-- From `s` the routine performs its operations in these states, one in each, and ends
with `r` in the state `t`, whatever comes after it. -/
structure Trace (x : Routine Op (fun op => Except ε (Ans op)) ε α) (s : σ) (states : List σ)
    (r : Except ε α) (t : σ) : Prop where
  alone : Prog.alone exec (ExceptT.run x) s = (r, t)
  interrupted : ∀ {β : Type} (h : Except ε α → Prog Op (fun op => Except ε (Ans op)) β)
    (i : Interruption ε) (n : ℕ), Prog.interrupted exec i n (ExceptT.run x >>= h) s =
      match states[n]? with
      | some u => broken exec i h u
      | none => Prog.interrupted exec i (n - states.length) (h r) t

variable {exec} {x : Routine Op (fun op => Except ε (Ans op)) ε α}
  {f : α → Routine Op (fun op => Except ε (Ans op)) ε β} {s t u : σ} {states later : List σ}
  {a : α} {r : Except ε α} {result : Except ε β} {e : ε}

theorem does_pure (a : α) (s : σ) :
    Does exec (pure a : Routine Op (fun op => Except ε (Ans op)) ε α) s a s := rfl

theorem does_perform {op : Op} {a : Ans op} (h : exec op s = (.ok a, t)) :
    Does exec (Routine.perform op) s a t := h

theorem Does.bind {b : β} (hx : Does exec x s a t) (hf : Does exec (f a) t b u) :
    Does exec (x >>= f) s b u := by
  rw [Does, ExceptT.run_bind, Prog.alone_bind, hx]
  exact hf

theorem Does.tryCatch {handler : ε → Routine Op (fun op => Except ε (Ans op)) ε α}
    (hx : Does exec x s a t) : Does exec (MonadExcept.tryCatch x handler) s a t := by
  refine (Prog.alone_bind exec _ (ExceptT.run x) s).trans ?_
  rw [hx]
  rfl

theorem trace_pure (a : α) (s : σ) :
    Trace exec (pure a : Routine Op (fun op => Except ε (Ans op)) ε α) s [] (.ok a) s where
  alone := rfl
  interrupted _ _ _ := rfl

theorem trace_throw (e : ε) (s : σ) :
    Trace exec (throw e : Routine Op (fun op => Except ε (Ans op)) ε α) s [] (.error e) s where
  alone := rfl
  interrupted _ _ _ := rfl

theorem trace_perform (op : Op) (s : σ) :
    Trace exec (Routine.perform op) s [s] (exec op s).1 (exec op s).2 where
  alone := rfl
  interrupted h i n := by
    cases n with
    | zero => cases i <;> rfl
    | succ n => rfl

theorem Trace.of_perform {op : Op} {r : Except ε (Ans op)} (h : exec op s = (r, t)) :
    Trace exec (Routine.perform op) s [s] r t := by
  have htrace : Trace exec _ s _ _ _ := trace_perform op s
  rwa [h] at htrace

/-- What comes after a routine that is bound to `f`. -/
theorem run_bind_then (x : Routine Op (fun op => Except ε (Ans op)) ε α)
    (f : α → Routine Op (fun op => Except ε (Ans op)) ε β) {γ : Type}
    (h : Except ε β → Prog Op (fun op => Except ε (Ans op)) γ) :
    (ExceptT.run (x >>= f) >>= h) = ExceptT.run x >>= fun r => ExceptT.bindCont f r >>= h :=
  Prog.bind_assoc _ _ _

theorem Trace.bind (hx : Trace exec x s states (.ok a) t)
    (hf : Trace exec (f a) t later result u) :
    Trace exec (x >>= f) s (states ++ later) result u where
  alone := by
    rw [ExceptT.run_bind, Prog.alone_bind, hx.alone]
    exact hf.alone
  interrupted h i n := by
    rw [run_bind_then, hx.interrupted]
    by_cases hn : n < states.length
    · rw [List.getElem?_append_left hn, List.getElem?_eq_getElem hn]
      cases i <;> rfl
    · rw [List.getElem?_append_right (Nat.le_of_not_lt hn), List.getElem?_eq_none (Nat.le_of_not_lt hn),
        List.length_append, Nat.sub_add_eq]
      exact hf.interrupted h i _

theorem Trace.bind_of_error (hx : Trace exec x s states (.error e) t) :
    Trace exec (x >>= f) s states (.error e) t where
  alone := by
    rw [ExceptT.run_bind, Prog.alone_bind, hx.alone]
    rfl
  interrupted h i n := by
    rw [run_bind_then, hx.interrupted]
    by_cases hn : n < states.length
    · rw [List.getElem?_eq_getElem hn]
      cases i <;> rfl
    · rw [List.getElem?_eq_none (Nat.le_of_not_lt hn)]
      rfl

theorem Trace.congr_states {states' : List σ} (hx : Trace exec x s states r t)
    (h : states = states') : Trace exec x s states' r t := h ▸ hx

/-- An interruption leaves the state in which it comes, with the error if there is one; if
it comes late, the routine ends as it does by itself. -/
theorem Trace.interrupted_run (hx : Trace exec x s states r t) (i : Interruption ε) (n : ℕ) :
    Prog.interrupted exec i n (ExceptT.run x) s =
      match states[n]? with
      | some u => (match i with
          | .fails e => some (.error e)
          | .stops => none, u)
      | none => (some r, t) := by
  have h := hx.interrupted (β := Except ε α) Prog.ret i n
  rw [Prog.bind_ret] at h
  rw [h]
  split
  · cases i <;> rfl
  · generalize n - states.length = m
    cases m <;> rfl

end Routine
