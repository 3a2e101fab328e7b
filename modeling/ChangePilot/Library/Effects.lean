import Mathlib.Logic.Basic

/-!
# Computations that keep their effects when they fail

An effect changes a state and ends with a value or with an error, and what it has changed
before an error stays changed.  `Ends` is the weakest precondition of an effect for both
ends; its rules are equivalences, one for each way to build an effect.
-/

/-- A computation on `State` that ends with an `α` or fails with an `Err`. -/
def Effect (State Err α : Type) : Type := State → Except Err α × State

namespace Effect

variable {State Err α β : Type}

instance : Monad (Effect State Err) where
  pure a := fun s => (.ok a, s)
  bind x f := fun s =>
    match x s with
    | (.ok a, next) => f a next
    | (.error e, next) => (.error e, next)

/-- Fail and change nothing. -/
def fail (e : Err) : Effect State Err α := fun s => (.error e, s)

/-- Read something of the state, or fail. -/
def read (f : State → Except Err α) : Effect State Err α := fun s => (f s, s)

/-- Change the state, or fail and leave it. -/
def change (f : State → Except Err State) : Effect State Err Unit := fun s =>
  match f s with
  | .ok next => (.ok (), next)
  | .error e => (.error e, s)

section

variable {x : Effect State Err β} {f : β → Effect State Err α} {s next : State}

theorem bind_of_ok {b : β} (hx : x s = (.ok b, next)) : (x >>= f) s = f b next := by
  show (match x s with | (.ok a, next) => f a next | (.error e, next) => (.error e, next)) = _
  rw [hx]

theorem bind_of_error {e : Err} (hx : x s = (.error e, next)) :
    (x >>= f) s = (.error e, next) := by
  show (match x s with | (.ok a, next) => f a next | (.error e, next) => (.error e, next)) = _
  rw [hx]

end

/-- From `s`, the effect ends with `Q`, or fails with `R`. -/
def Ends (x : Effect State Err α) (Q : α → State → Prop) (R : Err → State → Prop) (s : State) :
    Prop :=
  (∀ a next, x s = (.ok a, next) → Q a next) ∧ ∀ e next, x s = (.error e, next) → R e next

variable {Q : α → State → Prop} {R : Err → State → Prop} {s : State}

theorem ends_of_ok {x : Effect State Err α} {a : α} {next : State} (hx : x s = (.ok a, next)) :
    Ends x Q R s ↔ Q a next := by
  constructor
  · exact fun h => h.1 a next hx
  · intro h
    refine ⟨fun b other hb => ?_, fun e other he => ?_⟩
    · cases hx.symm.trans hb
      exact h
    · cases hx.symm.trans he

theorem ends_of_error {x : Effect State Err α} {e : Err} {next : State}
    (hx : x s = (.error e, next)) : Ends x Q R s ↔ R e next := by
  constructor
  · exact fun h => h.2 e next hx
  · intro h
    refine ⟨fun b other hb => ?_, fun e other he => ?_⟩
    · cases hx.symm.trans hb
    · cases hx.symm.trans he
      exact h

theorem ends_pure (a : α) : Ends (pure a : Effect State Err α) Q R s ↔ Q a s := ends_of_ok rfl

theorem ends_fail (e : Err) : Ends (fail e : Effect State Err α) Q R s ↔ R e s := ends_of_error rfl

theorem ends_read {f : State → Except Err α} :
    Ends (read f) Q R s ↔ (∀ a, f s = .ok a → Q a s) ∧ ∀ e, f s = .error e → R e s := by
  cases hf : f s with
  | ok a =>
      rw [ends_of_ok (show read f s = (.ok a, s) by rw [read, hf])]
      constructor
      · intro h
        refine ⟨fun b hb => ?_, fun e he => ?_⟩
        · cases hb
          exact h
        · cases he
      · exact fun h => h.1 a rfl
  | error e =>
      rw [ends_of_error (show read f s = (.error e, s) by rw [read, hf])]
      constructor
      · intro h
        refine ⟨fun b hb => ?_, fun e he => ?_⟩
        · cases hb
        · cases he
          exact h
      · exact fun h => h.2 e rfl

theorem ends_change {f : State → Except Err State} {Q : Unit → State → Prop} :
    Ends (change f) Q R s ↔ (∀ next, f s = .ok next → Q () next) ∧ ∀ e, f s = .error e → R e s := by
  cases hf : f s with
  | ok next =>
      rw [ends_of_ok (show change f s = (.ok (), next) by rw [change, hf])]
      constructor
      · intro h
        refine ⟨fun other hother => ?_, fun e he => ?_⟩
        · cases hother
          exact h
        · cases he
      · exact fun h => h.1 next rfl
  | error e =>
      rw [ends_of_error (show change f s = (.error e, s) by rw [change, hf])]
      constructor
      · intro h
        refine ⟨fun other hother => ?_, fun e he => ?_⟩
        · cases hother
        · cases he
          exact h
      · exact fun h => h.2 e rfl

theorem ends_bind {x : Effect State Err β} {f : β → Effect State Err α} :
    Ends (x >>= f) Q R s ↔ Ends x (fun b => Ends (f b) Q R) R s := by
  have hbind : (x >>= f) s = match x s with
      | (.ok b, next) => f b next
      | (.error e, next) => (.error e, next) := rfl
  cases hx : x s with
  | mk outcome next =>
      rw [hx] at hbind
      cases outcome with
      | ok b =>
          rw [ends_of_ok hx]
          unfold Ends
          rw [hbind]
      | error e => rw [ends_of_error hx, ends_of_error hbind]

theorem Ends.mono {x : Effect State Err α} {Q' : α → State → Prop} {R' : Err → State → Prop}
    (h : Ends x Q R s) (hQ : ∀ a next, Q a next → Q' a next)
    (hR : ∀ e next, R e next → R' e next) : Ends x Q' R' s :=
  ⟨fun a next heq => hQ a next (h.1 a next heq), fun e next heq => hR e next (h.2 e next heq)⟩

theorem Ends.mono_state {x : Effect State Err α} {P P' : State → Prop}
    (h : Ends x (fun _ => P) (fun _ => P) s) (himp : ∀ next, P next → P' next) :
    Ends x (fun _ => P') (fun _ => P') s :=
  h.mono (fun _ => himp) fun _ => himp

/-- What both ends have in common holds of the state that is left. -/
theorem Ends.state {x : Effect State Err α} {P : State → Prop}
    (h : Ends x (fun _ => P) (fun _ => P) s) : P (x s).2 := by
  cases hx : x s with
  | mk outcome next =>
      cases outcome with
      | ok a => exact h.1 a next hx
      | error e => exact h.2 e next hx

end Effect
