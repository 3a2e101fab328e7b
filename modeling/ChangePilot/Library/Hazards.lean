import ChangePilot.Library.Interruption

/-!
# Programs that may fail or stop anywhere

An operation ends, with an answer or with an error, in whatever state it may leave; or the
program stops in the middle of it.  `Assured` is the weakest precondition of a program under
such hazards: what holds where it stops, and what holds at its end.  Its rules are
equivalences, one for each way to build a program.
-/

/-- How an operation may end, and what it may leave when the program stops in it. -/
structure Hazards (Op : Type) (Ans : Op → Type) (ε σ : Type) where
  ends : (op : Op) → σ → Except ε (Ans op) → σ → Prop
  stops : Op → σ → σ → Prop

/-- The operations are all or nothing: each of them does what it does, or fails, or the
program stops before it. -/
def Hazards.ofExec {Op : Type} {Ans : Op → Type} {ε σ : Type}
    (exec : (op : Op) → σ → Except ε (Ans op) × σ) : Hazards Op Ans ε σ where
  ends op s r t := (r, t) = exec op s ∨ ∃ e, r = .error e ∧ t = s
  stops _ s t := t = s

namespace Prog

variable {Op : Type} {Ans : Op → Type} {ε α β σ : Type} (hazards : Hazards Op Ans ε σ)

/-- `p` ends with a result, or it stops and there is none. -/
inductive Ends : Prog Op (fun op => Except ε (Ans op)) α → σ → Option α → σ → Prop
  | ret (a : α) (s : σ) : Ends (ret a) s (some a) s
  | call {op : Op} {k : Except ε (Ans op) → Prog Op (fun op => Except ε (Ans op)) α}
      {s u t : σ} {r : Except ε (Ans op)} {result : Option α} (hop : hazards.ends op s r u)
      (hrest : Ends (k r) u result t) : Ends (call op k) s result t
  | stop {op : Op} {k : Except ε (Ans op) → Prog Op (fun op => Except ε (Ans op)) α} {s u : σ}
      (hop : hazards.stops op s u) : Ends (call op k) s none u

/-- `C` holds where `p` stops, and `Q` where it ends. -/
def Assured (C : σ → Prop) (Q : α → σ → Prop) :
    Prog Op (fun op => Except ε (Ans op)) α → σ → Prop
  | ret a, s => Q a s
  | call op k, s => (∀ u, hazards.stops op s u → C u) ∧
      ∀ r u, hazards.ends op s r u → Assured C Q (k r) u

variable {hazards} {C : σ → Prop}

theorem assured_iff {Q : α → σ → Prop} : ∀ {p : Prog Op (fun op => Except ε (Ans op)) α} {s : σ},
    Assured hazards C Q p s ↔ (∀ a t, Ends hazards p s (some a) t → Q a t) ∧
      ∀ t, Ends hazards p s none t → C t := by
  intro p
  induction p with
  | ret a =>
      intro s
      constructor
      · refine fun h => ⟨fun b t hends => ?_, fun t hends => ?_⟩
        · cases hends
          exact h
        · cases hends
      · exact fun h => h.1 a s (.ret a s)
  | call op k ih =>
      intro s
      constructor
      · intro h
        refine ⟨fun a t hends => ?_, fun t hends => ?_⟩
        · cases hends with
          | call hop hrest => exact ((ih _).mp (h.2 _ _ hop)).1 a t hrest
        · cases hends with
          | call hop hrest => exact ((ih _).mp (h.2 _ _ hop)).2 t hrest
          | stop hop => exact h.1 t hop
      · intro h
        refine ⟨fun u hop => h.2 u (.stop hop), fun r u hop => (ih r).mpr ⟨?_, ?_⟩⟩
        · exact fun a t hrest => h.1 a t (.call hop hrest)
        · exact fun t hrest => h.2 t (.call hop hrest)

theorem assured_bind {Q : β → σ → Prop} {f : α → Prog Op (fun op => Except ε (Ans op)) β} :
    ∀ {p : Prog Op (fun op => Except ε (Ans op)) α} {s : σ}, Assured hazards C Q (p >>= f) s ↔
      Assured hazards C (fun a t => Assured hazards C Q (f a) t) p s := by
  intro p
  induction p with
  | ret a => exact Iff.rfl
  | call op k ih => exact and_congr_right fun _ => forall_congr' fun r => forall₂_congr fun u _ => ih r

theorem Assured.mono {C' : σ → Prop} {Q Q' : α → σ → Prop} (hC : ∀ t, C t → C' t)
    (hQ : ∀ a t, Q a t → Q' a t) : ∀ {p : Prog Op (fun op => Except ε (Ans op)) α} {s : σ},
      Assured hazards C Q p s → Assured hazards C' Q' p s := by
  intro p
  induction p with
  | ret a => exact fun h => hQ a _ h
  | call op k ih => exact fun h => ⟨fun u hop => hC u (h.1 u hop), fun r u hop => ih r (h.2 r u hop)⟩

theorem Ends.bind {f : α → Prog Op (fun op => Except ε (Ans op)) β} {a : α} {result : Option β}
    {t u : σ} : ∀ {p : Prog Op (fun op => Except ε (Ans op)) α} {s : σ},
      Ends hazards p s (some a) t → Ends hazards (f a) t result u →
      Ends hazards (p >>= f) s result u := by
  intro p
  induction p with
  | ret b =>
      intro s hp hf
      cases hp
      exact hf
  | call op k ih =>
      intro s hp hf
      cases hp with
      | call hop hrest => exact .call hop (ih _ hrest hf)

/-- A program that stops does not come to what is bound to it. -/
theorem Ends.bind_none {f : α → Prog Op (fun op => Except ε (Ans op)) β} {t : σ} :
    ∀ {p : Prog Op (fun op => Except ε (Ans op)) α} {s : σ},
      Ends hazards p s none t → Ends hazards (p >>= f) s none t := by
  intro p
  induction p with
  | ret b =>
      intro s hp
      cases hp
  | call op k ih =>
      intro s hp
      cases hp with
      | call hop hrest => exact .call hop (ih _ hrest)
      | stop hop => exact .stop hop

/-- A program that runs alone, without a mishap, ends in one of the ways it may. -/
theorem ends_alone {exec : (op : Op) → σ → Except ε (Ans op) × σ}
    (hexec : ∀ op s, hazards.ends op s (exec op s).1 (exec op s).2) :
    ∀ (p : Prog Op (fun op => Except ε (Ans op)) α) (s : σ),
      Ends hazards p s (some (alone exec p s).1) (alone exec p s).2 := by
  intro p
  induction p with
  | ret a => exact fun s => .ret a s
  | call op k ih => exact fun s => .call (hexec op s) (ih _ _)

/-- A program that stops before some operation, and does without a mishap what comes before. -/
theorem ends_stopped (exec : (op : Op) → σ → Except ε (Ans op) × σ) :
    ∀ (p : Prog Op (fun op => Except ε (Ans op)) α) (n : ℕ) (s : σ),
      Ends (.ofExec exec) p s (interrupted exec .stops n p s).1 (interrupted exec .stops n p s).2 := by
  intro p
  induction p with
  | ret a =>
      intro n s
      cases n with
      | zero => exact .ret a s
      | succ n => exact .ret a s
  | call op k ih =>
      intro n s
      cases n with
      | zero => exact .stop rfl
      | succ n => exact .call (.inl rfl) (ih _ n _)

end Prog

namespace Routine

variable {Op : Type} {Ans : Op → Type} {ε α β σ : Type}

/-- What holds at the end of a routine: `Q` of what it returns, `E` of what it raises. -/
def Ending (Q : α → σ → Prop) (E : ε → σ → Prop) : Except ε α → σ → Prop
  | .ok a, s => Q a s
  | .error e, s => E e s

/-- `Prog.Assured` for a routine. -/
def Assured (hazards : Hazards Op Ans ε σ) (C : σ → Prop) (Q : α → σ → Prop) (E : ε → σ → Prop)
    (x : Routine Op (fun op => Except ε (Ans op)) ε α) (s : σ) : Prop :=
  Prog.Assured hazards C (Ending Q E) (ExceptT.run x) s

variable {hazards : Hazards Op Ans ε σ} {C : σ → Prop} {Q : α → σ → Prop} {E : ε → σ → Prop}
  {x : Routine Op (fun op => Except ε (Ans op)) ε α} {s t : σ}

theorem assured_pure {a : α} : Assured hazards C Q E (pure a) s ↔ Q a s := Iff.rfl

theorem assured_throw {e : ε} : Assured hazards C Q E (throw e) s ↔ E e s := Iff.rfl

theorem assured_bind {Q : β → σ → Prop} {f : α → Routine Op (fun op => Except ε (Ans op)) ε β} :
    Assured hazards C Q E (x >>= f) s ↔
      Assured hazards C (fun a t => Assured hazards C Q E (f a) t) E x s := by
  refine Prog.assured_bind.trans (iff_of_eq ?_)
  refine congrArg (fun Q => Prog.Assured hazards C Q (ExceptT.run x) s) (funext fun r => ?_)
  cases r with
  | error e => rfl
  | ok a => rfl

theorem assured_tryCatch {handler : ε → Routine Op (fun op => Except ε (Ans op)) ε α} :
    Assured hazards C Q E (tryCatch x handler) s ↔
      Assured hazards C Q (fun e t => Assured hazards C Q E (handler e) t) x s := by
  refine Prog.assured_bind.trans (iff_of_eq ?_)
  refine congrArg (fun Q => Prog.Assured hazards C Q (ExceptT.run x) s) (funext fun r => ?_)
  cases r with
  | error e => rfl
  | ok a => rfl

theorem assured_perform {op : Op} {Q : Ans op → σ → Prop} :
    Assured hazards C Q E (perform op) s ↔ (∀ u, hazards.stops op s u → C u) ∧
      ∀ r u, hazards.ends op s r u → Ending Q E r u := Iff.rfl

theorem assured_perform_ofExec {exec : (op : Op) → σ → Except ε (Ans op) × σ} {op : Op}
    {Q : Ans op → σ → Prop} : Assured (.ofExec exec) C Q E (perform op) s ↔
      C s ∧ (∀ e, E e s) ∧ Ending Q E (exec op s).1 (exec op s).2 := by
  rw [assured_perform]
  constructor
  · intro h
    exact ⟨h.1 s rfl, fun e => h.2 (.error e) s (.inr ⟨e, rfl, rfl⟩), h.2 _ _ (.inl rfl)⟩
  · rintro ⟨hC, hE, hends⟩
    refine ⟨fun u hu => hu ▸ hC, ?_⟩
    rintro r u (hperformed | ⟨e, rfl, rfl⟩)
    · rwa [← hperformed] at hends
    · exact hE e

theorem Assured.mono {C' : σ → Prop} {Q' : α → σ → Prop} {E' : ε → σ → Prop}
    (hC : ∀ t, C t → C' t) (hQ : ∀ a t, Q a t → Q' a t) (hE : ∀ e t, E e t → E' e t)
    (h : Assured hazards C Q E x s) : Assured hazards C' Q' E' x s := by
  refine Prog.Assured.mono hC ?_ h
  rintro (e | a) t ht
  · exact hE e t ht
  · exact hQ a t ht

/-! ### Where a routine may stop -/

/-- Started in `s`, the routine may stop in `t`. -/
def MayStop (hazards : Hazards Op Ans ε σ) (x : Routine Op (fun op => Except ε (Ans op)) ε α)
    (s t : σ) : Prop :=
  Prog.Ends hazards (ExceptT.run x) s none t

theorem mayStop_perform {op : Op} (h : hazards.stops op s t) :
    MayStop hazards (perform op) s t :=
  .stop h

theorem MayStop.bind {f : α → Routine Op (fun op => Except ε (Ans op)) ε β}
    (h : MayStop hazards x s t) : MayStop hazards (x >>= f) s t :=
  Prog.Ends.bind_none h

theorem MayStop.tryCatch {handler : ε → Routine Op (fun op => Except ε (Ans op)) ε α}
    (h : MayStop hazards x s t) : MayStop hazards (MonadExcept.tryCatch x handler) s t :=
  Prog.Ends.bind_none h

/-- Any state of a trace may be the last one. -/
theorem Trace.mayStop {exec : (op : Op) → σ → Except ε (Ans op) × σ} {states : List σ}
    {r : Except ε α} {u : σ} (h : Trace exec x s states r t) {n : ℕ} (hstate : states[n]? = some u) :
    MayStop (.ofExec exec) x s u := by
  have hstopped := Prog.ends_stopped exec (ExceptT.run x) n s
  rwa [h.interrupted_run, hstate] at hstopped

/-- What is done without a mishap may be followed by a stop. -/
theorem Does.bind_mayStop {exec : (op : Op) → σ → Except ε (Ans op) × σ} {u : σ} {a : α}
    {f : α → Routine Op (fun op => Except ε (Ans op)) ε β}
    (hexec : ∀ op s, hazards.ends op s (exec op s).1 (exec op s).2) (hx : Does exec x s a t)
    (hf : MayStop hazards (f a) t u) : MayStop hazards (x >>= f) s u := by
  have hends := Prog.ends_alone hexec (ExceptT.run x) s
  rw [hx] at hends
  exact Prog.Ends.bind hends hf

/-- What a routine that is assured of `C` in all cases leaves. -/
theorem Assured.of_ends (h : Assured hazards C (fun _ => C) (fun _ => C) x s)
    {result : Option (Except ε α)} (hends : Prog.Ends hazards (ExceptT.run x) s result t) : C t := by
  obtain ⟨hend, hstop⟩ := Prog.assured_iff.mp h
  rcases result with _ | (e | a)
  · exact hstop t hends
  · exact hend _ t hends
  · exact hend _ t hends

end Routine
