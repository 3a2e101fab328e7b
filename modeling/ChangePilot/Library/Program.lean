import Mathlib.Data.Nat.Notation
import Mathlib.Logic.Basic

/-!
# Programs that share their state with others

A `Prog` performs operations one after the other; every operation acts on a
shared state as a whole, and between two operations other parties may act on it.
`Safe` is the rely/guarantee reading of such a program: whatever the others do
within `rely`, as long as the invariant holds, each operation is performed in a
state in which it is `enabled`, and the result satisfies the postcondition.

The rules below are the ones a program proof needs, one for each way to build a
program, with exceptions (`ExceptT`) on top.
-/

/-- A program over the operations `Op`, where `op` answers with a `Res op`. -/
inductive Prog (Op : Type) (Res : Op → Type) (α : Type) : Type where
  | ret (a : α)
  | call (op : Op) (k : Res op → Prog Op Res α)

namespace Prog

variable {Op : Type} {Res : Op → Type} {α β : Type}

/-- Run `p`, then the continuation on its result. -/
def bind (f : α → Prog Op Res β) : Prog Op Res α → Prog Op Res β
  | ret a => f a
  | call op k => call op fun r => bind f (k r)

instance : Monad (Prog Op Res) where
  pure := ret
  bind p f := bind f p

/-- The program that performs one operation. -/
def perform (op : Op) : Prog Op Res (Res op) := call op ret

@[simp] theorem pure_eq (a : α) : (pure a : Prog Op Res α) = ret a := rfl

@[simp] theorem ret_bind (a : α) (f : α → Prog Op Res β) : (ret a >>= f) = f a := rfl

@[simp] theorem call_bind (op : Op) (k : Res op → Prog Op Res α) (f : α → Prog Op Res β) :
    (call op k >>= f) = call op fun r => k r >>= f := rfl

theorem bind_ret (p : Prog Op Res α) : (p >>= ret) = p := by
  induction p with
  | ret a => rfl
  | call op k ih => exact congrArg (call op) (funext ih)

theorem bind_assoc {γ : Type} (f : α → Prog Op Res β) (g : β → Prog Op Res γ)
    (p : Prog Op Res α) : ((p >>= f) >>= g) = (p >>= fun a => f a >>= g) := by
  induction p with
  | ret a => rfl
  | call op k ih => exact congrArg (call op) (funext ih)

instance : LawfulMonad (Prog Op Res) :=
  LawfulMonad.mk' _ (fun p => bind_ret p) (fun _ _ => rfl) (fun p f g => bind_assoc f g p)

/-! ## Running a program -/

section

variable {σ ι : Type} (exec : (op : Op) → ι → σ → Res op × σ)

/-- Run `p` with nobody else acting; the `i`-th operation receives `inputs i`. -/
def run : Prog Op Res α → (ℕ → ι) → σ → α × σ
  | ret a, _, s => (a, s)
  | call op k, inputs, s =>
      run (k (exec op (inputs 0) s).1) (fun n => inputs (n + 1)) (exec op (inputs 0) s).2

/-! ## Safety -/

variable (rely : σ → σ → Prop) (inv : σ → Prop) (enabled : Op → σ → Prop)

/-- Every operation of `p` is performed where it is enabled, and the result
satisfies `Q`, although the others act within `rely` before each operation. -/
def Safe (Q : α → σ → Prop) : Prog Op Res α → σ → Prop
  | ret a, s => Q a s
  | call op k, s => ∀ s', rely s s' → inv s' → enabled op s' ∧
      ∀ i, Safe Q (k (exec op i s').1) (exec op i s').2

variable {exec rely inv enabled}

theorem Safe.mono {Q Q' : α → σ → Prop} (hQ : ∀ a s, Q a s → Q' a s) :
    ∀ {p : Prog Op Res α} {s : σ}, Safe exec rely inv enabled Q p s →
      Safe exec rely inv enabled Q' p s := by
  intro p
  induction p with
  | ret a => intro s h; exact hQ a s h
  | call op k ih =>
      intro s h s' hs hinv
      exact ⟨(h s' hs hinv).1, fun i => ih _ ((h s' hs hinv).2 i)⟩

theorem Safe.bind {Q : β → σ → Prop} {f : α → Prog Op Res β} :
    ∀ {p : Prog Op Res α} {s : σ},
      Safe exec rely inv enabled (fun a s => Safe exec rely inv enabled Q (f a) s) p s →
      Safe exec rely inv enabled Q (p >>= f) s := by
  intro p
  induction p with
  | ret a => intro s h; exact h
  | call op k ih =>
      intro s h s' hs hinv
      exact ⟨(h s' hs hinv).1, fun i => ih _ ((h s' hs hinv).2 i)⟩

/-- The beginning of a safe program is safe. -/
theorem Safe.of_bind {Q : β → σ → Prop} {f : α → Prog Op Res β} :
    ∀ {p : Prog Op Res α} {s : σ}, Safe exec rely inv enabled Q (p >>= f) s →
      Safe exec rely inv enabled (fun a s => Safe exec rely inv enabled Q (f a) s) p s := by
  intro p
  induction p with
  | ret a => intro s h; exact h
  | call op k ih =>
      intro s h s' hs hinv
      exact ⟨(h s' hs hinv).1, fun i => ih _ ((h s' hs hinv).2 i)⟩

/-- What the others do within `rely` does not make a safe program unsafe. -/
theorem Safe.stable {Q : α → σ → Prop} (htrans : ∀ {a b c}, rely a b → rely b c → rely a c)
    (hQ : ∀ {a s s'}, Q a s → rely s s' → Q a s') {p : Prog Op Res α} {s s' : σ}
    (h : Safe exec rely inv enabled Q p s) (hs : rely s s') :
    Safe exec rely inv enabled Q p s' := by
  cases p with
  | ret a => exact hQ h hs
  | call op k => exact fun t ht hinv => h t (htrans hs ht) hinv

end

/-! ## Interleaved executions -/

section

variable {σ ι : Type}

/-- `p` comes from `s` to its result `a` in the state `t`; before each operation the
others may act. -/
inductive Interleaved (exec : (op : Op) → ι → σ → Res op × σ) (others : σ → σ → Prop) :
    Prog Op Res α → σ → α → σ → Prop
  | ret (a : α) (s : σ) : Interleaved exec others (ret a) s a s
  | call {op : Op} {k : Res op → Prog Op Res α} {s s' t : σ} {i : ι} {a : α}
      (hothers : others s s')
      (hrest : Interleaved exec others (k (exec op i s').1) (exec op i s').2 a t) :
      Interleaved exec others (call op k) s a t

section

variable {exec : (op : Op) → ι → σ → Res op × σ} {others : σ → σ → Prop} {s t : σ} {a : α}

theorem Interleaved.of_ret {b : α} (h : Interleaved exec others (.ret b : Prog Op Res α) s a t) :
    b = a ∧ s = t := by
  cases h
  exact ⟨rfl, rfl⟩

theorem Interleaved.of_call {op : Op} {k : Res op → Prog Op Res α}
    (h : Interleaved exec others (.call op k) s a t) :
    ∃ s' i, others s s' ∧
      Interleaved exec others (k (exec op i s').1) (exec op i s').2 a t := by
  cases h with
  | call hothers hrest => exact ⟨_, _, hothers, hrest⟩

theorem Interleaved.of_bind {β : Type} {f : β → Prog Op Res α} : ∀ {p : Prog Op Res β} {s : σ},
    Interleaved exec others (p >>= f) s a t →
      ∃ b u, Interleaved exec others p s b u ∧ Interleaved exec others (f b) u a t := by
  intro p
  induction p with
  | ret b => exact fun h => ⟨b, _, .ret b _, h⟩
  | call op k ih =>
      intro s h
      obtain ⟨s', i, hothers, hrest⟩ := of_call h
      obtain ⟨b, u, hfirst, hthen⟩ := ih _ hrest
      exact ⟨b, u, .call hothers hfirst, hthen⟩

/-- The same execution, seen as one of another executor among other parties. -/
theorem Interleaved.imp {exec' : (op : Op) → ι → σ → Res op × σ} {others' : σ → σ → Prop}
    (hstep : ∀ op i {s s'}, others s s' →
      ∃ s'' i', others' s s'' ∧ exec' op i' s'' = exec op i s') {p : Prog Op Res α}
    (h : Interleaved exec others p s a t) : Interleaved exec' others' p s a t := by
  induction h with
  | ret a s => exact .ret a s
  | @call op k s s' t i a hothers _ ih =>
      obtain ⟨s'', i', hothers', hexec⟩ := hstep op i hothers
      refine .call (i := i') hothers' ?_
      rw [hexec]
      exact ih

/-- Among others that may do nothing, a program may run by itself. -/
theorem Interleaved.of_run (hothers : ∀ s, others s s) : ∀ (p : Prog Op Res α) (inputs : ℕ → ι)
    (s : σ), Interleaved exec others p s (run exec p inputs s).1 (run exec p inputs s).2 := by
  intro p
  induction p with
  | ret a => exact fun _ s => .ret a s
  | call op k ih => exact fun _ s => .call (hothers s) (ih _ _ _)

end

/-- What is safe comes to a result that satisfies the postcondition.  `R` is kept by
the others and by each operation, and makes the others keep to `rely`. -/
theorem Safe.interleaved {exec : (op : Op) → ι → σ → Res op × σ} {rely others : σ → σ → Prop}
    {inv : σ → Prop} {enabled : Op → σ → Prop} {Q : α → σ → Prop} {R : Prog Op Res α → σ → Prop}
    (hothers : ∀ {p s s'}, R p s → others s s' → rely s s' ∧ R p s')
    (hperform : ∀ {op k s} (i : ι), R (.call op k) s → R (k (exec op i s).1) (exec op i s).2)
    (hinv : ∀ {p s}, R p s → inv s) {p : Prog Op Res α} {s t : σ} {a : α}
    (hends : Interleaved exec others p s a t) :
    R p s → Safe exec rely inv enabled Q p s → Q a t ∧ R (.ret a) t := by
  induction hends with
  | ret a s => exact fun hR hsafe => ⟨hsafe, hR⟩
  | @call op k s s' t i a hacted _ ih =>
      intro hR hsafe
      obtain ⟨hrely, hR'⟩ := hothers hR hacted
      exact ih (hperform i hR') ((hsafe s' hrely (hinv hR')).2 i)

end

/-! ## The order of operations -/

/-- An operation with its answer. -/
abbrev Performed (Op : Type) (Res : Op → Type) : Type := (op : Op) × Res op

/-- Every operation is one that may follow the operation performed right before it,
if that is known, whatever is answered. -/
def Paced (allowed : Option (Performed Op Res) → Op → Prop) :
    Option (Performed Op Res) → Prog Op Res α → Prop
  | _, ret _ => True
  | last, call op k => allowed last op ∧ ∀ r, Paced allowed (some ⟨op, r⟩) (k r)

variable {allowed : Option (Performed Op Res) → Op → Prop}

theorem Paced.bind {f : α → Prog Op Res β} : ∀ {p : Prog Op Res α} {last},
    Paced allowed last p → (∀ a last, Paced allowed last (f a)) →
      Paced allowed last (p >>= f) := by
  intro p
  induction p with
  | ret a => exact fun _ hf => hf a _
  | call op k ih => exact fun h hf => ⟨h.1, fun r => ih r (h.2 r) hf⟩

end Prog

/-! ## Programs with exceptions -/

/-- A program that may raise an exception. -/
abbrev Routine (Op : Type) (Res : Op → Type) (ε α : Type) : Type :=
  ExceptT ε (Prog Op Res) α

namespace Routine

variable {Op : Type} {Ans : Op → Type} {ε α β : Type}

/-- Perform an operation that answers or raises. -/
def perform (op : Op) : Routine Op (fun op => Except ε (Ans op)) ε (Ans op) :=
  ExceptT.mk (Prog.perform op)

variable {σ ι : Type} {exec : (op : Op) → ι → σ → Except ε (Ans op) × σ}
  {rely : σ → σ → Prop} {inv : σ → Prop} {enabled : Op → σ → Prop}

/-- The postcondition that asks for `P` on a returned value only. -/
def Ensures (P : α → σ → Prop) : Except ε α → σ → Prop
  | .ok a, s => P a s
  | .error _, _ => True

variable (exec rely inv enabled) in
/-- `Prog.Safe` for a routine: `P` holds of what it returns. -/
def Safe (P : α → σ → Prop) (p : Routine Op (fun op => Except ε (Ans op)) ε α) (s : σ) : Prop :=
  Prog.Safe exec rely inv enabled (Ensures P) (ExceptT.run p) s

variable {P : α → σ → Prop} {s : σ}

theorem Safe.pure {a : α} (h : P a s) : Safe exec rely inv enabled P (pure a) s := h

theorem Safe.mono {P' : α → σ → Prop} (hP : ∀ a s, P a s → P' a s)
    {p : Routine Op (fun op => Except ε (Ans op)) ε α}
    (h : Safe exec rely inv enabled P p s) : Safe exec rely inv enabled P' p s := by
  refine Prog.Safe.mono ?_ h
  rintro (_ | a) t ht
  · trivial
  · exact hP a t ht

theorem Safe.bind {R : α → σ → Prop} {Q : β → σ → Prop}
    {p : Routine Op (fun op => Except ε (Ans op)) ε α}
    {f : α → Routine Op (fun op => Except ε (Ans op)) ε β}
    (hp : Safe exec rely inv enabled R p s)
    (hf : ∀ a t, R a t → Safe exec rely inv enabled Q (f a) t) :
    Safe exec rely inv enabled Q (p >>= f) s := by
  refine Prog.Safe.bind (Prog.Safe.mono ?_ hp)
  rintro (e | a) t ht
  · trivial
  · exact hf a t ht

theorem Safe.map {f : α → β} {Q : β → σ → Prop}
    {p : Routine Op (fun op => Except ε (Ans op)) ε α}
    (h : Safe exec rely inv enabled (fun a t => Q (f a) t) p s) :
    Safe exec rely inv enabled Q (f <$> p) s := by
  refine Prog.Safe.bind (Prog.Safe.mono ?_ h)
  rintro (e | a) t ht
  · trivial
  · exact ht

/-- Where every operation is enabled, any routine is safe if nothing is asked of its end. -/
theorem Safe.any (henabled : ∀ op s, enabled op s)
    {p : Routine Op (fun op => Except ε (Ans op)) ε α} :
    Safe exec rely inv enabled (fun _ _ => True) p s := by
  suffices h : ∀ q : Prog Op (fun op => Except ε (Ans op)) (Except ε α), ∀ s,
      Prog.Safe exec rely inv enabled (Ensures fun _ _ => True) q s from h _ s
  intro q
  induction q with
  | ret result => intro s; cases result <;> trivial
  | call op k ih => exact fun s t _ _ => ⟨henabled op t, fun i => ih _ _⟩

/-- What a routine does before does not matter. -/
theorem Safe.after (henabled : ∀ op s, enabled op s) {Q : β → σ → Prop}
    {p : Routine Op (fun op => Except ε (Ans op)) ε α}
    {f : α → Routine Op (fun op => Except ε (Ans op)) ε β}
    (hf : ∀ a t, Safe exec rely inv enabled Q (f a) t) :
    Safe exec rely inv enabled Q (p >>= f) s :=
  Safe.bind (Safe.any henabled) fun a t _ => hf a t

/-- The rule for one operation: it is enabled wherever the others may have moved
the state, and the rest is safe from each state it leaves. -/
theorem Safe.perform_bind {op : Op} {Q : β → σ → Prop}
    {f : Ans op → Routine Op (fun op => Except ε (Ans op)) ε β}
    (h : ∀ t, rely s t → inv t → enabled op t ∧
      ∀ i a, (exec op i t).1 = .ok a → Safe exec rely inv enabled Q (f a) (exec op i t).2) :
    Safe exec rely inv enabled Q (Routine.perform op >>= f) s := by
  intro t ht hinv
  refine ⟨(h t ht hinv).1, fun i => ?_⟩
  have hnext := (h t ht hinv).2 i
  cases hanswer : (exec op i t).1 with
  | error e => trivial
  | ok a => exact hnext a hanswer

theorem Safe.perform {op : Op} {Q : Ans op → σ → Prop}
    (h : ∀ t, rely s t → inv t → enabled op t ∧
      ∀ i a, (exec op i t).1 = .ok a → Q a (exec op i t).2) :
    Safe exec rely inv enabled Q (Routine.perform op) s := by
  intro t ht hinv
  refine ⟨(h t ht hinv).1, fun i => ?_⟩
  have hnext := (h t ht hinv).2 i
  cases hanswer : (exec op i t).1 with
  | error e => trivial
  | ok a => exact hnext a hanswer

/-! ## Interleaved executions -/

section

variable {others : σ → σ → Prop} {t : σ}

/-- An execution ends with its first operation, which raises, or goes on from its answer. -/
theorem interleaved_perform_bind {op : Op}
    {f : Ans op → Routine Op (fun op => Except ε (Ans op)) ε α} {result : Except ε α}
    (h : Prog.Interleaved exec others (ExceptT.run (Routine.perform op >>= f)) s result t) :
    ∃ s' i, others s s' ∧
      ((∃ a u, exec op i s' = (.ok a, u) ∧
          Prog.Interleaved exec others (ExceptT.run (f a)) u result t) ∨
        ∃ e, exec op i s' = (.error e, t) ∧ result = .error e) := by
  obtain ⟨s', i, hothers, hrest⟩ := Prog.Interleaved.of_call h
  refine ⟨s', i, hothers, ?_⟩
  rcases hexec : exec op i s' with ⟨_ | a, u⟩
  · rw [hexec] at hrest
    obtain ⟨rfl, rfl⟩ := Prog.Interleaved.of_ret hrest
    exact Or.inr ⟨_, rfl, rfl⟩
  · rw [hexec] at hrest
    exact Or.inl ⟨a, u, rfl, hrest⟩

theorem interleaved_bind {p : Routine Op (fun op => Except ε (Ans op)) ε α}
    {f : α → Routine Op (fun op => Except ε (Ans op)) ε β} {result : Except ε β}
    (h : Prog.Interleaved exec others (ExceptT.run (p >>= f)) s result t) :
    (∃ a u, Prog.Interleaved exec others (ExceptT.run p) s (.ok a) u ∧
        Prog.Interleaved exec others (ExceptT.run (f a)) u result t) ∨
      ∃ e, Prog.Interleaved exec others (ExceptT.run p) s (.error e) t ∧ result = .error e := by
  obtain ⟨first, u, hfirst, hrest⟩ := Prog.Interleaved.of_bind h
  rcases first with e | a
  · obtain ⟨rfl, rfl⟩ := Prog.Interleaved.of_ret hrest
    exact Or.inr ⟨e, hfirst, rfl⟩
  · exact Or.inl ⟨a, u, hfirst, hrest⟩

theorem interleaved_pure {a : α} {result : Except ε α}
    (h : Prog.Interleaved exec others
      (ExceptT.run (pure a : Routine Op (fun op => Except ε (Ans op)) ε α)) s result t) :
    result = .ok a ∧ t = s := by
  obtain ⟨rfl, rfl⟩ := Prog.Interleaved.of_ret h
  exact ⟨rfl, rfl⟩

end

theorem Safe.tryCatch {p : Routine Op (fun op => Except ε (Ans op)) ε α}
    {handler : ε → Routine Op (fun op => Except ε (Ans op)) ε α}
    (hp : Safe exec rely inv enabled P p s)
    (hhandler : ∀ e t, Safe exec rely inv enabled P (handler e) t) :
    Safe exec rely inv enabled P (tryCatch p handler) s := by
  refine Prog.Safe.bind (Prog.Safe.mono ?_ hp)
  rintro (e | a) t ht
  · exact hhandler e t
  · exact ht

/-! ## The order of operations -/

variable {allowed : Option (Prog.Performed Op fun op => Except ε (Ans op)) → Op → Prop}
  {last : Option (Prog.Performed Op fun op => Except ε (Ans op))}

variable (allowed last) in
/-- `Prog.Paced` for a routine. -/
def Paced (p : Routine Op (fun op => Except ε (Ans op)) ε α) : Prop :=
  Prog.Paced allowed last (ExceptT.run p)

theorem Paced.pure {a : α} : Paced allowed last
    (Pure.pure a : Routine Op (fun op => Except ε (Ans op)) ε α) := trivial

theorem Paced.throw {e : ε} : Paced allowed last
    (MonadExcept.throw e : Routine Op (fun op => Except ε (Ans op)) ε α) := trivial

theorem Paced.bind {p : Routine Op (fun op => Except ε (Ans op)) ε α}
    {f : α → Routine Op (fun op => Except ε (Ans op)) ε β} (hp : Paced allowed last p)
    (hf : ∀ a last, Paced allowed last (f a)) : Paced allowed last (p >>= f) := by
  refine Prog.Paced.bind hp ?_
  rintro (e | a) last
  · trivial
  · exact hf a last

theorem Paced.map {p : Routine Op (fun op => Except ε (Ans op)) ε α} {f : α → β}
    (hp : Paced allowed last p) : Paced allowed last (f <$> p) := by
  refine Prog.Paced.bind hp ?_
  rintro (e | a) _ <;> trivial

/-- The rule for one operation, whose answer is known to the next one. -/
theorem Paced.perform_bind {op : Op} {f : Ans op → Routine Op (fun op => Except ε (Ans op)) ε β}
    (hop : allowed last op) (hf : ∀ a, Paced allowed (some ⟨op, .ok a⟩) (f a)) :
    Paced allowed last (Routine.perform op >>= f) := by
  refine ⟨hop, ?_⟩
  rintro (e | a)
  · trivial
  · exact hf a

theorem Paced.perform {op : Op} (hop : allowed last op) :
    Paced allowed last (Routine.perform op : Routine Op (fun op => Except ε (Ans op)) ε (Ans op)) :=
  ⟨hop, fun _ => trivial⟩

theorem Paced.tryCatch {p : Routine Op (fun op => Except ε (Ans op)) ε α}
    {handler : ε → Routine Op (fun op => Except ε (Ans op)) ε α} (hp : Paced allowed last p)
    (hhandler : ∀ e last, Paced allowed last (handler e)) :
    Paced allowed last (MonadExcept.tryCatch p handler) := by
  refine Prog.Paced.bind hp ?_
  rintro (e | a) last
  · exact hhandler e last
  · trivial

end Routine
