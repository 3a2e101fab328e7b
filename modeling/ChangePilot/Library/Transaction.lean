import Mathlib.Logic.Basic
import Mathlib.Tactic.Common

/-!
# Transactions that stage their writes

A transaction reads a store as it was when the transaction began, with its own
writes applied, and stages further writes; it may fail.  When it is left by
`commit`, the writes are validated against the store and applied to it; when it
is left by `leave`, or fails, the store stays as it was.

`Ensures` is the weakest precondition of a transaction for its successful ends.
Its rules are equivalences, so that `simp` computes the precondition of a
straight-line transaction from its text.
-/

/-! ## Fallible values -/

namespace Except

variable {ε α β : Type}

@[simp] theorem bind_eq_ok_iff {x : Except ε α} {f : α → Except ε β} {b : β} :
    (x >>= f) = .ok b ↔ ∃ a, x = .ok a ∧ f a = .ok b := by
  cases x <;> simp [bind, Except.bind]

theorem bind_eq_error_iff {x : Except ε α} {f : α → Except ε β} {e : ε} :
    (x >>= f) = .error e ↔ x = .error e ∨ ∃ a, x = .ok a ∧ f a = .error e := by
  cases x <;> simp [bind, Except.bind]

theorem bind_unit_eq_ok_iff {x : Except ε Unit} {y : Except ε β} {b : β} :
    (x >>= fun _ => y) = .ok b ↔ x = .ok () ∧ y = .ok b := by
  cases x <;> simp [bind, Except.bind]

theorem bind_of_eq_ok {x : Except ε α} {a : α} (h : x = .ok a) (f : α → Except ε β) :
    (x >>= f) = f a := by
  rw [h]
  rfl

theorem bind_of_eq_error {x : Except ε α} {e : ε} (h : x = .error e) (f : α → Except ε β) :
    (x >>= f) = .error e := by
  rw [h]
  rfl

/-- Every failure of `x` satisfies `P`. -/
def Fails (P : ε → Prop) (x : Except ε α) : Prop := ∀ e, x = .error e → P e

theorem fails_ok {P : ε → Prop} {a : α} : Fails P (.ok a) := nofun

theorem fails_error {P : ε → Prop} {e : ε} (h : P e) : Fails P (.error e : Except ε α) := by
  intro e' heq
  rwa [← error.inj heq]

theorem Fails.bind {P : ε → Prop} {x : Except ε α} {f : α → Except ε β} (hx : Fails P x)
    (hf : ∀ a, Fails P (f a)) : Fails P (x >>= f) := by
  intro e he
  rcases bind_eq_error_iff.mp he with hfirst | ⟨a, _, hrest⟩
  · exact hx e hfirst
  · exact hf a e hrest

theorem Fails.forM {P : ε → Prop} {check : α → Except ε Unit} {l : List α}
    (h : ∀ a ∈ l, Fails P (check a)) : Fails P (l.forM check) := by
  induction l with
  | nil => exact fails_ok
  | cons a rest ih =>
      obtain ⟨hfirst, hrest⟩ := List.forall_mem_cons.mp h
      exact hfirst.bind fun _ => ih hrest

/-- A check with a known condition, and known failures. -/
theorem Fails.cases {P : ε → Prop} {x : Except ε Unit} {c : Prop} (hfails : Fails P x)
    (hiff : x = .ok () ↔ c) : (c ∧ x = .ok ()) ∨ (¬ c ∧ ∃ e, P e ∧ x = .error e) := by
  cases hx : x with
  | ok _ => exact Or.inl ⟨hiff.mp hx, rfl⟩
  | error e =>
      refine Or.inr ⟨fun hc => ?_, e, hfails e hx, rfl⟩
      rw [hiff.mpr hc] at hx
      cases hx

theorem mapM_eq_ok {f : α → Except ε β} {g : α → β} {l : List α}
    (h : ∀ a ∈ l, f a = .ok (g a)) : l.mapM f = .ok (l.map g) := by
  induction l with
  | nil => rfl
  | cons a rest ih =>
      rw [List.mapM_cons]
      refine (bind_of_eq_ok (h a (List.mem_cons_self ..)) _).trans ?_
      exact bind_of_eq_ok (ih fun b hb => h b (List.mem_cons_of_mem _ hb)) _

/-- What a traversal gives comes of some element. -/
theorem exists_of_mem_mapM {f : α → Except ε β} {l : List α} : ∀ {ys : List β} {y : β},
    l.mapM f = .ok ys → y ∈ ys → ∃ x ∈ l, f x = .ok y := by
  induction l with
  | nil =>
      intro ys y h hy
      obtain rfl := Except.ok.inj h
      exact absurd hy List.not_mem_nil
  | cons x rest ih =>
      intro ys y h hy
      rw [List.mapM_cons] at h
      obtain ⟨first, hfirst, h⟩ := bind_eq_ok_iff.mp h
      obtain ⟨others, hothers, h⟩ := bind_eq_ok_iff.mp h
      obtain rfl := Except.ok.inj h
      rcases List.mem_cons.mp hy with rfl | hy
      · exact ⟨x, List.mem_cons_self, hfirst⟩
      · obtain ⟨z, hz, hfz⟩ := ih hothers hy
        exact ⟨z, List.mem_cons_of_mem _ hz, hfz⟩

theorem exists_of_foldlM {f : β → α → Except ε β} {l : List α} :
    ∀ {b c : β}, l.foldlM f b = .ok c → ∀ a ∈ l, ∃ before after, f before a = .ok after := by
  induction l with
  | nil => exact fun _ a ha => absurd ha List.not_mem_nil
  | cons first rest ih =>
      intro b c h a ha
      rw [List.foldlM_cons] at h
      obtain ⟨middle, hfirst, hrest⟩ := bind_eq_ok_iff.mp h
      rcases List.mem_cons.mp ha with rfl | ha
      · exact ⟨b, middle, hfirst⟩
      · exact ih hrest a ha

theorem exists_mem_of_mapM {f : α → Except ε β} {l : List α} :
    ∀ {ys : List β}, l.mapM f = .ok ys → ∀ a ∈ l, ∃ y ∈ ys, f a = .ok y := by
  induction l with
  | nil => exact fun _ a ha => absurd ha List.not_mem_nil
  | cons first rest ih =>
      intro ys h a ha
      rw [List.mapM_cons] at h
      obtain ⟨y, hfirst, h⟩ := bind_eq_ok_iff.mp h
      obtain ⟨others, hothers, h⟩ := bind_eq_ok_iff.mp h
      obtain rfl := Except.ok.inj h
      rcases List.mem_cons.mp ha with rfl | ha
      · exact ⟨y, List.mem_cons_self, hfirst⟩
      · obtain ⟨z, hz, hfz⟩ := ih hothers a ha
        exact ⟨z, List.mem_cons_of_mem _ hz, hfz⟩

/-- A check of every element succeeds when it succeeds on each. -/
theorem forM_eq_ok_iff {check : α → Except ε Unit} {l : List α} :
    l.forM check = .ok () ↔ ∀ a ∈ l, check a = .ok () := by
  induction l with
  | nil => exact iff_of_true rfl (by simp)
  | cons a rest ih =>
      rw [List.forall_mem_cons, ← ih]
      show (check a >>= fun _ => rest.forM check) = .ok () ↔ _
      exact bind_unit_eq_ok_iff

theorem isSome_toOption_iff {x : Except ε α} : x.toOption.isSome = true ↔ ∃ a, x = .ok a := by
  cases x <;> simp [Except.toOption]

@[simp] theorem pure_eq_ok_iff {a b : α} : (pure a : Except ε α) = .ok b ↔ a = b := by
  simp [pure, Except.pure]

@[simp] theorem throw_ne_ok {e : ε} {a : α} : (throw e : Except ε α) ≠ .ok a := by
  simp [throw, throwThe, MonadExceptOf.throw]

@[simp] theorem functor_map_eq_ok_iff {x : Except ε α} {f : α → β} {b : β} :
    f <$> x = .ok b ↔ ∃ a, x = .ok a ∧ f a = b := by
  cases x <;> simp [Functor.map, Except.map]

@[simp] theorem map_eq_ok_iff {x : Except ε α} {f : α → β} {b : β} :
    x.map f = .ok b ↔ ∃ a, x = .ok a ∧ f a = b := by
  cases x <;> simp [Except.map]

end Except

/-! ## Transactions -/

/-- A transaction on `Store`, staging `Write`s. -/
def Tx (Store Write ε α : Type) : Type :=
  Store → List Write → Except ε (α × List Write)

/-- How a transaction is left. -/
inductive Exit (α : Type) where
  | commit (a : α)
  | leave (a : α)

def Exit.Committed {α : Type} : Exit α → Prop
  | commit _ => True
  | leave _ => False

@[simp] theorem Exit.committed_commit {α : Type} (a : α) : (Exit.commit a).Committed := trivial

namespace Tx

variable {Store Write ε α β : Type}

instance : Monad (Tx Store Write ε) where
  pure a := fun _ writes => .ok (a, writes)
  bind x f := fun base writes =>
    match x base writes with
    | .error e => .error e
    | .ok (a, staged) => f a base staged

instance : MonadLift (Except ε) (Tx Store Write ε) where
  monadLift x := fun _ writes => x.map fun a => (a, writes)

instance : MonadExceptOf ε (Tx Store Write ε) where
  throw e := fun _ _ => .error e
  tryCatch x handler := fun base writes =>
    match x base writes with
    | .error e => handler e base writes
    | .ok result => .ok result

/-- The store as the transaction sees it. -/
def view (apply : Store → Write → Store) (base : Store) (writes : List Write) : Store :=
  writes.foldl apply base

/-- Read the store as the transaction sees it. -/
def read (apply : Store → Write → Store) (f : Store → α) : Tx Store Write ε α :=
  fun base writes => .ok (f (view apply base writes), writes)

/-- Look at the writes staged so far. -/
def staged : Tx Store Write ε (List Write) := fun _ writes => .ok (writes, writes)

def stage (write : Write) : Tx Store Write ε Unit :=
  fun _ writes => .ok ((), writes ++ [write])

/-- Go on with the value there is, or fail with `e`. -/
def require (e : ε) : Option α → Tx Store Write ε α
  | some a => pure a
  | none => throw e

/-- Run a transaction on `store` with nobody else acting. -/
def transact (apply : Store → Write → Store) (validate : List Write → Store → Except ε Unit)
    (body : Tx Store Write ε (Exit α)) (store : Store) : Except ε (α × Store) :=
  match body store [] with
  | .error e => .error e
  | .ok (.leave a, _) => .ok (a, store)
  | .ok (.commit a, writes) =>
      match validate writes store with
      | .error e => .error e
      | .ok () => .ok (a, view apply store writes)

variable {apply : Store → Write → Store} {validate : List Write → Store → Except ε Unit}
  {base : Store} {writes : List Write}

@[simp] theorem view_nil : view apply base [] = base := rfl

@[simp] theorem view_append (more : List Write) :
    view apply base (writes ++ more) = view apply (view apply base writes) more :=
  List.foldl_append ..

@[simp] theorem view_cons (write : Write) (more : List Write) :
    view apply base (write :: more) = view apply (apply base write) more := rfl

/-! ## Weakest preconditions -/

/-- Every successful end of `x` satisfies `Q`. -/
def Ensures (x : Tx Store Write ε α) (Q : α → List Write → Prop) (base : Store)
    (writes : List Write) : Prop :=
  ∀ a staged, x base writes = .ok (a, staged) → Q a staged

variable {Q : α → List Write → Prop}

@[simp] theorem ensures_pure (a : α) :
    Ensures (pure a : Tx Store Write ε α) Q base writes ↔ Q a writes := by
  constructor
  · exact fun h => h a writes rfl
  · rintro h _ _ ⟨⟩; exact h

@[simp] theorem ensures_bind (x : Tx Store Write ε β) (f : β → Tx Store Write ε α) :
    Ensures (x >>= f) Q base writes ↔
      Ensures x (fun b staged => Ensures (f b) Q base staged) base writes := by
  constructor
  · intro h b staged hx a final hf
    exact h a final (by simpa [bind, hx] using hf)
  · intro h a final hf
    cases hx : x base writes with
    | error e => simp [bind, hx] at hf
    | ok result => exact h result.1 result.2 hx a final (by simpa [bind, hx] using hf)

@[simp] theorem ensures_throw (e : ε) :
    Ensures (throw e : Tx Store Write ε α) Q base writes ↔ True :=
  iff_true_intro fun _ _ h => nomatch h

@[simp] theorem ensures_lift (x : Except ε α) :
    Ensures (liftM x : Tx Store Write ε α) Q base writes ↔ ∀ a, x = .ok a → Q a writes := by
  constructor
  · rintro h a rfl
    exact h a writes rfl
  · intro h a staged hx
    cases x with
    | error e => simp [liftM, monadLift, MonadLift.monadLift, Except.map] at hx
    | ok b =>
        obtain ⟨rfl, rfl⟩ : b = a ∧ writes = staged := by
          simpa [liftM, monadLift, MonadLift.monadLift, Except.map] using hx
        exact h b rfl

@[simp] theorem ensures_read (f : Store → α) :
    Ensures (read apply f : Tx Store Write ε α) Q base writes ↔
      Q (f (view apply base writes)) writes := by
  constructor
  · exact fun h => h _ _ rfl
  · rintro h _ _ ⟨⟩; exact h

@[simp] theorem ensures_require (e : ε) (value : Option α) :
    Ensures (require e value : Tx Store Write ε α) Q base writes ↔
      ∀ a, value = some a → Q a writes := by
  cases value <;> simp [require]

@[simp] theorem ensures_ite (c : Prop) [Decidable c] (x y : Tx Store Write ε α) :
    Ensures (if c then x else y) Q base writes ↔
      (c → Ensures x Q base writes) ∧ (¬ c → Ensures y Q base writes) := by
  split <;> simp_all

@[simp] theorem ensures_staged {Q : List Write → List Write → Prop} :
    Ensures (staged : Tx Store Write ε _) Q base writes ↔ Q writes writes := by
  constructor
  · exact fun h => h _ _ rfl
  · rintro h _ _ ⟨⟩; exact h

@[simp] theorem ensures_stage (write : Write) {Q : Unit → List Write → Prop} :
    Ensures (stage write : Tx Store Write ε Unit) Q base writes ↔ Q () (writes ++ [write]) := by
  constructor
  · exact fun h => h _ _ rfl
  · rintro h _ _ ⟨⟩; exact h

@[simp] theorem ensures_true (x : Tx Store Write ε α) :
    Ensures x (fun _ _ => True) base writes ↔ True :=
  iff_true_intro fun _ _ _ => trivial

theorem Ensures.mono {Q' : α → List Write → Prop} {x : Tx Store Write ε α}
    (h : Ensures x Q base writes) (hQ : ∀ a staged, Q a staged → Q' a staged) :
    Ensures x Q' base writes :=
  fun a staged hx => hQ a staged (h a staged hx)

/-- Two transactions that begin alike agree if they go on alike. -/
theorem bind_congr {x : Tx Store Write ε β} {f g : β → Tx Store Write ε α}
    (h : Ensures x (fun b staged => f b base staged = g b base staged) base writes) :
    (x >>= f) base writes = (x >>= g) base writes := by
  cases hx : x base writes with
  | error e => simp [bind, hx]
  | ok result => simpa [bind, hx] using h result.1 result.2 hx

/-- What a transaction leaves behind, given what its body ensures of the writes it
commits with, which have passed validation, and of the ends at which it leaves
the store alone. -/
theorem Ensures.transact {body : Tx Store Write ε (Exit α)} {P : α → Store → Prop} {a : α}
    {store next : Store}
    (h : Ensures body (fun exit staged => match exit with
      | .commit a => validate staged store = .ok () → P a (view apply store staged)
      | .leave a => P a store) store [])
    (hrun : Tx.transact apply validate body store = .ok (a, next)) : P a next := by
  unfold Tx.transact at hrun
  split at hrun
  case h_1 => simp at hrun
  case h_2 result staged hbody =>
    obtain ⟨rfl, rfl⟩ : result = a ∧ store = next := by simpa using hrun
    exact h _ _ hbody
  case h_3 result staged hbody =>
    split at hrun
    case h_1 => simp at hrun
    case h_2 hvalid =>
      obtain ⟨rfl, rfl⟩ : result = a ∧ view apply store staged = next := by simpa using hrun
      exact h _ _ hbody hvalid

/-- What a transaction that never leaves the store alone makes of it. -/
theorem Ensures.transact_committed {body : Tx Store Write ε (Exit α)} {P : Store → Prop} {a : α}
    {store next : Store} (hcommits : Ensures body (fun exit _ => exit.Committed) store [])
    (h : Ensures body (fun _ staged => validate staged store = .ok () →
      P (view apply store staged)) store [])
    (hrun : Tx.transact apply validate body store = .ok (a, next)) : P next := by
  refine Ensures.transact (P := fun _ => P) (fun exit staged hbody => ?_) hrun
  cases exit with
  | commit a => exact h _ _ hbody
  | leave a => exact (hcommits _ _ hbody).elim

/-! ## Total correctness -/

/-- `x` ends without an error, and its end satisfies `Q`. -/
def Returns (x : Tx Store Write ε α) (Q : α → List Write → Prop) (base : Store)
    (writes : List Write) : Prop :=
  ∃ a staged, x base writes = .ok (a, staged) ∧ Q a staged

theorem Returns.mono {Q' : α → List Write → Prop} {x : Tx Store Write ε α}
    (h : Returns x Q base writes) (hQ : ∀ a staged, Q a staged → Q' a staged) :
    Returns x Q' base writes := by
  obtain ⟨a, staged, hx, hend⟩ := h
  exact ⟨a, staged, hx, hQ a staged hend⟩

/-- What holds of every end holds of the end that there is. -/
theorem Returns.and_ensures {Q' : α → List Write → Prop} {x : Tx Store Write ε α}
    (h : Returns x Q base writes) (hall : Ensures x Q' base writes) :
    Returns x (fun a staged => Q a staged ∧ Q' a staged) base writes := by
  obtain ⟨a, staged, hx, hend⟩ := h
  exact ⟨a, staged, hx, hend, hall a staged hx⟩

theorem returns_pure {a : α} (h : Q a writes) :
    Returns (pure a : Tx Store Write ε α) Q base writes := ⟨a, writes, rfl, h⟩

theorem returns_bind {x : Tx Store Write ε β} {f : β → Tx Store Write ε α}
    (h : Returns x (fun b staged => Returns (f b) Q base staged) base writes) :
    Returns (x >>= f) Q base writes := by
  obtain ⟨b, staged, hx, a, final, hf, hend⟩ := h
  exact ⟨a, final, by simp [bind, hx, hf], hend⟩

/-- After a program that ends, what follows decides the result. -/
theorem Returns.bind_eq {x : Tx Store Write ε β} {f : β → Tx Store Write ε α}
    {result : Except ε (α × List Write)}
    (h : Returns x (fun b staged => f b base staged = result) base writes) :
    (x >>= f) base writes = result := by
  obtain ⟨b, staged, hx, hf⟩ := h
  simp [bind, hx, hf]

theorem returns_lift {x : Except ε α} {a : α} (hx : x = .ok a) (h : Q a writes) :
    Returns (liftM x : Tx Store Write ε α) Q base writes := by
  subst hx
  exact ⟨a, writes, rfl, h⟩

theorem returns_read {f : Store → α} (h : Q (f (view apply base writes)) writes) :
    Returns (read apply f : Tx Store Write ε α) Q base writes := ⟨_, writes, rfl, h⟩

theorem returns_require {e : ε} {value : Option α} {a : α} (hvalue : value = some a)
    (h : Q a writes) : Returns (require e value : Tx Store Write ε α) Q base writes := by
  subst hvalue
  exact ⟨a, writes, rfl, h⟩

theorem returns_stage {write : Write} {Q : Unit → List Write → Prop}
    (h : Q () (writes ++ [write])) :
    Returns (stage write : Tx Store Write ε Unit) Q base writes := ⟨(), _, rfl, h⟩

/-- What a transaction that ends without an error, and whose writes pass validation,
leaves behind. -/
theorem Returns.transact {body : Tx Store Write ε (Exit α)} {P : α → Store → Prop}
    {store : Store} (h : Returns body (fun exit staged => match exit with
      | .commit a => validate staged store = .ok () ∧ P a (view apply store staged)
      | .leave a => P a store) store []) :
    ∃ a next, Tx.transact apply validate body store = .ok (a, next) ∧ P a next := by
  obtain ⟨exit, staged, hbody, hend⟩ := h
  unfold Tx.transact
  rw [hbody]
  cases exit with
  | commit a => exact ⟨a, _, by simp [hend.1], hend.2⟩
  | leave a => exact ⟨a, store, rfl, hend⟩

end Tx
