import ChangePilot.Library.Hazards
import ChangePilot.Library.SqlScripts

/-!
# Scripts under hazards

What can be said of a script that may fail or be cut off at any of its requests.  `I` is
what the committed database keeps in all cases, so it is there for whoever opens the
database again; `Q` holds where the script ends.
-/

namespace Sql.Script

variable {ε α β : Type}

/-- The script keeps `I` of what is committed, and ends with `Q`. -/
def Assured (I : Database → Prop) (Q : α → Connection → Prop) (x : Script ε α) (c : Connection) :
    Prop :=
  Routine.Assured (.ofExec Request.perform) (fun c => I c.committed) Q
    (fun _ c => I c.committed) x c

variable {I : Database → Prop} {Q : α → Connection → Prop} {x : Script ε α} {c : Connection}
  {d : Database}

theorem assured_pure {a : α} : Assured I Q (pure a : Script ε α) c ↔ Q a c := Iff.rfl

theorem assured_bind {Q : β → Connection → Prop} {f : α → Script ε β} :
    Assured I Q (x >>= f) c ↔ Assured I (fun a c => Assured I Q (f a) c) x c :=
  Routine.assured_bind

theorem Assured.mono {Q' : α → Connection → Prop} (hQ : ∀ a c, Q a c → Q' a c)
    (h : Assured I Q x c) : Assured I Q' x c :=
  Routine.Assured.mono (fun _ h => h) hQ (fun _ _ h => h) h

theorem assured_of_ok {request : Request} {Q : request.Answer → Connection → Prop}
    {a : request.Answer} {next : Connection}
    (hperform : (request.perform c : Except (Raised ε) _ × Connection) = (.ok a, next))
    (hI : I c.committed) (hend : Q a next) :
    Assured I Q (ask request : Script ε request.Answer) c := by
  refine Routine.assured_perform_ofExec.mpr ⟨hI, fun _ => hI, ?_⟩
  rw [hperform]
  exact hend

/-- A request that fails leaves what is committed. -/
theorem assured_of_error {request : Request} {Q : request.Answer → Connection → Prop}
    {e : Raised ε} {next : Connection} (hperform : request.perform c = (.error e, next))
    (hI : I c.committed) (hsame : next.committed = c.committed) :
    Assured I Q (ask request : Script ε request.Answer) c := by
  refine Routine.assured_perform_ofExec.mpr ⟨hI, fun _ => hI, ?_⟩
  rw [hperform]
  show I next.committed
  rwa [hsame]

theorem assured_select {table : String} {columns : List String} {condition : Condition}
    {orderBy : Option String} {Q : List (List Value) → Connection → Prop} (hI : I c.committed)
    (hend : ∀ found, c.current.select table columns condition orderBy = .ok found → Q found c) :
    Assured I Q (ask (.select table columns condition orderBy) : Script ε _) c := by
  have hperform : (Request.perform (.select table columns condition orderBy) c :
      Except (Raised ε) (List (List Value)) × Connection) =
      ((c.current.select table columns condition orderBy).mapError .sql, c) := rfl
  cases hselect : c.current.select table columns condition orderBy with
  | error e =>
      rw [hselect] at hperform
      exact assured_of_error hperform hI rfl
  | ok found =>
      rw [hselect] at hperform
      exact assured_of_ok hperform hI (hend found hselect)

theorem assured_tableInfo {table : String} {Q : List (List Value) → Connection → Prop}
    (hI : I c.committed) (hend : Q (c.current.tableInfo table) c) :
    Assured I Q (ask (.tableInfo table) : Script ε _) c :=
  assured_of_ok rfl hI hend

theorem perform_execute_error {statement : Statement} {opened : Connection} {e : Error}
    (hopened : (if statement.ChangesRows then c.begin else c) = opened)
    (hrun : opened.current.run statement = .error e) :
    (Request.perform (.execute statement) c : Except (Raised ε) Unit × Connection) =
      (.error (.sql e), opened) := by
  show execute statement c = _
  simp only [execute, hopened, hrun]

theorem perform_execute_ok {statement : Statement} {opened : Connection} {next : Database}
    (hopened : (if statement.ChangesRows then c.begin else c) = opened)
    (hrun : opened.current.run statement = .ok next) :
    (Request.perform (.execute statement) c : Except (Raised ε) Unit × Connection) =
      (.ok (), opened.put next) := by
  show execute statement c = _
  simp only [execute, hopened, hrun]

/-- A statement that changes the schema is there to stay if no transaction is open. -/
theorem assured_execute_schema {statement : Statement} {Q : Unit → Connection → Prop}
    (hschema : ¬ statement.ChangesRows) (hI : I d)
    (hend : ∀ next, d.run statement = .ok next → Q () { committed := next }) :
    Assured I Q (ask (.execute statement) : Script ε _) { committed := d } := by
  cases hrun : d.run statement with
  | error e => exact assured_of_error (perform_execute_error (if_neg hschema) hrun) hI rfl
  | ok next =>
      exact assured_of_ok (perform_execute_ok (if_neg hschema) hrun) hI (hend next hrun)

/-- A statement that changes rows is held in a transaction. -/
theorem assured_execute_rows {statement : Statement} {Q : Unit → Connection → Prop}
    (hrows : statement.ChangesRows) (hI : I c.committed)
    (hend : ∀ next, c.current.run statement = .ok next →
      Q () { committed := c.committed, pending := some next }) :
    Assured I Q (ask (.execute statement) : Script ε _) c := by
  cases hrun : c.current.run statement with
  | error e => exact assured_of_error (perform_execute_error (if_pos hrows) hrun) hI rfl
  | ok next =>
      exact assured_of_ok (perform_execute_ok (if_pos hrows) hrun) hI (hend next hrun)

theorem assured_autocommit {statement : Statement} {Q : Unit → Connection → Prop}
    (hI : I c.committed)
    (hend : ∀ next, c.current.run statement = .ok next → Q () { committed := next }) :
    Assured I Q (ask (.autocommit statement) : Script ε _) c := by
  cases hrun : c.current.run statement with
  | error e =>
      have hperform : (Request.perform (.autocommit statement) c :
          Except (Raised ε) Unit × Connection) = (.error (.sql e), c) := by
        show autocommit statement c = _
        rw [autocommit, Effect.change, hrun]
      exact assured_of_error hperform hI rfl
  | ok next =>
      have hperform : (Request.perform (.autocommit statement) c :
          Except (Raised ε) Unit × Connection) = (.ok (), { committed := next }) := by
        show autocommit statement c = _
        rw [autocommit, Effect.change, hrun]
      exact assured_of_ok hperform hI (hend next hrun)

theorem assured_forM_nil {Q : Unit → Connection → Prop} (hend : Q () c) :
    Assured I Q ([].forM fun statement => ask (.autocommit statement) : Script ε Unit) c := hend

theorem assured_forM_cons {statement : Statement} {rest : List Statement}
    {Q : Unit → Connection → Prop} (hI : I c.committed)
    (hend : ∀ next, c.current.run statement = .ok next →
      Assured I Q (rest.forM fun statement => ask (.autocommit statement) : Script ε Unit)
        { committed := next }) :
    Assured I Q ((statement :: rest).forM fun statement => ask (.autocommit statement) :
      Script ε Unit) c :=
  assured_bind.mpr (assured_autocommit hI hend)

theorem assured_commit {Q : Unit → Connection → Prop} (hI : I c.committed)
    (hend : Q () { committed := c.current }) : Assured I Q (ask .commit : Script ε _) c :=
  assured_of_ok rfl hI hend

theorem assured_connect {Q : Unit → Connection → Prop} (hI : I c.committed)
    (hend : Q () { committed := c.committed }) : Assured I Q (ask .connect : Script ε _) c :=
  assured_of_ok rfl hI hend

/-- What the script ends with is committed on its connection. -/
theorem assured_connected (hI : I d)
    (h : Assured I (fun a c => I c.committed ∧ Q a { committed := c.current }) x
      { committed := d }) : Assured I Q (connected x) { committed := d } := by
  refine assured_bind.mpr (assured_connect hI (assured_bind.mpr (h.mono fun a c hc => ?_)))
  exact assured_bind.mpr (assured_commit hc.1 (assured_pure.mpr hc.2))

/-! ## Scripts that only read -/

/-- The script leaves its connection as it is, whatever it returns. -/
def Looks (x : Script ε α) : Prop :=
  ∀ (I : Database → Prop) (Q : α → Connection → Prop) (c : Connection), I c.committed →
    (∀ a, Q a c) → Assured I Q x c

variable {f : α → Script ε β}

theorem looks_pure (a : α) : Looks (pure a : Script ε α) := fun _ _ _ _ hQ => hQ a

theorem looks_reject (error : ε) : Looks (reject error : Script ε α) := fun _ _ _ hI _ => hI

theorem looks_select (table : String) (columns : List String) (condition : Condition)
    (orderBy : Option String) :
    Looks (ask (.select table columns condition orderBy) : Script ε (List (List Value))) :=
  fun _ _ _ hI hQ => assured_select hI fun found _ => hQ found

theorem looks_tableInfo (table : String) :
    Looks (ask (.tableInfo table) : Script ε (List (List Value))) :=
  fun _ _ _ hI hQ => assured_tableInfo hI (hQ _)

theorem Looks.bind (hx : Looks x) (hf : ∀ a, Looks (f a)) : Looks (x >>= f) :=
  fun I Q c hI hQ => assured_bind.mpr (hx I _ c hI fun a => hf a I Q c hI hQ)

theorem looks_ite {p : Prop} [Decidable p] {x y : Script ε α} (hx : Looks x) (hy : Looks y) :
    Looks (if p then x else y) := by
  split
  · exact hx
  · exact hy

/-- On a connection of its own the script leaves the database as it is, and what it returns
satisfies `P`. -/
def Tells (x : Script ε α) (d : Database) (P : α → Prop) : Prop :=
  ∀ (I : Database → Prop) (Q : α → Connection → Prop), I d →
    (∀ a, P a → Q a { committed := d }) → Assured I Q x { committed := d }

theorem Looks.tells (h : Looks x) (d : Database) : Tells x d fun _ => True :=
  fun I Q hI hQ => h I Q { committed := d } hI fun a => hQ a trivial

end Sql.Script
