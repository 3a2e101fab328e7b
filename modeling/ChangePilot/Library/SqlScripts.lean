import ChangePilot.Library.Interruption
import ChangePilot.Library.Sql

/-!
# Scripts

A script is a session that is written down request by request, so that it may be
interrupted between two of them.  What is committed by then is found when the database is
opened again; an open transaction is lost.
-/

namespace Sql

/-- What a program asks of its connection. -/
inductive Request where
  | connect
  | select (table : String) (columns : List String) (condition : Condition)
      (orderBy : Option String)
  | tableInfo (table : String)
  | execute (statement : Statement)
  | autocommit (statement : Statement)
  | commit

abbrev Request.Answer : Request → Type
  | .select .. | .tableInfo _ => List (List Value)
  | _ => Unit

variable {ε α β : Type}

/-- A new connection knows nothing of a transaction that was open on another one. -/
def Request.perform (request : Request) (c : Connection) :
    Except (Raised ε) request.Answer × Connection :=
  match request with
  | .connect => (.ok (), { committed := c.committed })
  | .select table columns condition orderBy =>
      query (fun d => d.select table columns condition orderBy) c
  | .tableInfo table => query (fun d => .ok (d.tableInfo table)) c
  | .execute statement => Sql.execute statement c
  | .autocommit statement => Sql.autocommit statement c
  | .commit => Sql.commit c

abbrev Script (ε α : Type) : Type :=
  Routine Request (fun request => Except (Raised ε) request.Answer) (Raised ε) α

namespace Script

def ask (request : Request) : Script ε request.Answer := Routine.perform request

def reject (error : ε) : Script ε α := throw (.program error)

/-- `executescript` -/
def executeScript (statements : List Statement) : Script ε Unit := do
  ask .commit
  statements.forM fun statement => ask (.autocommit statement)

/-- What is done on a new connection, with the commit at its end. -/
def connected (body : Script ε α) : Script ε α := do
  ask .connect
  let a ← body
  ask .commit
  return a

/-! ## Scripts and sessions -/

/-- The session of a script. -/
def session (x : Script ε α) : Session ε α := Prog.alone Request.perform (ExceptT.run x)

theorem session_pure (a : α) : session (pure a : Script ε α) = pure a := rfl

theorem session_reject (error : ε) :
    session (reject error : Script ε α) = Effect.fail (.program error) := rfl

theorem session_bind (x : Script ε α) (f : α → Script ε β) :
    session (x >>= f) = session x >>= fun a => session (f a) := by
  funext c
  have hbind : session (x >>= f) c = Prog.alone Request.perform
      (ExceptT.bindCont f (session x c).1) (session x c).2 := Prog.alone_bind ..
  rw [hbind]
  rcases hx : session x c with ⟨e | a, next⟩
  · rw [Effect.bind_of_error hx]
    rfl
  · rw [Effect.bind_of_ok hx]
    rfl

theorem session_ite (p : Prop) [Decidable p] (x y : Script ε α) :
    session (if p then x else y) = if p then session x else session y :=
  apply_ite session p x y

theorem session_forM (statements : List Statement) :
    session (statements.forM fun statement => ask (.autocommit statement) : Script ε Unit) =
      statements.forM Sql.autocommit := by
  induction statements with
  | nil => rfl
  | cons statement rest ih =>
      refine (session_bind ..).trans ?_
      rw [ih]
      rfl

theorem session_executeScript (statements : List Statement) :
    session (executeScript statements : Script ε Unit) = Sql.executeScript statements := by
  refine (session_bind ..).trans ?_
  rw [session_forM]
  rfl

/-- Scripts on connections of their own are transactions. -/
theorem transaction_session (body : Script ε α) (d : Database) :
    transaction (session body) d = ((session (connected body) { committed := d }).1,
      (session (connected body) { committed := d }).2.committed) := by
  have hconnected : session (connected body) { committed := d } =
      (session body >>= fun a => session (do ask .commit; return a)) { committed := d } := by
    unfold connected
    rw [session_bind, Effect.bind_of_ok (show session (ask .connect : Script ε _)
      { committed := d } = (.ok (), { committed := d }) from rfl), session_bind]
  rw [hconnected, transaction]
  rcases hbody : session body { committed := d } with ⟨e | a, next⟩
  · rw [Effect.bind_of_error hbody]
  · rw [Effect.bind_of_ok hbody]
    rfl

/-! ## Traces of scripts -/

/-- The script only reads: it asks `k` times, and returns `a`. -/
def Reads (x : Script ε α) (k : ℕ) (d : Database) (a : α) : Prop :=
  ∀ c : Connection, c.current = d →
    Routine.Trace Request.perform x c (List.replicate k c) (.ok a) c

/-- The script reads `k` times, and fails. -/
def Rejects (x : Script ε α) (k : ℕ) (d : Database) (e : Raised ε) : Prop :=
  ∀ c : Connection, c.current = d →
    Routine.Trace Request.perform x c (List.replicate k c) (.error e) c

variable {x : Script ε α} {f : α → Script ε β} {k m : ℕ} {d : Database} {a : α} {b : β}
  {e : Raised ε}

theorem reads_pure (a : α) : Reads (pure a : Script ε α) 0 d a :=
  fun c _ => Routine.trace_pure a c

theorem rejects_reject (error : ε) : Rejects (reject error : Script ε α) 0 d (.program error) :=
  fun c _ => Routine.trace_throw _ c

theorem reads_select {table : String} {columns : List String} {condition : Condition}
    {orderBy : Option String} {found : List (List Value)}
    (h : d.select table columns condition orderBy = .ok found) :
    Reads (ask (.select table columns condition orderBy) : Script ε _) 1 d found := by
  intro c hc
  have hfound : Sees (query (fun d => d.select table columns condition orderBy) : Session ε _) d
      found := sees_query h
  exact Routine.Trace.of_perform (hfound c hc)

theorem reads_tableInfo (table : String) :
    Reads (ask (.tableInfo table) : Script ε _) 1 d (d.tableInfo table) := by
  intro c hc
  have hfound : Sees (query (fun d => .ok (d.tableInfo table)) : Session ε _) d
      (d.tableInfo table) := sees_query rfl
  exact Routine.Trace.of_perform (hfound c hc)

theorem Reads.bind (hx : Reads x k d a) (hf : Reads (f a) m d b) :
    Reads (x >>= f) (k + m) d b := by
  intro c hc
  rw [List.replicate_add]
  exact (hx c hc).bind (hf c hc)

theorem Reads.bind_rejects (hx : Reads x k d a) (hf : Rejects (f a) m d e) :
    Rejects (x >>= f) (k + m) d e := by
  intro c hc
  rw [List.replicate_add]
  exact (hx c hc).bind (hf c hc)

theorem Rejects.bind (hx : Rejects x k d e) : Rejects (x >>= f) k d e :=
  fun c hc => (hx c hc).bind_of_error

/-- A script that only reads returns what it reads, as a session. -/
theorem Reads.transaction (hx : Reads x k d a) : Sql.transaction (session x) d = (.ok a, d) := by
  rw [Sql.transaction, show session x { committed := d } = (.ok a, { committed := d }) from
    (hx _ rfl).alone]
  rfl

theorem trace_connect (c : Connection) : Routine.Trace Request.perform
    (ask .connect : Script ε _) c [c] (.ok ()) { committed := c.committed } :=
  Routine.Trace.of_perform rfl

theorem trace_commit (c : Connection) : Routine.Trace Request.perform
    (ask .commit : Script ε _) c [c] (.ok ()) { committed := c.current } :=
  Routine.Trace.of_perform rfl

/-- A statement that changes the schema is there to stay if no transaction is open. -/
theorem trace_execute_schema {statement : Statement} {next : Database}
    (hschema : ¬ statement.ChangesRows) (h : d.run statement = .ok next) :
    Routine.Trace Request.perform (ask (.execute statement) : Script ε _) { committed := d }
      [{ committed := d }] (.ok ()) { committed := next } := by
  refine Routine.Trace.of_perform ?_
  show execute statement { committed := d } = _
  unfold execute
  rw [if_neg hschema]
  dsimp only [Connection.current, Option.getD_none]
  rw [h]
  rfl

/-- A statement that changes rows is held in a transaction. -/
theorem trace_execute_rows {statement : Statement} {c : Connection} {next : Database}
    (hrows : statement.ChangesRows) (h : c.current.run statement = .ok next) :
    Routine.Trace Request.perform (ask (.execute statement) : Script ε _) c [c] (.ok ())
      { committed := c.committed, pending := some next } := by
  refine Routine.Trace.of_perform ?_
  show execute statement c = _
  unfold execute
  rw [if_pos hrows]
  dsimp only
  rw [show c.begin.current = c.current from rfl, h]
  rfl

theorem trace_execute_rows_of_error {statement : Statement} {c : Connection} {error : Error}
    (hrows : statement.ChangesRows) (h : c.current.run statement = .error error) :
    Routine.Trace Request.perform (ask (.execute statement) : Script ε _) c [c]
      (.error (.sql error)) c.begin := by
  refine Routine.Trace.of_perform ?_
  show execute statement c = _
  unfold execute
  rw [if_pos hrows]
  dsimp only
  rw [show c.begin.current = c.current from rfl, h]

theorem trace_autocommit {statement : Statement} {next : Database}
    (h : d.run statement = .ok next) :
    Routine.Trace Request.perform (ask (.autocommit statement) : Script ε _) { committed := d }
      [{ committed := d }] (.ok ()) { committed := next } := by
  refine Routine.Trace.of_perform ?_
  show autocommit statement { committed := d } = _
  rw [autocommit, Effect.change]
  dsimp only [Connection.current, Option.getD_none]
  rw [h]

theorem trace_autocommit_of_error {statement : Statement} {c : Connection} {error : Error}
    (h : c.current.run statement = .error error) :
    Routine.Trace Request.perform (ask (.autocommit statement) : Script ε _) c [c]
      (.error (.sql error)) c := by
  refine Routine.Trace.of_perform ?_
  show autocommit statement c = _
  rw [autocommit, Effect.change, h]

/-- What a script has done on its connection is committed at the end. -/
theorem trace_connected {states : List Connection} {c : Connection}
    (hx : Routine.Trace Request.perform x { committed := d } states (.ok a) c) :
    Routine.Trace Request.perform (connected x) { committed := d }
      ({ committed := d } :: (states ++ [c])) (.ok a) { committed := c.current } := by
  have hend : Routine.Trace Request.perform (do ask .commit; return a : Script ε α) c [c] (.ok a)
      { committed := c.current } := (trace_commit c).bind (Routine.trace_pure a _)
  exact (trace_connect { committed := d }).bind (hx.bind hend)

theorem trace_connected_of_error {states : List Connection} {c : Connection}
    (hx : Routine.Trace Request.perform x { committed := d } states (.error e) c) :
    Routine.Trace Request.perform (connected x) { committed := d }
      ({ committed := d } :: states) (.error e) c :=
  (trace_connect { committed := d }).bind hx.bind_of_error

end Script

end Sql
