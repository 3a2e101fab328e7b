import ChangePilot.Planning.Persistence

/-!
# Repositories keep sessions

A session as it is meant: a request, the results of the runs on the session in order, and
its plans in order.  Both repositories refine this.  What they hold is a family of
sessions, a call that succeeds does to it what its name says, and what is read is the last
result and the last plan, as they come back from where they are kept.

In memory a session is one record, so that `Holds` compares record by record.  In the
database it is a row with the attempts and the plans in tables of their own, numbered from
one: `Holds` says of each of these tables which entry of the lists stands at which number
(`entryAt`), and there is one lemma for each call that writes.
-/

namespace ChangePilot

structure PlanningSession where
  request : ChangeRequest
  results : List PlanningResult := []
  plans : List ChangePlan := []

abbrev PlanningSessions := String → Option PlanningSession

/-- What a plan is known under. -/
def ChangePlan.identity (plan : ChangePlan) : String × ℕ × String :=
  (plan.planId, plan.version, plan.knowledgeSnapshotDigest)

/-- How results and plans come back from where they are kept. -/
structure PlanningReads where
  result : PlanningResult → Except PlanningError PlanningResult
  plan : ChangePlan → Except PlanningError ChangePlan

/-- A plan comes back under its identity, and so does that of a ready result; no other
result comes back as a ready one. -/
structure PlanningReads.Keep (reads : PlanningReads) : Prop where
  plan : ∀ {saved plan}, reads.plan saved = .ok plan → plan.identity = saved.identity
  ready : ∀ {saved sessionId plan evidence},
    reads.result saved = .ok (.planReady sessionId plan evidence) →
      ∃ sessionId' plan' evidence', saved = .planReady sessionId' plan' evidence' ∧
        plan.identity = plan'.identity

/-- The calls of a repository are operations on the sessions that its states hold. -/
structure PlanningRepository.Refines {ρ : Type} (repository : PlanningRepository ρ)
    (reads : PlanningReads) (holds : ρ → PlanningSessions → Prop) : Prop where
  created : ∀ {s sessions sessionId request next}, holds s sessions →
    repository.createSession s sessionId request = .ok next → sessions sessionId = none ∧
      holds next (Function.update sessions sessionId (some { request := request }))
  request : ∀ {s sessions sessionId request}, holds s sessions →
    (repository.getRequest s sessionId = .ok request ↔
      ∃ session, sessions sessionId = some session ∧ session.request = request)
  updated : ∀ {s sessions sessionId request next}, holds s sessions →
    repository.updateRequest s sessionId request = .ok next →
      ∃ session, sessions sessionId = some session ∧ holds next
        (Function.update sessions sessionId (some { session with request := request }))
  attemptNumber : ∀ {s sessions sessionId session}, holds s sessions →
    sessions sessionId = some session →
      repository.nextAttemptNumber s sessionId = .ok (session.results.length + 1)
  planVersion : ∀ {s sessions sessionId version}, holds s sessions →
    (repository.nextPlanVersion s sessionId = .ok version ↔
      ∃ session, sessions sessionId = some session ∧ session.plans.length.succPNat = version)
  attempted : ∀ {s sessions sessionId session}, holds s sessions →
    sessions sessionId = some session → ∀ request result, ∃ next,
      repository.saveAttempt s sessionId (session.results.length + 1) request result = .ok next ∧
      holds next (Function.update sessions sessionId
        (some { session with request := request, results := session.results ++ [result] }))
  planned : ∀ {s sessions sessionId session plan next}, holds s sessions →
    sessions sessionId = some session → plan.planId = sessionPlanId sessionId →
    plan.version = session.plans.length + 1 → repository.savePlan s sessionId plan = .ok next →
      holds next (Function.update sessions sessionId
        (some { session with plans := session.plans ++ [plan] }))
  latestPlan : ∀ {s sessions sessionId plan}, holds s sessions →
    (repository.getLatestPlan s sessionId = .ok plan ↔ ∃ session saved,
      sessions sessionId = some session ∧ session.plans.getLast? = some saved ∧
        reads.plan saved = .ok plan)
  latestResult : ∀ {s sessions sessionId result}, holds s sessions →
    (repository.getLatestResult s sessionId = .ok result ↔ ∃ session saved,
      sessions sessionId = some session ∧ session.results.getLast? = some saved ∧
        reads.result saved = .ok result)
  bound : ∀ {s sessions sessionId prepared next}, holds s sessions →
    repository.bindPreparedWorkflow s sessionId prepared = .ok next → holds next sessions

/-! ## In memory -/

def MemorySession.session (session : MemorySession) : PlanningSession where
  request := session.request
  results := session.attempts
  plans := session.plans

namespace InMemoryPlanningRepository

def Holds (s : InMemoryPlanningRepository) (sessions : PlanningSessions) : Prop :=
  ∀ sessionId, (s.sessions.get sessionId).map MemorySession.session = sessions sessionId

/-- What is written to memory is what is read. -/
def reads : PlanningReads := ⟨.ok, .ok⟩

theorem reads_keep : reads.Keep where
  plan h := by
    obtain rfl := Except.ok.inj h
    rfl
  ready h := by
    obtain rfl := Except.ok.inj h
    exact ⟨_, _, _, rfl, rfl⟩

variable {s : InMemoryPlanningRepository} {sessions : PlanningSessions} {sessionId : String}

theorem Holds.put (h : s.Holds sessions) (session : MemorySession) :
    Holds ⟨s.sessions.put session⟩
      (Function.update sessions session.sessionId (some session.session)) := by
  intro sessionId
  by_cases hsame : sessionId = session.sessionId
  · subst hsame
    rw [KeyedTable.get_put_self, Function.update_self]
    rfl
  · rw [KeyedTable.get_put_ne _ hsame, Function.update_of_ne hsame]
    exact h sessionId

theorem Holds.find (h : s.Holds sessions) {session : MemorySession}
    (hfind : s.find sessionId = .ok session) :
    session.sessionId = sessionId ∧ sessions sessionId = some session.session := by
  unfold InMemoryPlanningRepository.find at hfind
  split at hfind
  case h_1 found hget =>
    obtain rfl := Except.ok.inj hfind
    exact ⟨((KeyedTable.get_eq_some_iff _).mp hget).2, by rw [← h sessionId, hget]; rfl⟩
  case h_2 => cases hfind

theorem Holds.exists_find (h : s.Holds sessions) {session : PlanningSession}
    (hsession : sessions sessionId = some session) : ∃ found : MemorySession,
      s.find sessionId = .ok found ∧ found.sessionId = sessionId ∧ found.session = session := by
  obtain ⟨found, hget, hfound⟩ := Option.map_eq_some_iff.mp ((h sessionId).trans hsession)
  refine ⟨found, ?_, ((KeyedTable.get_eq_some_iff _).mp hget).2, hfound⟩
  rw [InMemoryPlanningRepository.find, hget]

theorem last_eq_ok_iff {α : Type} {message : String} {values : List α} {value : α} :
    last message values = .ok value ↔ values.getLast? = some value := by
  unfold last
  cases values.getLast? with
  | none => simp only [reduceCtorEq]
  | some other => simp only [Except.ok.injEq, Option.some.injEq]

theorem refines : repository.Refines reads Holds where
  created := by
    intro s sessions sessionId request next h hcall
    have hcreate : s.createSession sessionId request = .ok next := hcall
    unfold createSession at hcreate
    split at hcreate
    · cases hcreate
    case isFalse hnew =>
      obtain rfl := Except.ok.inj hcreate
      refine ⟨?_, h.put { sessionId := sessionId, request := request }⟩
      rw [← h sessionId, Option.not_isSome_iff_eq_none.mp hnew]
      rfl
  request := by
    intro s sessions sessionId request h
    refine Except.map_eq_ok_iff.trans ⟨?_, ?_⟩
    · intro ⟨found, hfind, hrequest⟩
      exact ⟨found.session, (h.find hfind).2, hrequest⟩
    · intro ⟨session, hsession, hrequest⟩
      obtain ⟨found, hfind, _, rfl⟩ := h.exists_find hsession
      exact ⟨found, hfind, hrequest⟩
  updated := by
    intro s sessions sessionId request next h hcall
    obtain ⟨session, hfind, hnext⟩ := Except.bind_eq_ok_iff.mp hcall
    obtain rfl := Except.ok.inj hnext
    obtain ⟨rfl, hsession⟩ := h.find hfind
    exact ⟨session.session, hsession, h.put { session with request := request }⟩
  attemptNumber := by
    intro s sessions sessionId session h hsession
    obtain ⟨found, hfind, _, rfl⟩ := h.exists_find hsession
    exact Except.map_eq_ok_iff.mpr ⟨found, hfind, rfl⟩
  planVersion := by
    intro s sessions sessionId version h
    refine Except.map_eq_ok_iff.trans ⟨?_, ?_⟩
    · intro ⟨found, hfind, hversion⟩
      exact ⟨found.session, (h.find hfind).2, hversion⟩
    · intro ⟨session, hsession, hversion⟩
      obtain ⟨found, hfind, _, rfl⟩ := h.exists_find hsession
      exact ⟨found, hfind, hversion⟩
  attempted := by
    intro s sessions sessionId session h hsession request result
    obtain ⟨found, hfind, rfl, rfl⟩ := h.exists_find hsession
    -- the stored attempts are those of the session, so the number fits
    have hnumber : ¬ found.session.results.length + 1 ≠ found.attempts.length + 1 :=
      not_not_intro rfl
    refine ⟨_, ?_, h.put { found with request := request, attempts := found.attempts ++ [result] }⟩
    show s.saveAttempt _ _ _ _ = _
    rw [saveAttempt, Except.bind_of_eq_ok hfind]
    dsimp only
    rw [if_neg hnumber]
    rfl
  planned := by
    intro s sessions sessionId session plan next h hsession _ hversion hcall
    obtain ⟨found, hfind, hnext⟩ := Except.bind_eq_ok_iff.mp hcall
    obtain ⟨rfl, hfound⟩ := h.find hfind
    obtain rfl := Option.some.inj (hsession.symm.trans hfound)
    -- the plan's version is the next one, by hypothesis
    have hnumber : ¬ plan.version ≠ found.plans.length + 1 := not_not_intro hversion
    dsimp only at hnext
    rw [if_neg hnumber] at hnext
    obtain rfl := Except.ok.inj hnext
    exact h.put { found with plans := found.plans ++ [plan] }
  latestPlan := by
    intro s sessions sessionId plan h
    refine Except.bind_eq_ok_iff.trans ⟨?_, ?_⟩
    · intro ⟨found, hfind, hlast⟩
      exact ⟨found.session, plan, (h.find hfind).2, last_eq_ok_iff.mp hlast, rfl⟩
    · intro ⟨session, saved, hsession, hlast, hread⟩
      obtain ⟨found, hfind, _, rfl⟩ := h.exists_find hsession
      obtain rfl := Except.ok.inj hread
      exact ⟨found, hfind, last_eq_ok_iff.mpr hlast⟩
  latestResult := by
    intro s sessions sessionId result h
    refine Except.bind_eq_ok_iff.trans ⟨?_, ?_⟩
    · intro ⟨found, hfind, hlast⟩
      exact ⟨found.session, result, (h.find hfind).2, last_eq_ok_iff.mp hlast, rfl⟩
    · intro ⟨session, saved, hsession, hlast, hread⟩
      obtain ⟨found, hfind, _, rfl⟩ := h.exists_find hsession
      obtain rfl := Except.ok.inj hread
      exact ⟨found, hfind, last_eq_ok_iff.mpr hlast⟩
  bound := by
    intro s sessions sessionId prepared next h hcall
    obtain ⟨found, hfind, hnext⟩ := Except.bind_eq_ok_iff.mp hcall
    obtain ⟨rfl, hfound⟩ := h.find hfind
    obtain rfl := Except.ok.inj hnext
    -- the prepared workflow is no part of the session
    have hput := h.put { found with prepared := some prepared }
    rwa [show ({ found with prepared := some prepared } : MemorySession).session = found.session
      from rfl, show ({ found with prepared := some prepared } : MemorySession).sessionId =
      found.sessionId from rfl, ← hfound, Function.update_eq_self] at hput

end InMemoryPlanningRepository

/-! ## Numbered entries -/

/-- The entry under a number, counted from one. -/
def entryAt {α : Type} (entries : List α) : ℕ → Option α
  | 0 => none
  | n + 1 => entries[n]?

section

variable {α V : Type} {entries : List α}

theorem entryAt_concat (entry : α) (n : ℕ) : entryAt (entries ++ [entry]) n =
    if n = entries.length + 1 then some entry else entryAt entries n := by
  cases n with
  | zero => rfl
  | succ n =>
      simp only [entryAt, List.getElem?_append, Nat.add_right_cancel_iff]
      rcases lt_trichotomy n entries.length with hlt | rfl | hgt
      · rw [if_pos hlt, if_neg hlt.ne]
      · rw [if_neg (lt_irrefl _), if_pos rfl, Nat.sub_self, List.getElem?_cons_zero]
      · rw [if_neg hgt.not_gt, if_neg hgt.ne', List.getElem?_eq_none hgt.le,
          List.getElem?_eq_none (by rw [List.length_singleton]; omega)]

theorem entryAt_length : entryAt entries entries.length = entries.getLast? := by
  cases entries with
  | nil => rfl
  | cons entry rest =>
      rw [List.getLast?_eq_getElem?]
      rfl

theorem le_length_of_entryAt {n : ℕ} {entry : α} (h : entryAt entries n = some entry) :
    1 ≤ n ∧ n ≤ entries.length := by
  cases n with
  | zero => cases h
  | succ n =>
      obtain ⟨hlt, _⟩ := List.getElem?_eq_some_iff.mp h
      omega

theorem exists_entryAt {n : ℕ} (hpos : 1 ≤ n) (hle : n ≤ entries.length) :
    ∃ entry, entryAt entries n = some entry := by
  obtain ⟨n, rfl⟩ := Nat.exists_eq_add_of_le' hpos
  exact ⟨_, List.getElem?_eq_getElem (show n < entries.length by omega)⟩

variable {rows : List V} {number : V → ℕ} {value : V → α}

/-- Where the rows are the entries under their numbers, the row with the highest number is
the last entry, under the number of entries. -/
theorem argmax_eq_last (hrows : ∀ row ∈ rows, entryAt entries (number row) = some (value row))
    (hall : ∀ n entry, entryAt entries n = some entry → ∃ row ∈ rows, number row = n) :
    (rows.argmax number).map value = entries.getLast? ∧
      (rows.argmax number).elim 0 number = entries.length := by
  have hlast : ∀ row, rows.argmax number = some row → number row = entries.length := by
    intro row hrow
    obtain ⟨hpos, hle⟩ := le_length_of_entryAt (hrows row (List.argmax_mem hrow))
    obtain ⟨entry, hentry⟩ := exists_entryAt (hpos.trans hle) le_rfl
    obtain ⟨top, htop, hnumber⟩ := hall _ _ hentry
    have hmax : number top ≤ number row := List.le_of_mem_argmax htop hrow
    omega
  cases hmax : rows.argmax number with
  | none =>
      obtain rfl := List.argmax_eq_none.mp hmax
      cases entries with
      | nil => exact ⟨rfl, rfl⟩
      | cons entry rest =>
          obtain ⟨row, hrow, _⟩ := hall 1 entry rfl
          cases hrow
  | some row =>
      have hvalue := hrows row (List.argmax_mem hmax)
      rw [hlast row hmax, entryAt_length] at hvalue
      exact ⟨hvalue.symm, hlast row hmax⟩

end

/-! ## SQLite -/

theorem sessionPlanId_injective : Function.Injective sessionPlanId := by
  intro a b h
  have htexts : a ++ "-plan" = b ++ "-plan" := h
  have hlists := congrArg String.toList htexts
  rw [String.toList_append, String.toList_append] at hlists
  exact String.toList_injective (List.append_cancel_right hlists)

/-- What comes back from the columns. -/
def JsonColumns.reads (columns : JsonColumns) : PlanningReads := ⟨columns.result, columns.plan⟩

namespace SQLitePlanningRepository

/-- The tables are those of the sessions: a row for each session, one for each result
under its number and one for each plan under its version. -/
structure Holds (s : SQLitePlanningRepository) (sessions : PlanningSessions) : Prop where
  rows : ∀ sessionId, (s.sessions.get sessionId).map
      (fun row => (row.request, row.latestPlanVersion)) =
    (sessions sessionId).map fun session => (session.request, session.plans.length)
  attempts : ∀ sessionId n, (s.attempts.get (toLex (sessionId, n))).map AttemptRow.result =
    (sessions sessionId).bind fun session => entryAt session.results n
  plans : ∀ sessionId n, (s.plans.get (toLex (sessionPlanId sessionId, n))).map PlanRow.plan =
    (sessions sessionId).bind fun session => entryAt session.plans n
  planIds : ∀ row ∈ s.plans.rows, row.planId = sessionPlanId row.sessionId

variable {s : SQLitePlanningRepository} {sessions : PlanningSessions} {sessionId : String}

theorem Holds.exists_session (h : s.Holds sessions) {row : SessionRow}
    (hrow : s.sessions.get sessionId = some row) : ∃ session, sessions sessionId = some session ∧
      row.request = session.request ∧ row.latestPlanVersion = session.plans.length := by
  have hrows := h.rows sessionId
  rw [hrow] at hrows
  obtain ⟨session, hsession, heq⟩ := Option.map_eq_some_iff.mp hrows.symm
  obtain ⟨hrequest, hversion⟩ := Prod.mk.inj heq
  exact ⟨session, hsession, hrequest.symm, hversion.symm⟩

theorem Holds.exists_row (h : s.Holds sessions) {session : PlanningSession}
    (hsession : sessions sessionId = some session) : ∃ row, s.sessions.get sessionId = some row ∧
      row.request = session.request ∧ row.latestPlanVersion = session.plans.length := by
  have hrows := h.rows sessionId
  rw [hsession] at hrows
  obtain ⟨row, hrow, heq⟩ := Option.map_eq_some_iff.mp hrows
  obtain ⟨hrequest, hversion⟩ := Prod.mk.inj heq
  exact ⟨row, hrow, hrequest, hversion⟩

theorem Holds.eq_none (h : s.Holds sessions) (hnone : s.sessions.get sessionId = none) :
    sessions sessionId = none := by
  have hrows := h.rows sessionId
  rw [hnone] at hrows
  exact Option.map_eq_none_iff.mp hrows.symm

theorem mem_attemptsOf {row : AttemptRow} :
    row ∈ s.attemptsOf sessionId ↔ row ∈ s.attempts.rows ∧ row.sessionId = sessionId := by
  rw [attemptsOf, List.mem_filter, decide_eq_true_iff]

theorem mem_plansOf {row : PlanRow} :
    row ∈ s.plansOf sessionId ↔ row ∈ s.plans.rows ∧ row.sessionId = sessionId := by
  rw [plansOf, List.mem_filter, decide_eq_true_iff]

/-- The latest attempt is the last result, under the number of results. -/
theorem Holds.latestAttempt (h : s.Holds sessions) {session : PlanningSession}
    (hsession : sessions sessionId = some session) :
    (s.latestAttempt sessionId).map AttemptRow.result = session.results.getLast? ∧
      (s.latestAttempt sessionId).elim 0 AttemptRow.attemptNo = session.results.length := by
  have hentry : ∀ n, (s.attempts.get (toLex (sessionId, n))).map AttemptRow.result =
      entryAt session.results n := by
    intro n
    rw [h.attempts, hsession, Option.bind_some]
  refine argmax_eq_last (fun row hrow => ?_) fun n entry hn => ?_
  · obtain ⟨hmem, rfl⟩ := mem_attemptsOf.mp hrow
    rw [← hentry, show toLex (row.sessionId, row.attemptNo) = row.key from rfl,
      KeyedTable.get_key hmem]
    rfl
  · rw [← hentry] at hn
    obtain ⟨row, hrow, _⟩ := Option.map_eq_some_iff.mp hn
    obtain ⟨hmem, hkey⟩ := (KeyedTable.get_eq_some_iff _).mp hrow
    obtain ⟨hid, hno⟩ := Prod.mk.inj (toLex_inj.mp hkey)
    exact ⟨row, mem_attemptsOf.mpr ⟨hmem, hid⟩, hno⟩

/-- The plan with the latest version is the last plan. -/
theorem Holds.latestPlan (h : s.Holds sessions) {session : PlanningSession}
    (hsession : sessions sessionId = some session) :
    (s.latestPlan sessionId).map PlanRow.plan = session.plans.getLast? := by
  have hentry : ∀ n, (s.plans.get (toLex (sessionPlanId sessionId, n))).map PlanRow.plan =
      entryAt session.plans n := by
    intro n
    rw [h.plans, hsession, Option.bind_some]
  refine (argmax_eq_last (fun row hrow => ?_) fun n entry hn => ?_).1
  · obtain ⟨hmem, rfl⟩ := mem_plansOf.mp hrow
    rw [← hentry, ← h.planIds row hmem,
      show toLex (row.planId, row.version) = row.key from rfl, KeyedTable.get_key hmem]
    rfl
  · rw [← hentry] at hn
    obtain ⟨row, hrow, _⟩ := Option.map_eq_some_iff.mp hn
    obtain ⟨hmem, hkey⟩ := (KeyedTable.get_eq_some_iff _).mp hrow
    obtain ⟨hid, hversion⟩ := Prod.mk.inj (toLex_inj.mp hkey)
    refine ⟨row, mem_plansOf.mpr ⟨hmem, ?_⟩, hversion⟩
    exact sessionPlanId_injective ((h.planIds row hmem).symm.trans hid)

/-- There is nothing under an unknown session. -/
theorem Holds.latest_eq_none (h : s.Holds sessions) (hnone : sessions sessionId = none) :
    s.latestAttempt sessionId = none ∧ s.latestPlan sessionId = none := by
  constructor
  · refine List.argmax_eq_none.mpr (List.eq_nil_iff_forall_not_mem.mpr fun row hrow => ?_)
    obtain ⟨hmem, rfl⟩ := mem_attemptsOf.mp hrow
    have hattempts := h.attempts row.sessionId row.attemptNo
    rw [hnone, show toLex (row.sessionId, row.attemptNo) = row.key from rfl,
      KeyedTable.get_key hmem] at hattempts
    cases hattempts
  · refine List.argmax_eq_none.mpr (List.eq_nil_iff_forall_not_mem.mpr fun row hrow => ?_)
    obtain ⟨hmem, rfl⟩ := mem_plansOf.mp hrow
    have hplans := h.plans row.sessionId row.version
    rw [hnone, ← h.planIds row hmem, show toLex (row.planId, row.version) = row.key from rfl,
      KeyedTable.get_key hmem] at hplans
    cases hplans

/-! ### Writing -/

theorem get_updateSession {change : SessionRow → SessionRow}
    (hchange : ∀ row, (change row).sessionId = row.sessionId) (k : String) :
    (s.updateSession sessionId change).get k =
      if k = sessionId then (s.sessions.get sessionId).map change else s.sessions.get k := by
  unfold updateSession
  cases hrow : s.sessions.get sessionId with
  | none =>
      dsimp only
      split
      case isTrue hsame => rw [hsame, hrow, Option.map_none]
      case isFalse => rfl
  | some row =>
      have hid := (hchange row).trans ((KeyedTable.get_eq_some_iff _).mp hrow).2
      simp only [KeyedTable.get_put, hid, Option.map_some]

/-- The rows of the sessions after one of them is updated. -/
theorem Holds.updated_rows (h : s.Holds sessions) {session after : PlanningSession}
    (hsession : sessions sessionId = some session) {change : SessionRow → SessionRow}
    (hid : ∀ row, (change row).sessionId = row.sessionId)
    (hchange : ∀ row : SessionRow, row.request = session.request →
      row.latestPlanVersion = session.plans.length →
      (change row).request = after.request ∧ (change row).latestPlanVersion = after.plans.length)
    (k : String) : ((s.updateSession sessionId change).get k).map
        (fun row => (row.request, row.latestPlanVersion)) =
      (Function.update sessions sessionId (some after) k).map fun session =>
        (session.request, session.plans.length) := by
  rw [get_updateSession hid]
  by_cases hsame : k = sessionId
  · subst hsame
    obtain ⟨row, hrow, hrequest, hversion⟩ := h.exists_row hsession
    obtain ⟨hrequest, hversion⟩ := hchange row hrequest hversion
    rw [if_pos rfl, Function.update_self, hrow]
    exact congrArg some (Prod.ext hrequest hversion)
  · rw [if_neg hsame, Function.update_of_ne hsame]
    exact h.rows k

/-- What is looked up by number in the sessions does not change with an entry that stays. -/
theorem bind_update {α : Type} {entries : PlanningSession → List α} {n : ℕ}
    {session after : PlanningSession} (hsession : sessions sessionId = some session)
    (hsame : entries after = entries session) (k : String) :
    ((Function.update sessions sessionId (some after) k).bind fun session =>
        entryAt (entries session) n) =
      (sessions k).bind fun session => entryAt (entries session) n := by
  by_cases hk : k = sessionId
  · subst hk
    rw [Function.update_self, hsession, Option.bind_some, Option.bind_some, hsame]
  · rw [Function.update_of_ne hk]

/-- A table of numbered entries after one has been put at the end of those of a session. -/
theorem map_get_put {V α : Type} {key : V → String ×ₗ ℕ} {t : KeyedTable key} {value : V → α}
    {f : String → String} (hname : Function.Injective f)
    {entries : PlanningSession → List α}
    (ht : ∀ k n, (t.get (toLex (f k, n))).map value =
      (sessions k).bind fun session => entryAt (entries session) n)
    {session after : PlanningSession} (hsession : sessions sessionId = some session) {row : V}
    (hkey : key row = toLex (f sessionId, (entries session).length + 1))
    (hafter : entries after = entries session ++ [value row]) (k : String) (n : ℕ) :
    ((t.put row).get (toLex (f k, n))).map value =
      (Function.update sessions sessionId (some after) k).bind fun session =>
        entryAt (entries session) n := by
  have hiff : toLex (f k, n) = key row ↔ k = sessionId ∧ n = (entries session).length + 1 := by
    rw [hkey, toLex_inj, Prod.mk.injEq, hname.eq_iff]
  rw [KeyedTable.get_put]
  by_cases hk : k = sessionId
  · subst hk
    rw [Function.update_self, Option.bind_some, hafter, entryAt_concat]
    by_cases hn : n = (entries session).length + 1
    · rw [if_pos (hiff.mpr ⟨rfl, hn⟩), if_pos hn]
      rfl
    · rw [if_neg fun h => hn (hiff.mp h).2, if_neg hn, ht, hsession, Option.bind_some]
  · rw [if_neg fun h => hk (hiff.mp h).1, Function.update_of_ne hk, ht]

theorem Holds.createSession (h : s.Holds sessions) {request : ChangeRequest}
    {next : SQLitePlanningRepository} (hnext : s.createSession sessionId request = .ok next) :
    sessions sessionId = none ∧
      next.Holds (Function.update sessions sessionId (some { request := request })) := by
  unfold SQLitePlanningRepository.createSession at hnext
  split at hnext
  · cases hnext
  case isFalse hnew =>
    obtain rfl := Except.ok.inj hnext
    have hnone := h.eq_none (Option.not_isSome_iff_eq_none.mp hnew)
    -- the new session has no attempt and no plan, so the other tables agree with it
    have hempty : ∀ {α : Type} (entries : PlanningSession → List α) (n : ℕ),
        entries { request := request } = [] → ∀ k,
        ((Function.update sessions sessionId (some { request := request }) k).bind fun session =>
          entryAt (entries session) n) =
          (sessions k).bind fun session => entryAt (entries session) n := by
      intro α entries n hentries k
      by_cases hk : k = sessionId
      · subst hk
        rw [Function.update_self, hnone, Option.bind_some, hentries]
        cases n <;> rfl
      · rw [Function.update_of_ne hk]
    refine ⟨hnone, fun k => ?_, fun k n => ?_, fun k n => ?_, h.planIds⟩
    · by_cases hk : k = sessionId
      · subst hk
        rw [KeyedTable.get_put, if_pos rfl, Function.update_self]
        rfl
      · rw [KeyedTable.get_put_ne _ hk, Function.update_of_ne hk]
        exact h.rows k
    · rw [hempty PlanningSession.results n rfl k]
      exact h.attempts k n
    · rw [hempty PlanningSession.plans n rfl k]
      exact h.plans k n

theorem Holds.updateRequest (h : s.Holds sessions) {request : ChangeRequest}
    {next : SQLitePlanningRepository} (hnext : s.updateRequest sessionId request = .ok next) :
    ∃ session, sessions sessionId = some session ∧ next.Holds
      (Function.update sessions sessionId (some { session with request := request })) := by
  unfold SQLitePlanningRepository.updateRequest at hnext
  split at hnext
  case isTrue hknown =>
    obtain rfl := Except.ok.inj hnext
    obtain ⟨row, hrow⟩ := Option.isSome_iff_exists.mp hknown
    obtain ⟨session, hsession, _⟩ := h.exists_session hrow
    refine ⟨session, hsession, ?_, fun k n => ?_, fun k n => ?_, h.planIds⟩
    · exact h.updated_rows hsession (fun _ => rfl) fun _ _ hversion => ⟨rfl, hversion⟩
    · exact (h.attempts k n).trans (bind_update hsession (by rfl) k).symm
    · exact (h.plans k n).trans (bind_update hsession (by rfl) k).symm
  case isFalse => cases hnext

theorem Holds.exists_saveAttempt (h : s.Holds sessions) {session : PlanningSession}
    (hsession : sessions sessionId = some session) (request : ChangeRequest)
    (result : PlanningResult) : ∃ next,
      s.saveAttempt sessionId (session.results.length + 1) request result = .ok next ∧
      next.Holds (Function.update sessions sessionId
        (some { session with request := request, results := session.results ++ [result] })) := by
  obtain ⟨row, hrow, _⟩ := h.exists_row hsession
  have hknown : ¬ (s.sessions.get sessionId).isNone := by
    rw [hrow]
    exact Bool.false_ne_true
  -- attempts are numbered without a gap, so the next number is not taken
  have hnew : ¬ (s.attempts.get (toLex (sessionId, session.results.length + 1))).isSome := by
    have hattempts := h.attempts sessionId (session.results.length + 1)
    rw [hsession, Option.bind_some] at hattempts
    intro hsome
    -- a row of that number would make the list longer than it is
    obtain ⟨old, hold⟩ := Option.isSome_iff_exists.mp hsome
    rw [hold] at hattempts
    have hle := (le_length_of_entryAt hattempts.symm).2
    omega
  refine ⟨{ s with
    attempts := s.attempts.put ⟨sessionId, session.results.length + 1, request, result⟩
    sessions := s.updateSession sessionId fun row =>
      { row with request := request, status := result.kind } }, ?_, ?_, fun k n => ?_, fun k n => ?_,
    h.planIds⟩
  · unfold SQLitePlanningRepository.saveAttempt
    dsimp only
    split
    case isTrue hold => exact absurd hold hnew
    case isFalse => rfl
  · exact h.updated_rows hsession (fun _ => rfl) fun _ _ hversion => ⟨rfl, hversion⟩
  · exact map_get_put (f := id) Function.injective_id h.attempts hsession rfl rfl k n
  · exact (h.plans k n).trans (bind_update hsession (by rfl) k).symm

theorem supersede_plan (row : PlanRow) : (supersede sessionId row).plan = row.plan := by
  unfold supersede
  split <;> rfl

theorem supersede_ids (row : PlanRow) : (supersede sessionId row).planId = row.planId ∧
    (supersede sessionId row).sessionId = row.sessionId := by
  unfold supersede
  split <;> exact ⟨rfl, rfl⟩

theorem Holds.savePlan (h : s.Holds sessions) {session : PlanningSession}
    (hsession : sessions sessionId = some session) {plan : ChangePlan}
    (hid : plan.planId = sessionPlanId sessionId) (hversion : plan.version = session.plans.length + 1)
    {next : SQLitePlanningRepository} (hnext : s.savePlan sessionId plan = .ok next) :
    next.Holds (Function.update sessions sessionId
      (some { session with plans := session.plans ++ [plan] })) := by
  unfold SQLitePlanningRepository.savePlan at hnext
  dsimp only at hnext
  split at hnext
  · cases hnext
  split at hnext
  · cases hnext
  obtain rfl := Except.ok.inj hnext
  refine ⟨?_, fun k n => ?_, fun k n => ?_, fun row hrow => ?_⟩
  · refine h.updated_rows hsession (fun _ => rfl) fun _ hrequest _ => ⟨hrequest, ?_⟩
    rw [hversion, List.length_append, List.length_singleton]
  · exact (h.attempts k n).trans (bind_update hsession (by rfl) k).symm
  · refine map_get_put sessionPlanId_injective (fun k n => ?_) hsession ?_ rfl k n
    · rw [KeyedTable.get_mapRows, Option.map_map, ← h.plans]
      exact congrArg (Option.map · _) (funext supersede_plan)
    · show toLex (plan.planId, plan.version) = _
      rw [hid, hversion]
  · rcases KeyedTable.mem_put.mp hrow with rfl | ⟨hrow, _⟩
    · exact hid
    · obtain ⟨old, hold, rfl⟩ := List.mem_map.mp hrow
      rw [(supersede_ids old).1, (supersede_ids old).2]
      exact h.planIds old hold

theorem Holds.bindPreparedWorkflow (h : s.Holds sessions) {prepared : PreparedWorkflow}
    {next : SQLitePlanningRepository}
    (hnext : s.bindPreparedWorkflow sessionId prepared = .ok next) : next.Holds sessions := by
  unfold SQLitePlanningRepository.bindPreparedWorkflow at hnext
  split at hnext
  case h_1 row hrow =>
    obtain rfl := Except.ok.inj hnext
    obtain ⟨hget, _⟩ := Option.filter_eq_some_iff.mp hrow
    obtain ⟨hmem, hkey⟩ := (KeyedTable.get_eq_some_iff _).mp hget
    refine ⟨h.rows, h.attempts, fun k n => ?_, fun other hother => ?_⟩
    · rw [KeyedTable.get_put]
      split
      case isTrue hsame =>
        have hrow : s.plans.get (toLex (sessionPlanId k, n)) = some row := by
          rw [hsame]
          exact KeyedTable.get_key hmem
        rw [← h.plans, hrow]
        rfl
      case isFalse => exact h.plans k n
    · rcases KeyedTable.mem_put.mp hother with rfl | ⟨hother, _⟩
      · exact h.planIds row hmem
      · exact h.planIds other hother
  case h_2 => cases hnext

theorem refines (columns : JsonColumns) : (repository columns).Refines columns.reads Holds where
  created h hcall := h.createSession hcall
  request := by
    intro s sessions sessionId request h
    constructor
    · intro hcall
      simp only [repository] at hcall
      split at hcall
      case h_1 row hrow =>
        obtain rfl := Except.ok.inj hcall
        obtain ⟨session, hsession, hrequest, _⟩ := h.exists_session hrow
        exact ⟨session, hsession, hrequest.symm⟩
      case h_2 => cases hcall
    · intro ⟨session, hsession, hrequest⟩
      obtain ⟨row, hrow, hread, _⟩ := h.exists_row hsession
      simp only [repository, hrow, hread, hrequest]
  updated h hcall := h.updateRequest hcall
  attemptNumber := by
    intro s sessions sessionId session h hsession
    simp only [repository, (h.latestAttempt hsession).2]
  planVersion := by
    intro s sessions sessionId version h
    show s.nextPlanVersion sessionId = _ ↔ _
    unfold nextPlanVersion
    constructor
    · intro hcall
      split at hcall
      case h_1 row hrow =>
        obtain ⟨session, hsession, _, hlatest⟩ := h.exists_session hrow
        exact ⟨session, hsession, (congrArg Nat.succPNat hlatest).symm.trans (Except.ok.inj hcall)⟩
      case h_2 => cases hcall
    · intro ⟨session, hsession, hversion⟩
      obtain ⟨row, hrow, _, hlatest⟩ := h.exists_row hsession
      simp only [hrow, hlatest, hversion]
  attempted h hsession request result := h.exists_saveAttempt hsession request result
  planned h hsession hid hversion hcall := h.savePlan hsession hid hversion hcall
  latestPlan := by
    intro s sessions sessionId plan h
    constructor
    · intro hcall
      simp only [repository] at hcall
      split at hcall
      -- no plan of an unknown session is stored
      case h_1 row hrow =>
        cases hsession : sessions sessionId with
        | none =>
            rw [(h.latest_eq_none hsession).2] at hrow
            cases hrow
        | some session =>
            have hlatest := h.latestPlan hsession
            rw [hrow] at hlatest
            exact ⟨session, row.plan, rfl, hlatest.symm, hcall⟩
      case h_2 => cases hcall
    · intro ⟨session, saved, hsession, hlast, hread⟩
      obtain ⟨row, hrow, rfl⟩ := Option.map_eq_some_iff.mp ((h.latestPlan hsession).trans hlast)
      simp only [repository, hrow]
      exact hread
  latestResult := by
    intro s sessions sessionId result h
    constructor
    · intro hcall
      simp only [repository] at hcall
      split at hcall
      case h_1 row hrow =>
        cases hsession : sessions sessionId with
        | none =>
            rw [(h.latest_eq_none hsession).1] at hrow
            cases hrow
        | some session =>
            have hlatest := (h.latestAttempt hsession).1
            rw [hrow] at hlatest
            exact ⟨session, row.result, rfl, hlatest.symm, hcall⟩
      case h_2 => cases hcall
    · intro ⟨session, saved, hsession, hlast, hread⟩
      obtain ⟨row, hrow, rfl⟩ :=
        Option.map_eq_some_iff.mp ((h.latestAttempt hsession).1.trans hlast)
      simp only [repository, hrow]
      exact hread
  bound h hcall := h.bindPreparedWorkflow hcall

end SQLitePlanningRepository

end ChangePilot
