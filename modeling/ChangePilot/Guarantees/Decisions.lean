import ChangePilot.Guarantees.AuditLog

/-!
# One decision for each request

A run that waits for an approval waits for one pending request.  A request is decided once:
its status is the one that the only decision in the log gave it, unless its execution has
changed since.
-/

namespace ChangePilot

/-! ## The decisions in a log -/

/-- The event decides the request with the id. -/
def AuditEvent.Settles (id : String) (event : AuditEvent) : Prop :=
  event.eventType ∈ [.approvalApproved, .approvalRejected] ∧ event.requestId? = some id

instance (id : String) : DecidablePred (AuditEvent.Settles id) :=
  fun _ => inferInstanceAs (Decidable (_ ∧ _))

/-- The decisions on a request, in the order in which they were made. -/
def decisionsOn (id : String) (log : List AuditEvent) : List EventType :=
  (log.filter fun event => event.Settles id).map AuditEvent.eventType

/-- The decisions that a request with the status has had. -/
inductive ApprovalStatus.Had : Option ApprovalStatus → List EventType → Prop
  | absent : Had none []
  | pending : Had (some .pending) []
  | approved : Had (some .approved) [.approvalApproved]
  | rejected : Had (some .rejected) [.approvalRejected]
  | invalidated : Had (some .invalidated) []
  | approvedBefore : Had (some .invalidated) [.approvalApproved]

/-- A request may get the status. -/
def ApprovalStatus.Later : Option ApprovalStatus → Option ApprovalStatus → Prop
  | some .approved, later => later ∈ [some .approved, some .invalidated]
  | some .rejected, later => later = some .rejected
  | some .invalidated, later => later = some .invalidated
  | some .pending, later => later ≠ none
  | none, _ => True

namespace Trail

variable {trail trail' : Trail} {event : AuditEvent}

/-- What an event does to the request with the id. -/
theorem next_requests (h : trail.next event = some trail') (id : String) :
    (trail'.requests id = trail.requests id ∧ ¬ event.Settles id) ∨
      ∃ status, event.requestId? = some id ∧
        requestMove event.eventType (trail.requests id) = some status ∧
        trail'.requests id = some status := by
  -- an event of a request moves this one only
  have moved (hnext : trail.nextRequest event = some trail') :
      (trail'.requests id = trail.requests id ∧ ¬ event.Settles id) ∨
        ∃ status, event.requestId? = some id ∧
          requestMove event.eventType (trail.requests id) = some status ∧
          trail'.requests id = some status := by
    obtain ⟨other, hother, hnext⟩ := Option.bind_eq_some_iff.mp hnext
    obtain ⟨status, hstatus, rfl⟩ := Option.map_eq_some_iff.mp hnext
    by_cases hid : id = other
    · subst hid
      exact Or.inr ⟨status, hother, hstatus, Function.update_self ..⟩
    · exact Or.inl ⟨Function.update_of_ne hid .., fun hdecides =>
        hid (Option.some.inj (hdecides.2.symm.trans hother))⟩
  -- the other events do not touch requests
  have kept (htype : event.eventType ∉ [.approvalApproved, .approvalRejected])
      (hrequests : trail'.requests = trail.requests) :
      trail'.requests id = trail.requests id ∧ ¬ event.Settles id :=
    ⟨congrFun hrequests id, fun hdecides => htype hdecides.1⟩
  unfold next at h
  cases htype : event.eventType with
  | approvalCreated | approvalInvalidated | approvalApproved | approvalRejected =>
      simp only [htype] at h moved
      split at h
      · exact moved h
      · cases h
  | runStateChanged =>
      simp only [htype, nextRun] at h
      split at h <;> try cases h
      split at h <;> cases h
      exact Or.inl (kept (by simp [htype]) rfl)
  | stepStateChanged =>
      simp only [htype, nextStep] at h
      split at h <;> try cases h
      split at h <;> cases h
      exact Or.inl (kept (by simp [htype]) rfl)
  | _ =>
      simp only [htype] at h
      split at h <;> cases h
      exact Or.inl (kept (by simp [htype]) rfl)

end Trail

/-! ## What a log says of a request -/

theorem decisionsOn_append (id : String) (log more : List AuditEvent) :
    decisionsOn id (log ++ more) = decisionsOn id log ++ decisionsOn id more := by
  simp [decisionsOn]

/-- A request moves on with the decision that moves it. -/
theorem ApprovalStatus.Had.move {before : Option ApprovalStatus} {decisions : List EventType}
    (h : Had before decisions) {event : AuditEvent} {id : String} {status : ApprovalStatus}
    (hid : event.requestId? = some id)
    (hmove : Trail.requestMove event.eventType before = some status) :
    Had (some status) (decisions ++ decisionsOn id [event]) := by
  cases htype : event.eventType <;> rw [htype] at hmove <;> cases h <;> cases hmove <;>
    simp [decisionsOn, AuditEvent.Settles, htype, hid] <;> constructor

theorem ApprovalStatus.Later.trans {a b c : Option ApprovalStatus} (hab : Later a b)
    (hbc : Later b c) : Later a c := by
  rcases a with _ | _ | _ | _ | _ <;> rcases b with _ | _ | _ | _ | _ <;>
    rcases c with _ | _ | _ | _ | _ <;> simp_all [Later]

theorem ApprovalStatus.later_refl (status : Option ApprovalStatus) : Later status status := by
  rcases status with _ | _ | _ | _ | _ <;> simp [Later]

theorem Trail.later_of_requestMove {eventType : EventType} {before : Option ApprovalStatus}
    {status : ApprovalStatus} (h : requestMove eventType before = some status) :
    ApprovalStatus.Later before (some status) := by
  cases eventType <;> rcases before with _ | _ | _ | _ | _ <;> cases h <;>
    simp [ApprovalStatus.Later]

/-- The decisions that a log holds are those that the status in the end tells. -/
theorem had_of_replays {log : List AuditEvent} (id : String) : ∀ {final : Trail},
    Replays Trail.next .start log final →
      ApprovalStatus.Had (final.requests id) (decisionsOn id log) := by
  induction log using List.reverseRecOn with
  | nil =>
      intro final h
      obtain rfl := Replays.nil_iff.mp h
      exact .absent
  | append_singleton log event ih =>
      intro final h
      obtain ⟨middle, hlog, hevent⟩ := Replays.append_iff.mp h
      obtain ⟨last, hnext, hlast⟩ := Replays.cons_iff.mp hevent
      obtain rfl := Replays.nil_iff.mp hlast
      rw [decisionsOn_append]
      rcases Trail.next_requests hnext id with ⟨hsame, hdecides⟩ | ⟨status, hid, hmove, hstatus⟩
      · rw [hsame, decisionsOn, decisionsOn, List.filter_singleton, decide_eq_false hdecides]
        simpa [decisionsOn] using ih hlog
      · rw [hstatus]
        exact (ih hlog).move hid hmove

theorem later_of_replays {log : List AuditEvent} (id : String) : ∀ {first final : Trail},
    Replays Trail.next first log final →
      ApprovalStatus.Later (first.requests id) (final.requests id) := by
  induction log with
  | nil =>
      intro first final h
      obtain rfl := Replays.nil_iff.mp h
      exact ApprovalStatus.later_refl _
  | cons event rest ih =>
      intro first final h
      obtain ⟨middle, hnext, hrest⟩ := Replays.cons_iff.mp h
      refine ApprovalStatus.Later.trans ?_ (ih hrest)
      rcases Trail.next_requests hnext id with ⟨hsame, _⟩ | ⟨status, _, hmove, hstatus⟩
      · exact hsame ▸ ApprovalStatus.later_refl _
      · exact hstatus ▸ Trail.later_of_requestMove hmove

/-! ## What a run waits for -/

/-- A run that waits has been waiting for what it waits for, or asks for it now. -/
def RunRecord.KeepsAsking (v w : RunRecord) : Prop :=
  w.run.state = .waitingApproval →
    (v.run.state = .waitingApproval ∧ w.approvals = v.approvals) ∨ w.Asks

namespace RunRecord.KeepsAsking

variable {v w : RunRecord}

theorem of_moved {target : RunState} (hrun : w.run.state = target)
    (hne : target ≠ .waitingApproval) : v.KeepsAsking w :=
  fun hwaiting => absurd (hrun.symm.trans hwaiting) hne

/-- The run stays as it is, or goes on to a state in which it does not wait. -/
theorem of_kept (happrovals : w.approvals = v.approvals)
    (hrun : w.run.state = v.run.state ∨ w.run.state ≠ .waitingApproval) : v.KeepsAsking w :=
  fun hwaiting => Or.inl ⟨hrun.elim (fun h => h ▸ hwaiting) fun h => absurd hwaiting h, happrovals⟩

end RunRecord.KeepsAsking

section

variable {v : RunRecord} {outcome : ExecutionOutcome} {run : WorkflowRun}

theorem RunRecord.Settles.kept {nextState : StepState} (h : v.Settles nextState outcome run) :
    run.state = v.run.state ∨ run.state ≠ .waitingApproval := by
  cases h with
  | unaffected => exact Or.inl rfl
  | completed | failed | compensating => exact Or.inr (by simp)

theorem RunRecord.CompensationSettles.kept (h : v.CompensationSettles outcome run) :
    run.state = v.run.state ∨ run.state ≠ .waitingApproval := by
  cases h with
  | remaining => exact Or.inl rfl
  | completed | failed => exact Or.inr (by simp)

theorem RunRecord.AppliedSettles.kept {stepId : String} {phase : ToolExecutionPhase}
    (h : v.AppliedSettles stepId phase run) :
    run.state = v.run.state ∨ run.state ≠ .waitingApproval := by
  cases h with
  | unaffected => exact Or.inl rfl
  | compensated | compensatedAtOnce | completed => exact Or.inr (by simp)

end

section

variable {base : MemoryStore} {v : RunRecord}

theorem commitAttemptStarted_keepsAsking {attempt : StepAttempt}
    (h : base.record attempt.runId = some v) :
    Tx.Ensures (commitAttemptStarted attempt) (fun _ staged =>
      ∃ w, v.Turns staged w ∧ v.KeepsAsking w) base [] := by
  refine (commitAttemptStarted_tells h).mono ?_
  rintro _ staged ⟨htells, happrovals, hrun⟩
  refine ⟨_, ⟨htells.own, rfl⟩, .of_kept happrovals (hrun.imp (congrArg _) fun h => ?_)⟩
  simp [h]

theorem persistOutcome_keepsAsking {cfg : Deployment} {outcome : ExecutionOutcome}
    {completedAt : Timestamp} {sensitivePaths : List (List String)}
    (hbase : base.record outcome.runId = some v) :
    Tx.Ensures (persistOutcome cfg outcome completedAt sensitivePaths) (fun _ staged =>
      ∃ w, v.Turns staged w ∧ v.KeepsAsking w) base [] := by
  refine (persistOutcome_spec hbase).mono ?_
  rintro _ staged ⟨w, hturns, ⟨_, _, _, _, _, _, run, _, _, _, _, _, _, _, _, hsettles, _, rfl⟩ |
    ⟨_, _, run, _, _, _, hsettles, _, rfl⟩⟩
  · exact ⟨_, hturns, .of_kept rfl hsettles.kept⟩
  · exact ⟨_, hturns, .of_kept rfl hsettles.kept⟩

theorem recoverAttempt_keepsAsking {cfg : Deployment} {answers : ProbeAnswers}
    {runId stepId : String} {expected : StepAttempt} {occurredAt : Timestamp}
    (hbase : base.record runId = some v) :
    Tx.Ensures (recoverAttempt cfg answers runId stepId expected occurredAt) (fun _ staged =>
      ∃ w, v.Turns staged w ∧ v.KeepsAsking w) base [] := by
  refine (recoverAttempt_spec hbase).mono ?_
  rintro _ staged ⟨_, _, _, w, hturns, _, _, _, _, _, _,
    ⟨_, _, _, _, _, _, _, hsettles, _, rfl⟩ | ⟨_, _, _, _, _, rfl⟩ |
      ⟨_, run, hrun, _, _, _, _, _, rfl⟩⟩
  · exact ⟨_, hturns, .of_kept rfl hsettles.kept⟩
  · exact ⟨_, hturns, .of_kept rfl (Or.inl rfl)⟩
  · refine ⟨_, hturns, .of_kept rfl (Or.inr ?_)⟩
    rcases hrun with rfl | rfl <;> simp

theorem UnitOf.keepsAsking {cfg : Deployment} {runId : String} {α : Type}
    {body : UowM (Exit α)} (h : UnitOf cfg runId body) :
    body.Turns RunRecord.KeepsAsking runId := by
  intro base v hv
  cases h with
  | cancelRun =>
      refine (cancelRun_spec hv).mono ?_
      rintro (_ | _) staged ⟨_, hturns⟩
      exacts [fun _ => ⟨_, hturns, .of_moved rfl (by simp)⟩, trivial]
  | decide =>
      refine (decide_spec hv).mono ?_
      rintro (_ | _) staged ⟨_, target, _, _, _, _, _, _, hstate, htarget, _, _, _, hturns⟩
      -- a decision never leads back to waiting
      · refine fun _ => ⟨_, hturns, .of_moved rfl ?_⟩
        rintro rfl
        rw [hstate] at htarget
        exact absurd htarget (by decide)
      · trivial
  | promoteDueRetries =>
      refine (promoteDueRetries_spec hv).mono ?_
      rintro (_ | _) staged hstaged
      · obtain ⟨_, hturns, _, _, rfl, _⟩ := hstaged
        exact fun _ => ⟨_, hturns, .of_kept rfl (Or.inl rfl)⟩
      · trivial
  | promoteDependencyReadySteps =>
      refine (promoteDependencyReadySteps_spec hv).mono ?_
      rintro (_ | _) staged hstaged
      · obtain ⟨_, hturns, _, _, rfl, _⟩ := hstaged
        exact fun _ => ⟨_, hturns, .of_kept rfl (Or.inl rfl)⟩
      · trivial
  | establishApprovalBarrier =>
      refine (establishApprovalBarrier_tells hv).mono ?_
      rintro (_ | _) staged hstaged
      · exact fun hvalid => ⟨_, ⟨(hstaged hvalid).1.own, rfl⟩,
          fun _ => Or.inr ((hstaged hvalid).2 trivial)⟩
      · trivial
  | commitAttemptStarted attempt hrun =>
      refine (commitAttemptStarted_keepsAsking (hrun.symm ▸ hv)).mono ?_
      rintro (_ | _) staged hstaged
      exacts [fun _ => hstaged, trivial]
  | persistOutcome outcome completedAt sensitivePaths hrun =>
      refine (persistOutcome_keepsAsking (hrun.symm ▸ hv)).mono ?_
      rintro (_ | _) staged hstaged
      exacts [fun _ => hstaged, trivial]
  | completeCompensation =>
      refine (completeCompensation_spec hv).mono ?_
      rintro (_ | _) staged hstaged
      · exact fun _ => ⟨_, hstaged.2, .of_moved rfl (by simp)⟩
      · trivial
  | recoverAttempt =>
      refine (recoverAttempt_keepsAsking hv).mono ?_
      rintro (_ | _) staged hstaged
      exacts [fun _ => hstaged, trivial]

end

/-! ## One decision -/

/-- No two requests of a run are pending. -/
theorem MemoryStore.Unambiguous.eq_of_pending {store : MemoryStore} (h : store.Unambiguous)
    {a b : ApprovalRequest} (ha : a ∈ store.approvals.rows) (hb : b ∈ store.approvals.rows)
    (hrun : a.runId = b.runId) (hpending : a.status = .pending) (hpending' : b.status = .pending) :
    a = b := by
  have ha : a ∈ store.approvals.rows.filter fun request => request.status = .pending :=
    List.mem_filter.mpr ⟨ha, by simpa using hpending⟩
  have hb : b ∈ store.approvals.rows.filter fun request => request.status = .pending :=
    List.mem_filter.mpr ⟨hb, by simpa using hpending'⟩
  have hcount : (pendingRuns store).count b.runId ≤ 1 := by
    simpa using List.find?_eq_none.mp h b.runId (List.mem_map_of_mem hb)
  by_contra hne
  obtain ⟨pair, hperm, hsublist⟩ := List.subperm_of_subset (by simpa using hne : [a, b].Nodup)
    (List.forall_mem_cons.mpr ⟨ha, List.forall_mem_singleton.mpr hb⟩)
  have hpair : (pair.map ApprovalRequest.runId).count b.runId ≤ (pendingRuns store).count b.runId :=
    (hsublist.map _).count_le _
  rw [(hperm.map ApprovalRequest.runId).count_eq] at hpair
  have htwo : ([a, b].map ApprovalRequest.runId).count b.runId = 2 := by simp [hrun]
  omega

/-- In every reachable state a run has at most one pending request, and has one while it
waits for an approval.  The log holds the decisions that the status of a request tells, at
most one, and whatever happens later, a request that is closed is not decided again. -/
theorem requests_are_decided_once {cfg : Deployment} {permitted : World → Action → Prop}
    {w : World} (h : Reachable cfg permitted w) {runId : String} {run : WorkflowRun}
    (hrun : w.shared.store.runs.get runId = some run) :
    (∀ a ∈ w.shared.store.listApprovals runId, ∀ b ∈ w.shared.store.listApprovals runId,
      a.status = .pending → b.status = .pending → a = b) ∧
    (run.state = .waitingApproval →
      ∃ request ∈ w.shared.store.listApprovals runId, request.status = .pending) ∧
    (∀ id, ApprovalStatus.Had
      ((w.shared.store.approvals.get (approvalKey runId id)).map ApprovalRequest.status)
      (decisionsOn id ((w.shared.store.events runId).map SequencedEvent.event))) ∧
    ∀ (later : List Action) id, ApprovalStatus.Later
      ((w.shared.store.approvals.get (approvalKey runId id)).map ApprovalRequest.status)
      (((later.foldl (World.step cfg) w).shared.store.approvals.get (approvalKey runId id)).map
        ApprovalRequest.status) := by
  obtain ⟨v, hv⟩ := h.good.wellFormed.record_isSome hrun
  have hidentity := MemoryStore.runId_of_record hv
  obtain ⟨hget, _, _, _, _, hevents⟩ := MemoryStore.record_eq_some_iff.mp hv
  obtain rfl : v.run = run := Option.some.inj (hget.symm.trans hrun)
  refine ⟨fun a ha b hb => ?_, ?_, fun id => ?_, fun later id => ?_⟩
  -- two pending requests of one run would not have been committed
  · obtain ⟨ha, harun⟩ := List.mem_filter.mp ha
    obtain ⟨hb, hbrun⟩ := List.mem_filter.mp hb
    have hunambiguous : w.shared.store.Unambiguous :=
      h.store_induction rfl fun _ _ _ _ => unambiguous_transact
    exact hunambiguous.eq_of_pending ha hb
      ((of_decide_eq_true harun).trans (of_decide_eq_true hbrun).symm)
  -- whoever makes a run wait leaves a request pending
  · rw [MemoryStore.listApprovals_of_record hv]
    refine h.record_induction (I := fun v => v.run.state = .waitingApproval → v.Asks)
      (fun v hfresh hwaiting => ?_) (fun u v hkeeps hasks hwaiting => ?_) UnitOf.keepsAsking hv
    · have hrun := hfresh.run
      rw [hwaiting] at hrun
      cases hrun
    · rcases hkeeps hwaiting with ⟨hbefore, happrovals⟩ | hnow
      · rw [RunRecord.Asks, happrovals]
        exact hasks hbefore
      · exact hnow
  -- the log replays to the statuses that are stored
  · rw [MemoryStore.approvals_get_of_record hv, hevents, ← hidentity]
    exact had_of_replays id (h.record_induction (fun _ hfresh => hfresh.replayed)
      (fun _ _ hleads hreplayed => hleads.replayed hreplayed) UnitOf.leads hv)
  -- and goes on from there
  · obtain ⟨v', hv', more, _, hreplays⟩ := Reachable.record_later RunRecord.Leads.refl
      (fun _ _ _ h h' => h.trans h') UnitOf.leads later (h.mono fun _ _ _ => trivial) hv
    rw [MemoryStore.approvals_get_of_record hv, MemoryStore.approvals_get_of_record hv']
    have hlater := later_of_replays id hreplays
    rw [RunRecord.trail, RunRecord.trail, hidentity, MemoryStore.runId_of_record hv'] at hlater
    exact hlater

/-- The run waits for an approval of its step. -/
def Sample.waitsForApproval : List Action := create [stepPayload "a" "danger" [] none] ++ runOnce

open Sample in
theorem requests_are_decided_once_approvedAndDone :
    (∃ request ∈ (World.after deployment 0 waitsForApproval).shared.store.listApprovals "r",
      request.status = .pending) ∧
      ApprovalStatus.Had (some .approved) (decisionsOn "n"
        (((World.after deployment 0 approvedAndDone).shared.store.events "r").map
          SequencedEvent.event)) := by
  constructor
  · obtain ⟨v, hv, hwaiting⟩ := exists_view (w := World.after deployment 0 waitsForApproval)
      (P := fun v => v.run.state = .waitingApproval) (by decide +kernel)
    have hrecord := MemoryStore.record_eq_some_iff.mp (Shared.view_eq_some_iff.mp hv).1
    exact (requests_are_decided_once (reachable_after 0 waitsForApproval) hrecord.1).2.1 hwaiting
  · obtain ⟨v, hv, happroved⟩ := exists_view (w := World.after deployment 0 approvedAndDone)
      (P := fun v => (v.approvals.get (approvalKey "r" "n")).map ApprovalRequest.status =
        some .approved) (by decide +kernel)
    have hv := (Shared.view_eq_some_iff.mp hv).1
    obtain ⟨_, _, hhad, _⟩ := requests_are_decided_once (reachable_after 0 approvedAndDone)
      (MemoryStore.record_eq_some_iff.mp hv).1
    have hdecided := hhad "n"
    rw [MemoryStore.approvals_get_of_record hv, happroved] at hdecided
    exact hdecided

end ChangePilot
