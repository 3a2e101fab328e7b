import ChangePilot.Guarantees.EventStream
import ChangePilot.System.AuditUnits
import ChangePilot.System.Commits

/-!
# The audit log replays to the stored states

Whatever commits, and in whatever order, the log of a run is numbered from one on, and its
events lead from the states of a new run to those that are stored: each names the state
and the revision that the events before it have led to.
-/

namespace ChangePilot

open NumberedLog

/-! ## Fresh runs -/

/-- The only event of a fresh run names the states that it starts in. -/
theorem RunRecord.Fresh.replayed {v : RunRecord} (h : v.Fresh) : v.Replayed := by
  have htrail : v.trail = .start := by
    refine Trail.ext h.run (funext fun id => ?_) (funext fun id => ?_)
    · cases hrow : v.steps id with
      | none => exact RunRecord.trail_steps_of_none hrow
      | some row => exact (RunRecord.trail_steps hrow).trans (h.steps id row hrow)
    · refine Option.map_eq_none_iff.mpr (Option.eq_none_iff_forall_ne_some.mpr fun request hget => ?_)
      have hmem := ((KeyedTable.get_eq_some_iff _).mp hget).1
      rw [h.approvals] at hmem
      cases hmem
  obtain ⟨definition, occurredAt, hevents⟩ := h.events
  rw [RunRecord.Replayed, htrail, hevents]
  exact Replays.cons_iff.mpr ⟨.start, Trail.fits_createdEvent .., Replays.nil_iff.mpr rfl⟩

/-! ## Units of work -/

theorem UowM.Turns.of_tells {α : Type} {body : UowM (Exit α)} {runId : String}
    (h : ∀ (base : MemoryStore) (v : RunRecord), base.record runId = some v →
      Tx.Ensures body (fun _ staged => validate staged base = .ok () → v.Tells staged) base []) :
    body.Turns RunRecord.Leads runId := by
  intro base v hv
  refine (h base v hv).mono ?_
  rintro (_ | _) staged htells
  exacts [fun hvalid => (htells hvalid).turns, trivial]

/-- What a unit of work appends to the log leads from the old states to the new ones. -/
theorem UnitOf.leads {cfg : Deployment} {runId : String} {α : Type} {body : UowM (Exit α)}
    (h : UnitOf cfg runId body) : body.Turns RunRecord.Leads runId := by
  refine .of_tells fun base v hv => ?_
  cases h with
  | cancelRun => exact (cancelRun_tells hv).mono fun _ _ h _ => h
  | decide => exact (decide_tells hv).mono fun _ _ h _ => h
  | promoteDueRetries => exact (promoteDueRetries_tells hv).mono fun _ _ h _ => h
  | promoteDependencyReadySteps =>
      exact (promoteDependencyReadySteps_tells hv).mono fun _ _ h _ => h
  | establishApprovalBarrier =>
      exact (establishApprovalBarrier_tells hv).mono fun _ _ h hvalid => (h hvalid).1
  | commitAttemptStarted attempt hrun =>
      exact (commitAttemptStarted_tells (hrun.symm ▸ hv)).mono fun _ _ h _ => h.1
  | persistOutcome outcome completedAt sensitivePaths hrun =>
      exact (persistOutcome_tells (hrun.symm ▸ hv)).mono fun _ _ h _ => h
  | completeCompensation => exact (completeCompensation_tells hv).mono fun _ _ h _ => h
  | recoverAttempt => exact (recoverAttempt_tells hv).mono fun _ _ h _ => h

theorem Reachable.logsSound {cfg : Deployment} {permitted : World → Action → Prop} {w : World}
    (h : Reachable cfg permitted w) : w.shared.store.LogsSound := by
  refine h.store_induction MemoryStore.logsSound_empty fun body store next a hsound htransact => ?_
  refine Tx.Ensures.transact (P := fun _ next => next.LogsSound) (fun exit staged _ => ?_) htransact
  cases exit with
  | commit _ => exact fun _ => hsound.view.1
  | leave _ => exact hsound

/-! ## The system -/

/-- In every state that the coordinator, recovery and the operators can reach, by any order
of their units of work and with any crashes, the log of a run is numbered from one on, and
its events lead, each from where the events before it have led, from a new run to the
stored states and revisions of the run and of its steps, and to the stored statuses of its
approval requests. -/
theorem audit_log_replays {cfg : Deployment} {permitted : World → Action → Prop} {w : World}
    (h : Reachable cfg permitted w) {runId : String} {run : WorkflowRun}
    (hrun : w.shared.store.runs.get runId = some run) :
    Numbered SequencedEvent.sequence (w.shared.store.events runId) ∧
      ∃ final, Replays Trail.next .start
          ((w.shared.store.events runId).map SequencedEvent.event) final ∧
        final.run = (run.state, run.revision) ∧
        (∀ id, final.steps id = match w.shared.store.getStep runId id with
          | some row => (row.state, row.revision)
          | none => (.pending, 0)) ∧
        ∀ id, final.requests id =
          (w.shared.store.approvals.get (approvalKey runId id)).map ApprovalRequest.status := by
  obtain ⟨v, hv⟩ := h.good.wellFormed.record_isSome hrun
  obtain ⟨hget, _, hsteps, _, _, hevents⟩ := MemoryStore.record_eq_some_iff.mp hv
  obtain rfl : v.run = run := Option.some.inj (hget.symm.trans hrun)
  refine ⟨h.logsSound.numbered runId, v.trail, ?_, rfl, fun id => ?_, fun id => ?_⟩
  · rw [hevents]
    exact h.record_induction (fun _ hfresh => hfresh.replayed)
      (fun _ _ hleads hreplayed => hleads.replayed hreplayed) UnitOf.leads hv
  · rw [hsteps]
    rfl
  · rw [MemoryStore.approvals_get_of_record hv, ← MemoryStore.runId_of_record hv]
    rfl

/-- The step of the run is approved, and succeeds. -/
def Sample.approvedAndDone : List Action :=
  create [stepPayload "a" "danger" [] none] ++ runOnce ++
    [.decide "r" "n" .approved 0
      "cfec1bfb11d3f3b7219ee32d4274aef0c933f152c42e6eb695ddd930f0ca07d8" "operator" "reviewed"] ++
    runOnce ++ toolSucceeds 0 ++ runOnce

open Sample in
theorem audit_log_replays_approvedAndDone :
    ∃ final, Replays Trail.next .start (((World.after deployment 0
        approvedAndDone).shared.store.events "r").map SequencedEvent.event) final ∧
      final.run = (.succeeded, 3) ∧ final.requests "n" = some .approved ∧
      ((World.after deployment 0 approvedAndDone).shared.store.events "r").length = 11 := by
  obtain ⟨v, hv, hstate, happroved, hlength⟩ := exists_view
    (w := World.after deployment 0 approvedAndDone)
    (P := fun v => (v.run.state, v.run.revision) = (.succeeded, 3) ∧
      (v.approvals.get (approvalKey "r" "n")).map ApprovalRequest.status = some .approved ∧
        v.events.length = 11)
    (by decide +kernel)
  have hv := (Shared.view_eq_some_iff.mp hv).1
  have hrecord := MemoryStore.record_eq_some_iff.mp hv
  obtain ⟨_, final, hreplays, hrun, _, hrequests⟩ :=
    audit_log_replays (reachable_after 0 approvedAndDone) hrecord.1
  refine ⟨final, hreplays, hrun.trans hstate, ?_, ?_⟩
  · rw [hrequests, MemoryStore.approvals_get_of_record hv]
    exact happroved
  rw [← hlength, ← hrecord.2.2.2.2.2, List.length_map]

end ChangePilot
