import ChangePilot.System.Sample

/-!
# The approval gate

The log of a run decides what may start forward: a step that needs an approval starts
only after an event that approved a request for this very execution, with no event
before the start that rejected or invalidated the request.

The invariant follows the requests of the run through the log.  A request that is
pending has not been decided on, one that is approved is so by the log, and both stay
true because a request is decided or invalidated together with its event.
-/

namespace ChangePilot

/-! ## Approvals in the log -/

/-- The event starts a forward attempt. -/
def AuditEvent.StartsForward (event : AuditEvent) : Prop :=
  event.eventType = .toolAttemptStarted ∧ event.phase = some .forward

/-- The event decides on a request, or invalidates it. -/
def AuditEvent.Decides (event : AuditEvent) : Prop :=
  event.eventType ∈ [.approvalApproved, .approvalRejected, .approvalInvalidated]

/-- The request was approved by then, and neither rejected nor invalidated. -/
structure ApprovedBy (events : List AuditEvent) (requestId : String) : Prop where
  approved : ∃ event ∈ events,
    event.eventType = .approvalApproved ∧ event.requestId? = some requestId
  stands : ∀ event ∈ events, event.eventType ∈ [.approvalRejected, .approvalInvalidated] →
    event.requestId? ≠ some requestId

/-- A step needs an approval by its own risk or by that of its tool. -/
def Deployment.Protects (cfg : Deployment) (step : StepDefinition) : Prop :=
  cfg.runtime.casefold step.risk = "high" ∨
    ∃ descriptor, cfg.registry.tools step.tool.name step.tool.version = some descriptor ∧
      descriptor.risk = .high

/-- By these events a request for the execution of the step is approved. -/
def RunRecord.ApprovedFor (cfg : Deployment) (v : RunRecord) (events : List AuditEvent)
    (step : StepDefinition) : Prop :=
  ∃ snapshot, approvalSnapshot cfg v.definition step = .ok snapshot ∧
    ∃ request ∈ v.approvals.rows, request.Matches (bindingOf v.definition step snapshot) ∧
      ApprovedBy events request.id

theorem Deployment.Protects.of_requiresApproval {cfg : Deployment} {step : StepDefinition} :
    requiresApproval cfg step = .ok false → ¬ cfg.Protects step := by
  unfold requiresApproval ToolRegistry.descriptorFor Deployment.Protects
  cases cfg.registry.tools step.tool.name step.tool.version with
  | none => exact nofun
  | some descriptor =>
      intro hrequires
      have hlow := Except.ok.inj hrequires
      simp only [Bool.or_eq_false_iff, beq_eq_false_iff_ne] at hlow
      rintro (hrisk | ⟨_, hdescriptor, hrisk⟩)
      · exact hlow.1 hrisk
      · exact hlow.2 (Option.some.inj hdescriptor ▸ hrisk)

namespace AuditEvent

variable {event : AuditEvent}

theorem Decides.gate (h : event.Decides) : event.Gate := Or.inr h

theorem StartsForward.gate (h : event.StartsForward) : event.Gate := Or.inl h

theorem Decides.of_mem (h : event.eventType ∈ [.approvalRejected, .approvalInvalidated]) :
    event.Decides := List.mem_cons_of_mem _ h

theorem Decides.not_startsForward (h : event.Decides) : ¬ event.StartsForward := by
  rintro ⟨htype, -⟩
  simp [Decides, htype] at h

end AuditEvent

/-- An approval stands while no other event is about it. -/
theorem ApprovedBy.append {events later : List AuditEvent} {requestId : String}
    (h : ApprovedBy events requestId)
    (hlater : ∀ event ∈ later, event.Decides → event.requestId? ≠ some requestId) :
    ApprovedBy (events ++ later) requestId where
  approved := by
    obtain ⟨event, hevent, happroved⟩ := h.approved
    exact ⟨event, List.mem_append_left _ hevent, happroved⟩
  stands event hevent htype := by
    rcases List.mem_append.mp hevent with hevent | hevent
    · exact h.stands event hevent htype
    · exact hlater event hevent (.of_mem htype)

/-- What is found in a longer log was there before, if it is not new. -/
theorem prefix_of_prefix_append {α : Type*} {before xs : List α} {x : α} {ys : List α}
    (h : before ++ [x] <+: xs ++ ys) (hx : x ∉ ys) : before ++ [x] <+: xs := by
  induction ys using List.reverseRecOn with
  | nil => rwa [List.append_nil] at h
  | append_singleton ys y ih =>
      rw [List.mem_append, List.mem_singleton, not_or] at hx
      rw [← List.append_assoc, List.prefix_concat_iff] at h
      rcases h with heq | h
      · exact absurd (List.append_inj' heq rfl).2 (by simpa using hx.2)
      · exact ih h hx.1

/-! ## The invariant -/

/-- What the log of a run says about its requests, and about its starts. -/
structure RunView.Gated (cfg : Deployment) (v : RunView) : Prop where
  known : ∀ event ∈ v.events, event.Decides →
    ∃ request ∈ v.approvals.rows, event.requestId? = some request.id
  undecided : ∀ request ∈ v.approvals.rows, request.status = .pending →
    ∀ event ∈ v.events, event.Decides → event.requestId? ≠ some request.id
  approved : ∀ request ∈ v.approvals.rows, request.status = .approved →
    ApprovedBy v.events request.id
  starts : ∀ before start, before ++ [start] <+: v.events → start.StartsForward →
    ∃ step ∈ v.definition.steps, start.stepId = some step.id ∧
      (requiresApproval cfg step = .ok false ∨ v.ApprovedFor cfg before step)

section

variable {cfg : Deployment} {v : RunView}

/-- Requests may change, as long as each keeps its identity. -/
theorem RunRecord.ApprovedFor.kept {v v' : RunRecord} {events : List AuditEvent}
    {step : StepDefinition} (h : v.ApprovedFor cfg events step)
    (hdefinition : v'.definition = v.definition)
    (hkept : ∀ request ∈ v.approvals.rows, ∃ later ∈ v'.approvals.rows,
      later.id = request.id ∧ later.binding = request.binding) :
    v'.ApprovedFor cfg events step := by
  obtain ⟨snapshot, hsnapshot, request, hrequest, hmatches, happroved⟩ := h
  obtain ⟨later, hlater, hid, hbinding⟩ := hkept request hrequest
  refine ⟨snapshot, hdefinition ▸ hsnapshot, later, hlater, ?_, hid ▸ happroved⟩
  rw [hdefinition]
  exact hbinding.trans hmatches

/-- The starts that there were are as they were, whatever becomes of the requests. -/
theorem RunView.Gated.starts_append (h : v.Gated cfg) {v' : RunView} {events : List AuditEvent}
    (hdefinition : v'.definition = v.definition)
    (hkept : ∀ request ∈ v.approvals.rows, ∃ later ∈ v'.approvals.rows,
      later.id = request.id ∧ later.binding = request.binding)
    (hevents : ∀ event ∈ events, ¬ event.StartsForward) {before : List AuditEvent}
    {start : AuditEvent} (hlogged : before ++ [start] <+: v.events ++ events)
    (hstart : start.StartsForward) :
    ∃ step ∈ v'.definition.steps, start.stepId = some step.id ∧
      (requiresApproval cfg step = .ok false ∨ v'.ApprovedFor cfg before step) := by
  obtain ⟨step, hstep, hstepId, hadmitted⟩ := h.starts before start
    (prefix_of_prefix_append hlogged fun hmem => hevents start hmem hstart) hstart
  exact ⟨step, hdefinition ▸ hstep, hstepId,
    hadmitted.imp_right fun happroved => happroved.kept hdefinition hkept⟩

/-- Events that are neither a forward start nor about a request change nothing. -/
theorem RunView.Gated.append (h : v.Gated cfg) {v' : RunView} {events : List AuditEvent}
    (hdefinition : v'.definition = v.definition) (happrovals : v'.approvals = v.approvals)
    (hevents' : v'.events = v.events ++ events) (hevents : ∀ event ∈ events, ¬ event.Gate) :
    v'.Gated cfg where
  known event hevent hdecides := by
    rw [hevents'] at hevent
    rw [happrovals]
    rcases List.mem_append.mp hevent with hevent | hevent
    · exact h.known event hevent hdecides
    · exact absurd hdecides.gate (hevents event hevent)
  undecided request hrequest hpending event hevent hdecides := by
    rw [hevents'] at hevent
    rw [happrovals] at hrequest
    rcases List.mem_append.mp hevent with hevent | hevent
    · exact h.undecided request hrequest hpending event hevent hdecides
    · exact absurd hdecides.gate (hevents event hevent)
  approved request hrequest happroved := by
    rw [happrovals] at hrequest
    rw [hevents']
    exact (h.approved request hrequest happroved).append fun event hevent hdecides =>
      absurd hdecides.gate (hevents event hevent)
  starts before start hlogged hstart := by
    refine h.starts_append hdefinition (fun request hrequest => ?_)
      (fun event hevent hstart => hevents event hevent hstart.gate) (hevents' ▸ hlogged) hstart
    exact ⟨request, happrovals ▸ hrequest, rfl, rfl⟩

/-- A barrier invalidates requests together with their events, and asks with a request
that no event is about. -/
theorem RunView.Gated.barrier (h : v.Gated cfg) {v' : RunView} {events : List AuditEvent}
    (hdefinition : v'.definition = v.definition) (hevents' : v'.events = v.events ++ events)
    (happrovals : v.BarrierApprovals v'.approvals events) : v'.Gated cfg where
  known event hevent hdecides := by
    -- the barrier keeps every request, with its identifier
    have kept {earlier : ApprovalRequest} (hearlier : earlier ∈ v.approvals.rows)
        (hid : event.requestId? = some earlier.id) :
        ∃ request ∈ v'.approvals.rows, event.requestId? = some request.id := by
      obtain ⟨later, hlater, hlaterId, -⟩ := happrovals.kept earlier hearlier
      exact ⟨later, hlater, hlaterId ▸ hid⟩
    rw [hevents'] at hevent
    rcases List.mem_append.mp hevent with hevent | hevent
    · obtain ⟨earlier, hearlier, hid⟩ := h.known event hevent hdecides
      exact kept hearlier hid
    · obtain ⟨-, earlier, hearlier, hid, -⟩ := happrovals.events event hevent hdecides.gate
      exact kept hearlier hid
  undecided request hrequest hpending event hevent hdecides hid := by
    -- the barrier invalidates requests and adds one, but decides none
    have invalid : request.status ≠ .invalidated := by simp [hpending]
    rw [hevents'] at hevent
    rcases List.mem_append.mp hevent with hevent | hevent
    · rcases happrovals.origin request hrequest with hold | hinvalid | ⟨-, hfresh⟩
      · exact h.undecided request hold hpending event hevent hdecides hid
      · exact invalid hinvalid
      -- the request that was added has a new identifier
      · obtain ⟨earlier, hearlier, hearlierId⟩ := h.known event hevent hdecides
        exact hfresh earlier hearlier (Option.some.inj (hearlierId.symm.trans hid))
    · obtain ⟨-, earlier, -, hearlierId, hall⟩ := happrovals.events event hevent hdecides.gate
      exact invalid (hall request hrequest (Option.some.inj (hid.symm.trans hearlierId)))
  approved request hrequest happroved := by
    have invalid : request.status ≠ .invalidated := by simp [happroved]
    rw [hevents']
    rcases happrovals.origin request hrequest with hold | hinvalid | ⟨hpending, -⟩
    · refine (h.approved request hold happroved).append fun event hevent hdecides hid => ?_
      obtain ⟨-, earlier, -, hearlierId, hall⟩ := happrovals.events event hevent hdecides.gate
      exact invalid (hall request hrequest (Option.some.inj (hid.symm.trans hearlierId)))
    · exact absurd hinvalid invalid
    · exact absurd (happroved.symm.trans hpending) (by decide)
  starts before start hlogged hstart := by
    refine h.starts_append hdefinition happrovals.kept (fun event hevent hstart => ?_)
      (hevents' ▸ hlogged) hstart
    have htype := (happrovals.events event hevent hstart.gate).1
    exact absurd (htype.symm.trans hstart.1) (by decide)

/-- A decision is on a pending request, and is logged with it. -/
theorem RunView.Gated.decided (h : v.Gated cfg) (hkeyed : v.Keyed) {v' : RunView}
    {request : ApprovalRequest} {decision : ApprovalDecision} {actor : ApprovalActorDigest}
    {reason : ApprovalReasonDigest} {decidedAt : Timestamp} {decisionEvent : AuditEvent}
    {events : List AuditEvent} (hrequest : request ∈ v.approvals.rows)
    (hpending : request.status = .pending)
    (htype : decisionEvent.eventType = approvalEventType decision)
    (hid : decisionEvent.requestId? = some request.id) (hevents : ∀ event ∈ events, ¬ event.Gate)
    (hdefinition : v'.definition = v.definition)
    (happrovals : v'.approvals =
      v.approvals.put (request.decided decision actor reason decidedAt))
    (hevents' : v'.events = v.events ++ decisionEvent :: events) : v'.Gated cfg := by
  have hkept : ∀ earlier ∈ v.approvals.rows, ∃ later ∈ v'.approvals.rows,
      later.id = earlier.id ∧ later.binding = earlier.binding := by
    intro earlier hearlier
    by_cases hkey : earlier.key = request.key
    · obtain rfl := v.approvals.eq_of_key_eq hearlier hrequest hkey
      exact ⟨earlier.decided decision actor reason decidedAt,
        happrovals ▸ KeyedTable.mem_put.mpr (.inl rfl), rfl, rfl⟩
    · exact ⟨earlier, happrovals ▸ KeyedTable.mem_put.mpr (.inr ⟨hearlier, hkey⟩), rfl, rfl⟩
  -- any other request has an identity of its own
  have hother : ∀ other ∈ v'.approvals.rows,
      other = request.decided decision actor reason decidedAt ∨
        (other ∈ v.approvals.rows ∧ request.id ≠ other.id) := by
    intro other hmem
    rw [happrovals] at hmem
    refine (KeyedTable.mem_put.mp hmem).imp_right fun ⟨hold, hkey⟩ => ⟨hold, fun heq => hkey ?_⟩
    change approvalKey other.runId other.id = approvalKey request.runId request.id
    rw [heq, hkeyed.approval other hold, hkeyed.approval request hrequest]
  have hnew : ∀ event ∈ decisionEvent :: events, event.Decides →
      event = decisionEvent ∧ event.requestId? = some request.id := by
    intro event hevent hdecides
    rcases List.mem_cons.mp hevent with rfl | hevent
    · exact ⟨rfl, hid⟩
    · exact absurd hdecides.gate (hevents event hevent)
  constructor
  case known =>
    intro event hevent hdecides
    obtain ⟨earlier, hearlier, hearlierId⟩ :
        ∃ earlier ∈ v.approvals.rows, event.requestId? = some earlier.id := by
      rcases List.mem_append.mp (hevents' ▸ hevent) with hevent | hevent
      · exact h.known event hevent hdecides
      · exact ⟨request, hrequest, (hnew event hevent hdecides).2⟩
    obtain ⟨later, hlater, hlaterId, -⟩ := hkept earlier hearlier
    exact ⟨later, hlater, hlaterId ▸ hearlierId⟩
  case undecided =>
    intro other hmem hstatus event hevent hdecides hotherId
    rcases hother other hmem with rfl | ⟨hold, hne⟩
    · rw [ApprovalRequest.decided_status] at hstatus
      cases decision <;> exact absurd hstatus (by decide)
    · rcases List.mem_append.mp (hevents' ▸ hevent) with hevent | hevent
      · exact h.undecided other hold hstatus event hevent hdecides hotherId
      · exact hne (Option.some.inj ((hnew event hevent hdecides).2.symm.trans hotherId))
  case approved =>
    intro other hmem hstatus
    rw [hevents']
    rcases hother other hmem with rfl | ⟨hold, hne⟩
    · rw [ApprovalRequest.decided_status] at hstatus
      obtain rfl : decision = .approved := by
        cases decision with
        | approved => rfl
        | rejected => exact absurd hstatus (by decide)
      refine ⟨⟨decisionEvent, by simp, htype, hid⟩, fun event hevent hfinal hrequestId => ?_⟩
      rcases List.mem_append.mp hevent with hevent | hevent
      · exact h.undecided request hrequest hpending event hevent (.of_mem hfinal) hrequestId
      · obtain rfl := (hnew event hevent (.of_mem hfinal)).1
        rw [htype] at hfinal
        exact absurd hfinal (by decide)
    · exact (h.approved other hold hstatus).append fun event hevent hdecides hotherId =>
        hne (Option.some.inj ((hnew event hevent hdecides).2.symm.trans hotherId))
  case starts =>
    intro before start hlogged hstart
    refine h.starts_append hdefinition hkept (fun event hevent hstart => ?_)
      (hevents' ▸ hlogged) hstart
    rcases List.mem_cons.mp hevent with rfl | hevent
    · rw [hstart.1] at htype
      cases decision <;> exact absurd htype (by decide)
    · exact hevents event hevent hstart.gate

/-- A forward start is admitted by the requests of the run, whose approvals are in the
log by then. -/
theorem RunView.Gated.forwardStarted (h : v.Gated cfg) {v' : RunView} {step : StepDefinition}
    {start : AuditEvent} {events : List AuditEvent} (hstep : step ∈ v.definition.steps)
    (hadmitted : v.Admitted cfg step) (hstart : start.StartsForward)
    (hstepId : start.stepId = some step.id) (hevents : ∀ event ∈ events, ¬ event.Gate)
    (hdefinition : v'.definition = v.definition) (happrovals : v'.approvals = v.approvals)
    (hevents' : v'.events = v.events ++ events ++ [start]) : v'.Gated cfg := by
  have hbefore : ({ v with events := v.events ++ events } : RunView).Gated cfg :=
    h.append rfl rfl rfl hevents
  -- a start is not a decision
  have hnot : ∀ event ∈ [start], ¬ event.Decides :=
    List.forall_mem_singleton.mpr fun hdecides => hdecides.not_startsForward hstart
  constructor
  case known =>
    intro event hevent hdecides
    rw [happrovals]
    rcases List.mem_append.mp (hevents' ▸ hevent) with hevent | hevent
    · exact hbefore.known event hevent hdecides
    · exact absurd hdecides (hnot event hevent)
  case undecided =>
    intro request hrequest hpending event hevent hdecides
    rcases List.mem_append.mp (hevents' ▸ hevent) with hevent | hevent
    · exact hbefore.undecided request (happrovals ▸ hrequest) hpending event hevent hdecides
    · exact absurd hdecides (hnot event hevent)
  case approved =>
    intro request hrequest hstatus
    rw [hevents']
    exact (hbefore.approved request (happrovals ▸ hrequest) hstatus).append
      fun event hevent hdecides => absurd hdecides (hnot event hevent)
  case starts =>
    intro before other hlogged hother
    rw [hevents', List.prefix_concat_iff] at hlogged
    rw [hdefinition]
    rcases hlogged with heq | hlogged
    -- the start that is logged now
    · obtain ⟨rfl, hsame⟩ := List.append_inj' heq rfl
      obtain rfl := List.singleton_inj.mp hsame
      refine ⟨step, hstep, hstepId, hadmitted.imp_right ?_⟩
      rintro ⟨snapshot, hsnapshot, request, hrequest, hstatus, hmatches⟩
      exact ⟨snapshot, hdefinition ▸ hsnapshot, request, happrovals ▸ hrequest,
        hdefinition ▸ hmatches, hbefore.approved request hrequest hstatus⟩
    -- an earlier one
    · obtain ⟨earlier, hearlier, hid, hadmitted⟩ := hbefore.starts before other hlogged hother
      refine ⟨earlier, hearlier, hid, hadmitted.imp_right fun happroved => ?_⟩
      exact happroved.kept hdefinition fun request hrequest =>
        ⟨request, happrovals ▸ hrequest, rfl, rfl⟩

theorem RunMove.gated {cause : Cause} {v' : RunView} (hmove : RunMove cfg v cause v')
    (hkeyed : v.Keyed) (h : v.Gated cfg) : v'.Gated cfg := by
  cases hmove with
  | tick | forget => exact h.append rfl rfl (List.append_nil _).symm (List.forall_mem_nil _)
  | retriesDue hevents | dependenciesReady hevents => exact h.append rfl rfl rfl hevents
  | barrier _ _ _ _ _ happrovals => exact h.barrier rfl rfl happrovals
  | forwardStarted hstep _ _ _ hnext hadmitted _ hevents =>
      exact h.forwardStarted hstep hadmitted ⟨rfl, rfl⟩ (congrArg some hnext.stepId) hevents rfl rfl
        rfl
  | compensationStarted _ _ _ _ _ _ hevents => exact h.append rfl rfl rfl hevents
  | forwardFinished _ _ _ _ _ _ _ _ _ _ hevents => exact h.append rfl rfl rfl hevents
  | compensationFinished _ _ _ _ _ hevents => exact h.append rfl rfl rfl hevents
  | compensated _ _ _ _ hevents => exact h.append rfl rfl rfl hevents
  | decided hrequest hpending _ _ _ htype hid hevents =>
      exact h.decided hkeyed hrequest hpending htype hid hevents rfl rfl rfl
  | cancelled _ hevents => exact h.append rfl rfl rfl hevents
  | recoveredApplied _ _ _ _ _ _ _ _ hevents => exact h.append rfl rfl rfl hevents
  | recoveredNotApplied _ _ _ _ _ _ hevents => exact h.append rfl rfl rfl hevents
  | recoveredManual _ _ _ _ _ _ _ hevents => exact h.append rfl rfl rfl hevents

end

/-- The log of every run in every reachable state says so. -/
theorem Reachable.gated {cfg : Deployment} {permitted : World → Action → Prop} {w : World}
    (h : Reachable cfg permitted w) {runId : String} {v : RunView}
    (hv : w.shared.view runId = some v) : v.Gated cfg := by
  refine h.view_induction (fun v hinitial _ _ => ?_)
    (fun _ _ _ v v' _ _ _ hsound _ hmove hgated => hmove.gated hsound.keyed hgated) hv
  have hnone : ∀ request, request ∉ v.approvals.rows := by simp [hinitial.approvals]
  exact {
    known := fun event hevent hdecides => absurd hdecides.gate (hinitial.events event hevent)
    undecided := fun request hrequest => absurd hrequest (hnone request)
    approved := fun request hrequest => absurd hrequest (hnone request)
    starts := fun before start hlogged hstart => absurd hstart.gate
      (hinitial.events start (hlogged.subset (List.mem_append_right _ List.mem_cons_self))) }

/-- In every run of the system, each forward start of a step that needs an approval is
preceded by the approval of a request for this step and execution, which has been neither
rejected nor invalidated by then. -/
theorem forward_starts_are_approved (cfg : Deployment) (instant : Timestamp)
    (actions : List Action) {runId : String} {v : RunView}
    (hv : (World.after cfg instant actions).shared.view runId = some v)
    {before : List AuditEvent} {start : AuditEvent} (hlogged : before ++ [start] <+: v.events)
    (hstart : start.StartsForward) :
    ∃ step ∈ v.definition.steps, start.stepId = some step.id ∧
      (cfg.Protects step → v.ApprovedFor cfg before step) := by
  obtain ⟨step, hstep, hstepId, hadmitted⟩ :=
    ((reachable_after instant actions).gated hv).starts before start hlogged hstart
  refine ⟨step, hstep, hstepId, fun hprotects => hadmitted.resolve_left fun hlow => ?_⟩
  exact Deployment.Protects.of_requiresApproval hlow hprotects

/-- A run of one dangerous step, which is approved in time. -/
def Sample.approvedStart : List Action :=
  Sample.create [Sample.stepPayload "a" "danger" [] none] ++ Sample.runOnce ++
    [.decide "r" "n" .approved 0
      "cfec1bfb11d3f3b7219ee32d4274aef0c933f152c42e6eb695ddd930f0ca07d8" "operator" "reviewed"] ++
    Sample.runOnce

theorem forward_starts_are_approved_danger : ∃ v before start step,
    (World.after Sample.deployment 0 Sample.approvedStart).shared.view "r" = some v ∧
      before ++ [start] <+: v.events ∧ start.StartsForward ∧ start.stepId = some step.id ∧
        Sample.deployment.Protects step ∧ v.ApprovedFor Sample.deployment before step := by
  obtain ⟨v, hv, hlast, htools⟩ : ∃ v,
      (World.after Sample.deployment 0 Sample.approvedStart).shared.view "r" = some v ∧
        (v.events.getLast?.any fun event => decide (event.eventType = .toolAttemptStarted) &&
          decide (event.phase = some .forward)) = true ∧
        ∀ step ∈ v.definition.steps, step.tool = ⟨"danger", "1"⟩ :=
    Sample.exists_view (by decide +kernel)
  obtain ⟨start, hstart⟩ : ∃ start, v.events.getLast? = some start :=
    Option.isSome_iff_exists.mp (by cases h : v.events.getLast? <;> simp [h] at hlast ⊢)
  have hforward : start.StartsForward := by
    simpa [hstart, AuditEvent.StartsForward] using hlast
  have hlogged : v.events.dropLast ++ [start] <+: v.events := by
    rw [List.dropLast_append_getLast? start hstart]
  obtain ⟨step, hstep, hstepId, happroved⟩ :=
    forward_starts_are_approved Sample.deployment 0 Sample.approvedStart hv hlogged hforward
  have hprotects : Sample.deployment.Protects step :=
    .inr ⟨Sample.tool "danger" Sample.nothing .high .supported, by rw [htools step hstep]; rfl, rfl⟩
  exact ⟨v, _, start, step, hv, hlogged, hforward, hstepId, hprotects, happroved hprotects⟩

end ChangePilot
