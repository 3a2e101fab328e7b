import ChangePilot.Application.Coordinator
import ChangePilot.System.Steps

/-!
# The system

One process runs a coordinator and, between its turns, recovery; operators create,
cancel and decide on runs; tools finish; the clock is read; the process crashes.
A step of the system is one operation of the process or one act of its
surroundings, in any order.
-/

namespace ChangePilot

/-- The shared state and what the process still has to do. -/
structure World where
  shared : Shared
  thread : Prog Op (fun op => Except Error op.Ans) (Except Error Unit) := .ret (.ok ())

/-- A step of the system.  A call is made when the process is idle; `proceed` is the
next operation of the call. -/
inductive Action where
  | runOnce | recover
  | close (wait : Bool)
  | proceed (inputs : Inputs)
  | createRun (payload : Value) (runId : String)
  | decide (runId requestId : String) (decision : ApprovalDecision) (expectedVersion : ℤ)
      (bindingDigest actor reason : String)
  | cancelRun (runId : String)
  | toolDone (id : ℕ) (ending : Except ToolException ToolExecutionResult)
  | tick (instant : Timestamp)
  | crash

namespace Shared

/-- A tool has come to its end. -/
def toolDone (s : Shared) (id : ℕ) (ending : Except ToolException ToolExecutionResult) : Shared :=
  s.updateOwned id fun owned =>
    if owned.state.Done then owned else { owned with state := .done ending }

def tick (s : Shared) (instant : Timestamp) : Shared :=
  { s with clock := instant, latest := max s.latest instant }

end Shared

namespace World

/-- The process calls an activity, if it is idle. -/
def call {α : Type} (w : World) (activity : Activity α) : World :=
  match w.thread with
  | .ret _ => { w with thread := ExceptT.run ((fun _ => ()) <$> activity) }
  | .call _ _ => w

/-- The process performs its next operation. -/
def proceed (cfg : Deployment) (w : World) (inputs : Inputs) : World :=
  match w.thread with
  | .ret _ => w
  | .call op k => ⟨(exec cfg op inputs w.shared).2, k (exec cfg op inputs w.shared).1⟩

/-- A unit of work of the surroundings. -/
def commit {α : Type} (w : World) (body : UowM (Exit α)) : World :=
  { w with shared := (w.shared.inStore body).2 }

def step (cfg : Deployment) (w : World) : Action → World
  | .runOnce => w.call (ChangePilot.runOnce cfg)
  | .recover => w.call recoverNonterminalRuns
  | .close wait => w.call (ChangePilot.close wait)
  | .proceed inputs => w.proceed cfg inputs
  | .createRun payload runId =>
      w.commit (WorkflowService.createRun cfg payload runId w.shared.clock)
  | .decide runId requestId decision expectedVersion bindingDigest actor reason =>
      w.commit (ApprovalService.decide cfg.runtime runId requestId decision expectedVersion
        bindingDigest actor reason w.shared.clock)
  | .cancelRun runId => w.commit (WorkflowService.cancelRun runId w.shared.clock)
  | .toolDone id ending => { w with shared := w.shared.toolDone id ending }
  | .tick instant => { w with shared := w.shared.tick instant }
  | .crash => ⟨{ w.shared with coordinator := {} }, .ret (.ok ())⟩

/-- What a step is about. -/
def cause (w : World) : Action → Cause
  | .proceed inputs =>
      match w.thread with
      | .ret _ => .other
      | .call op _ => op.cause inputs w.shared
  | .decide .. | .cancelRun _ => .operator
  | _ => .other

/-- Nothing has happened yet. -/
def initial (instant : Timestamp) : World where
  shared := { clock := instant, latest := instant }

end World

/-- The system after some steps. -/
def World.after (cfg : Deployment) (instant : Timestamp) (actions : List Action) : World :=
  actions.foldl (World.step cfg) (World.initial instant)

/-- What can be reached by steps that are `permitted`. -/
inductive Reachable (cfg : Deployment) (permitted : World → Action → Prop) : World → Prop
  | initial (instant : Timestamp) : Reachable cfg permitted (.initial instant)
  | step {w : World} (action : Action) (h : Reachable cfg permitted w)
      (hpermitted : permitted w action) : Reachable cfg permitted (w.step cfg action)

theorem reachable_after {cfg : Deployment} (instant : Timestamp) (actions : List Action) :
    Reachable cfg (fun _ _ => True) (World.after cfg instant actions) := by
  induction actions using List.reverseRecOn with
  | nil => exact .initial instant
  | append_singleton actions action ih =>
      rw [World.after, List.foldl_append]
      exact .step action ih trivial

theorem Reachable.foldl {cfg : Deployment} (later : List Action) :
    ∀ {w : World}, Reachable cfg (fun _ _ => True) w →
      Reachable cfg (fun _ _ => True) (later.foldl (World.step cfg) w) := by
  induction later with
  | nil => exact fun h => h
  | cons action rest ih => exact fun h => ih (h.step action trivial)

/-! ## The surroundings -/

/-- What the surroundings of the process can do to a run. -/
structure RunView.Surrounded (v v' : RunView) : Prop where
  definition : v'.definition = v.definition
  runId : v'.run.runId = v.run.runId
  steps : v'.steps = v.steps
  attempts : v'.attempts = v.attempts
  inFlight : v'.inFlight = v.inFlight
  latest : v.latest ≤ v'.latest
  approved : ∀ request ∈ v.approvals.rows, request.status = .approved →
    request ∈ v'.approvals.rows
  failed : v'.run.state = .failed → v.run.state = .failed

theorem RunView.Surrounded.refl (v : RunView) : v.Surrounded v :=
  ⟨rfl, rfl, rfl, rfl, rfl, le_refl _, fun _ h _ => h, id⟩

theorem RunView.Surrounded.trans {a b c : RunView} (hab : a.Surrounded b) (hbc : b.Surrounded c) :
    a.Surrounded c where
  definition := hbc.definition.trans hab.definition
  runId := hbc.runId.trans hab.runId
  steps := hbc.steps.trans hab.steps
  attempts := hbc.attempts.trans hab.attempts
  inFlight := hbc.inFlight.trans hab.inFlight
  latest := hab.latest.trans hbc.latest
  approved request hrequest hstatus :=
    hbc.approved request (hab.approved request hrequest hstatus) hstatus
  failed h := hab.failed (hbc.failed h)

namespace Shared

/-- What the process relies on between two of its operations. -/
structure Rely (s s' : Shared) : Prop where
  views : ∀ runId v, s.view runId = some v → ∃ v', s'.view runId = some v' ∧ v.Surrounded v'
  latest : s.latest ≤ s'.latest

theorem Rely.refl (s : Shared) : s.Rely s := ⟨fun _ v hv => ⟨v, hv, .refl v⟩, le_refl _⟩

theorem Rely.trans {a b c : Shared} (hab : a.Rely b) (hbc : b.Rely c) : a.Rely c where
  views runId v hv := by
    obtain ⟨v', hv', hsurrounded⟩ := hab.views runId v hv
    obtain ⟨v'', hv'', hsurrounded'⟩ := hbc.views runId v' hv'
    exact ⟨v'', hv'', hsurrounded.trans hsurrounded'⟩
  latest := hab.latest.trans hbc.latest

end Shared

/-- A decision or cancellation is what the process relies on. -/
theorem RunMove.surrounded {cfg : Deployment} {v v' : RunView}
    (h : RunMove cfg v .operator v') : v.Surrounded v' := by
  cases h with
  | @decided target request _ _ _ _ _ _ hrequest hpending _ htarget =>
      refine ⟨rfl, rfl, rfl, rfl, rfl, le_refl _, fun other hother hstatus => ?_, fun hfailed => ?_⟩
      · refine KeyedTable.mem_put.mpr (Or.inr ⟨hother, fun hkey => ?_⟩)
        have : other = request := v.approvals.eq_of_key_eq hother hrequest hkey
        simp [this, hpending] at hstatus
      · rw [show target = .failed from hfailed] at htarget
        exact absurd htarget (by decide)
  | cancelled => exact ⟨rfl, rfl, rfl, rfl, rfl, le_refl _, fun _ h _ => h, fun h => by simp at h⟩

namespace Shared

variable {cfg : Deployment} {cause : Cause} {s s' : Shared} {runId : String}

theorem Advances.rely (h : s.Advances cfg .operator s') : s.Rely s' where
  views runId v hv := by
    obtain ⟨v', hv', rfl | hmove⟩ := h.view hv
    · exact ⟨v', hv', .refl v'⟩
    · exact ⟨v', hv', hmove.surrounded⟩
  latest := h.latest.ge

theorem toolDone_still (hs : s.WellFormed) (id : ℕ)
    (ending : Except ToolException ToolExecutionResult) :
    (∀ runId, (s.toolDone id ending).inFlight runId = s.inFlight runId) ∧
      s.Advances cfg cause (s.toolDone id ending) := by
  refine still_of_map (s.toolDone id ending) hs (fun owned => if owned.id = id then
    (if owned.state.Done then owned else { owned with state := .done ending }) else owned)
    rfl rfl rfl rfl rfl fun owned _ => ?_
  by_cases hid : owned.id = id
  · by_cases hdone : owned.state.Done
    · exact ⟨owned.state, (if_pos hid).trans (if_pos hdone)⟩
    · exact ⟨_, (if_pos hid).trans (if_neg hdone)⟩
  · exact ⟨owned.state, if_neg hid⟩

theorem toolDone_advances (hs : s.WellFormed) (id : ℕ)
    (ending : Except ToolException ToolExecutionResult) :
    s.Advances cfg cause (s.toolDone id ending) := (toolDone_still hs id ending).2

/-! ## The clock -/

theorem view_tick (instant : Timestamp) (runId : String) :
    (s.tick instant).view runId =
      (s.view runId).map fun v => { v with latest := max v.latest instant } := by
  simp only [view, Option.map_map]
  rfl

theorem tick_move {v : RunView} (cfg : Deployment) (instant : Timestamp) :
    RunMove cfg v .other { v with latest := max v.latest instant } :=
  .tick (le_max_left _ _)

theorem tick_wellFormed (hs : s.WellFormed) (instant : Timestamp) (cfg : Deployment) :
    (s.tick instant).WellFormed where
  known := hs.known
  vacant := hs.vacant
  sound runId v' hv' := by
    have hkeyed := WellFormed.keyed hv'
    rw [view_tick, Option.map_eq_some_iff] at hv'
    obtain ⟨v, hv, rfl⟩ := hv'
    exact (tick_move cfg instant).sound (hs.sound runId v hv) hkeyed
  distinct := hs.distinct
  clock := le_max_right _ _

theorem tick_rely (instant : Timestamp) : s.Rely (s.tick instant) where
  views runId v hv := by
    refine ⟨_, by rw [view_tick, hv]; rfl, ?_⟩
    exact ⟨rfl, rfl, rfl, rfl, rfl, le_max_left _ _, fun _ h _ => h, id⟩
  latest := le_max_left _ _

/-! ## A crash -/

theorem crash_view (runId : String) :
    ({ s with coordinator := {} } : Shared).view runId =
      (s.view runId).map fun v => { v with inFlight := [] } := by
  simp only [view, Option.map_map]
  rfl

theorem crash_wellFormed (hs : s.WellFormed) (cfg : Deployment) :
    ({ s with coordinator := {} } : Shared).WellFormed where
  known := hs.known
  vacant runId hnone := ⟨(hs.vacant runId hnone).1, rfl⟩
  sound runId v' hv' := by
    have hkeyed := WellFormed.keyed hv'
    rw [crash_view, Option.map_eq_some_iff] at hv'
    obtain ⟨v, hv, rfl⟩ := hv'
    have hmove : RunMove cfg v .other { v with inFlight := [] } := .forget
    exact hmove.sound (hs.sound runId v hv) hkeyed
  distinct := ⟨List.nodup_nil, fun _ h => absurd h List.not_mem_nil⟩
  clock := hs.clock

/-! ## New runs -/

/-- A run has been created. -/
structure Created (runId : String) (s s' : Shared) : Prop where
  vacant : s.store.runs.get runId = none
  coordinator : s'.coordinator = s.coordinator
  clock : s'.clock = s.clock
  latest : s'.latest = s.latest
  others : ∀ other, other ≠ runId → s'.store.Agree other s.store
  definitions : ∀ key definition, s.store.definitions.get key = some definition →
    s'.store.definitions.get key = some definition
  own : ∃ v, s'.store.record runId = some v ∧ v.Initial

/-- A run that is created was not there before. -/
theorem createRun_vacant (cfg : Deployment) (payload : Value) (runId : String)
    (occurredAt : Timestamp) (store : MemoryStore) :
    Tx.Ensures (WorkflowService.createRun cfg payload runId occurredAt) (fun exit staged =>
      exit.Committed ∧ (validate staged store = .ok () → store.runs.get runId = none))
      store [] := by
  have vacant {staged : List Write} {run : WorkflowRun} (hrun : Write.addRun run ∈ staged)
      (hvalid : validate staged store = .ok ()) : store.runs.get run.runId = none := by
    simpa [Write.uniqueness] using uniqueness_of_validate hvalid hrun
  unfold WorkflowService.createRun WorkflowService.addRun
  simp only [Tx.ensures_bind, Tx.ensures_lift, Tx.ensures_read, Tx.view_nil]
  intro definition _
  split
  · simp only [Tx.ensures_bind, Tx.ensures_stage, ensures_addSteps, Tx.ensures_pure]
    exact ⟨trivial, @vacant _ (WorkflowService.newRun runId definition) (by simp)⟩
  · simp only [Tx.ensures_bind, Tx.ensures_stage, ensures_addSteps, Tx.ensures_pure,
      Tx.ensures_ite, Tx.ensures_throw, imp_true_iff, true_and]
    exact fun _ => ⟨trivial, @vacant _ (WorkflowService.newRun runId definition) (by simp)⟩

theorem createRun_created (cfg : Deployment) (hs : s.WellFormed) (payload : Value)
    (runId : String) (occurredAt : Timestamp) :
    (s.inStore (WorkflowService.createRun cfg payload runId occurredAt)).2 = s ∨
      s.Created runId (s.inStore (WorkflowService.createRun cfg payload runId occurredAt)).2 := by
  unfold inStore
  cases htransact : s.store.transact
      (WorkflowService.createRun cfg payload runId occurredAt) with
  | error e => exact Or.inl rfl
  | ok result =>
      obtain ⟨_, next⟩ := result
      have hvacates := createRun_vacant cfg payload runId occurredAt s.store
      have hcommits := hvacates.mono fun _ _ h => h.1
      have hvacant : s.store.runs.get runId = none :=
        Tx.Ensures.transact_committed hcommits (P := fun _ => s.store.runs.get runId = none)
          (hvacates.mono fun _ _ h => h.2) htransact
      obtain ⟨hothers, hdefinitions, hown⟩ := Tx.Ensures.transact_committed hcommits
        (P := fun next => (∀ other, other ≠ runId → next.Agree other s.store) ∧
          (∀ key definition, s.store.definitions.get key = some definition →
            next.definitions.get key = some definition) ∧
          ∃ v, next.record runId = some v ∧ v.Initial)
        ((createRun_spec (hs.vacant runId hvacant).1).mono fun _ staged h _ => by
          obtain ⟨hown, hdefinitions, hrecord⟩ := h
          refine ⟨fun other hother => MemoryStore.agree_view fun write hwrite heq => ?_,
            hdefinitions, hrecord⟩
          rcases hown write hwrite with h | h
          · simp [h] at heq
          · exact hother (Option.some.inj (heq.symm.trans h))) htransact
      exact Or.inr ⟨hvacant, rfl, rfl, rfl, hothers, hdefinitions, hown⟩

theorem Created.definitionOf (h : s.Created runId s') {run : WorkflowRun}
    {definition : WorkflowDefinition} (hdefinition : s.store.definitionOf run = some definition) :
    s'.store.definitionOf run = some definition :=
  h.definitions _ _ hdefinition

theorem Created.inFlight (h : s.Created runId s') (other : String) :
    s'.inFlight other = s.inFlight other :=
  inFlight_congr (by rw [h.coordinator]) other

/-- The other runs keep their views. -/
theorem Created.view (h : s.Created runId s') {other : String} {v : RunView}
    (hv : s.view other = some v) : s'.view other = some v := by
  obtain ⟨hrecord, hinFlight, hlatest⟩ := view_eq_some_iff.mp hv
  have hother : other ≠ runId := by
    rintro rfl
    exact absurd ((MemoryStore.runs_get_of_record hrecord).symm.trans h.vacant) (by simp)
  refine view_eq_some_iff.mpr ⟨?_, hinFlight.trans (h.inFlight other).symm,
    hlatest.trans h.latest.symm⟩
  have hagree := h.others other hother
  rw [MemoryStore.record_eq_some_iff] at hrecord ⊢
  obtain ⟨hrun, hdefinition, hsteps, hattempts, happrovals, hevents⟩ := hrecord
  exact ⟨hagree.run.trans hrun, h.definitionOf hdefinition, hagree.steps.trans hsteps,
    hagree.attempts.trans hattempts, hagree.approvals.trans happrovals,
    (congrArg _ hagree.events).trans hevents⟩

/-- A view that was not there is that of the new run. -/
theorem Created.new_view (h : s.Created runId s') (hs : s.WellFormed) {other : String}
    {v : RunView} (hnone : s.view other = none) (hv : s'.view other = some v) :
    v.Initial ∧ v.inFlight = [] := by
  obtain ⟨hrecord, hinFlight, _⟩ := view_eq_some_iff.mp hv
  have hmissing : s.store.runs.get other = none := by
    cases hrun : s.store.runs.get other with
    | none => rfl
    | some run =>
        obtain ⟨record, hrecord⟩ := hs.record_isSome hrun
        simp [view_of_record hrecord] at hnone
  have hother : other = runId := by
    by_contra hother
    have := MemoryStore.runs_get_of_record hrecord
    rw [(h.others other hother).run, hmissing] at this
    exact absurd this (by simp)
  subst hother
  obtain ⟨record, hown, hinitial⟩ := h.own
  obtain rfl : record = v.toRunRecord := Option.some.inj (hown.symm.trans hrecord)
  exact ⟨hinitial, by rw [hinFlight, h.inFlight, (hs.vacant other h.vacant).2]⟩

theorem Created.rely (h : s.Created runId s') : s.Rely s' where
  views _ v hv := ⟨v, h.view hv, .refl v⟩
  latest := h.latest.ge

end Shared

/-- A new run is sound. -/
theorem RunView.sound_of_initial {v : RunView} (h : v.Initial) (hkeyed : v.Keyed)
    (hdrained : v.inFlight = []) : v.Sound := by
  have hnever {state : RunState} (hstate : state ≠ .pending) : v.run.state ≠ state :=
    fun hv => hstate (hv.symm.trans h.run)
  have hempty {p : StepAttempt → Prop} : ∀ a ∈ v.attempts.rows, p a := by simp [h.attempts]
  exact {
    keyed := hkeyed
    begun := by
      rintro id ⟨state, hstate, hbegun⟩
      obtain ⟨row, hrow, rfl⟩ := RunRecord.stateOf_eq_some_iff.mp hstate
      exact absurd (h.steps id row hrow).1 hbegun
    phases := hempty
    started := hempty
    fresh := fun _ => h.attempts
    waiting := fun hstate => absurd hstate (hnever (by decide))
    running := fun hstate => absurd hstate (hnever (by decide))
    succeeded := fun hstate => absurd hstate (hnever (by decide))
    effects := hempty
    compensations := hempty
    undoing := by simp [h.attempts]
    inFlight := by simp [hdrained]
    futures := by simp [hdrained] }

namespace Shared

variable {cfg : Deployment} {s s' : Shared} {runId : String}

theorem Created.wellFormed (h : s.Created runId s') (hs : s.WellFormed) : s'.WellFormed where
  known other run hrun := by
    by_cases hother : other = runId
    · subst hother
      obtain ⟨v, hv, _⟩ := h.own
      obtain rfl := Option.some.inj ((MemoryStore.runs_get_of_record hv).symm.trans hrun)
      simp [MemoryStore.definitionOf_of_record hv]
    · rw [(h.others other hother).run] at hrun
      obtain ⟨definition, hdefinition⟩ := Option.isSome_iff_exists.mp (hs.known other run hrun)
      simp [h.definitionOf hdefinition]
  vacant other hnone := by
    have hother : other ≠ runId := by
      rintro rfl
      obtain ⟨v, hv, _⟩ := h.own
      simp [MemoryStore.runs_get_of_record hv] at hnone
    obtain ⟨hagree, hidle⟩ := hs.vacant other ((h.others other hother).run.symm.trans hnone)
    exact ⟨(h.others other hother).trans hagree, (h.inFlight other).trans hidle⟩
  sound other v' hv' := by
    cases hv : s.view other with
    | some v =>
        obtain rfl := Option.some.inj ((h.view hv).symm.trans hv')
        exact hs.sound other v hv
    | none =>
        obtain ⟨hinitial, hdrained⟩ := h.new_view hs hv hv'
        exact RunView.sound_of_initial hinitial (WellFormed.keyed hv') hdrained
  distinct := h.coordinator ▸ hs.distinct
  clock := by
    rw [h.clock, h.latest]
    exact hs.clock

theorem initial_wellFormed (instant : Timestamp) : (World.initial instant).shared.WellFormed where
  known _ _ hrun := by simp [World.initial, KeyedTable.get, KeyedTable.empty] at hrun
  vacant _ _ := ⟨.refl _, rfl⟩
  sound _ _ hv := by
    simp [World.initial, view, MemoryStore.record, KeyedTable.get, KeyedTable.empty] at hv
  distinct := ⟨List.nodup_nil, fun _ h => absurd h List.not_mem_nil⟩
  clock := le_refl _

end Shared

end ChangePilot
