import ChangePilot.Application.Services
import ChangePilot.Library.NumberedLog
import ChangePilot.Library.Runs
import ChangePilot.Operations.EventStream
import ChangePilot.System.Sample

/-!
# The event stream

A stream hands out events of its run in order and none of them twice.  Whether one that
ends with the run has handed out everything depends on what commits between two of its
reads: the loop asks for the run after it has asked for the events, and does not ask for
the events again once the run has ended.  It has lost nothing exactly when no event was
committed between the poll and the snapshot that ended it.
-/

namespace ChangePilot

open NumberedLog

/-! ## Logs -/

/-- The events of each run are its own, and numbered as the counter says. -/
structure MemoryStore.LogsSound (store : MemoryStore) : Prop where
  numbered : ∀ runId, Numbered SequencedEvent.sequence (store.events runId)
  counted : ∀ runId, store.eventSequences runId = (store.events runId).length
  own : ∀ runId, ∀ entry ∈ store.events runId, entry.event.runId = runId

namespace MemoryStore

variable {store : MemoryStore}

theorem logsSound_empty : ({} : MemoryStore).LogsSound where
  numbered _ := numbered_nil
  counted _ := rfl
  own _ _ hentry := nomatch hentry

theorem events_appendEvent_self (event : AuditEvent) :
    (store.appendEvent event).events event.runId =
      store.events event.runId ++ [⟨store.eventSequences event.runId + 1, event⟩] :=
  Function.update_self ..

theorem events_appendEvent_of_ne (event : AuditEvent) {runId : String}
    (hne : runId ≠ event.runId) :
    (store.appendEvent event).events runId = store.events runId :=
  Function.update_of_ne hne ..

theorem LogsSound.appendEvent (h : store.LogsSound) (event : AuditEvent) :
    (store.appendEvent event).LogsSound := by
  constructor
  · intro runId
    by_cases hrun : runId = event.runId
    · rw [hrun, events_appendEvent_self]
      exact (h.numbered event.runId).concat (congrArg (· + 1) (h.counted event.runId))
    · rw [events_appendEvent_of_ne event hrun]
      exact h.numbered runId
  · intro runId
    by_cases hrun : runId = event.runId
    · rw [hrun, events_appendEvent_self, List.length_append, List.length_singleton,
        ← h.counted event.runId]
      exact Function.update_self ..
    · rw [events_appendEvent_of_ne event hrun, ← h.counted runId]
      exact Function.update_of_ne hrun ..
  · intro runId entry hentry
    by_cases hrun : runId = event.runId
    · rw [hrun, events_appendEvent_self, List.mem_append, List.mem_singleton] at hentry
      rcases hentry with hentry | rfl
      · rw [hrun]
        exact h.own event.runId entry hentry
      · exact hrun.symm
    · rw [events_appendEvent_of_ne event hrun] at hentry
      exact h.own runId entry hentry

theorem prefix_appendEvent (event : AuditEvent) (runId : String) :
    store.events runId <+: (store.appendEvent event).events runId := by
  by_cases hrun : runId = event.runId
  · rw [hrun, events_appendEvent_self]
    exact List.prefix_append ..
  · rw [events_appendEvent_of_ne event hrun]

/-- A log grows at its end only, whatever is written. -/
theorem LogsSound.view {writes : List Write} :
    ∀ {store : MemoryStore}, store.LogsSound →
      (Tx.view MemoryStore.apply store writes).LogsSound ∧
        ∀ runId, store.events runId <+:
          (Tx.view MemoryStore.apply store writes).events runId := by
  induction writes with
  | nil => exact fun h => ⟨h, fun _ => List.prefix_rfl⟩
  | cons write rest ih =>
      intro store h
      rw [Tx.view_cons]
      cases write with
      | appendEvent event =>
          obtain ⟨hsound, hgrown⟩ := ih (h.appendEvent event)
          exact ⟨hsound, fun runId => (prefix_appendEvent event runId).trans (hgrown runId)⟩
      | _ => exact @ih (MemoryStore.apply store _) ⟨h.numbered, h.counted, h.own⟩

end MemoryStore

namespace EventStream

theorem transact_logs {store : MemoryStore} (h : store.LogsSound) (body : UowM (Exit Unit)) :
    (transact body store).LogsSound ∧
      ∀ runId, store.events runId <+: (transact body store).events runId := by
  unfold transact
  cases hrun : store.transact body with
  | error error => exact ⟨h, fun _ => List.prefix_rfl⟩
  | ok result =>
      refine Tx.Ensures.transact (P := fun _ next => next.LogsSound ∧
        ∀ runId, store.events runId <+: next.events runId) ?_ hrun
      intro exit staged _
      cases exit with
      | commit _ => exact fun _ => h.view
      | leave _ => exact ⟨h, fun _ => List.prefix_rfl⟩

theorem start_logs (history : List (UowM (Exit Unit))) (after : ℕ) :
    (start history after).store.LogsSound := by
  have hfold : ∀ (history : List (UowM (Exit Unit))) {store : MemoryStore}, store.LogsSound →
      (history.foldl (fun store body => transact body store) store).LogsSound := by
    intro history
    induction history with
    | nil => exact fun h => h
    | cons body rest ih => exact fun h => ih (transact_logs h body).1
  exact hfold history MemoryStore.logsSound_empty

end EventStream

/-! ## The property and the condition -/

/-- The event that the console shows for an entry of the log. -/
def Console.Shows (console : Console) (entry : SequencedEvent) (event : EventDTO) : Prop :=
  ∃ steps found, QueryService.eventDto console.deployment steps entry = .ok found ∧
    OperationsService.showEvent console found = event

/-- What the stream of a run that started above `after` is for. -/
structure LosesNothing (console : Console) (runId : String) (after : ℕ) (stream : EventStream) :
    Prop where
  increasing : stream.delivered.Pairwise fun a b => a.sequence < b.sequence
  logged : ∀ event ∈ stream.delivered, after < event.sequence ∧ event.runId = runId ∧
    ∃ entry ∈ stream.store.events runId, console.Shows entry event
  complete : stream.phase = .closed .terminal →
    ∀ entry ∈ stream.snapshotLog, after < entry.sequence →
      ∃ event ∈ stream.delivered, console.Shows entry event

/-- The loop completes a snapshot that shows the run in a state it does not leave. -/
def EventStream.Ends (console : Console) (runId : String) (stream : EventStream)
    (action : StreamAction) : Prop :=
  ∃ connected found quiet, action = .resume connected ∧
    stream.phase = .summarizing found quiet ∧ found.run.state.value ∈ streamEndStates ∧
    ∃ summary, OperationsService.snapshotSummary console stream.store runId found = .ok summary

/-- A snapshot ends the stream only when no event above `after` was committed between the
last poll and it. -/
def EventStream.Settled (console : Console) (runId : String) (after : ℕ) (stream : EventStream)
    (action : StreamAction) : Prop :=
  stream.Ends console runId action →
    ∀ entry ∈ stream.snapshotLog, after < entry.sequence → entry ∈ stream.polled

/-! ## What the loop keeps -/

/-- The phases before which a whole page has been handed out. -/
inductive StreamPhase.CaughtUp : StreamPhase → Prop
  | summarizing (found : RunDTO) (quiet : Bool) : CaughtUp (.summarizing found quiet)
  | terminal : CaughtUp (.closed .terminal)

/-- The loop follows the log: what it has handed out are the entries up to the cursor, and
what is left of the page those after it. -/
structure Following (console : Console) (runId : String) (after : ℕ) (stream : EventStream) :
    Prop where
  logs : stream.store.LogsSound
  polled : stream.polled <+: stream.store.events runId
  snapshot : stream.snapshotLog <+: stream.store.events runId
  after_le : after ≤ stream.cursor
  cursor_le : stream.cursor ≤ max after stream.polled.length
  delivered : List.Forall₂ console.Shows ((stream.polled.take stream.cursor).drop after)
    stream.delivered
  page : ∀ rest quiet, stream.phase = .delivering rest quiet →
    List.Forall₂ console.Shows (stream.polled.drop stream.cursor) rest
  caughtUp : stream.phase.CaughtUp → stream.polled.length ≤ stream.cursor

section

variable {console : Console} {runId : String} {after : ℕ} {stream : EventStream}

/-- An event is shown under the number and the run of its entry. -/
theorem Console.Shows.source {entry : SequencedEvent} {event : EventDTO}
    (h : console.Shows entry event) :
    event.sequence = entry.sequence ∧ event.runId = entry.event.runId := by
  obtain ⟨steps, found, hfound, rfl⟩ := h
  simp only [QueryService.eventDto, Except.bind_eq_ok_iff, Except.pure_eq_ok_iff] at hfound
  obtain ⟨_, _, rfl⟩ := hfound
  exact ⟨rfl, rfl⟩

theorem forall₂_shows {steps : List StepDefinition} {entries : List SequencedEvent} :
    ∀ {events : List EventDTO},
      entries.mapM (QueryService.eventDto console.deployment steps) = .ok events →
      List.Forall₂ console.Shows entries (events.map (OperationsService.showEvent console)) := by
  induction entries with
  | nil =>
      intro events h
      obtain rfl := Except.pure_eq_ok_iff.mp h
      exact .nil
  | cons entry rest ih =>
      intro events h
      simp only [List.mapM_cons, Except.bind_eq_ok_iff, Except.pure_eq_ok_iff] at h
      obtain ⟨event, hevent, others, hothers, rfl⟩ := h
      exact .cons ⟨steps, event, hevent, rfl⟩ (ih hothers)

/-- A page shows what the log has above the cursor. -/
theorem forall₂_getEvents {store : MemoryStore} (hlogs : store.LogsSound) {cursor : ℕ}
    {page : EventPage} (h : OperationsService.getEvents console store runId cursor = .ok page) :
    List.Forall₂ console.Shows ((store.events runId).drop cursor) page.events := by
  simp only [OperationsService.getEvents, Except.bind_eq_ok_iff, Except.pure_eq_ok_iff] at h
  obtain ⟨_, _, events, hevents, rfl⟩ := h
  unfold QueryService.listEvents at hevents
  split at hevents
  case h_2 => cases hevents
  case h_1 run _ =>
    rw [← (hlogs.numbered runId).filter_eq_drop cursor]
    exact forall₂_shows hevents

namespace Following

theorem numbered_polled (h : Following console runId after stream) :
    Numbered SequencedEvent.sequence stream.polled :=
  (h.logs.numbered runId).of_isPrefix h.polled

theorem read_subset (h : Following console runId after stream) {entry : SequencedEvent}
    (hentry : entry ∈ (stream.polled.take stream.cursor).drop after) :
    entry ∈ stream.polled ∧ after < entry.sequence := by
  have htake : Numbered SequencedEvent.sequence (stream.polled.take stream.cursor) :=
    h.numbered_polled.of_isPrefix ( List.take_prefix ..)
  obtain ⟨hmem, hlt⟩ := htake.mem_drop_iff.mp hentry
  exact ⟨List.mem_of_mem_take hmem, hlt⟩

theorem increasing (h : Following console runId after stream) :
    stream.delivered.Pairwise fun a b => a.sequence < b.sequence := by
  have hsequences : ((stream.polled.take stream.cursor).drop after).map SequencedEvent.sequence =
      stream.delivered.map EventDTO.sequence := by
    rw [← List.forall₂_eq_eq_eq, List.forall₂_map_left_iff, List.forall₂_map_right_iff]
    exact h.delivered.imp fun entry event hshows => hshows.source.1.symm
  have hread : ((stream.polled.take stream.cursor).drop after).Pairwise
      fun a b => a.sequence < b.sequence := by
    refine h.numbered_polled.pairwise.sublist ?_
    exact (List.drop_sublist ..).trans (List.take_sublist ..)
  have hmap := (List.pairwise_map (f := SequencedEvent.sequence) (R := (· < ·))).mpr hread
  rw [hsequences] at hmap
  exact List.pairwise_map.mp hmap

theorem logged (h : Following console runId after stream) :
    ∀ event ∈ stream.delivered, after < event.sequence ∧ event.runId = runId ∧
      ∃ entry ∈ stream.store.events runId, console.Shows entry event := by
  intro event hevent
  obtain ⟨entry, hentry, hshows⟩ := exists_original h.delivered hevent
  obtain ⟨hpolled, hlt⟩ := h.read_subset hentry
  have hlog : entry ∈ stream.store.events runId := h.polled.mem hpolled
  refine ⟨?_, ?_, entry, hlog, hshows⟩
  · rw [hshows.source.1]
    exact hlt
  · rw [hshows.source.2]
    exact h.logs.own runId entry hlog

/-- A loop that has caught up has handed out what it polled. -/
theorem delivers_iff (h : Following console runId after stream) (hcaught : stream.phase.CaughtUp)
    {entry : SequencedEvent} (hentry : entry ∈ stream.snapshotLog)
    (hafter : after < entry.sequence) :
    (∃ event ∈ stream.delivered, console.Shows entry event) ↔ entry ∈ stream.polled := by
  constructor
  · rintro ⟨event, hevent, hshows⟩
    obtain ⟨other, hother, hshown⟩ := exists_original h.delivered hevent
    have hpolled : other ∈ stream.polled := (h.read_subset hother).1
    have heq : entry = other := by
      refine (h.logs.numbered runId).eq_of_sequence_eq (h.snapshot.mem hentry)
        (h.polled.mem hpolled) ?_
      rw [← hshows.source.1, hshown.source.1]
    rwa [heq]
  · intro hpolled
    refine exists_copy h.delivered ?_
    rw [List.take_of_length_le (h.caughtUp hcaught), h.numbered_polled.mem_drop_iff]
    exact ⟨hpolled, hafter⟩

theorem losesNothing_iff (h : Following console runId after stream) :
    LosesNothing console runId after stream ↔
      (stream.phase = .closed .terminal →
        ∀ entry ∈ stream.snapshotLog, after < entry.sequence → entry ∈ stream.polled) := by
  constructor
  · intro hkept hclosed entry hentry hafter
    exact (h.delivers_iff (hclosed ▸ .terminal) hentry hafter).mp
      (hkept.complete hclosed entry hentry hafter)
  · intro hpolled
    refine ⟨h.increasing, h.logged, fun hclosed entry hentry hafter => ?_⟩
    exact (h.delivers_iff (hclosed ▸ .terminal) hentry hafter).mpr
      (hpolled hclosed entry hentry hafter)

/-- Other units of work may let the log grow. -/
theorem transact (h : Following console runId after stream) (body : UowM (Exit Unit)) :
    Following console runId after
      { stream with store := EventStream.transact body stream.store } := by
  obtain ⟨hlogs, hgrown⟩ := EventStream.transact_logs h.logs body
  exact { h with
    logs := hlogs
    polled := h.polled.trans (hgrown runId)
    snapshot := h.snapshot.trans (hgrown runId) }

/-- The loop goes on with neither a page nor a snapshot. -/
theorem of_phase (h : Following console runId after stream) {phase : StreamPhase}
    (hpage : ∀ rest quiet, phase ≠ .delivering rest quiet) (hcaught : ¬ phase.CaughtUp) :
    Following console runId after { stream with phase } :=
  { h with
    page := fun rest quiet hphase => absurd hphase (hpage rest quiet)
    caughtUp := fun hphase => absurd hphase hcaught }

theorem close (h : Following console runId after stream) {ending : StreamEnd}
    (hending : ending ≠ .terminal) :
    Following console runId after { stream with phase := .closed ending } := by
  refine h.of_phase (fun rest quiet hphase => ?_) (fun hcaught => ?_)
  · cases hphase
  · cases hcaught
    exact hending rfl

theorem fail (h : Following console runId after stream) (error : Error) :
    Following console runId after { stream with phase := .closed (.failed error) } :=
  h.close fun hending => by cases hending

theorem poll (h : Following console runId after stream) :
    Following console runId after (stream.poll console runId) := by
  unfold EventStream.poll
  cases hpage : OperationsService.getEvents console stream.store runId stream.cursor with
  | error error => exact h.fail error
  | ok page =>
      have hlength : stream.polled.length ≤ (stream.store.events runId).length :=
        h.polled.length_le
      exact { h with
        polled := List.prefix_rfl
        cursor_le := h.cursor_le.trans (max_le_max_left after hlength)
        delivered := by
          show List.Forall₂ _ (((stream.store.events runId).take stream.cursor).drop after) _
          rw [drop_take_of_isPrefix h.polled h.cursor_le]
          exact h.delivered
        page := by
          rintro rest quiet ⟨⟩
          exact forall₂_getEvents h.logs hpage
        caughtUp := fun hcaught => by cases hcaught }

theorem deliver (h : Following console runId after stream) {event : EventDTO}
    {rest : List EventDTO} {quiet : Bool} (hphase : stream.phase = .delivering (event :: rest) quiet) :
    Following console runId after (stream.deliver console event rest quiet) := by
  unfold EventStream.deliver
  cases hdata : console.dumps (event.modelDump console.isoformat) with
  | error error => exact h.fail error
  | ok data =>
      obtain ⟨entry, left, hshows, hrest, hdrop⟩ :=
        List.forall₂_cons_right_iff.mp (h.page (event :: rest) quiet hphase)
      obtain ⟨htake, hleft⟩ := drop_take_succ h.after_le hdrop
      -- the event carries the number after the cursor
      have hsequence : event.sequence = stream.cursor + 1 :=
        hshows.source.1.trans (h.numbered_polled.sequence_of_drop hdrop)
      have hlt : stream.cursor < stream.polled.length := by
        have hlength := congrArg List.length hdrop
        rw [List.length_drop, List.length_cons] at hlength
        omega
      simp only [hsequence]
      exact { h with
        after_le := h.after_le.trans (Nat.le_succ _)
        cursor_le := (Nat.succ_le_of_lt hlt).trans (le_max_right ..)
        delivered := by
          show List.Forall₂ _ ((stream.polled.take (stream.cursor + 1)).drop after)
            ((stream.chunks ++ [Chunk.audit event data]).filterMap Chunk.event?)
          rw [htake, List.filterMap_append]
          exact List.rel_append h.delivered (.cons hshows .nil)
        page := by
          rintro _ _ ⟨⟩
          show List.Forall₂ _ (stream.polled.drop (stream.cursor + 1)) _
          rw [hleft]
          exact hrest
        caughtUp := fun hcaught => by cases hcaught }

/-- After the last event of a page the cursor is at the end of what was polled. -/
theorem readRun (h : Following console runId after stream) {quiet : Bool}
    (hphase : stream.phase = .delivering [] quiet) :
    Following console runId after (stream.readRun console runId quiet) := by
  unfold EventStream.readRun
  cases hfound : OperationsService.snapshotRun console stream.store runId with
  | error error => exact h.fail error
  | ok found =>
      have hdrop : stream.polled.drop stream.cursor = [] :=
        List.forall₂_nil_right_iff.mp (h.page [] quiet hphase)
      exact { h with
        snapshot := List.prefix_rfl
        page := nofun
        caughtUp := fun _ => List.drop_eq_nil_iff.mp hdrop }

theorem summarize (h : Following console runId after stream) {found : RunDTO} {quiet : Bool}
    (hphase : stream.phase = .summarizing found quiet) :
    Following console runId after (stream.summarize console runId found quiet) := by
  unfold EventStream.summarize
  cases hsummary : OperationsService.snapshotSummary console stream.store runId found with
  | error error => exact h.fail error
  | ok summary =>
      simp only
      split
      · exact { h with
          page := nofun
          caughtUp := fun _ => h.caughtUp (hphase ▸ .summarizing found quiet) }
      · refine h.of_phase (fun rest quiet hphase => ?_) (fun hcaught => ?_)
        · cases hphase
        · cases hcaught

theorem ask (h : Following console runId after stream) (quiet connected : Bool) :
    Following console runId after (stream.ask quiet connected) := by
  unfold EventStream.ask
  split
  · exact h.close fun hending => by cases hending
  · have hdelivered : (if quiet then stream.chunks ++ [.heartbeat] else stream.chunks).filterMap
        Chunk.event? = stream.delivered := by
      split
      · rw [List.filterMap_append]
        exact List.append_nil _
      · rfl
    exact { h with
      delivered := by
        show List.Forall₂ _ _ ((if quiet then _ else _ : List Chunk).filterMap _)
        rw [hdelivered]
        exact h.delivered
      page := nofun
      caughtUp := fun hcaught => by cases hcaught }

theorem resume (h : Following console runId after stream) (connected : Bool) :
    Following console runId after (stream.resume console runId connected) := by
  unfold EventStream.resume
  split
  · exact h.poll
  · exact h.deliver ‹_›
  · exact h.readRun ‹_›
  · exact h.summarize ‹_›
  · exact h.ask _ connected
  · exact h

theorem next (h : Following console runId after stream) (action : StreamAction) :
    Following console runId after (stream.next console runId action) := by
  cases action with
  | transact body => exact h.transact body
  | resume connected => exact h.resume connected
  | cancel =>
      show Following console runId after stream.cancelled
      unfold EventStream.cancelled
      split
      · exact h
      · exact h.close fun hending => by cases hending

end Following

theorem following_start (history : List (UowM (Exit Unit))) :
    Following console runId after (.start history after) where
  logs := EventStream.start_logs history after
  polled := List.nil_prefix
  snapshot := List.nil_prefix
  after_le := Nat.le_refl after
  cursor_le := le_max_left ..
  delivered := by
    show List.Forall₂ _ ((List.take after []).drop after) []
    rw [List.take_nil, List.drop_nil]
    exact .nil
  page := nofun
  caughtUp := fun hcaught => by cases hcaught

/-! ## How a stream ends -/

theorem summary_state {store : MemoryStore} {found : RunDTO} {summary : RunSummary}
    (h : OperationsService.snapshotSummary console store runId found = .ok summary) :
    summary.state = found.run.state := by
  simp only [OperationsService.snapshotSummary, Except.bind_eq_ok_iff,
    Except.pure_eq_ok_iff] at h
  obtain ⟨_, _, _, _, rfl⟩ := h
  rfl

theorem summarize_terminal_iff {found : RunDTO} {quiet : Bool} :
    (stream.summarize console runId found quiet).phase = .closed .terminal ↔
      found.run.state.value ∈ streamEndStates ∧
        ∃ summary, OperationsService.snapshotSummary console stream.store runId found =
          .ok summary := by
  unfold EventStream.summarize
  cases hsummary : OperationsService.snapshotSummary console stream.store runId found with
  | error error =>
      refine iff_of_false (fun h => ?_) (fun h => ?_)
      · cases h
      · obtain ⟨_, _, h⟩ := h
        cases h
  | ok summary =>
      simp only [summary_state hsummary]
      split
      case isTrue hstate => exact iff_of_true rfl ⟨hstate, summary, rfl⟩
      case isFalse hstate =>
        refine iff_of_false (fun h => ?_) (fun h => hstate h.1)
        cases h

/-- Elsewhere in the loop a stream does not end with its run. -/
theorem resume_terminal_iff {connected : Bool} :
    (stream.resume console runId connected).phase = .closed .terminal ↔
      stream.phase = .closed .terminal ∨ stream.Ends console runId (.resume connected) := by
  -- the snapshot that ends the run ends the stream
  have hends : ∀ {found quiet}, stream.Ends console runId (.resume connected) →
      stream.phase = .summarizing found quiet →
      (stream.summarize console runId found quiet).phase = .closed .terminal := by
    intro found quiet hends hphase
    obtain ⟨_, other, _, _, hother, hstate, hsummary⟩ := hends
    obtain ⟨rfl, rfl⟩ := StreamPhase.summarizing.inj (hphase.symm.trans hother)
    exact summarize_terminal_iff.mpr ⟨hstate, hsummary⟩
  -- in any other phase the stream does not end
  have hnot : ∀ {phase : StreamPhase}, stream.phase = phase → ¬ phase.CaughtUp →
      ¬ (stream.phase = .closed .terminal ∨ stream.Ends console runId (.resume connected)) := by
    intro phase hphase hcaught h
    rcases h with h | ⟨_, found, quiet, _, h, _⟩
    · rw [← hphase, h] at hcaught
      exact hcaught .terminal
    · rw [← hphase, h] at hcaught
      exact hcaught (.summarizing found quiet)
  unfold EventStream.resume
  split
  case h_1 hphase =>
    refine iff_of_false (fun h => ?_) (hnot hphase fun hcaught => by cases hcaught)
    unfold EventStream.poll at h
    split at h <;> cases h
  case h_2 hphase =>
    refine iff_of_false (fun h => ?_) (hnot hphase fun hcaught => by cases hcaught)
    unfold EventStream.deliver at h
    split at h <;> cases h
  case h_3 hphase =>
    refine iff_of_false (fun h => ?_) (hnot hphase fun hcaught => by cases hcaught)
    unfold EventStream.readRun at h
    split at h <;> cases h
  case h_4 found quiet hphase =>
    constructor
    · intro h
      obtain ⟨hstate, hsummary⟩ := summarize_terminal_iff.mp h
      exact .inr ⟨connected, found, quiet, rfl, hphase, hstate, hsummary⟩
    · intro h
      rcases h with h | h
      · cases hphase.symm.trans h
      · exact hends h hphase
  case h_5 hphase =>
    refine iff_of_false (fun h => ?_) (hnot hphase fun hcaught => by cases hcaught)
    unfold EventStream.ask at h
    split at h <;> cases h
  case h_6 hphase =>
    refine ⟨.inl, fun h => ?_⟩
    rcases h with h | ⟨_, found, quiet, _, hother, _⟩
    · exact h
    · cases hphase.symm.trans hother

/-- A stream has ended with its run when it had before or an action ends it. -/
theorem next_terminal_iff {action : StreamAction} :
    (stream.next console runId action).phase = .closed .terminal ↔
      stream.phase = .closed .terminal ∨ stream.Ends console runId action := by
  have hnot : (∀ connected, action ≠ .resume connected) → ¬ stream.Ends console runId action := by
    intro hother h
    obtain ⟨connected, _, _, hresume, _⟩ := h
    exact hother connected hresume
  cases action with
  | transact body => exact (or_iff_left (hnot nofun)).symm
  | resume connected => exact resume_terminal_iff
  | cancel =>
      rw [or_iff_left (hnot nofun)]
      simp only [EventStream.next, EventStream.cancelled]
      split
      case h_1 => exact Iff.rfl
      case h_2 hopen =>
        refine iff_of_false (fun h => ?_) (hopen .terminal)
        cases h

/-- The action that ends a stream, and those after it, leave what it has read alone. -/
theorem next_logs {action : StreamAction}
    (h : stream.phase = .closed .terminal ∨ stream.Ends console runId action) :
    (stream.next console runId action).snapshotLog = stream.snapshotLog ∧
      (stream.next console runId action).polled = stream.polled := by
  rcases h with h | ⟨connected, found, quiet, rfl, hphase, _⟩
  · cases action with
    | transact body => exact ⟨rfl, rfl⟩
    | resume connected =>
        simp only [EventStream.next, EventStream.resume, h]
        exact ⟨trivial, trivial⟩
    | cancel =>
        simp only [EventStream.next, EventStream.cancelled, h]
        exact ⟨trivial, trivial⟩
  · simp only [EventStream.next, EventStream.resume, hphase, EventStream.summarize]
    split
    · exact ⟨rfl, rfl⟩
    · split <;> exact ⟨rfl, rfl⟩

end

/-! ## The guarantee -/

theorem losesNothing_start {console : Console} {runId : String}
    (history : List (UowM (Exit Unit))) (after : ℕ) :
    LosesNothing console runId after (.start history after) :=
  (following_start history).losesNothing_iff.mpr nofun

theorem event_stream_loses_nothing (console : Console) (runId : String) (after : ℕ)
    (history : List (UowM (Exit Unit))) (actions : List StreamAction) :
    LosesNothing console runId after
        (Runs.run (EventStream.next console runId) (.start history after) actions) ↔
      Runs.Along (EventStream.next console runId)
        (fun stream action => stream.Settled console runId after action)
        (.start history after) actions := by
  refine @Runs.run_iff_along _ _ _ _ (Following console runId after)
    (LosesNothing console runId after) (fun stream action h => h.next action) ?_ ?_ _ _
    (following_start history) (losesNothing_start history after)
  · intro stream action h hnext
    rw [h.losesNothing_iff]
    intro hclosed
    obtain ⟨hsnapshot, hpolled⟩ := @next_logs console runId _ action (.inl hclosed)
    have hkept := (h.next action).losesNothing_iff.mp hnext (next_terminal_iff.mpr (.inl hclosed))
    rwa [hsnapshot, hpolled] at hkept
  · intro stream action h hkept
    rw [(h.next action).losesNothing_iff]
    constructor
    · intro hnext hends
      obtain ⟨hsnapshot, hpolled⟩ := @next_logs console runId _ action (.inr hends)
      have hread := hnext (next_terminal_iff.mpr (.inr hends))
      rwa [hsnapshot, hpolled] at hread
    · intro hsettled hclosed
      have hended := next_terminal_iff.mp hclosed
      obtain ⟨hsnapshot, hpolled⟩ := next_logs hended
      rw [hsnapshot, hpolled]
      rcases hended with hbefore | hends
      · exact h.losesNothing_iff.mp hkept hbefore
      · exact hsettled hends

/-- A console of the sample deployment, with one submitted run. -/
def Sample.console : Console where
  deployment := Sample.deployment
  requestOf runId := if runId = "r" then some "request" else none
  lower := Sample.lower
  dumps := Sample.runtime.jsonDumps true
  isoformat _ := "2026-01-01T00:00:00+00:00"

def Sample.createRun : UowM (Exit Unit) :=
  WorkflowService.createRun Sample.deployment (.ofFields [
    ("definition_id", .str "d"), ("version", .int 1),
    ("steps", .list [Sample.stepPayload "a" "change" [] none])]) "r" 0

/-- A client that has seen the first event is told that there are no others; then the run
is cancelled, and the snapshot finds that it has ended. -/
def Sample.cancelledBetweenReads : List StreamAction :=
  [.resume true, .transact (WorkflowService.cancelRun "r" 1), .resume true, .resume true]

theorem terminal_event_is_lost :
    ¬ ∀ (console : Console) (runId : String) (after : ℕ) (history : List (UowM (Exit Unit)))
      (actions : List StreamAction), LosesNothing console runId after
        (Runs.run (EventStream.next console runId) (.start history after) actions) := by
  intro h
  have hkept := h Sample.console "r" 1 [Sample.createRun] Sample.cancelledBetweenReads
  generalize hstream : Runs.run _ _ _ = stream at hkept
  have hclosed : stream.phase = .closed .terminal := hstream ▸ rfl
  have hnumbers : stream.snapshotLog.map SequencedEvent.sequence = [1, 2] := hstream ▸ rfl
  have hnone : stream.delivered = [] := hstream ▸ rfl
  have hlogged : 2 ∈ stream.snapshotLog.map SequencedEvent.sequence := by
    rw [hnumbers]
    decide
  obtain ⟨entry, hentry, hsequence⟩ := List.mem_map.mp hlogged
  obtain ⟨event, hevent, _⟩ := hkept.complete hclosed entry hentry (by omega)
  rw [hnone] at hevent
  cases hevent

end ChangePilot
