import ChangePilot.Persistence.Runtime
import ChangePilot.System.Sessions

/-!
# Atomic commits and lost updates

Over one store, a commit publishes everything that was staged or changes nothing,
and the events of a run are numbered without a gap, in every session.  Two units of
work that save a row from the same revision can both commit when one of them saves
the row twice, the second time from an earlier revision: the row is then back at the
revision it had, and the other unit of work does not notice that it was changed.
Where every commit leaves the rows it saves above the revisions it expects, at most
one of the two commits.
-/

namespace ChangePilot

variable {R : Records} {initial : RecordStore R} {session : Session R}

/-! ## The condition and the properties -/

/-- Every row that the snapshot saves is left above the revision it is expected at. -/
structure Snapshot.Advances (snapshot : Snapshot R) : Prop where
  runs : snapshot.runs.Advances R.runRevision
  steps : snapshot.steps.Advances R.stepRevision
  approvals : snapshot.approvals.Advances R.approvalVersion

/-- A commit leaves the rows it saves above the revisions it expects. -/
def Session.Advances (session : Session R) : Call R → Prop
  | .commit index => ∀ opened, session.units[index]? = some opened →
      opened.unit.snapshot.Advances
  | _ => True

/-- A commit publishes all changes staged in the unit of work, one after another,
or raises and leaves the store and its counters as they were. -/
def Opened.CommitsWhole (opened : Opened R) (store : RecordStore R) : Prop :=
  match UnitOfWork.commit (opened.unit, store) with
  | .ok _ (_, after) => after = opened.staged.foldl RecordStore.apply store
  | .error _ (_, after) => after = store

/-- Both snapshots save some run, step or approval from the same revision. -/
def Snapshot.SharesBase (first second : Snapshot R) : Prop :=
  (∃ entry ∈ first.runs.expected, entry ∈ second.runs.expected) ∨
    (∃ entry ∈ first.steps.expected, entry ∈ second.steps.expected) ∨
    ∃ entry ∈ first.approvals.expected, entry ∈ second.approvals.expected

/-- No two units of work that have committed share a base revision. -/
def Session.NoLostUpdate (session : Session R) : Prop :=
  ∀ (i j : ℕ) (first second : Opened R), i ≠ j → session.units[i]? = some first →
    session.units[j]? = some second → first.unit.committed = true →
    second.unit.committed = true → ¬ first.unit.snapshot.SharesBase second.unit.snapshot

/-! ## Committed rows stay ahead -/

/-- The rows that the snapshot saves have moved past the revisions it expected. -/
structure Snapshot.Landed (snapshot : Snapshot R) (store : RecordStore R) : Prop where
  runs : ∀ entry ∈ snapshot.runs.expected, store.runs.Above R.runRevision entry.1 entry.2
  steps : ∀ entry ∈ snapshot.steps.expected, store.steps.Above R.stepRevision entry.1 entry.2
  approvals : ∀ entry ∈ snapshot.approvals.expected,
    store.approvals.Above R.approvalVersion entry.1 entry.2

theorem Opened.Faithful.landed {opened : Opened R} (h : opened.Faithful)
    (hadvances : opened.unit.snapshot.Advances) (store : RecordStore R) :
    opened.unit.snapshot.Landed (opened.unit.snapshot.publish store) where
  runs _ := StagedTable.above_of_advances store.runs h.runs hadvances.runs
  steps _ := StagedTable.above_of_advances store.steps h.steps hadvances.steps
  approvals _ := StagedTable.above_of_advances store.approvals h.approvals hadvances.approvals

/-- Rows that have moved past a revision are still past it after another commit. -/
theorem Snapshot.Landed.publish {snapshot : Snapshot R} {store : RecordStore R}
    (h : snapshot.Landed store) {opened : Opened R} (hfaithful : opened.Faithful)
    (hadvances : opened.unit.snapshot.Advances) (hfits : opened.unit.snapshot.Fits store) :
    snapshot.Landed (opened.unit.snapshot.publish store) where
  runs entry hentry := StagedTable.above_publish hfaithful.runs hadvances.runs hfits.newRuns
    hfits.runs (h.runs entry hentry)
  steps entry hentry := StagedTable.above_publish hfaithful.steps hadvances.steps hfits.newSteps
    hfits.steps (h.steps entry hentry)
  approvals entry hentry := StagedTable.above_publish hfaithful.approvals hadvances.approvals
    hfits.newApprovals hfits.approvals (h.approvals entry hentry)

/-- A snapshot that fits the store shares no base with one that has landed in it. -/
theorem Snapshot.Fits.not_sharesBase {snapshot landed : Snapshot R} {store : RecordStore R}
    (hfits : snapshot.Fits store) (hlanded : landed.Landed store) :
    ¬ landed.SharesBase snapshot := by
  rintro (⟨entry, hlast, hentry⟩ | ⟨entry, hlast, hentry⟩ | ⟨entry, hlast, hentry⟩)
  · exact StagedTable.not_above_of_expected (hfits.runs entry hentry) (hlanded.runs entry hlast)
  · exact StagedTable.not_above_of_expected (hfits.steps entry hentry) (hlanded.steps entry hlast)
  · exact StagedTable.not_above_of_expected (hfits.approvals entry hentry)
      (hlanded.approvals entry hlast)

theorem Snapshot.SharesBase.symm {first second : Snapshot R} (h : first.SharesBase second) :
    second.SharesBase first := by
  rcases h with ⟨entry, hfirst, hsecond⟩ | ⟨entry, hfirst, hsecond⟩ | ⟨entry, hfirst, hsecond⟩
  · exact Or.inl ⟨entry, hsecond, hfirst⟩
  · exact Or.inr (Or.inl ⟨entry, hsecond, hfirst⟩)
  · exact Or.inr (Or.inr ⟨entry, hsecond, hfirst⟩)

/-! ## The invariant of a session -/

structure Session.Sound (session : Session R) : Prop where
  faithful : ∀ opened ∈ session.units, opened.Faithful
  landed : ∀ opened ∈ session.units, opened.unit.committed = true →
    opened.unit.snapshot.Landed session.store
  noLostUpdate : session.NoLostUpdate

namespace Session

theorem sound_start (store : RecordStore R) : (Session.start store).Sound where
  faithful _ hopened := absurd hopened List.not_mem_nil
  landed _ hopened := absurd hopened List.not_mem_nil
  noLostUpdate _ _ _ _ _ hfirst := by simp [start] at hfirst

/-- Opening a unit of work, or changing one that is open, keeps what holds of the
committed ones. -/
theorem Sound.of_open (h : session.Sound) {units : List (Opened R)}
    (hfaithful : ∀ opened ∈ units, opened.Faithful)
    (hold : ∀ (i : ℕ) (opened : Opened R), units[i]? = some opened →
      opened.unit.committed = true → session.units[i]? = some opened) :
    Sound ⟨session.store, units⟩ where
  faithful := hfaithful
  landed := by
    intro opened hopened hcommitted
    obtain ⟨i, hi⟩ := List.mem_iff_getElem?.mp hopened
    exact h.landed opened (List.mem_iff_getElem?.mpr ⟨i, hold i opened hi hcommitted⟩) hcommitted
  noLostUpdate := by
    intro i j first second hne hfirst hsecond hcommitted hcommitted'
    exact h.noLostUpdate i j first second hne (hold i first hfirst hcommitted)
      (hold j second hsecond hcommitted') hcommitted hcommitted'

theorem Sound.enter (h : session.Sound) : (session.next .enter).Sound := by
  refine h.of_open ?_ ?_
  · intro opened hopened
    rcases List.mem_append.mp hopened with hopened | hopened
    · exact h.faithful opened hopened
    · rw [List.mem_singleton.mp hopened]
      exact Opened.faithful_enter session.store
  · intro i opened hopened hcommitted
    rcases Nat.lt_or_ge i session.units.length with hlt | hge
    · rwa [List.getElem?_append_left hlt] at hopened
    · rw [List.getElem?_append_right hge] at hopened
      have hnew := List.mem_singleton.mp (List.mem_of_getElem? hopened)
      rw [hnew] at hcommitted
      cases hcommitted

/-- A call that changes a unit of work only while it is open. -/
theorem Sound.modify (h : session.Sound) {f : Opened R → Opened R} (index : ℕ)
    (hfaithful : ∀ opened, opened.Faithful → (f opened).Faithful)
    (hopen : ∀ opened, f opened = opened ∨ (f opened).unit.committed = false) :
    Sound ⟨session.store, session.units.modify index f⟩ := by
  have hget : ∀ (i : ℕ) (opened : Opened R),
      (session.units.modify index f)[i]? = some opened →
        ∃ old, session.units[i]? = some old ∧ (opened = f old ∨ opened = old) := by
    intro i opened hopened
    rw [List.getElem?_modify] at hopened
    obtain ⟨old, hold, rfl⟩ := Option.map_eq_some_iff.mp hopened
    refine ⟨old, hold, ?_⟩
    split
    case isTrue => exact Or.inl rfl
    case isFalse => exact Or.inr rfl
  refine h.of_open ?_ ?_
  · intro opened hopened
    obtain ⟨i, hi⟩ := List.mem_iff_getElem?.mp hopened
    obtain ⟨old, hold, rfl | rfl⟩ := hget i opened hi
    · exact hfaithful old (h.faithful old (List.mem_of_getElem? hold))
    · exact h.faithful opened (List.mem_of_getElem? hold)
  · intro i opened hopened hcommitted
    obtain ⟨old, hold, rfl | rfl⟩ := hget i opened hopened
    · rcases hopen old with heq | hfalse
      · rw [heq]; exact hold
      · rw [hfalse] at hcommitted; cases hcommitted
    · exact hold

theorem Sound.commit (h : session.Sound) {index : ℕ}
    (hadvances : session.Advances (.commit index)) : (session.next (.commit index)).Sound := by
  rcases session.next_commit_cases index with heq | ⟨opened, hopened, _, hfits, heq⟩
  · rw [heq]; exact h
  · have hmem : opened ∈ session.units := List.mem_of_getElem? hopened
    have hlt : index < session.units.length := (List.getElem?_eq_some_iff.mp hopened).1
    have hfaithful := h.faithful opened hmem
    have hadvances := hadvances opened hopened
    -- a unit of work afterwards: the one that has committed now, or one as it was
    have hget : ∀ (i : ℕ) (other : Opened R),
        (session.units.set index
          { opened with unit := { opened.unit with committed := true } })[i]? = some other →
        (i = index ∧ other.unit.snapshot = opened.unit.snapshot ∧
            other.staged = opened.staged) ∨
          (i ≠ index ∧ session.units[i]? = some other) := by
      intro i other hother
      rw [List.getElem?_set, if_pos hlt] at hother
      split at hother
      case isTrue hindex =>
        cases hother
        exact Or.inl ⟨hindex.symm, rfl, rfl⟩
      case isFalse hindex => exact Or.inr ⟨fun h => hindex h.symm, hother⟩
    rw [heq]
    constructor
    case faithful =>
      intro other hother
      rcases List.mem_or_eq_of_mem_set hother with hother | rfl
      · exact h.faithful other hother
      · exact hfaithful.of_unit rfl
    case landed =>
      intro other hother hcommitted
      obtain ⟨i, hi⟩ := List.mem_iff_getElem?.mp hother
      rcases hget i other hi with ⟨_, hsnapshot, _⟩ | ⟨_, hold⟩
      · rw [hsnapshot]
        exact hfaithful.landed hadvances session.store
      · exact (h.landed other (List.mem_of_getElem? hold) hcommitted).publish hfaithful hadvances
          hfits
    case noLostUpdate =>
      intro i j first second hne hfirst hsecond hcommitted hcommitted'
      rcases hget i first hfirst with ⟨rfl, hsnapshot, _⟩ | ⟨_, hfirst⟩
      · rcases hget j second hsecond with ⟨hj, _⟩ | ⟨_, hsecond⟩
        · exact absurd hj.symm hne
        · rw [hsnapshot]
          exact fun hshares => hfits.not_sharesBase
            (h.landed second (List.mem_of_getElem? hsecond) hcommitted') hshares.symm
      · rcases hget j second hsecond with ⟨_, hsnapshot, _⟩ | ⟨_, hsecond⟩
        · rw [hsnapshot]
          exact hfits.not_sharesBase
            (h.landed first (List.mem_of_getElem? hfirst) hcommitted)
        · exact h.noLostUpdate i j first second hne hfirst hsecond hcommitted hcommitted'

theorem Sound.next (h : session.Sound) {call : Call R} (hadvances : session.Advances call) :
    (session.next call).Sound := by
  cases call with
  | enter => exact h.enter
  | read index => exact h
  | stage index op =>
      refine h.modify index (fun opened hopened => hopened.stage op) fun opened => ?_
      rcases opened.stage_cases op with heq | ⟨hopen, heq⟩
      · exact Or.inl heq
      · exact Or.inr (by rw [heq]; exact hopen)
  | rollback index =>
      refine h.modify index (fun opened hopened => hopened.rollback) fun opened => ?_
      rcases opened.rollback_cases with heq | ⟨hopen, heq⟩
      · exact Or.inl heq
      · exact Or.inr (by rw [heq]; exact hopen)
  | commit index => exact h.commit hadvances

theorem Reachable.sound (h : Reachable initial Session.Advances session) : session.Sound := by
  induction h with
  | start => exact sound_start initial
  | next _ call hcall ih => exact ih.next hcall

end Session

/-- A commit of a unit of work whose snapshot stands for its changes is atomic. -/
theorem Opened.Faithful.commitsWhole {opened : Opened R} (h : opened.Faithful)
    (store : RecordStore R) : opened.CommitsWhole store := by
  unfold Opened.CommitsWhole
  rcases UnitOfWork.commit_cases opened.unit store with ⟨error, hcommit⟩ | ⟨_, _, hcommit⟩
  · rw [hcommit]
  · rw [hcommit]
    exact h.publishes store

theorem Session.Sound.numbered_next (h : session.Sound) (hnumbered : session.store.Numbered)
    (call : Call R) : (session.next call).store.Numbered := by
  cases call with
  | commit index =>
      rcases session.next_commit_cases index with heq | ⟨opened, hopened, _, _, heq⟩
      · rw [heq]; exact hnumbered
      · rw [heq]
        show (opened.unit.snapshot.publish session.store).Numbered
        rw [(h.faithful opened (List.mem_of_getElem? hopened)).publishes]
        exact hnumbered.foldl_apply
  | _ => exact hnumbered

theorem Session.Reachable.numbered (h : Reachable initial Session.Advances session)
    (hinitial : initial.Numbered) : session.store.Numbered := by
  induction h with
  | start => exact hinitial
  | next h call _ ih => exact h.sound.numbered_next ih call

/-! ## The guarantee -/

namespace Session

/-- Add a run at its first revision. -/
def addFirst : Call runtimeRecords :=
  .stage 0 (.addRun ⟨"run-1", "release", 1, "digest", .pending, 1, none, none⟩)

/-- A store with that run. -/
def seeded : List (Call runtimeRecords) := [.enter, addFirst, .commit 0]

/-- Save the run from a revision. -/
def saveFrom (index revision : ℕ) : Call runtimeRecords :=
  .stage index (.saveRun
    ⟨"run-1", "release", 1, "digest", .running, revision + 1, none, none⟩ revision)

/-- Append an event to the log of the run. -/
def log (index : ℕ) : Call runtimeRecords :=
  .stage index (.appendEvent {
    runId := "run-1", stepId := none, eventType := .runStateChanged, occurredAt := 0
    previousState := .run .pending, newState := .run .running, previousRevision := 1
    revision := 2 })

/-- Two units of work save the run from one revision, and one of them commits first. -/
def contended : List (Call runtimeRecords) :=
  seeded ++ [.enter, .enter, saveFrom 1 1, log 1, saveFrom 2 1,
    log 2, .commit 1, .commit 2]

/-- The session after some calls on an empty store. -/
def after (calls : List (Call runtimeRecords)) : Session runtimeRecords :=
  calls.foldl next (start {})

/-- The first unit of work saves the run twice, the second time from an earlier
revision, before the second one saves it. -/
def rewound : List (Call runtimeRecords) :=
  seeded ++ [.enter, .enter, saveFrom 1 1, saveFrom 1 0, .commit 1, saveFrom 2 1, .commit 2]

theorem Reachable.foldl {permitted : Session R → Call R → Prop}
    (hall : ∀ session call, permitted session call) (calls : List (Call R)) :
    ∀ {session : Session R}, Reachable initial permitted session →
      Reachable initial permitted (calls.foldl Session.next session) := by
  induction calls with
  | nil => exact fun h => h
  | cons call rest ih => exact fun h => ih (h.next call (hall _ call))

end Session

theorem commits_are_atomic (h : Session.Reachable initial Session.Advances session) :
    (∀ opened ∈ session.units, opened.CommitsWhole session.store) ∧
      session.NoLostUpdate ∧ (initial.Numbered → session.store.Numbered) :=
  ⟨fun opened hopened => (h.sound.faithful opened hopened).commitsWhole session.store,
    h.sound.noLostUpdate, h.numbered⟩

/-- Where only runs are saved, they are all that has to advance. -/
theorem Snapshot.advances_of_runs {snapshot : Snapshot R}
    (hruns : snapshot.runs.Advances R.runRevision) (hsteps : snapshot.steps.expected = [])
    (happrovals : snapshot.approvals.expected = []) : snapshot.Advances where
  runs := hruns
  steps _ h := absurd (hsteps ▸ h) List.not_mem_nil
  approvals _ h := absurd (happrovals ▸ h) List.not_mem_nil

open Session in
theorem commits_are_atomic_contended :
    (∀ opened ∈ (after contended).units, opened.CommitsWhole (after contended).store) ∧
      (after contended).NoLostUpdate ∧ (after contended).store.Numbered ∧
      (after contended).units.map (fun opened => opened.unit.committed) = [true, true, false] := by
  have hseeded : Reachable {} Session.Advances (after seeded) := by
    refine ((Reachable.start.next .enter trivial).next addFirst trivial).next (.commit 0) ?_
    rintro opened ⟨⟩
    exact Snapshot.advances_of_runs (fun _ h => absurd h List.not_mem_nil) rfl rfl
  have hstaged := (((((hseeded.next .enter trivial).next .enter trivial).next (saveFrom 1 1)
    trivial).next (log 1) trivial).next (saveFrom 2 1) trivial).next
    (log 2) trivial
  have hreachable : Reachable {} Session.Advances (after contended) := by
    refine (hstaged.next (.commit 1) ?_).next (.commit 2) ?_
    · rintro opened ⟨⟩
      refine Snapshot.advances_of_runs (fun entry h => ?_) rfl rfl
      obtain rfl : entry = ("run-1", 1) := List.mem_singleton.mp h
      exact ⟨_, rfl, by decide⟩
    · rintro opened ⟨⟩
      refine Snapshot.advances_of_runs (fun entry h => ?_) rfl rfl
      obtain rfl : entry = ("run-1", 1) := List.mem_singleton.mp h
      exact ⟨_, rfl, by decide⟩
  obtain ⟨hwhole, hnoLostUpdate, hnumbered⟩ := commits_are_atomic hreachable
  exact ⟨hwhole, hnoLostUpdate, hnumbered RecordStore.numbered_empty, rfl⟩

theorem lost_update :
    ¬ ∀ (R : Records) (initial : RecordStore R) (session : Session R),
      Session.Reachable initial (fun _ _ => True) session → session.NoLostUpdate := by
  intro h
  have hreachable : Session.Reachable {} (fun _ _ => True) (Session.after Session.rewound) :=
    .foldl (fun _ _ => trivial) Session.rewound .start
  obtain ⟨first, hfirst, hcommitted, hexpected⟩ : ∃ first : Opened runtimeRecords,
      (Session.after Session.rewound).units[1]? = some first ∧ first.unit.committed = true ∧
        first.unit.snapshot.runs.expected = [("run-1", 1)] := ⟨_, rfl, rfl, rfl⟩
  obtain ⟨second, hsecond, hcommitted', hexpected'⟩ : ∃ second : Opened runtimeRecords,
      (Session.after Session.rewound).units[2]? = some second ∧ second.unit.committed = true ∧
        second.unit.snapshot.runs.expected = [("run-1", 1)] := ⟨_, rfl, rfl, rfl⟩
  refine h _ _ _ hreachable 1 2 first second (by decide) hfirst hsecond hcommitted hcommitted'
    (Or.inl ⟨("run-1", 1), ?_, ?_⟩)
  · rw [hexpected]; exact List.mem_singleton_self _
  · rw [hexpected']; exact List.mem_singleton_self _

end ChangePilot
