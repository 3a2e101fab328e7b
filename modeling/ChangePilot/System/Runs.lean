import ChangePilot.System.Guards

/-!
# Runs of the system

In every reachable state of the system the shared state is well formed and the call
in progress keeps to its guards; so every step is a move of each run, or leaves the
run alone.  `Reachable.view_induction` turns this into the rule by which invariants
of moves hold in every run of the system.
-/

namespace ChangePilot

namespace World

/-- What holds in every reachable state. -/
structure Good (cfg : Deployment) (w : World) : Prop where
  wellFormed : w.shared.WellFormed
  guarded : Prog.Safe (exec cfg) Shared.Rely Shared.WellFormed (fun op s => op.Enabled cfg s)
    (Routine.Ensures fun _ _ => True) w.thread w.shared

variable {cfg : Deployment} {w : World} {α : Type}

theorem initial_good (instant : Timestamp) : (World.initial instant).Good cfg :=
  ⟨Shared.initial_wellFormed instant, trivial⟩

theorem Good.rely (h : w.Good cfg) {s : Shared} (hrely : w.shared.Rely s) (hs : s.WellFormed) :
    World.Good cfg { w with shared := s } where
  wellFormed := hs
  guarded := by
    refine Prog.Safe.stable (fun hab hbc => hab.trans hbc) ?_ h.guarded hrely
    rintro (e | a) _ _ _ _ <;> trivial

theorem call_shared (w : World) (activity : Activity α) : (w.call activity).shared = w.shared := by
  unfold call
  split <;> rfl

theorem Good.call (h : w.Good cfg) {activity : Activity α}
    (hactivity : activity.Safe cfg (fun _ _ => True) w.shared) : (w.call activity).Good cfg := by
  unfold World.call
  split
  · exact ⟨h.wellFormed, hactivity.map⟩
  · exact h

/-- The operation that the process performs next is enabled. -/
theorem Good.proceed (h : w.Good cfg) (inputs : Inputs) :
    (w.proceed cfg inputs).Good cfg ∧
      w.shared.Advances cfg (w.cause (.proceed inputs)) (w.proceed cfg inputs).shared := by
  unfold World.proceed World.cause
  cases hthread : w.thread with
  | ret a => exact ⟨h, .refl h.wellFormed⟩
  | call op k =>
      have hguarded := h.guarded
      rw [hthread] at hguarded
      obtain ⟨henabled, hrest⟩ := hguarded w.shared (.refl _) h.wellFormed
      have hadvances := exec_advances h.wellFormed op henabled inputs
      exact ⟨⟨hadvances.wellFormed h.wellFormed, hrest inputs⟩, hadvances⟩

end World

/-! ## What a step shows -/

namespace Shared

/-- Each run makes a move or stays as it is, and a run that is new has just been
created. -/
structure Follows (cfg : Deployment) (cause : Cause) (s s' : Shared) : Prop where
  views : ∀ runId v, s.view runId = some v →
    ∃ v', s'.view runId = some v' ∧ (v' = v ∨ RunMove cfg v cause v')
  created : ∀ runId v, s.view runId = none → s'.view runId = some v →
    v.Initial ∧ v.inFlight = []

variable {cfg : Deployment} {cause : Cause} {s s' : Shared} {runId : String}

theorem Follows.refl (s : Shared) : s.Follows cfg cause s where
  views _ v hv := ⟨v, hv, Or.inl rfl⟩
  created _ _ hnone hsome := by simp [hnone] at hsome

theorem Advances.follows (h : s.Advances cfg cause s') : s.Follows cfg cause s' where
  views _ _ hv := h.view hv
  created runId v hnone hsome := by
    rcases h.runs runId with ⟨hagree, hinFlight⟩ | ⟨w, _, hw, _⟩
    · rw [view_congr hagree h.definitions hinFlight h.latest, hnone] at hsome
      exact absurd hsome (by simp)
    · simp [hnone] at hw

theorem Created.follows (h : s.Created runId s') (hs : s.WellFormed) :
    s.Follows cfg cause s' where
  views _ v hv := ⟨v, h.view hv, Or.inl rfl⟩
  created _ _ hnone hsome := h.new_view hs hnone hsome

/-- Every view changes by one and the same move. -/
theorem Follows.of_map {f : RunView → RunView}
    (hview : ∀ runId, s'.view runId = (s.view runId).map f)
    (hmove : ∀ v, RunMove cfg v cause (f v)) : s.Follows cfg cause s' where
  views runId v hv := ⟨f v, by rw [hview, hv]; rfl, Or.inr (hmove v)⟩
  created runId v hnone hsome := by simp [hview, hnone] at hsome

end Shared

namespace World

variable {cfg : Deployment} {w : World}

theorem Good.step (h : w.Good cfg) (action : Action) :
    (w.step cfg action).Good cfg ∧
      w.shared.Follows cfg (w.cause action) (w.step cfg action).shared := by
  have called {α : Type} {activity : Activity α}
      (hactivity : activity.Safe cfg (fun _ _ => True) w.shared) :
      (w.call activity).Good cfg ∧ w.shared.Follows cfg (w.cause action) (w.call activity).shared :=
    ⟨h.call hactivity, by rw [call_shared]; exact .refl _⟩
  have operated {s : Shared} (hadvances : w.shared.Advances cfg .operator s) :
      World.Good cfg { w with shared := s } ∧ w.shared.Follows cfg .operator s :=
    ⟨h.rely hadvances.rely (hadvances.wellFormed h.wellFormed), hadvances.follows⟩
  cases action with
  | runOnce => exact called runOnce_safe
  | recover => exact called recoverNonterminalRuns_safe
  | close wait => exact called (close_safe wait)
  | proceed inputs => exact ⟨(h.proceed inputs).1, (h.proceed inputs).2.follows⟩
  | createRun payload runId =>
      rcases Shared.createRun_created cfg h.wellFormed payload runId w.shared.clock with
        hsame | hcreated
      · have hstep : w.step cfg (.createRun payload runId) = w :=
          congrArg (fun shared => { w with shared := shared }) hsame
        rw [hstep]
        exact ⟨h, .refl _⟩
      · exact ⟨h.rely hcreated.rely (hcreated.wellFormed h.wellFormed),
          hcreated.follows h.wellFormed⟩
  | decide => exact operated (Shared.decide_advances h.wellFormed)
  | cancelRun => exact operated (Shared.cancelRun_advances h.wellFormed)
  | toolDone id ending =>
      exact ⟨(operated (Shared.toolDone_advances h.wellFormed id ending)).1,
        (Shared.toolDone_advances h.wellFormed id ending).follows⟩
  | tick instant =>
      exact ⟨h.rely (Shared.tick_rely instant) (Shared.tick_wellFormed h.wellFormed instant cfg),
        .of_map (Shared.view_tick instant) fun v => Shared.tick_move cfg instant⟩
  | crash =>
      exact ⟨⟨Shared.crash_wellFormed h.wellFormed cfg, trivial⟩,
        .of_map Shared.crash_view fun v => .forget⟩

end World

/-! ## Reachable states -/

namespace Reachable

variable {cfg : Deployment} {permitted : World → Action → Prop} {w : World}

theorem good (h : Reachable cfg permitted w) : w.Good cfg := by
  induction h with
  | initial instant => exact World.initial_good instant
  | step action _ _ ih => exact (ih.step action).1

theorem sound (h : Reachable cfg permitted w) {runId : String} {v : RunView}
    (hv : w.shared.view runId = some v) : v.Sound :=
  h.good.wellFormed.sound runId v hv

theorem mono {permitted' : World → Action → Prop} (h : Reachable cfg permitted w)
    (hpermitted : ∀ w action, permitted w action → permitted' w action) :
    Reachable cfg permitted' w := by
  induction h with
  | initial instant => exact .initial instant
  | step action _ haction ih => exact .step action ih (hpermitted _ action haction)

/-- What holds of new runs, and is kept by the moves that permitted steps make, holds
of every run in every reachable state. -/
theorem view_induction {P : RunView → Prop}
    (hinitial : ∀ v : RunView, v.Initial → v.inFlight = [] → v.Sound → P v)
    (hmove : ∀ (w : World) (action : Action) (runId : String) (v v' : RunView),
      Reachable cfg permitted w → permitted w action → w.shared.view runId = some v →
        v.Sound → v'.Sound → RunMove cfg v (w.cause action) v' → P v → P v')
    (h : Reachable cfg permitted w) :
    ∀ {runId : String} {v : RunView}, w.shared.view runId = some v → P v := by
  induction h with
  | initial instant =>
      intro runId v hv
      simp [World.initial, Shared.view, MemoryStore.record, KeyedTable.get, KeyedTable.empty] at hv
  | @step w action hreachable hpermitted ih =>
      intro runId v' hv'
      have hsound' := (hreachable.step action hpermitted).sound hv'
      have hfollows := (hreachable.good.step action).2
      cases hv : w.shared.view runId with
      | none =>
          obtain ⟨hnew, hdrained⟩ := hfollows.created runId v' hv hv'
          exact hinitial v' hnew hdrained hsound'
      | some v =>
          obtain ⟨v'', hv'', hstep⟩ := hfollows.views runId v hv
          obtain rfl := Option.some.inj (hv''.symm.trans hv')
          rcases hstep with rfl | hstep
          · exact ih hv
          · exact hmove w action runId v v'' hreachable hpermitted hv (hreachable.sound hv)
              hsound' hstep (ih hv)

end Reachable

/-! ## Starts -/

/-- The attempt is there after the step and was not there before. -/
def World.Starts (w w' : World) (attempt : StepAttempt) : Prop :=
  attempt ∈ w'.shared.store.attempts.rows ∧ w.shared.store.attempts.get attempt.key = none

namespace Shared

variable {s : Shared} {runId : String} {v : RunView}

/-- The attempts of a view are the store's. -/
theorem mem_attempts_iff (hv : s.view runId = some v) {attempt : StepAttempt} :
    attempt ∈ v.attempts.rows ↔ attempt ∈ s.store.attempts.rows ∧ attempt.runId = runId := by
  rw [← (MemoryStore.record_eq_some_iff.mp (view_eq_some_iff.mp hv).1).2.2.2.1,
    KeyedTable.mem_restrict]
  simp

/-- An attempt belongs to a run that exists. -/
theorem WellFormed.view_of_attempt (hs : s.WellFormed) {attempt : StepAttempt}
    (hattempt : attempt ∈ s.store.attempts.rows) :
    ∃ v, s.view attempt.runId = some v ∧ attempt ∈ v.attempts.rows := by
  cases hrun : s.store.runs.get attempt.runId with
  | none =>
      have hagree := (hs.vacant _ hrun).1.attempts
      have hmem : attempt ∈ (s.store.attempts.restrict fun other =>
          other.runId = attempt.runId).rows :=
        KeyedTable.mem_restrict.mpr ⟨hattempt, by simp⟩
      rw [hagree] at hmem
      exact absurd (KeyedTable.mem_restrict.mp hmem).1 List.not_mem_nil
  | some run =>
      obtain ⟨record, hrecord⟩ := hs.record_isSome hrun
      exact ⟨_, view_of_record hrecord, (mem_attempts_iff (view_of_record hrecord)).mpr
        ⟨hattempt, rfl⟩⟩

end Shared

/-- A step that starts an attempt is the move of its run that starts it. -/
theorem Reachable.move_of_starts {cfg : Deployment} {permitted : World → Action → Prop}
    {w : World} (h : Reachable cfg permitted w) {action : Action} {attempt : StepAttempt}
    (hstarts : w.Starts (w.step cfg action) attempt) :
    ∃ v v', w.shared.view attempt.runId = some v ∧
      (w.step cfg action).shared.view attempt.runId = some v' ∧
      w.cause action = .start attempt ∧ RunMove cfg v (.start attempt) v' ∧
      attempt ∈ v'.attempts.rows ∧ v.Sound := by
  obtain ⟨hmem, hnone⟩ := hstarts
  obtain ⟨hgood, hfollows⟩ := h.good.step action
  obtain ⟨v', hv', hattempt⟩ := hgood.wellFormed.view_of_attempt hmem
  cases hv : w.shared.view attempt.runId with
  | none =>
      have hinitial := (hfollows.created _ v' hv hv').1
      simp [hinitial.attempts] at hattempt
  | some v =>
      have habsent (a : StepAttempt) (ha : a ∈ v.attempts.rows) : a.key ≠ attempt.key := by
        intro hkey
        have hget := KeyedTable.get_key ((Shared.mem_attempts_iff hv).mp ha).1
        rw [hkey, hnone] at hget
        exact absurd hget (by simp)
      obtain ⟨v'', hv'', hstep⟩ := hfollows.views _ v hv
      obtain rfl := Option.some.inj (hv''.symm.trans hv')
      rcases hstep with rfl | hmove
      · exact absurd rfl (habsent attempt hattempt)
      · rcases hmove.attempt_origin (h.sound hv).keyed hattempt with ⟨a, ha, hkey⟩ | ⟨hcause, _⟩
        · exact absurd hkey (habsent a ha)
        · exact ⟨v, v'', rfl, hv', hcause, hcause ▸ hmove, hattempt, h.sound hv⟩

end ChangePilot
