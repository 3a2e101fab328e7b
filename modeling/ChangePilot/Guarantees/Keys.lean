import ChangePilot.Ports.CanonicalJson
import ChangePilot.System.Keys
import ChangePilot.System.Sample

/-!
# Idempotency keys are stable and separate

Whatever happens to a run, the attempts, requests and probes of one step and phase
carry one key; and the keys of two operations that differ anywhere differ, as long as
SHA-256 tells their encodings apart.
-/

namespace ChangePilot

/-! ## What carries a key -/

/-- The next step of the process hangs on what a probe answers to `query`. -/
def World.Asks (cfg : Deployment) (w : World) (query : RecoveryQuery) : Prop :=
  ∃ inputs answers', (∀ other, other ≠ query → inputs.answers other = answers' other) ∧
    w.step cfg (.proceed inputs) ≠ w.step cfg (.proceed { inputs with answers := answers' })

/-- The keys that the stored attempts, the requests in the executor's hands and the
probes carry, by run, step and phase. -/
inductive World.Carries (cfg : Deployment) (w : World) :
    String → String → ToolExecutionPhase → String → Prop
  | attempt {attempt : StepAttempt} (h : attempt ∈ w.shared.store.attempts.rows) :
      Carries cfg w attempt.runId attempt.stepId attempt.phase attempt.idempotencyKey
  | request {context : ToolExecutionContext} (h : context ∈ w.shared.contexts) :
      Carries cfg w context.runId context.stepId context.phase context.logicalIdempotencyKey
  | probe {query : RecoveryQuery} (h : w.Asks cfg query) :
      Carries cfg w query.runId query.stepId query.phase query.logicalIdempotencyKey

/-! ## Probes -/

/-- The query asks about the attempt. -/
def RecoveryQuery.IsAbout (query : RecoveryQuery) (attempt : StepAttempt) : Prop :=
  query.runId = attempt.runId ∧ query.stepId = attempt.stepId ∧ query.phase = attempt.phase ∧
    query.logicalIdempotencyKey = attempt.idempotencyKey

/-- Answers that differ on a query about other attempts only lead to the same. -/
theorem probe_congr {cfg : Deployment} {answers answers' : ProbeAnswers} {query : RecoveryQuery}
    (hanswers : ∀ other, other ≠ query → answers other = answers' other) {step : StepDefinition}
    {attempt : StepAttempt} (hother : ¬ query.IsAbout attempt) (now : Timestamp) :
    probe cfg answers step attempt now = probe cfg answers' step attempt now := by
  have hsame (deadline : Timestamp) : answers {
      runId := attempt.runId, stepId := attempt.stepId, phase := attempt.phase
      logicalIdempotencyKey := attempt.idempotencyKey, deadline := deadline } = answers' {
      runId := attempt.runId, stepId := attempt.stepId, phase := attempt.phase
      logicalIdempotencyKey := attempt.idempotencyKey, deadline := deadline } := by
    refine hanswers _ fun heq => hother ?_
    rw [← heq]
    exact ⟨rfl, rfl, rfl, rfl⟩
  simp only [probe, hsame]

/-- Recovery asks about attempts that are stored. -/
theorem recoverAttempt_congr {cfg : Deployment} {answers answers' : ProbeAnswers}
    {query : RecoveryQuery} (hanswers : ∀ other, other ≠ query → answers other = answers' other)
    {store : MemoryStore} (hother : ∀ a ∈ store.attempts.rows, ¬ query.IsAbout a)
    (runId stepId : String) (expected : StepAttempt) (occurredAt : Timestamp) :
    recoverAttempt cfg answers runId stepId expected occurredAt store [] =
      recoverAttempt cfg answers' runId stepId expected occurredAt store [] := by
  unfold recoverAttempt
  refine Tx.bind_congr <| (Tx.ensures_read _).mpr <| Tx.bind_congr <|
    (Tx.ensures_require _ _).mpr fun run _ => ?_
  refine Tx.bind_congr <| (Tx.ensures_read _).mpr <| Tx.bind_congr <|
    (Tx.ensures_require _ _).mpr fun definition _ => ?_
  refine Tx.bind_congr <| (Tx.ensures_require _ _).mpr fun step _ => ?_
  refine Tx.bind_congr <| (Tx.ensures_read _).mpr <| Tx.bind_congr <|
    (Tx.ensures_require _ _).mpr fun stepRun _ => ?_
  refine Tx.bind_congr <| (Tx.ensures_read _).mpr <| Tx.bind_congr <|
    (Tx.ensures_require _ _).mpr fun attempt hattempt => ?_
  have hmem := (List.mem_filter.mp (List.mem_of_find?_eq_some hattempt)).1
  rw [probe_congr hanswers (hother attempt hmem)]

/-- A probe asks about an attempt that is stored. -/
theorem World.Asks.isAbout {cfg : Deployment} {w : World} {query : RecoveryQuery}
    (h : w.Asks cfg query) : ∃ a ∈ w.shared.store.attempts.rows, query.IsAbout a := by
  obtain ⟨inputs, answers', hanswers, hdiffers⟩ := h
  by_contra hnone
  push Not at hnone
  refine hdiffers ?_
  simp only [World.step, World.proceed]
  split
  · rfl
  case h_2 op k hthread =>
    cases op with
    | recoverAttempt runId stepId expected =>
        simp only [exec, Shared.inStore, MemoryStore.transact, Tx.transact,
          recoverAttempt_congr hanswers hnone]
    | _ => rfl

/-! ## Different operations -/

namespace OperationIdentity

/-- What is encoded. -/
def payload (operation : OperationIdentity) : Value :=
  .ofFields [
    ("phase", .str operation.phase.value),
    ("run_id", .str operation.runId),
    ("step_id", .str operation.stepId),
    ("tool", .ofFields [
      ("name", .str operation.tool.name), ("version", .str operation.tool.version)])]

def json (operation : OperationIdentity) : Json PyScalar :=
  .obj [
    ("phase", .str operation.phase.value),
    ("run_id", .str operation.runId),
    ("step_id", .str operation.stepId),
    ("tool", .obj [
      ("name", .str operation.tool.name), ("version", .str operation.tool.version)])]

/-- The text of the operation, if it is encoded, is one of `texts`. -/
def EncodedIn (runtime : Runtime) (texts : Set String) (operation : OperationIdentity) : Prop :=
  ∀ text, runtime.jsonDumps true operation.payload = .ok text → text ∈ texts

/-- The key is the digest of the encoding. -/
theorem encoding_of_key {runtime : Runtime} {operation : OperationIdentity} {digest : String}
    (h : operation.key runtime = .ok digest) :
    ∃ text, runtime.jsonDumps true operation.payload = .ok text ∧
      digest = (runtime.sha256 text).val := by
  simp only [key, logicalIdempotencyKey, Except.bind_eq_ok_iff, Except.pure_eq_ok_iff,
    requireIdentity_eq_ok_iff] at h
  obtain ⟨_, ⟨_, rfl⟩, _, ⟨_, rfl⟩, _, ⟨_, rfl⟩, _, ⟨_, rfl⟩, _, ⟨_, rfl⟩, text, htext, hkey⟩ := h
  exact ⟨text, htext, hkey.symm⟩

theorem json?_payload (operation : OperationIdentity) :
    operation.payload.json? = some operation.json := by
  refine Value.json?_dict ?_
    (show ["phase", "run_id", "step_id", "tool"].Pairwise (· < ·) by decide)
  have htool : (Value.ofFields [("name", .str operation.tool.name),
      ("version", .str operation.tool.version)]).json? = some (.obj [
        ("name", .str operation.tool.name), ("version", .str operation.tool.version)]) :=
    Value.json?_dict rfl (show ["name", "version"].Pairwise (· < ·) by decide)
  simp only [List.map_cons, List.map_nil, Value.jsonEntries?, htool, Value.json?]
  rfl

theorem json_injective : Function.Injective json := by
  intro a b h
  simp only [json, Json.obj.injEq, List.cons.injEq, Prod.mk.injEq, Json.str.injEq, true_and,
    and_true] at h
  obtain ⟨hphase, hrunId, hstepId, hname, hversion⟩ := h
  have hkind := ToolExecutionPhase.value_injective hphase
  obtain ⟨_, _, _, _, _⟩ := a
  obtain ⟨_, _, _, _, _⟩ := b
  obtain rfl := hrunId
  obtain rfl := hstepId
  obtain rfl := hkind
  obtain rfl := hname
  obtain rfl := hversion
  rfl

/-- Operations whose encodings SHA-256 tells apart have different keys. -/
theorem eq_of_key_eq {runtime : Runtime} {floatText : PyFloat → String}
    (hjson : runtime.DumpsJson floatText) {texts : Set String}
    (hsha256 : Set.InjOn runtime.sha256 texts) {a b : OperationIdentity}
    (ha : a.EncodedIn runtime texts) (hb : b.EncodedIn runtime texts) {digest : String}
    (hdigest : a.key runtime = .ok digest) (hdigest' : b.key runtime = .ok digest) : a = b := by
  obtain ⟨text, htext, hkey⟩ := encoding_of_key hdigest
  obtain ⟨text', htext', hkey'⟩ := encoding_of_key hdigest'
  have hsame : text = text' := hsha256 (ha text htext) (hb text' htext')
    (Subtype.ext (hkey.symm.trans hkey'))
  refine json_injective (hjson.text_injective ?_)
  rw [← hjson.dumps _ _ _ a.json?_payload htext, ← hjson.dumps _ _ _ b.json?_payload htext', hsame]

end OperationIdentity

/-! ## Runs -/

/-- Whatever carries a key carries that of the operation which the definition names. -/
theorem World.Carries.keyOf {cfg : Deployment} {permitted : World → Action → Prop} {w : World}
    (hw : Reachable cfg permitted w) {runId stepId key : String} {phase : ToolExecutionPhase}
    (h : w.Carries cfg runId stepId phase key) : w.shared.KeyOf cfg runId stepId phase key := by
  cases h with
  | attempt hattempt => exact hw.keyed.attempts _ hattempt
  | request hcontext => exact hw.keyed.contexts _ hcontext
  | probe hasks =>
      obtain ⟨a, ha, hrunId, hstepId, hphase, hkey⟩ := hasks.isAbout
      rw [hrunId, hstepId, hphase, hkey]
      exact hw.keyed.attempts a ha

/-- The key stays that of the operation. -/
theorem Shared.KeyOf.after {cfg : Deployment} {runId stepId key : String}
    {phase : ToolExecutionPhase} (actions : List Action) :
    ∀ {w : World}, Reachable cfg (fun _ _ => True) w →
      w.shared.KeyOf cfg runId stepId phase key →
        (actions.foldl (World.step cfg) w).shared.KeyOf cfg runId stepId phase key := by
  induction actions with
  | nil => exact fun _ h => h
  | cons action rest ih =>
      intro w hw h
      exact ih (hw.step action trivial) (h.follows (hw.good.step action).2)

namespace Sample

def canonicalDeployment : Deployment where
  __ := deployment
  runtime := canonicalRuntime

/-- The change of a step, and what undoes it. -/
def change : OperationIdentity := ⟨"r", "s", .forward, ⟨"change", "1"⟩⟩

def undo : OperationIdentity := ⟨"r", "s", .compensation, ⟨"undo", "1"⟩⟩

def texts : Set String :=
  {text | text = ChangePilot.jsonText floatText change.json ∨
    text = ChangePilot.jsonText floatText undo.json}

theorem sha256_change_ne_undo : sha256 (ChangePilot.jsonText floatText change.json) ≠
    sha256 (ChangePilot.jsonText floatText undo.json) := by
  intro h
  have hdigests := congrArg Subtype.val h
  revert hdigests
  decide +kernel

theorem sha256_injOn_texts : Set.InjOn canonicalDeployment.runtime.sha256 texts := by
  rintro _ (rfl | rfl) _ (rfl | rfl) h
  · rfl
  · exact absurd h sha256_change_ne_undo
  · exact absurd h.symm sha256_change_ne_undo
  · rfl

theorem change_encodedIn : change.EncodedIn canonicalDeployment.runtime texts :=
  fun text htext => .inl (canonicalRuntime_dumpsJson.dumps _ _ text change.json?_payload htext)

theorem undo_encodedIn : undo.EncodedIn canonicalDeployment.runtime texts :=
  fun text htext => .inr (canonicalRuntime_dumpsJson.dumps _ _ text undo.json?_payload htext)

end Sample

/-- In every run, what carries a key carries the one that the definition of the run gives
for step and phase, now and later; and no two operations have the same key. -/
theorem idempotency_keys_stable_and_separate (cfg : Deployment) {floatText : PyFloat → String}
    (hjson : cfg.runtime.DumpsJson floatText) {texts : Set String}
    (hsha256 : Set.InjOn cfg.runtime.sha256 texts) (instant : Timestamp)
    (actions later : List Action) :
    (∀ runId stepId phase key, (World.after cfg instant actions).Carries cfg runId stepId phase key →
      (World.after cfg instant actions).shared.KeyOf cfg runId stepId phase key) ∧
    (∀ runId stepId phase key key',
      (World.after cfg instant actions).Carries cfg runId stepId phase key →
        (World.after cfg instant (actions ++ later)).Carries cfg runId stepId phase key' →
          key' = key) ∧
    ∀ a b : OperationIdentity, a ≠ b → a.EncodedIn cfg.runtime texts →
      b.EncodedIn cfg.runtime texts → ∀ key key', a.key cfg.runtime = .ok key →
        b.key cfg.runtime = .ok key' → key ≠ key' := by
  have hreachable : Reachable cfg (fun _ _ => True) (World.after cfg instant actions) :=
    reachable_after instant actions
  refine ⟨fun _ _ _ _ h => h.keyOf hreachable, fun runId stepId phase key key' h h' => ?_,
    fun a b hne ha hb key key' hkey hkey' hsame => ?_⟩
  · -- the key of the operation is still that of the definition later on
    have hlater := (h.keyOf hreachable).after later hreachable
    rw [World.after, ← List.foldl_append] at hlater
    exact (h'.keyOf (reachable_after instant (actions ++ later))).unique hlater
  · subst hsame
    exact hne (OperationIdentity.eq_of_key_eq hjson hsha256 ha hb hkey hkey')

/-- The change and its undoing carry different keys, and the change keeps its own. -/
theorem idempotency_keys_of_change_and_undo :
    (∃ key key', Sample.change.key Sample.canonicalRuntime = .ok key ∧
      Sample.undo.key Sample.canonicalRuntime = .ok key' ∧ key ≠ key') ∧
    ∀ key key', (World.after Sample.canonicalDeployment 0
        (Sample.create [Sample.stepPayload "s" "change" [] (some "undo")] ++ Sample.runOnce)).Carries
          Sample.canonicalDeployment "r" "s" .forward key →
      (World.after Sample.canonicalDeployment 0
        (Sample.create [Sample.stepPayload "s" "change" [] (some "undo")] ++ Sample.runOnce ++
          Sample.crash)).Carries Sample.canonicalDeployment "r" "s" .forward key' → key' = key := by
  have h := idempotency_keys_stable_and_separate Sample.canonicalDeployment
    Sample.canonicalRuntime_dumpsJson Sample.sha256_injOn_texts 0
    (Sample.create [Sample.stepPayload "s" "change" [] (some "undo")] ++ Sample.runOnce) Sample.crash
  refine ⟨⟨_, _, rfl, rfl, ?_⟩, h.2.1 "r" "s" .forward⟩
  exact h.2.2 _ _ (by decide) Sample.change_encodedIn Sample.undo_encodedIn _ _ rfl rfl

end ChangePilot
