import ChangePilot.Guarantees.Ingestion
import ChangePilot.Planning.Graph

/-!
# Evidence, trust and conflicts

What a plan may cite are chunks of stored documents.  Conflicts are looked for among the
chunks that the searches found, and the status of a document counts for nothing else.
-/

namespace ChangePilot

/-! ## Retrievals -/

section

variable {runtime : Runtime} (backend : KnowledgeBackend runtime) (limits : ChunkLimits)
  (history : List (backend.ε × RunbookDocument)) (retriever : HybridRetriever)

/-- A retrieval after ingestions, of chunks of the store. -/
structure Retrieved (query : String) (topK : ℤ) (found : SearchResults)
    (result : RetrievalResult) : Prop where
  search : retriever.search query = .ok found
  served : ∀ chunks, backend.store.allChunks (backend.after limits history) = .ok chunks →
    ∀ chunk ∈ found.chunks, chunk ∈ chunks
  retrieve : retriever.retrieve (backend.store.snapshot runtime (backend.after limits history))
    query topK = .ok result

/-- The active document that a piece of evidence comes of, and another active one of the
same policy with other rules. -/
structure Contradicted (item : RetrievedEvidence) (document other : RunbookDocument) : Prop where
  owner : backend.store.getDocument (backend.after limits history) item.reference.documentId
    item.reference.documentVersion = .ok (some document)
  active : document.status = .active
  stored : ∃ documents, backend.store.allDocuments (backend.after limits history) = .ok documents ∧
    other ∈ documents
  identity : other.identity ≠ document.identity
  otherActive : other.status = .active
  policyKey : other.policyKey = document.policyKey
  ruleDigest : other.effectiveRuleDigest runtime ≠ document.effectiveRuleDigest runtime

end

section

variable {runtime : Runtime} {backend : KnowledgeBackend runtime} {limits : ChunkLimits}
  {history : List (backend.ε × RunbookDocument)} {retriever : HybridRetriever} {query : String}
  {topK : ℤ} {found : SearchResults} {result : RetrievalResult}

/-- A chunk that was found says what its document says. -/
theorem Retrieved.exists_document (h : Retrieved backend limits history retriever query topK
    found result) (hdumps : runtime.DumpsPlain) {chunk : KnowledgeChunk}
    (hchunk : chunk ∈ found.chunks) : ∃ document,
      backend.store.getDocument (backend.after limits history) chunk.documentId
        chunk.documentVersion = .ok (some document) ∧ chunk.Carries runtime document := by
  have hholds := backend.holds_after limits hdumps history
  obtain ⟨_, _, chunks, hchunks⟩ := backend.lawful.readable hholds.valid
  exact hholds.chunks chunks hchunks chunk (h.served chunks hchunks chunk hchunk)

/-- Chunks that were found are candidates. -/
theorem Retrieved.mem_candidates (h : Retrieved backend limits history retriever query topK
    found result) (hdumps : runtime.DumpsPlain) {chunk : KnowledgeChunk}
    (hchunk : chunk ∈ found.chunks) : chunk ∈ found.candidates.rows := by
  have hvalid := (backend.holds_after limits hdumps history).valid
  obtain ⟨_, _, chunks, hchunks⟩ := backend.lawful.readable hvalid
  refine mem_candidates_of_unique hchunk fun other hother hid => ?_
  exact backend.lawful.chunkIds hvalid hchunks (h.served chunks hchunks other hother)
    (h.served chunks hchunks chunk hchunk) hid

theorem Retrieved.conflicts (h : Retrieved backend limits history retriever query topK found
    result) : result.conflicts = findConflicts found.candidates.rows := by
  obtain ⟨other, hother, _, hconflicts, _⟩ := HybridRetriever.exists_of_retrieve h.retrieve
  obtain rfl := Except.ok.inj (h.search.symm.trans hother)
  exact hconflicts

theorem Retrieved.exists_chunk (h : Retrieved backend limits history retriever query topK found
    result) {item : RetrievedEvidence} (hitem : item ∈ result.evidence) :
    ∃ chunk ∈ found.candidates.rows, ∃ score, item = found.evidenceOf chunk score := by
  obtain ⟨other, hother, _, _, hevidence⟩ := HybridRetriever.exists_of_retrieve h.retrieve
  obtain rfl := Except.ok.inj (h.search.symm.trans hother)
  exact hevidence item hitem

end

/-! ## Sample stores -/

namespace Sample

/-- A rule of the one policy there is. -/
def rule (documentId ruleDigest : String) (status : DocumentStatus) : RunbookDocument where
  documentId := documentId
  version := "1"
  source := "rules.md"
  trustLevel := .authoritative
  content := "Take a backup first."
  policyKey := "database-schema"
  effectiveAt := "2026-07-01"
  status := status
  ruleDigest := some ruleDigest

/-- The one chunk of a rule. -/
def ruleChunk (documentId ruleDigest : String) (status : DocumentStatus) : KnowledgeChunk :=
  makeChunk canonicalRuntime (rule documentId ruleDigest status) 0
    ([], 0, 20, "Take a backup first.".toList)

theorem sectionWindows_rule :
    (markdownSections (normalizeNewlines "Take a backup first.".toList)).flatMap
      (sectionWindows {}) = [([], 0, 20, "Take a backup first.".toList)] := by
  decide +kernel

theorem chunkDocument_rule (documentId ruleDigest : String) (status : DocumentStatus) :
    chunkDocument canonicalRuntime {} (rule documentId ruleDigest status) =
      [ruleChunk documentId ruleDigest status] := by
  show List.mapIdx _ ((markdownSections (normalizeNewlines
    "Take a backup first.".toList)).flatMap (sectionWindows {})) = _
  rw [sectionWindows_rule]
  rfl

/-- A store of rules, in memory. -/
abbrev rules : KnowledgeBackend canonicalRuntime := .inMemory canonicalRuntime

theorem rules_ingest_new {s : InMemoryKnowledgeStore} {documentId ruleDigest : String}
    {status : DocumentStatus}
    (h : s.documents.get (rule documentId ruleDigest status).identity = none) :
    (ingest canonicalRuntime {} InMemoryKnowledgeStore.store () s
      (rule documentId ruleDigest status)).2 = {
        documents := s.documents.put (rule documentId ruleDigest status)
        chunks := s.chunks.put (ruleChunk documentId ruleDigest status) } := by
  have hget : InMemoryKnowledgeStore.store.getDocument s (rule documentId ruleDigest status).documentId
      (rule documentId ruleDigest status).version = .ok none := congrArg Except.ok h
  have hadd : InMemoryKnowledgeStore.store.addDocument () s (rule documentId ruleDigest status)
      [ruleChunk documentId ruleDigest status] = .ok {
        documents := s.documents.put (rule documentId ruleDigest status)
        chunks := s.chunks.put (ruleChunk documentId ruleDigest status) } :=
    if_neg (by simp [h])
  unfold ingest
  rw [hget]
  dsimp only
  rw [chunkDocument_rule, hadd]

/-- A search that finds one chunk. -/
def finds (chunk : KnowledgeChunk) : HybridRetriever where
  arithmetic := { reciprocal := fun n => 1 / n, add := fun a b => a + b }
  index := {
    lexicalSearch := fun _ _ => .ok [⟨chunk, 1⟩]
    vectorSearch := fun _ _ => .ok [] }

/-- What it finds. -/
def foundOnly (chunk : KnowledgeChunk) : SearchResults := ⟨[⟨chunk, 1⟩], []⟩

theorem exists_retrieve_finds (chunk : KnowledgeChunk)
    {snapshot : Except PlanningError KnowledgeSnapshot} {taken : KnowledgeSnapshot}
    (hsnapshot : snapshot = .ok taken) : ∃ score,
      (finds chunk).retrieve snapshot "schema" 8 = .ok {
        query := "schema"
        evidence := [(foundOnly chunk).evidenceOf chunk score]
        conflicts := findConflicts [chunk]
        snapshot := taken
        insufficientEvidence := false } := by
  have hsearch : (finds chunk).search "schema" = .ok (foundOnly chunk) := rfl
  have hscores : sliceTo (rankScores (reciprocalRankFusion (finds chunk).arithmetic
      (finds chunk).rrfK (foundOnly chunk).rankedIds).rows) 8 =
      [(chunk.chunkId, 0 + 1 / ((61 : ℕ) : ℚ))] := rfl
  have hcandidate : (foundOnly chunk).candidates.get chunk.chunkId = some chunk :=
    KeyedTable.get_put_self _ chunk
  have hevidence : (foundOnly chunk).evidenceFor (chunk.chunkId, 0 + 1 / ((61 : ℕ) : ℚ)) =
      .ok ((foundOnly chunk).evidenceOf chunk (0 + 1 / ((61 : ℕ) : ℚ))) := by
    unfold SearchResults.evidenceFor
    dsimp only
    rw [hcandidate]
  refine ⟨0 + 1 / ((61 : ℕ) : ℚ), ?_⟩
  unfold HybridRetriever.retrieve
  rw [Except.bind_of_eq_ok hsearch]
  dsimp only
  rw [hscores, List.mapM_cons, hevidence, hsnapshot]
  rfl

/-- One rule has no conflict. -/
theorem findConflicts_one (chunk : KnowledgeChunk) : findConflicts [chunk] = [] := by
  refine List.eq_nil_iff_forall_not_mem.mpr fun conflict hconflict => ?_
  obtain ⟨a, ha, b, hb, hne⟩ := exists_mem_findConflicts_iff.mp ⟨conflict, hconflict, rfl⟩
  have hall : ∀ c ∈ governedBy [chunk] conflict.policyKey, c = chunk := fun c hc =>
    List.mem_singleton.mp (mem_governedBy.mp hc).1
  exact hne (by rw [hall a ha, hall b hb])

/-- The rules that say to back up first, and then that they need not. -/
def twoRules : List (Unit × RunbookDocument) :=
  [((), rule "old" "r1" .active), ((), rule "new" "r2" .active)]

theorem after_twoRules : rules.after {} twoRules = {
    documents := (KeyedTable.empty.put (rule "old" "r1" .active)).put (rule "new" "r2" .active)
    chunks := (KeyedTable.empty.put (ruleChunk "old" "r1" .active)).put
      (ruleChunk "new" "r2" .active) } := by
  show (ingest canonicalRuntime {} InMemoryKnowledgeStore.store () (ingest canonicalRuntime {}
    InMemoryKnowledgeStore.store () {} (rule "old" "r1" .active)).2 (rule "new" "r2" .active)).2 = _
  have hfirst : (ingest canonicalRuntime {} InMemoryKnowledgeStore.store () {}
      (rule "old" "r1" .active)).2 = _ := rules_ingest_new rfl
  rw [hfirst]
  refine rules_ingest_new ?_
  exact KeyedTable.get_put_ne _ (by decide)

theorem exists_retrieved {history : List (Unit × RunbookDocument)} {chunk : KnowledgeChunk}
    (hchunk : chunk ∈ (rules.after {} history).chunks.rows) : ∃ result score,
      Retrieved rules {} history (finds chunk) "schema" 8 (foundOnly chunk) result ∧
        result.evidence = [(foundOnly chunk).evidenceOf chunk score] ∧ result.conflicts = [] := by
  obtain ⟨taken, htaken⟩ := rules.lawful.exists_snapshot canonicalRuntime_dumpsPlain
    (rules.holds_after {} canonicalRuntime_dumpsPlain history).valid
  obtain ⟨score, hretrieve⟩ := exists_retrieve_finds chunk htaken
  refine ⟨_, score, ⟨rfl, fun chunks hchunks other hother => ?_, hretrieve⟩, rfl,
    findConflicts_one chunk⟩
  obtain rfl := Except.ok.inj hchunks
  obtain rfl := List.mem_singleton.mp hother
  exact (List.mem_insertionSort _).mpr hchunk

/-- The later rule is cited without a word of the earlier one. -/
theorem exists_contradicted : ∃ result score,
    Retrieved rules {} twoRules (finds (ruleChunk "new" "r2" .active)) "schema" 8
      (foundOnly (ruleChunk "new" "r2" .active)) result ∧
    result.evidence =
      [(foundOnly (ruleChunk "new" "r2" .active)).evidenceOf (ruleChunk "new" "r2" .active) score] ∧
    result.conflicts = [] ∧
    Contradicted rules {} twoRules
      ((foundOnly (ruleChunk "new" "r2" .active)).evidenceOf (ruleChunk "new" "r2" .active) score)
      (rule "new" "r2" .active) (rule "old" "r1" .active) := by
  have hchunk : ruleChunk "new" "r2" .active ∈ (rules.after {} twoRules).chunks.rows := by
    rw [after_twoRules]
    exact KeyedTable.mem_put.mpr (.inl rfl)
  obtain ⟨result, score, hretrieved, hevidence, hconflicts⟩ := exists_retrieved hchunk
  refine ⟨result, score, hretrieved, hevidence, hconflicts, ?_, rfl, ⟨_, rfl, ?_⟩, by decide, rfl,
    rfl, by decide⟩
  · rw [after_twoRules]
    exact congrArg Except.ok (KeyedTable.get_put_self _ (rule "new" "r2" .active))
  · show _ ∈ (rules.after {} twoRules).documents.rows
    rw [after_twoRules]
    exact KeyedTable.mem_put.mpr (.inr ⟨KeyedTable.mem_put.mpr (.inl rfl), by decide⟩)

end Sample

/-! ## Conflicts -/

/-- The policy of a piece of evidence that a stored document contradicts is reported, the
evidence marked and clarification asked for exactly when the searches found an active chunk
of the policy with other rules. -/
theorem contradiction_is_reported_iff_found {runtime : Runtime} (hdumps : runtime.DumpsPlain)
    (backend : KnowledgeBackend runtime) (limits : ChunkLimits)
    (history : List (backend.ε × RunbookDocument)) (retriever : HybridRetriever) (query : String)
    (topK : ℤ) {found : SearchResults} {result : RetrievalResult}
    (h : Retrieved backend limits history retriever query topK found result)
    {item : RetrievedEvidence} (hitem : item ∈ result.evidence) {document other : RunbookDocument}
    (hcontradicted : Contradicted backend limits history item document other) :
    ((∃ conflict ∈ result.conflicts, conflict.policyKey = document.policyKey) ∧
      item.conflict = true ∧
      ∀ state, (withRetrieval state result).result = some (.clarificationRequired
        state.sessionId (result.conflicts.map conflictQuestion))) ↔
    ∃ chunk ∈ found.chunks, chunk.status = .active ∧ chunk.policyKey = document.policyKey ∧
      chunk.ruleDigest ≠ document.effectiveRuleDigest runtime := by
  obtain ⟨own, hown, score, rfl⟩ := h.exists_chunk hitem
  obtain ⟨stored, hstored, hcarries⟩ :=
    h.exists_document hdumps (mem_chunks_of_mem_candidates hown)
  obtain rfl := Option.some.inj (Except.ok.inj (hstored.symm.trans hcontradicted.owner))
  rw [h.conflicts, exists_mem_findConflicts_iff, conflict_evidenceOf_iff hown]
  constructor
  · rintro ⟨⟨a, ha, b, hb, hne⟩, _⟩
    obtain ⟨hamem, haactive, hakey⟩ := mem_governedBy.mp ha
    obtain ⟨hbmem, hbactive, hbkey⟩ := mem_governedBy.mp hb
    by_cases hrules : a.ruleDigest = stored.effectiveRuleDigest runtime
    · exact ⟨b, mem_chunks_of_mem_candidates hbmem, hbactive, hbkey,
        fun hb => hne (hrules.trans hb.symm)⟩
    · exact ⟨a, mem_chunks_of_mem_candidates hamem, haactive, hakey, hrules⟩
  · rintro ⟨chunk, hchunk, hactive, hkey, hrules⟩
    have hownActive : own.status = .active := hcarries.status.trans hcontradicted.active
    have hdisagree : ∃ a ∈ governedBy found.candidates.rows stored.policyKey,
        ∃ b ∈ governedBy found.candidates.rows stored.policyKey, a.ruleDigest ≠ b.ruleDigest := by
      refine ⟨chunk, mem_governedBy.mpr ⟨h.mem_candidates hdumps hchunk, hactive, hkey⟩,
        own, mem_governedBy.mpr ⟨hown, hownActive, hcarries.policyKey⟩, ?_⟩
      rw [hcarries.ruleDigest]
      exact hrules
    obtain ⟨conflict, hconflict, hpolicy⟩ := exists_mem_findConflicts_iff.mpr hdisagree
    refine ⟨hdisagree, ⟨hownActive, conflict, hconflict, ?_⟩, fun state => ?_⟩
    · rw [hpolicy, hcarries.policyKey]
    · rw [withRetrieval, h.conflicts, if_neg (List.ne_nil_of_mem hconflict)]

theorem contradiction_is_reported_iff_found_twoRules : ∃ found result item,
    Retrieved Sample.rules {} Sample.twoRules (Sample.finds (Sample.ruleChunk "new" "r2" .active))
      "schema" 8 found result ∧ item ∈ result.evidence ∧
    (((∃ conflict ∈ result.conflicts, conflict.policyKey = "database-schema") ∧
      item.conflict = true ∧
      ∀ state, (withRetrieval state result).result = some (.clarificationRequired
        state.sessionId (result.conflicts.map conflictQuestion))) ↔
    ∃ chunk ∈ found.chunks, chunk.status = .active ∧ chunk.policyKey = "database-schema" ∧
      chunk.ruleDigest ≠ "r2") := by
  obtain ⟨result, score, hretrieved, hevidence, _, hcontradicted⟩ := Sample.exists_contradicted
  have hitem := hevidence ▸ List.mem_singleton_self _
  exact ⟨_, result, _, hretrieved, hitem, contradiction_is_reported_iff_found
    Sample.canonicalRuntime_dumpsPlain Sample.rules {} Sample.twoRules _ "schema" 8 hretrieved
    hitem hcontradicted⟩

/-- A rule is evidence without a mark although the store holds another one against it. -/
theorem contradicted_rule_is_not_marked : ∃ found result item document other,
    Retrieved Sample.rules {} Sample.twoRules (Sample.finds (Sample.ruleChunk "new" "r2" .active))
      "schema" 8 found result ∧ item ∈ result.evidence ∧
    Contradicted Sample.rules {} Sample.twoRules item document other ∧
    item.conflict = false ∧ result.conflicts = [] := by
  obtain ⟨result, score, hretrieved, hevidence, hconflicts, hcontradicted⟩ :=
    Sample.exists_contradicted
  refine ⟨_, result, _, _, _, hretrieved, hevidence ▸ List.mem_singleton_self _, hcontradicted,
    ?_, hconflicts⟩
  refine Bool.eq_false_iff.mpr fun hmarked => ?_
  have hcandidate : Sample.ruleChunk "new" "r2" .active ∈
      (Sample.foundOnly (Sample.ruleChunk "new" "r2" .active)).candidates.rows :=
    List.mem_singleton_self _
  obtain ⟨_, conflict, hconflict, _⟩ := (conflict_evidenceOf_iff hcandidate).mp hmarked
  have hnone : conflict ∈ findConflicts [Sample.ruleChunk "new" "r2" .active] := hconflict
  rw [Sample.findConflicts_one] at hnone
  exact List.not_mem_nil hnone

/-! ## Trust -/

theorem PlanValidator.mem_of_citedEvidence {evidence : List RetrievedEvidence}
    {reference : EvidenceRef} {item : RetrievedEvidence}
    (h : citedEvidence evidence reference = some item) :
    item ∈ evidence ∧ item.reference = reference := by
  obtain ⟨hfind, hreference⟩ := Option.filter_eq_some_iff.mp h
  exact ⟨List.mem_reverse.mp (List.mem_of_find?_eq_some hfind), of_decide_eq_true hreference⟩

/-- A step of an accepted plan whose tool has side effects cites a chunk that was found, is
trusted enough and not in conflict, of a document that is stored, whatever its status. -/
theorem side_effects_cite_trusted_chunks {runtime : Runtime} (hdumps : runtime.DumpsPlain)
    (backend : KnowledgeBackend runtime) (limits : ChunkLimits)
    (history : List (backend.ε × RunbookDocument)) (retriever : HybridRetriever) (query : String)
    (topK : ℤ) {found : SearchResults} {result : RetrievalResult}
    (h : Retrieved backend limits history retriever query topK found result)
    (validator : PlanValidator) (plan : ChangePlan) {report : ValidationReport}
    (hreport : validator.validate plan result.evidence = .ok report) (hvalid : report.valid = true)
    {step : PlanStep} (hstep : step ∈ plan.steps) {policy : PlanningToolPolicy}
    (hpolicy : validator.policies.get step.tool.name step.tool.version = some policy)
    (heffects : policy.sideEffecting = true) :
    ∃ reference ∈ step.evidenceRefs, ∃ chunk ∈ found.chunks, ∃ document,
      reference.chunkId = chunk.chunkId ∧ reference.contentDigest = chunk.contentDigest ∧
      backend.store.getDocument (backend.after limits history) reference.documentId
        reference.documentVersion = .ok (some document) ∧ chunk.Carries runtime document ∧
      policy.minimumTrust.order ≤ document.trustLevel.order ∧
      ¬ (chunk.status = .active ∧
        ∃ conflict ∈ result.conflicts, conflict.policyKey = chunk.policyKey) := by
  -- an accepted step with effects has some trusted citation
  have haccepted := (PlanValidator.validate_valid_iff.mp ⟨hreport, hvalid⟩).1.steps step hstep
  obtain ⟨reference, hreference, htrusted⟩ :=
    List.any_eq_true.mp (haccepted.trusted policy hpolicy heffects)
  obtain ⟨item, hitem, hconflict⟩ := haccepted.cited reference hreference
  rw [hitem, Option.any_some, decide_eq_true_eq] at htrusted
  obtain ⟨hmem, rfl⟩ := PlanValidator.mem_of_citedEvidence hitem
  -- it is of a chunk that was found
  obtain ⟨chunk, hchunk, score, rfl⟩ := h.exists_chunk hmem
  obtain ⟨document, hdocument, hcarries⟩ :=
    h.exists_document hdumps (mem_chunks_of_mem_candidates hchunk)
  refine ⟨_, hreference, chunk, mem_chunks_of_mem_candidates hchunk, document, rfl, rfl, hdocument,
    hcarries, ?_, ?_⟩
  · rw [← hcarries.trustLevel]
    exact htrusted
  · intro hreported
    -- an item in conflict is not accepted as evidence
    have hmarked : (found.evidenceOf chunk score).conflict = true :=
      (conflict_evidenceOf_iff hchunk).mpr (h.conflicts ▸ hreported)
    rw [hconflict (by simp [hpolicy])] at hmarked
    cases hmarked

namespace Sample

/-- A validator by which changes have side effects and need authority. -/
def strictValidator : PlanValidator where
  runtime := canonicalRuntime
  tools := registry
  policies := {
    version := "policy-1"
    policies := [⟨⟨"change", "1"⟩, .low, true, false, .authoritative⟩]
    tools_nodup := List.nodup_singleton _ }

/-- A change that cites one piece of evidence. -/
def citing (reference : EvidenceRef) : PlanStep where
  id := "s"
  tool := ⟨"change", "1"⟩
  evidenceRefs := [reference]

def citingPlan (reference : EvidenceRef) : ChangePlan where
  planId := "p"
  version := 1
  goal := "upgrade"
  steps := [citing reference]
  knowledgeSnapshotDigest := ""
  promptVersion := ""
  toolPolicyVersion := "policy-1"
  version_pos := le_rfl
  ids_nodup := List.nodup_singleton _

/-- The plan is accepted on that evidence if it is authoritative and not in conflict. -/
theorem citingPlan_accepted {item : RetrievedEvidence} (htrust : item.trustLevel = .authoritative)
    (hconflict : item.conflict = false) :
    strictValidator.PlanAccepted (citingPlan item.reference) [item] where
  known step hstep dependency hdependency := by
    obtain rfl := List.mem_singleton.mp hstep
    cases hdependency
  acyclic := rfl
  policyVersion := rfl
  steps step hstep := by
    obtain rfl := List.mem_singleton.mp hstep
    have hcited : PlanValidator.citedEvidence [item] item.reference = some item := by
      simp [PlanValidator.citedEvidence, PlanValidator.evidenceFor]
    refine ⟨rfl, ⟨_, rfl⟩, fun reference hreference => ?_, fun policy hpolicy _ => ?_,
      fun policy hpolicy hrequired => ?_⟩
    · obtain rfl := List.mem_singleton.mp hreference
      exact ⟨item, hcited, fun _ => hconflict⟩
    · obtain rfl := Option.some.inj hpolicy
      simp [PlanValidator.hasTrustedEvidence, citing, hcited, htrust]
    · obtain rfl := Option.some.inj hpolicy
      cases hrequired

/-- The rule that is no longer in force. -/
def retiredRule : List (Unit × RunbookDocument) := [((), rule "old" "r1" .retired)]

theorem after_retiredRule : rules.after {} retiredRule = {
    documents := KeyedTable.empty.put (rule "old" "r1" .retired)
    chunks := KeyedTable.empty.put (ruleChunk "old" "r1" .retired) } :=
  rules_ingest_new rfl

/-- A plan on the retired rule alone is accepted. -/
theorem exists_accepted_on_retired : ∃ (result : RetrievalResult) (reference : EvidenceRef)
    (report : ValidationReport),
    Retrieved rules {} retiredRule (finds (ruleChunk "old" "r1" .retired)) "schema" 8
      (foundOnly (ruleChunk "old" "r1" .retired)) result ∧
    strictValidator.validate (citingPlan reference) result.evidence = .ok report ∧
    report.valid = true ∧ rules.store.getDocument (rules.after {} retiredRule)
      reference.documentId reference.documentVersion =
        .ok (some (rule "old" "r1" .retired)) := by
  have hchunk : ruleChunk "old" "r1" .retired ∈ (rules.after {} retiredRule).chunks.rows := by
    rw [after_retiredRule]
    exact List.mem_singleton_self _
  obtain ⟨result, score, hretrieved, hevidence, _⟩ := exists_retrieved hchunk
  have hcandidate : ruleChunk "old" "r1" .retired ∈
      (foundOnly (ruleChunk "old" "r1" .retired)).candidates.rows := List.mem_singleton_self _
  have hunmarked : ((foundOnly (ruleChunk "old" "r1" .retired)).evidenceOf
      (ruleChunk "old" "r1" .retired) score).conflict = false := by
    refine Bool.eq_false_iff.mpr fun hmarked => ?_
    cases ((conflict_evidenceOf_iff hcandidate).mp hmarked).1
  obtain ⟨hreport, hvalid⟩ :=
    PlanValidator.validate_valid_iff.mpr ⟨citingPlan_accepted rfl hunmarked, rfl⟩
  rw [← hevidence] at hreport
  refine ⟨result, _, _, hretrieved, hreport, hvalid, ?_⟩
  rw [after_retiredRule]
  exact congrArg Except.ok (KeyedTable.get_put_self _ (rule "old" "r1" .retired))

end Sample

theorem side_effects_cite_trusted_chunks_retired : ∃ result cited report,
    Retrieved Sample.rules {} Sample.retiredRule
      (Sample.finds (Sample.ruleChunk "old" "r1" .retired)) "schema" 8
      (Sample.foundOnly (Sample.ruleChunk "old" "r1" .retired)) result ∧
    Sample.strictValidator.validate (Sample.citingPlan cited) result.evidence = .ok report ∧
    ∃ reference ∈ [cited], ∃ document, Sample.rules.store.getDocument
      (Sample.rules.after {} Sample.retiredRule) reference.documentId reference.documentVersion =
        .ok (some document) ∧ document.trustLevel.order = 2 := by
  obtain ⟨result, cited, report, hretrieved, hreport, hvalid, _⟩ :=
    Sample.exists_accepted_on_retired
  have hpolicy : Sample.strictValidator.policies.get "change" "1" =
      some ⟨⟨"change", "1"⟩, .low, true, false, .authoritative⟩ := rfl
  obtain ⟨reference, hreference, _, _, document, _, _, hdocument, _, htrust, _⟩ :=
    side_effects_cite_trusted_chunks Sample.canonicalRuntime_dumpsPlain Sample.rules {}
      Sample.retiredRule _ "schema" 8 hretrieved Sample.strictValidator
      (Sample.citingPlan cited) hreport hvalid (List.mem_singleton_self _) hpolicy rfl
  refine ⟨result, cited, report, hretrieved, hreport, reference, hreference, document,
    hdocument, ?_⟩
  have hmax : document.trustLevel.order ≤ 2 := by cases document.trustLevel <;> decide
  have hmin : 2 ≤ document.trustLevel.order := htrust
  omega

/-- A plan is accepted whose only evidence is a retired rule. -/
theorem retired_rule_is_cited : ∃ result cited report document,
    Retrieved Sample.rules {} Sample.retiredRule
      (Sample.finds (Sample.ruleChunk "old" "r1" .retired)) "schema" 8
      (Sample.foundOnly (Sample.ruleChunk "old" "r1" .retired)) result ∧
    Sample.strictValidator.validate (Sample.citingPlan cited) result.evidence = .ok report ∧
    report.valid = true ∧
    (∃ policy, Sample.strictValidator.policies.get "change" "1" = some policy ∧
      policy.sideEffecting = true) ∧
    (∀ step ∈ (Sample.citingPlan cited).steps, step.tool = ⟨"change", "1"⟩ ∧
      step.evidenceRefs = [cited]) ∧
    Sample.rules.store.getDocument (Sample.rules.after {} Sample.retiredRule) cited.documentId
      cited.documentVersion = .ok (some document) ∧ document.status ≠ .active := by
  obtain ⟨result, cited, report, hretrieved, hreport, hvalid, hdocument⟩ :=
    Sample.exists_accepted_on_retired
  refine ⟨result, cited, report, _, hretrieved, hreport, hvalid, ⟨_, rfl, rfl⟩,
    fun step hstep => ?_, hdocument, by decide⟩
  obtain rfl := List.mem_singleton.mp hstep
  exact ⟨rfl, rfl⟩

end ChangePilot
