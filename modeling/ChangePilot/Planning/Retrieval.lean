import ChangePilot.Library.Transaction
import ChangePilot.Planning.Ingestion
import Mathlib.Data.Finset.Card
import Mathlib.Data.List.Dedup

/-!
# Retrieval

Two searches rank chunks for a query.  Their rankings are fused, the best chunks become
evidence, and rules that disagree among the chunks found are reported as conflicts.
-/

namespace ChangePilot

/-! ## The search index -/

structure RankedChunk where
  chunk : KnowledgeChunk
  score : ℚ

/-- What the searches answer for a query and a limit. -/
structure KnowledgeSearchIndex where
  lexicalSearch : (query : String) → (limit : ℕ) → Except PlanningError (List RankedChunk)
  vectorSearch : (query : String) → (limit : ℕ) → Except PlanningError (List RankedChunk)

/-- The floating point operations of the fusion: `1.0 / n` and `a + b`. -/
structure ScoreArithmetic where
  reciprocal : ℕ → ℚ
  add : ℚ → ℚ → ℚ

/-! ## Conflicts -/

structure KnowledgeConflict where
  policyKey : String
  chunkIds : List String
  ruleDigests : List String
  deriving DecidableEq, Repr

structure RetrievalResult where
  query : String
  evidence : List RetrievedEvidence
  conflicts : List KnowledgeConflict
  snapshot : KnowledgeSnapshot
  insufficientEvidence : Bool
  deriving DecidableEq, Repr

/-- `sorted(set(values))` -/
def sortedSet (values : List String) : List String := values.dedup.insertionSort (· ≤ ·)

/-- The chunks of one policy among those that are active. -/
def governedBy (chunks : List KnowledgeChunk) (policyKey : String) : List KnowledgeChunk :=
  chunks.filter fun chunk => chunk.status = .active ∧ chunk.policyKey = policyKey

/-- The conflict of a policy, if its chunks disagree. -/
def policyConflict (chunks : List KnowledgeChunk) (policyKey : String) :
    Option KnowledgeConflict :=
  let candidates := governedBy chunks policyKey
  let ruleDigests := sortedSet (candidates.map KnowledgeChunk.ruleDigest)
  if 1 < ruleDigests.length then
    some ⟨policyKey, sortedSet (candidates.map KnowledgeChunk.chunkId), ruleDigests⟩
  else none

/-- `_find_conflicts` -/
def findConflicts (chunks : List KnowledgeChunk) : List KnowledgeConflict :=
  let active := chunks.filter fun chunk => chunk.status = .active
  (sortedSet (active.map KnowledgeChunk.policyKey)).filterMap (policyConflict chunks)

/-! ## Fusion -/

section

variable (arithmetic : ScoreArithmetic)

/-- `scores[chunk_id] = scores.get(chunk_id, 0.0) + 1.0 / (k + rank)` -/
def addScore (k : ℕ) (scores : KeyedTable (Prod.fst : String × ℚ → String))
    (ranked : String × ℕ) : KeyedTable (Prod.fst : String × ℚ → String) :=
  scores.put (ranked.1, arithmetic.add ((scores.get ranked.1).elim 0 Prod.snd)
    (arithmetic.reciprocal (k + ranked.2)))

/-- `reciprocal_rank_fusion` -/
def reciprocalRankFusion (k : ℕ) (rankedLists : List (List String)) :
    KeyedTable (Prod.fst : String × ℚ → String) :=
  rankedLists.foldl (fun scores ranked => (ranked.zipIdx 1).foldl (addScore arithmetic k) scores)
    .empty

end

/-- The scores, the best first; equal ones in the order of the ids. -/
def rankScores (scores : List (String × ℚ)) : List (String × ℚ) :=
  scores.insertionSort fun a b => toLex (-a.2, a.1) ≤ toLex (-b.2, b.1)

/-- `values[:count]`, which counts from the end if `count` is negative. -/
def sliceTo {α : Type} (values : List α) (count : ℤ) : List α :=
  if 0 ≤ count then values.take count.toNat else values.take (values.length + count).toNat

/-- `_location` -/
def chunkLocation (chunk : KnowledgeChunk) : String :=
  let heading := " > ".intercalate (chunk.headingPath.filter fun item => item ≠ "")
  let headed := if heading = "" then "" else heading ++ ": "
  s!"{headed}{chunk.startOffset}-{chunk.endOffset}"

/-- The rank of a chunk in a search, its last one if it occurs more than once. -/
def rankIn (found : List RankedChunk) (chunkId : String) : Option ℕ :=
  ((found.zipIdx 1).reverse.find? fun ranked => ranked.1.chunk.chunkId = chunkId).map Prod.snd

/-! ## The retriever -/

structure HybridRetriever where
  arithmetic : ScoreArithmetic
  index : KnowledgeSearchIndex
  candidateLimit : ℕ := 20
  rrfK : ℕ := 60
  candidateLimit_pos : 0 < candidateLimit := by decide
  rrfK_pos : 0 < rrfK := by decide

/-- What the two searches found. -/
structure SearchResults where
  lexical : List RankedChunk
  vector : List RankedChunk

namespace SearchResults

variable (found : SearchResults)

def chunks : List KnowledgeChunk := (found.lexical ++ found.vector).map RankedChunk.chunk

/-- The chunks by their ids. -/
def candidates : KeyedTable KnowledgeChunk.chunkId := found.chunks.foldl KeyedTable.put .empty

/-- The ids of the chunks that some conflict is about. -/
def conflictIds : List String :=
  (findConflicts found.candidates.rows).flatMap KnowledgeConflict.chunkIds

/-- The piece of evidence for a chunk. -/
def evidenceOf (chunk : KnowledgeChunk) (score : ℚ) : RetrievedEvidence where
  reference := {
    documentId := chunk.documentId
    documentVersion := chunk.documentVersion
    chunkId := chunk.chunkId
    location := chunkLocation chunk
    contentDigest := chunk.contentDigest }
  text := chunk.content
  trustLevel := chunk.trustLevel
  lexicalRank := rankIn found.lexical chunk.chunkId
  vectorRank := rankIn found.vector chunk.chunkId
  hybridScore := score
  conflict := chunk.chunkId ∈ found.conflictIds

/-- The piece of evidence for a scored id, which must be one of a chunk that was found. -/
def evidenceFor (scored : String × ℚ) : Except PlanningError RetrievedEvidence :=
  match found.candidates.get scored.1 with
  | some chunk => .ok (found.evidenceOf chunk scored.2)
  | none => .error (.lookupError scored.1)

/-- The ids that the searches found, each in its order. -/
def rankedIds : List (List String) :=
  [found.lexical.map fun result => result.chunk.chunkId,
    found.vector.map fun result => result.chunk.chunkId]

end SearchResults

/-- Both searches. -/
def HybridRetriever.search (retriever : HybridRetriever) (query : String) :
    Except PlanningError SearchResults := do
  let lexical ← retriever.index.lexicalSearch query retriever.candidateLimit
  let vector ← retriever.index.vectorSearch query retriever.candidateLimit
  return ⟨lexical, vector⟩

/-- `retrieve`, with the snapshot of the store at the end. -/
def HybridRetriever.retrieve (retriever : HybridRetriever)
    (snapshot : Except PlanningError KnowledgeSnapshot) (query : String) (topK : ℤ) :
    Except PlanningError RetrievalResult := do
  let found ← retriever.search query
  let scores := reciprocalRankFusion retriever.arithmetic retriever.rrfK found.rankedIds
  let evidence ← (sliceTo (rankScores scores.rows) topK).mapM found.evidenceFor
  return {
    query := query
    evidence := evidence
    conflicts := findConflicts found.candidates.rows
    snapshot := ← snapshot
    insufficientEvidence := evidence.isEmpty }

/-! ## Conflicts are found -/

theorem mem_sortedSet {value : String} {values : List String} :
    value ∈ sortedSet values ↔ value ∈ values := by
  rw [sortedSet, List.mem_insertionSort, List.mem_dedup]

/-- A sorted set has two elements if two different values occur. -/
theorem one_lt_length_sortedSet_iff {values : List String} :
    1 < (sortedSet values).length ↔ ∃ a ∈ values, ∃ b ∈ values, a ≠ b := by
  rw [sortedSet, List.length_insertionSort, ← List.card_toFinset, Finset.one_lt_card]
  simp only [List.mem_toFinset]

theorem mem_governedBy {chunks : List KnowledgeChunk} {policyKey : String}
    {chunk : KnowledgeChunk} : chunk ∈ governedBy chunks policyKey ↔
      chunk ∈ chunks ∧ chunk.status = .active ∧ chunk.policyKey = policyKey := by
  simp [governedBy]

theorem policyConflict_eq_some_iff {chunks : List KnowledgeChunk} {policyKey : String}
    {conflict : KnowledgeConflict} : policyConflict chunks policyKey = some conflict ↔
      (∃ a ∈ governedBy chunks policyKey, ∃ b ∈ governedBy chunks policyKey,
        a.ruleDigest ≠ b.ruleDigest) ∧
      conflict = ⟨policyKey,
        sortedSet ((governedBy chunks policyKey).map KnowledgeChunk.chunkId),
        sortedSet ((governedBy chunks policyKey).map KnowledgeChunk.ruleDigest)⟩ := by
  simp only [policyConflict, Option.ite_none_right_eq_some, one_lt_length_sortedSet_iff,
    List.mem_map, exists_exists_and_eq_and, Option.some.injEq, @eq_comm _ conflict]

/-- A conflict is reported for a policy exactly when active chunks of it disagree. -/
theorem exists_mem_findConflicts_iff {chunks : List KnowledgeChunk} {policyKey : String} :
    (∃ conflict ∈ findConflicts chunks, conflict.policyKey = policyKey) ↔
      ∃ a ∈ governedBy chunks policyKey, ∃ b ∈ governedBy chunks policyKey,
        a.ruleDigest ≠ b.ruleDigest := by
  simp only [findConflicts, List.mem_filterMap]
  constructor
  · rintro ⟨conflict, ⟨key, _, hconflict⟩, rfl⟩
    obtain ⟨hdisagree, rfl⟩ := policyConflict_eq_some_iff.mp hconflict
    exact hdisagree
  · intro hdisagree
    obtain ⟨a, ha, _⟩ := id hdisagree
    obtain ⟨hmem, hactive, hkey⟩ := mem_governedBy.mp ha
    refine ⟨_, ⟨policyKey, mem_sortedSet.mpr ?_,
      policyConflict_eq_some_iff.mpr ⟨hdisagree, rfl⟩⟩, rfl⟩
    exact List.mem_map.mpr ⟨a, List.mem_filter.mpr ⟨hmem, decide_eq_true hactive⟩, hkey⟩

/-- A conflict is about the chunks of its policy. -/
theorem mem_conflict_chunkIds_iff {chunks : List KnowledgeChunk} {chunkId : String} :
    chunkId ∈ (findConflicts chunks).flatMap KnowledgeConflict.chunkIds ↔
      ∃ chunk ∈ chunks, chunk.chunkId = chunkId ∧ chunk.status = .active ∧
        ∃ conflict ∈ findConflicts chunks, conflict.policyKey = chunk.policyKey := by
  rw [List.mem_flatMap]
  constructor
  · rintro ⟨conflict, hconflict, hchunk⟩
    obtain ⟨key, _, hkey⟩ := List.mem_filterMap.mp hconflict
    obtain ⟨_, rfl⟩ := policyConflict_eq_some_iff.mp hkey
    obtain ⟨chunk, hgoverned, rfl⟩ := List.mem_map.mp (mem_sortedSet.mp hchunk)
    obtain ⟨hmem, hactive, rfl⟩ := mem_governedBy.mp hgoverned
    exact ⟨chunk, hmem, rfl, hactive, _, hconflict, rfl⟩
  · rintro ⟨chunk, hmem, rfl, hactive, conflict, hconflict, hpolicy⟩
    refine ⟨conflict, hconflict, ?_⟩
    obtain ⟨key, _, hkey⟩ := List.mem_filterMap.mp hconflict
    obtain ⟨_, rfl⟩ := policyConflict_eq_some_iff.mp hkey
    exact mem_sortedSet.mpr
      (List.mem_map.mpr ⟨chunk, mem_governedBy.mpr ⟨hmem, hactive, hpolicy.symm⟩, rfl⟩)

/-! ## Evidence is of chunks that were found -/

theorem mem_chunks_of_mem_candidates {found : SearchResults} {chunk : KnowledgeChunk}
    (h : chunk ∈ found.candidates.rows) : chunk ∈ found.chunks :=
  (KeyedTable.mem_foldl_put found.chunks h).resolve_right List.not_mem_nil

theorem evidenceFor_eq_ok {found : SearchResults} {scored : String × ℚ}
    {item : RetrievedEvidence} (h : found.evidenceFor scored = .ok item) :
    ∃ chunk ∈ found.candidates.rows, item = found.evidenceOf chunk scored.2 := by
  unfold SearchResults.evidenceFor at h
  split at h
  case h_1 chunk hchunk =>
    exact ⟨chunk, ((KeyedTable.get_eq_some_iff _).mp hchunk).1, (Except.ok.inj h).symm⟩
  case h_2 => cases h

/-- What is retrieved is evidence of chunks that were found, with their conflicts. -/
theorem HybridRetriever.exists_of_retrieve {retriever : HybridRetriever}
    {snapshot : Except PlanningError KnowledgeSnapshot} {query : String} {topK : ℤ}
    {result : RetrievalResult} (h : retriever.retrieve snapshot query topK = .ok result) :
    ∃ found, retriever.search query = .ok found ∧ snapshot = .ok result.snapshot ∧
      result.conflicts = findConflicts found.candidates.rows ∧
      ∀ item ∈ result.evidence, ∃ chunk ∈ found.candidates.rows, ∃ score,
        item = found.evidenceOf chunk score := by
  unfold retrieve at h
  obtain ⟨found, hfound, h⟩ := Except.bind_eq_ok_iff.mp h
  obtain ⟨evidence, hevidence, h⟩ := Except.bind_eq_ok_iff.mp h
  obtain ⟨taken, htaken, h⟩ := Except.bind_eq_ok_iff.mp h
  obtain rfl := Except.ok.inj h
  refine ⟨found, hfound, htaken, rfl, fun item hitem => ?_⟩
  obtain ⟨scored, _, hscored⟩ := Except.exists_of_mem_mapM hevidence hitem
  obtain ⟨chunk, hchunk, hitem⟩ := evidenceFor_eq_ok hscored
  exact ⟨chunk, hchunk, scored.2, hitem⟩

/-- A piece of evidence is marked exactly when its chunk is active and a conflict of its
policy is reported. -/
theorem conflict_evidenceOf_iff {found : SearchResults} {chunk : KnowledgeChunk} {score : ℚ}
    (hchunk : chunk ∈ found.candidates.rows) :
    (found.evidenceOf chunk score).conflict = true ↔ chunk.status = .active ∧
      ∃ conflict ∈ findConflicts found.candidates.rows, conflict.policyKey = chunk.policyKey := by
  rw [SearchResults.evidenceOf, decide_eq_true_eq, SearchResults.conflictIds,
    mem_conflict_chunkIds_iff]
  constructor
  · rintro ⟨other, hother, hid, hactive, hconflict⟩
    obtain rfl := found.candidates.eq_of_key_eq hother hchunk hid
    exact ⟨hactive, hconflict⟩
  · rintro ⟨hactive, hconflict⟩
    exact ⟨chunk, hchunk, rfl, hactive, hconflict⟩

/-- A chunk that was found is a candidate if no other has its id. -/
theorem mem_candidates_of_unique {found : SearchResults} {chunk : KnowledgeChunk}
    (hchunk : chunk ∈ found.chunks)
    (hunique : ∀ other ∈ found.chunks, other.chunkId = chunk.chunkId → other = chunk) :
    chunk ∈ found.candidates.rows :=
  KeyedTable.mem_foldl_put_of_unique found.chunks hunique (.inl hchunk)

end ChangePilot
