import ChangePilot.Planning.Ingestion

/-!
# The SQLite knowledge store

Documents, chunks and embeddings as rows.  An addition is one transaction: the rows are
inserted one by one, and whatever raises on the way undoes the ones before it.  The JSON
column of the heading path stands for the list it encodes.
-/

namespace ChangePilot

/-! ## Rows -/

structure DocumentRow where
  documentId : String
  version : String
  source : String
  trustLevel : String
  content : String
  contentDigest : String
  policyKey : String
  effectiveAt : String
  status : String
  ruleDigest : String

structure ChunkRow where
  chunkId : String
  documentId : String
  documentVersion : String
  source : String
  trustLevel : String
  policyKey : String
  ruleDigest : String
  status : String
  headingPath : List String
  position : ℕ
  startOffset : ℕ
  endOffset : ℕ
  content : String
  contentDigest : String

structure EmbeddingRow where
  chunkId : String
  modelId : String
  dimensions : ℕ
  vectorBlob : List UInt8

def DocumentRow.identity (row : DocumentRow) : DocumentIdentity :=
  documentIdentity row.documentId row.version

def EmbeddingRow.key (row : EmbeddingRow) : String ×ₗ String := toLex (row.chunkId, row.modelId)

/-- The values that are inserted for a document. -/
def RunbookDocument.row (runtime : Runtime) (document : RunbookDocument) : DocumentRow where
  documentId := document.documentId
  version := document.version
  source := document.source
  trustLevel := document.trustLevel.value
  content := document.content
  contentDigest := document.contentDigest runtime
  policyKey := document.policyKey
  effectiveAt := document.effectiveAt
  status := document.status.value
  ruleDigest := document.effectiveRuleDigest runtime

def KnowledgeChunk.row (chunk : KnowledgeChunk) : ChunkRow where
  chunkId := chunk.chunkId
  documentId := chunk.documentId
  documentVersion := chunk.documentVersion
  source := chunk.source
  trustLevel := chunk.trustLevel.value
  policyKey := chunk.policyKey
  ruleDigest := chunk.ruleDigest
  status := chunk.status.value
  headingPath := chunk.headingPath
  position := chunk.position
  startOffset := chunk.startOffset
  endOffset := chunk.endOffset
  content := chunk.content
  contentDigest := chunk.contentDigest

/-- An enumeration's constructor, which refuses a text that is none of its values. -/
def enumMember {α : Type} (className text : String) (member : Option α) :
    Except PlanningError α :=
  match member with
  | some value => .ok value
  | none => .error (.valueError s!"{text} is not a valid {className}")

/-- `_document_from_row` -/
def documentFromRow (row : DocumentRow) : Except PlanningError RunbookDocument := do
  let trustLevel ← enumMember "TrustLevel" row.trustLevel (TrustLevel.ofValue? row.trustLevel)
  let status ← enumMember "DocumentStatus" row.status (DocumentStatus.ofValue? row.status)
  return {
    documentId := row.documentId
    version := row.version
    source := row.source
    trustLevel := trustLevel
    content := row.content
    policyKey := row.policyKey
    effectiveAt := row.effectiveAt
    status := status
    ruleDigest := some row.ruleDigest }

/-- `_chunk_from_row` -/
def chunkFromRow (row : ChunkRow) : Except PlanningError KnowledgeChunk := do
  let trustLevel ← enumMember "TrustLevel" row.trustLevel (TrustLevel.ofValue? row.trustLevel)
  let status ← enumMember "DocumentStatus" row.status (DocumentStatus.ofValue? row.status)
  return {
    chunkId := row.chunkId
    documentId := row.documentId
    documentVersion := row.documentVersion
    source := row.source
    trustLevel := trustLevel
    policyKey := row.policyKey
    ruleDigest := row.ruleDigest
    status := status
    headingPath := row.headingPath
    position := row.position
    startOffset := row.startOffset
    endOffset := row.endOffset
    content := row.content
    contentDigest := row.contentDigest }

/-! ## The store -/

/-- The embedding provider, and `_pack_vector`. -/
structure Embeddings where
  modelId : String
  encodeDocuments : List String → Except PlanningError (List (List ℚ))
  packVector : List ℚ → Except PlanningError (List UInt8)

structure SQLiteKnowledgeStore where
  documents : KeyedTable DocumentRow.identity := .empty
  chunks : KeyedTable ChunkRow.chunkId := .empty
  embeddings : KeyedTable EmbeddingRow.key := .empty

namespace SQLiteKnowledgeStore

/-- An `IntegrityError`, as it is reported. -/
def integrityError : PlanningError := .knowledgeError "document version already exists"

def insertEmbedding (embeddings : Embeddings) (s : SQLiteKnowledgeStore)
    (chunk : KnowledgeChunk) (vector : List ℚ) : Except PlanningError SQLiteKnowledgeStore := do
  let row : EmbeddingRow := {
    chunkId := chunk.chunkId, modelId := embeddings.modelId, dimensions := vector.length
    vectorBlob := ← embeddings.packVector vector }
  if (s.embeddings.get row.key).isSome then throw integrityError
  return { s with embeddings := s.embeddings.put row }

/-- The turns of the loop over the chunks, each with its vector. -/
def insertChunks (embeddings : Option Embeddings) (s : SQLiteKnowledgeStore) :
    List (KnowledgeChunk × List ℚ) → Except PlanningError SQLiteKnowledgeStore
  | [] => .ok s
  | (chunk, vector) :: rest => do
      if (s.chunks.get chunk.chunkId).isSome then throw integrityError
      let inserted := { s with chunks := s.chunks.put chunk.row }
      let next ← match embeddings with
        | some embeddings => insertEmbedding embeddings inserted chunk vector
        | none => .ok inserted
      insertChunks embeddings next rest

/-- The vectors of the chunks; without a provider there are none. -/
def encode (embeddings : Option Embeddings) (chunks : List KnowledgeChunk) :
    Except PlanningError (List (List ℚ)) :=
  match embeddings, chunks with
  | none, _ | _, [] => .ok (chunks.map fun _ => [])
  | some embeddings, chunks => do
      let vectors ← embeddings.encodeDocuments (chunks.map KnowledgeChunk.content)
      if vectors.length ≠ chunks.length then
        throw (.knowledgeError "embedding count does not match chunks")
      return vectors

def addDocument (runtime : Runtime) (embeddings : Option Embeddings) (s : SQLiteKnowledgeStore)
    (document : RunbookDocument) (chunks : List KnowledgeChunk) :
    Except PlanningError SQLiteKnowledgeStore := do
  let vectors ← encode embeddings chunks
  if (s.documents.get document.identity).isSome then throw integrityError
  insertChunks embeddings { s with documents := s.documents.put (document.row runtime) }
    (chunks.zip vectors)

/-- What chunks are ordered by in `all_chunks`. -/
def chunkOrder (row : ChunkRow) : String ×ₗ String ×ₗ ℕ :=
  toLex (row.documentId, toLex (row.documentVersion, row.position))

/-- The store as the ingestion service uses it, with the embedding provider of the time. -/
def store (runtime : Runtime) : KnowledgeStore (Option Embeddings) SQLiteKnowledgeStore where
  getDocument s documentId version :=
    match s.documents.get (documentIdentity documentId version) with
    | some row => (documentFromRow row).map some
    | none => .ok none
  addDocument := addDocument runtime
  allDocuments s := s.documents.rows.mapM documentFromRow
  allChunks s := (s.chunks.rows.insertionSort fun a b => chunkOrder a ≤ chunkOrder b).mapM
    chunkFromRow

end SQLiteKnowledgeStore

end ChangePilot
