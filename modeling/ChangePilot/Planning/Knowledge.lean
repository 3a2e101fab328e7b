import ChangePilot.Planning.Models
import Mathlib.Data.List.Sort
import Mathlib.Data.Prod.Lex
import Mathlib.Data.String.Basic

/-!
# Knowledge

Runbooks, the chunks they are cut into, and the digest of all that is known.
-/

namespace ChangePilot

inductive DocumentStatus where
  | active | superseded | retired
  deriving DecidableEq, Repr

def DocumentStatus.value : DocumentStatus → String
  | active => "active"
  | superseded => "superseded"
  | retired => "retired"

/-- `DocumentStatus(text)` -/
def DocumentStatus.ofValue? (text : String) : Option DocumentStatus :=
  [active, superseded, retired].find? fun status => status.value = text

@[simp] theorem DocumentStatus.ofValue?_value (status : DocumentStatus) :
    ofValue? status.value = some status := by
  cases status <;> decide

structure RunbookDocument where
  documentId : String
  version : String
  source : String
  trustLevel : TrustLevel
  content : String
  policyKey : String
  effectiveAt : String
  status : DocumentStatus := .active
  ruleDigest : Option String := none
  deriving DecidableEq, Repr

abbrev DocumentIdentity := String ×ₗ String

def documentIdentity (documentId version : String) : DocumentIdentity :=
  toLex (documentId, version)

def RunbookDocument.identity (document : RunbookDocument) : DocumentIdentity :=
  documentIdentity document.documentId document.version

def RunbookDocument.contentDigest (runtime : Runtime) (document : RunbookDocument) : String :=
  (runtime.sha256 document.content).val

/-- `document.rule_digest or document.content_digest`, where an empty text counts as none. -/
def RunbookDocument.effectiveRuleDigest (runtime : Runtime) (document : RunbookDocument) :
    String :=
  match document.ruleDigest with
  | some digest => if digest = "" then document.contentDigest runtime else digest
  | none => document.contentDigest runtime

structure KnowledgeChunk where
  chunkId : String
  documentId : String
  documentVersion : String
  source : String
  trustLevel : TrustLevel
  policyKey : String
  ruleDigest : String
  status : DocumentStatus
  headingPath : List String
  position : ℕ
  startOffset : ℕ
  endOffset : ℕ
  content : String
  contentDigest : String
  deriving DecidableEq, Repr

def KnowledgeChunk.identity (chunk : KnowledgeChunk) : DocumentIdentity :=
  documentIdentity chunk.documentId chunk.documentVersion

structure KnowledgeSnapshot where
  digest : String
  documentCount : ℕ
  chunkCount : ℕ
  deriving DecidableEq, Repr

structure IngestionResult where
  documentId : String
  documentVersion : String
  contentDigest : String
  snapshot : KnowledgeSnapshot
  createdChunks : ℕ
  reused : Bool
  deriving DecidableEq, Repr

/-! ## Snapshots -/

section

variable (runtime : Runtime)

def documentPayload (document : RunbookDocument) : Value :=
  .ofFields [
    ("document_id", .str document.documentId),
    ("version", .str document.version),
    ("content_digest", .str (document.contentDigest runtime)),
    ("status", .str document.status.value)]

def chunkPayload (chunk : KnowledgeChunk) : Value :=
  .ofFields [("chunk_id", .str chunk.chunkId), ("content_digest", .str chunk.contentDigest)]

/-- What the digest of a snapshot is taken of. -/
def snapshotPayload (documents : List RunbookDocument) (chunks : List KnowledgeChunk) : Value :=
  .ofFields [
    ("documents", .list (documents.map (documentPayload runtime))),
    ("chunks", .list (chunks.map chunkPayload))]

def calculateSnapshot (documents : List RunbookDocument) (chunks : List KnowledgeChunk) :
    Except PlanningError KnowledgeSnapshot :=
  match runtime.jsonDumps true (snapshotPayload runtime documents chunks) with
  | .ok encoded => .ok {
      digest := (runtime.sha256 encoded).val
      documentCount := documents.length, chunkCount := chunks.length }
  | .error error => .error (.raised error)

end

theorem plain_snapshotPayload (runtime : Runtime) (documents : List RunbookDocument)
    (chunks : List KnowledgeChunk) : (snapshotPayload runtime documents chunks).Plain := by
  have hdocuments : (Value.list (documents.map (documentPayload runtime))).Plain := by
    refine .list (List.forall_mem_map.mpr fun document _ => ?_)
    refine .ofFields (show ["document_id", "version", "content_digest", "status"].Nodup by decide) ?_
    simp only [List.forall_mem_cons]
    exact ⟨.str _, .str _, .str _, .str _, List.forall_mem_nil _⟩
  have hchunks : (Value.list (chunks.map chunkPayload)).Plain := by
    refine .list (List.forall_mem_map.mpr fun chunk _ => ?_)
    refine .ofFields (show ["chunk_id", "content_digest"].Nodup by decide) ?_
    simp only [List.forall_mem_cons]
    exact ⟨.str _, .str _, List.forall_mem_nil _⟩
  refine .ofFields (show ["documents", "chunks"].Nodup by decide) ?_
  simp only [List.forall_mem_cons]
  exact ⟨hdocuments, hchunks, List.forall_mem_nil _⟩

/-- A snapshot can always be taken. -/
theorem exists_calculateSnapshot {runtime : Runtime} (h : runtime.DumpsPlain)
    (documents : List RunbookDocument) (chunks : List KnowledgeChunk) :
    ∃ snapshot, calculateSnapshot runtime documents chunks = .ok snapshot := by
  obtain ⟨text, htext⟩ := h _ (plain_snapshotPayload runtime documents chunks)
  exact ⟨_, by rw [calculateSnapshot, htext]⟩

end ChangePilot
