import ChangePilot.Library.KeyedTable
import ChangePilot.Planning.Knowledge

/-!
# Ingestion

A runbook is cut into sections at its headings and each section into windows that
overlap.  It is stored with its chunks unless a document of its identity is stored.  The
stores are given by what they do with a state; `InMemoryKnowledgeStore` is one of them.
-/

namespace ChangePilot

/-! ## Sections -/

/-- `text.isspace()` of a character. -/
def isSpace (c : Char) : Bool :=
  let n := c.toNat
  (9 ≤ n ∧ n ≤ 13) ∨ (28 ≤ n ∧ n ≤ 32) ∨ n = 0x85 ∨ n = 0xa0 ∨ n = 0x1680 ∨
    (0x2000 ≤ n ∧ n ≤ 0x200a) ∨ n = 0x2028 ∨ n = 0x2029 ∨ n = 0x202f ∨ n = 0x205f ∨ n = 0x3000

/-- `text.strip()` -/
def strip (text : List Char) : List Char :=
  ((text.dropWhile isSpace).reverse.dropWhile isSpace).reverse

/-- `text.replace("\r\n", "\n").replace("\r", "\n")` -/
def normalizeNewlines : List Char → List Char
  | '\r' :: '\n' :: rest => '\n' :: normalizeNewlines rest
  | '\r' :: rest => '\n' :: normalizeNewlines rest
  | c :: rest => c :: normalizeNewlines rest
  | [] => []

/-- `text.split("\n")` -/
def splitLines : List Char → List (List Char)
  | [] => [[]]
  | '\n' :: rest => [] :: splitLines rest
  | c :: rest =>
      match splitLines rest with
      | line :: lines => (c :: line) :: lines
      | [] => [[c]]

/-- The level and title of a line that `^(#{1,6})\s+(.+?)\s*$` matches.  Of blanks only,
the title takes one and is stripped of it. -/
def headingOf (line : List Char) : Option (ℕ × List Char) :=
  let level := (line.takeWhile (· = '#')).length
  let rest := line.dropWhile (· = '#')
  if 1 ≤ level ∧ level ≤ 6 ∧ (rest.head?.any isSpace) ∧ 2 ≤ rest.length then
    some (level, strip rest)
  else none

/-- The headings in force after one of this level. -/
def pushHeading (headings : List String) (level : ℕ) (title : String) : List String :=
  let kept := headings.take (level - 1)
  kept ++ List.replicate (level - 1 - kept.length) "" ++ [title]

structure Section where
  headingPath : List String
  start : ℕ
  text : List Char
  deriving DecidableEq, Repr

/-- The state of the loop over the lines. -/
structure SectionState where
  headings : List String := []
  sections : List Section := []
  currentStart : ℕ := 0
  currentLines : List (List Char) := []
  offset : ℕ := 0

namespace SectionState

/-- `flush` -/
def flush (s : SectionState) : SectionState :=
  let text := strip (List.intercalate ['\n'] s.currentLines)
  { s with
    sections := if text = [] then s.sections else s.sections ++ [⟨s.headings, s.currentStart, text⟩]
    currentLines := [] }

/-- One turn of the loop. -/
def next (s : SectionState) (line : List Char) : SectionState :=
  match headingOf line with
  | some (level, title) =>
      { s.flush with
        headings := pushHeading s.headings level (String.ofList title)
        currentStart := s.offset + line.length + 1
        offset := s.offset + line.length + 1 }
  | none =>
      { s with
        currentStart := if s.currentLines = [] then s.offset else s.currentStart
        currentLines := s.currentLines ++ [line]
        offset := s.offset + line.length + 1 }

end SectionState

/-- `_markdown_sections` -/
def markdownSections (content : List Char) : List Section :=
  let sections := ((splitLines content).foldl SectionState.next {}).flush.sections
  if sections = [] ∧ strip content ≠ [] then [⟨[], 0, strip content⟩] else sections

/-! ## Chunks -/

/-- The bounds that the constructor of the service checks. -/
structure ChunkLimits where
  maxChunkChars : ℕ := 800
  overlapChars : ℕ := 120
  overlap_lt : overlapChars < maxChunkChars := by decide

/-- The windows of a text of `length` characters from `cursor` on, at most `fuel` of
them; a text has no more windows than characters. -/
def windows (limits : ChunkLimits) (length : ℕ) : (fuel cursor : ℕ) → List (ℕ × ℕ)
  | 0, _ => []
  | fuel + 1, cursor =>
      if cursor < length then
        let stop := min length (cursor + limits.maxChunkChars)
        (cursor, stop) ::
          if stop = length then [] else windows limits length fuel (stop - limits.overlapChars)
      else []

/-- The windows of a section that are not blank, with where they start and end in the
document. -/
def sectionWindows (limits : ChunkLimits) (piece : Section) :
    List (List String × ℕ × ℕ × List Char) :=
  (windows limits piece.text.length piece.text.length 0).filterMap fun (cursor, stop) =>
    let content := strip ((piece.text.take stop).drop cursor)
    if content = [] then none
    else some (piece.headingPath, piece.start + cursor, piece.start + stop, content)

section

variable (runtime : Runtime)

/-- The chunk at a position of the document. -/
def makeChunk (document : RunbookDocument) (position : ℕ) :
    List String × ℕ × ℕ × List Char → KnowledgeChunk
  | (headingPath, startOffset, endOffset, content) =>
      let text := String.ofList content
      let contentDigest := (runtime.sha256 text).val
      { chunkId := (runtime.sha256
          s!"{document.documentId}:{document.version}:{position}:{contentDigest}").val
        documentId := document.documentId
        documentVersion := document.version
        source := document.source
        trustLevel := document.trustLevel
        policyKey := document.policyKey
        ruleDigest := document.effectiveRuleDigest runtime
        status := document.status
        headingPath := headingPath
        position := position
        startOffset := startOffset
        endOffset := endOffset
        content := text
        contentDigest := contentDigest }

/-- `_chunk` -/
def chunkDocument (limits : ChunkLimits) (document : RunbookDocument) : List KnowledgeChunk :=
  let sections := markdownSections (normalizeNewlines document.content.toList)
  (sections.flatMap (sectionWindows limits)).mapIdx (makeChunk runtime document)

end

/-! ## Stores -/

/-- What a store does with its state.  Adding either raises, which leaves the state, or
gives the next one; it may depend on what lies outside of the store at the time. -/
structure KnowledgeStore (ε σ : Type) where
  getDocument : σ → (documentId version : String) → Except PlanningError (Option RunbookDocument)
  addDocument : ε → σ → RunbookDocument → List KnowledgeChunk → Except PlanningError σ
  allDocuments : σ → Except PlanningError (List RunbookDocument)
  allChunks : σ → Except PlanningError (List KnowledgeChunk)

def KnowledgeStore.snapshot {ε σ : Type} (store : KnowledgeStore ε σ) (runtime : Runtime) (s : σ) :
    Except PlanningError KnowledgeSnapshot := do
  calculateSnapshot runtime (← store.allDocuments s) (← store.allChunks s)

structure InMemoryKnowledgeStore where
  documents : KeyedTable RunbookDocument.identity := .empty
  chunks : KeyedTable KnowledgeChunk.chunkId := .empty

/-- What the chunks of a store are sorted by. -/
def KnowledgeChunk.sortKey (chunk : KnowledgeChunk) : String ×ₗ String ×ₗ ℕ ×ₗ String :=
  toLex (chunk.documentId, toLex (chunk.documentVersion, toLex (chunk.position, chunk.chunkId)))

namespace InMemoryKnowledgeStore

def addDocument (s : InMemoryKnowledgeStore) (document : RunbookDocument)
    (chunks : List KnowledgeChunk) : Except PlanningError InMemoryKnowledgeStore :=
  if (s.documents.get document.identity).isSome then
    .error (.knowledgeError "document version already exists")
  else .ok {
    documents := s.documents.put document
    chunks := chunks.foldl KeyedTable.put s.chunks }

def allChunks (s : InMemoryKnowledgeStore) : List KnowledgeChunk :=
  s.chunks.rows.insertionSort fun a b => a.sortKey ≤ b.sortKey

/-- The store as the ingestion service uses it. -/
def store : KnowledgeStore Unit InMemoryKnowledgeStore where
  getDocument s documentId version := .ok (s.documents.get (documentIdentity documentId version))
  addDocument _ := addDocument
  allDocuments s := .ok s.documents.rows
  allChunks s := .ok s.allChunks

end InMemoryKnowledgeStore

/-! ## The service -/

section

variable (runtime : Runtime) (limits : ChunkLimits) {ε σ : Type} (store : KnowledgeStore ε σ)

/-- The result of an ingestion. -/
def ingestionResult (document : RunbookDocument) (createdChunks : ℕ) (reused : Bool) (s : σ) :
    Except PlanningError IngestionResult := do
  return {
    documentId := document.documentId
    documentVersion := document.version
    contentDigest := document.contentDigest runtime
    snapshot := ← store.snapshot runtime s
    createdChunks := createdChunks
    reused := reused }

/-- `ingest`, and the state it leaves. -/
def ingest (e : ε) (s : σ) (document : RunbookDocument) : Except PlanningError IngestionResult × σ :=
  match store.getDocument s document.documentId document.version with
  | .error error => (.error error, s)
  | .ok (some existing) =>
      if existing.contentDigest runtime ≠ document.contentDigest runtime then
        (.error (.knowledgeError "document identity is immutable; use a new version"), s)
      else (ingestionResult runtime store document 0 true s, s)
  | .ok none =>
      let chunks := chunkDocument runtime limits document
      match store.addDocument e s document chunks with
      | .error error => (.error error, s)
      | .ok next => (ingestionResult runtime store document chunks.length false next, next)

end

end ChangePilot
