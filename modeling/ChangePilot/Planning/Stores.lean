import ChangePilot.Library.Transaction
import ChangePilot.Planning.SqliteKnowledge

/-!
# What the knowledge stores keep

Both stores are read alike: after a document has been added it is found under its
identity with what makes it up, the other documents are found as before, and no chunks
are there but its own and those of before.
-/

namespace ChangePilot

/-! ## Documents as they are stored -/

/-- The stored document says what the given one does; a missing rule digest may have been
filled in. -/
structure RunbookDocument.Keeps (runtime : Runtime) (stored document : RunbookDocument) : Prop where
  documentId : stored.documentId = document.documentId
  version : stored.version = document.version
  source : stored.source = document.source
  trustLevel : stored.trustLevel = document.trustLevel
  content : stored.content = document.content
  policyKey : stored.policyKey = document.policyKey
  effectiveAt : stored.effectiveAt = document.effectiveAt
  status : stored.status = document.status
  ruleDigest : stored.effectiveRuleDigest runtime = document.effectiveRuleDigest runtime

/-- The chunk carries what its document says of it. -/
structure KnowledgeChunk.Carries (runtime : Runtime) (chunk : KnowledgeChunk)
    (document : RunbookDocument) : Prop where
  documentId : chunk.documentId = document.documentId
  version : chunk.documentVersion = document.version
  source : chunk.source = document.source
  trustLevel : chunk.trustLevel = document.trustLevel
  policyKey : chunk.policyKey = document.policyKey
  status : chunk.status = document.status
  ruleDigest : chunk.ruleDigest = document.effectiveRuleDigest runtime

theorem RunbookDocument.Keeps.refl (runtime : Runtime) (document : RunbookDocument) :
    document.Keeps runtime document := ⟨rfl, rfl, rfl, rfl, rfl, rfl, rfl, rfl, rfl⟩

theorem RunbookDocument.Keeps.identity {runtime : Runtime} {stored document : RunbookDocument}
    (h : stored.Keeps runtime document) : stored.identity = document.identity := by
  rw [RunbookDocument.identity, h.documentId, h.version]
  rfl

theorem KnowledgeChunk.Carries.of_keeps {runtime : Runtime} {chunk : KnowledgeChunk}
    {stored document : RunbookDocument} (h : chunk.Carries runtime document)
    (hstored : stored.Keeps runtime document) : chunk.Carries runtime stored where
  documentId := h.documentId.trans hstored.documentId.symm
  version := h.version.trans hstored.version.symm
  source := h.source.trans hstored.source.symm
  trustLevel := h.trustLevel.trans hstored.trustLevel.symm
  policyKey := h.policyKey.trans hstored.policyKey.symm
  status := h.status.trans hstored.status.symm
  ruleDigest := h.ruleDigest.trans hstored.ruleDigest.symm

theorem documentIdentity_inj {a b c d : String} :
    documentIdentity a b = documentIdentity c d ↔ a = c ∧ b = d := by
  simp [documentIdentity]

theorem makeChunk_carries (runtime : Runtime) (document : RunbookDocument) (position : ℕ)
    (window : List String × ℕ × ℕ × List Char) :
    (makeChunk runtime document position window).Carries runtime document := by
  obtain ⟨headingPath, startOffset, endOffset, content⟩ := window
  constructor <;> rw [makeChunk]

/-- Every chunk of a document carries what the document says. -/
theorem carries_of_mem_chunkDocument {runtime : Runtime} {limits : ChunkLimits}
    {document : RunbookDocument} {chunk : KnowledgeChunk}
    (h : chunk ∈ chunkDocument runtime limits document) : chunk.Carries runtime document := by
  obtain ⟨position, hposition, rfl⟩ := List.mem_mapIdx.mp h
  exact makeChunk_carries runtime document position _

/-! ## Laws -/

/-- What is asked of a store in its valid states. -/
structure KnowledgeStore.Lawful {ε σ : Type} (runtime : Runtime) (store : KnowledgeStore ε σ)
    (valid : σ → Prop) : Prop where
  readable : ∀ {s}, valid s →
    (∀ documentId version, ∃ found, store.getDocument s documentId version = .ok found) ∧
    (∃ documents, store.allDocuments s = .ok documents) ∧ ∃ chunks, store.allChunks s = .ok chunks
  identity : ∀ {s documentId version stored}, valid s →
    store.getDocument s documentId version = .ok (some stored) →
      stored.documentId = documentId ∧ stored.version = version
  chunkIds : ∀ {s chunks a b}, valid s → store.allChunks s = .ok chunks → a ∈ chunks →
    b ∈ chunks → a.chunkId = b.chunkId → a = b
  added : ∀ {e s next document chunks}, valid s →
    store.addDocument e s document chunks = .ok next → valid next ∧
      (∃ stored, stored.Keeps runtime document ∧
        store.getDocument next document.documentId document.version = .ok (some stored)) ∧
      (∀ documentId version, documentIdentity documentId version ≠ document.identity →
        store.getDocument next documentId version = store.getDocument s documentId version) ∧
      ∀ before after, store.allChunks s = .ok before → store.allChunks next = .ok after →
        ∀ chunk ∈ after, chunk ∈ chunks ∨ chunk ∈ before

/-- A store of a lawful kind can be digested. -/
theorem KnowledgeStore.Lawful.exists_snapshot {ε σ : Type} {runtime : Runtime}
    {store : KnowledgeStore ε σ} {valid : σ → Prop} (h : store.Lawful runtime valid)
    (hdumps : runtime.DumpsPlain) {s : σ} (hs : valid s) :
    ∃ snapshot, store.snapshot runtime s = .ok snapshot := by
  obtain ⟨_, ⟨documents, hdocuments⟩, chunks, hchunks⟩ := h.readable hs
  obtain ⟨snapshot, hsnapshot⟩ := exists_calculateSnapshot hdumps documents chunks
  refine ⟨snapshot, ?_⟩
  rw [KnowledgeStore.snapshot, hdocuments, hchunks]
  exact hsnapshot

/-! ## In memory -/

theorem InMemoryKnowledgeStore.lawful (runtime : Runtime) :
    store.Lawful runtime fun _ => True where
  readable _ := ⟨fun _ _ => ⟨_, rfl⟩, ⟨_, rfl⟩, _, rfl⟩
  identity _ h := by
    obtain ⟨_, hkey⟩ := (KeyedTable.get_eq_some_iff _).mp (Except.ok.inj h)
    exact documentIdentity_inj.mp hkey
  chunkIds := by
    intro s chunks a b _ h ha hb hid
    obtain rfl := Except.ok.inj h
    exact s.chunks.eq_of_key_eq ((List.mem_insertionSort _).mp ha)
      ((List.mem_insertionSort _).mp hb) hid
  added := by
    intro _ s next document chunks _ h
    have hadd : s.addDocument document chunks = .ok next := h
    unfold addDocument at hadd
    split at hadd
    · cases hadd
    obtain rfl := Except.ok.inj hadd
    refine ⟨trivial, ⟨document, .refl runtime document, ?_⟩, fun documentId version hne => ?_, ?_⟩
    · exact congrArg Except.ok (KeyedTable.get_put_self _ document)
    · exact congrArg Except.ok (KeyedTable.get_put_ne _ hne)
    · intro before after hbefore hafter chunk hchunk
      obtain rfl := Except.ok.inj hbefore
      obtain rfl := Except.ok.inj hafter
      refine (KeyedTable.mem_foldl_put chunks ((List.mem_insertionSort _).mp hchunk)).imp_right ?_
      exact (List.mem_insertionSort _).mpr

/-! ## SQLite -/

namespace SQLiteKnowledgeStore

/-- A document as it comes back. -/
def asStored (runtime : Runtime) (document : RunbookDocument) : RunbookDocument :=
  { document with ruleDigest := some (document.effectiveRuleDigest runtime) }

theorem keeps_asStored (runtime : Runtime) (document : RunbookDocument) :
    (asStored runtime document).Keeps runtime document := by
  refine ⟨rfl, rfl, rfl, rfl, rfl, rfl, rfl, rfl, ?_⟩
  show (if document.effectiveRuleDigest runtime = "" then document.contentDigest runtime
    else document.effectiveRuleDigest runtime) = _
  split
  case isTrue hempty =>
    -- a rule digest is never replaced by the empty text, only a content digest could be one
    unfold RunbookDocument.effectiveRuleDigest at hempty ⊢
    split at hempty
    case h_1 digest hdigest =>
      split at hempty
      case isTrue h => rw [if_pos h]
      case isFalse h => exact absurd hempty h
    case h_2 => rfl
  case isFalse => rfl

theorem documentFromRow_row (runtime : Runtime) (document : RunbookDocument) :
    documentFromRow (document.row runtime) = .ok (asStored runtime document) := by
  simp only [documentFromRow, RunbookDocument.row, TrustLevel.ofValue?_value,
    DocumentStatus.ofValue?_value, enumMember]
  rfl

theorem chunkFromRow_row (chunk : KnowledgeChunk) : chunkFromRow chunk.row = .ok chunk := by
  simp only [chunkFromRow, KnowledgeChunk.row, TrustLevel.ofValue?_value,
    DocumentStatus.ofValue?_value, enumMember]
  rfl

/-- Every row stands for a document or a chunk. -/
structure Valid (runtime : Runtime) (s : SQLiteKnowledgeStore) : Prop where
  documents : ∀ row ∈ s.documents.rows, ∃ document, row = RunbookDocument.row runtime document
  chunks : ∀ row ∈ s.chunks.rows, ∃ chunk, row = KnowledgeChunk.row chunk

/-- What rows that stand for values are read as. -/
theorem mapM_fromRow {α β : Type} {toRow : α → β} {fromRow : β → Except PlanningError α}
    (read : α → α) (hread : ∀ value, fromRow (toRow value) = .ok (read value)) {rows : List β}
    (hrows : ∀ row ∈ rows, ∃ value, row = toRow value) : ∃ values, rows.mapM fromRow = .ok values ∧
      ∀ value, value ∈ values ↔ ∃ row ∈ rows, fromRow row = .ok value := by
  induction rows with
  | nil => exact ⟨[], rfl, fun _ => by simp⟩
  | cons row rest ih =>
      obtain ⟨⟨value, rfl⟩, hrest⟩ := List.forall_mem_cons.mp hrows
      obtain ⟨values, hvalues, hmem⟩ := ih hrest
      refine ⟨read value :: values, ?_, fun other => ?_⟩
      · rw [List.mapM_cons, hread, hvalues]
        rfl
      · rw [List.mem_cons, List.exists_mem_cons_iff, hmem, hread, Except.ok.injEq, eq_comm]

section

variable {runtime : Runtime} {embeddings : Option Embeddings}

theorem insertEmbedding_tables {embeddings : Embeddings} {s next : SQLiteKnowledgeStore}
    {chunk : KnowledgeChunk} {vector : List ℚ}
    (h : insertEmbedding embeddings s chunk vector = .ok next) :
    next.documents = s.documents ∧ next.chunks = s.chunks := by
  simp only [insertEmbedding, Except.bind_eq_ok_iff] at h
  obtain ⟨blob, _, h⟩ := h
  split at h
  · simp at h
  · obtain rfl := Except.ok.inj h
    exact ⟨rfl, rfl⟩

/-- One turn of the loop puts the row of its chunk. -/
theorem exists_insertChunks_cons {s next : SQLiteKnowledgeStore} {chunk : KnowledgeChunk}
    {vector : List ℚ} {rest : List (KnowledgeChunk × List ℚ)}
    (h : insertChunks embeddings s ((chunk, vector) :: rest) = .ok next) :
    ∃ inserted : SQLiteKnowledgeStore, inserted.documents = s.documents ∧
      inserted.chunks = s.chunks.put chunk.row ∧ insertChunks embeddings inserted rest = .ok next := by
  unfold insertChunks at h
  dsimp only at h
  split at h
  · cases h
  cases embeddings with
  | none => exact ⟨{ s with chunks := s.chunks.put chunk.row }, rfl, rfl, h⟩
  | some embeddings =>
      obtain ⟨inserted, hinserted, hrest⟩ := Except.bind_eq_ok_iff.mp h
      obtain ⟨hdocuments, hchunks⟩ := insertEmbedding_tables hinserted
      exact ⟨inserted, hdocuments, hchunks, hrest⟩

/-- The chunks of an addition, and nothing else, are new. -/
theorem insertChunks_tables (pairs : List (KnowledgeChunk × List ℚ)) :
    ∀ {s next : SQLiteKnowledgeStore}, insertChunks embeddings s pairs = .ok next →
      next.documents = s.documents ∧ ∀ row ∈ next.chunks.rows,
        row ∈ s.chunks.rows ∨ ∃ chunk ∈ pairs.map Prod.fst, row = chunk.row := by
  induction pairs with
  | nil =>
      intro s next h
      obtain rfl := Except.ok.inj h
      exact ⟨rfl, fun _ hrow => .inl hrow⟩
  | cons pair rest ih =>
      intro s next h
      obtain ⟨inserted, hdocuments, hchunks, hrest⟩ := exists_insertChunks_cons h
      obtain ⟨hsame, hrows⟩ := ih hrest
      refine ⟨hsame.trans hdocuments, fun row hrow => ?_⟩
      rcases hrows row hrow with hrow | ⟨other, hother, rfl⟩
      · rw [hchunks] at hrow
        rcases KeyedTable.mem_put.mp hrow with rfl | ⟨hrow, _⟩
        · exact .inr ⟨pair.1, List.mem_cons_self, rfl⟩
        · exact .inl hrow
      · exact .inr ⟨other, List.mem_cons_of_mem _ hother, rfl⟩

theorem addDocument_tables {s next : SQLiteKnowledgeStore} {document : RunbookDocument}
    {chunks : List KnowledgeChunk} (h : addDocument runtime embeddings s document chunks = .ok next) :
    next.documents = s.documents.put (document.row runtime) ∧ ∀ row ∈ next.chunks.rows,
      row ∈ s.chunks.rows ∨ ∃ chunk ∈ chunks, row = chunk.row := by
  unfold addDocument at h
  rw [Except.bind_eq_ok_iff] at h
  obtain ⟨vectors, _, h⟩ := h
  split at h
  · simp [Except.bind_eq_ok_iff] at h
  obtain ⟨hdocuments, hrows⟩ := insertChunks_tables _ h
  refine ⟨hdocuments, fun row hrow => (hrows row hrow).imp_right ?_⟩
  rintro ⟨chunk, hchunk, rfl⟩
  obtain ⟨pair, hpair, rfl⟩ := List.mem_map.mp hchunk
  exact ⟨pair.1, (List.of_mem_zip hpair).1, rfl⟩

theorem Valid.addDocument {s next : SQLiteKnowledgeStore} (hs : s.Valid runtime)
    {document : RunbookDocument} {chunks : List KnowledgeChunk}
    (h : addDocument runtime embeddings s document chunks = .ok next) : next.Valid runtime := by
  obtain ⟨hdocuments, hchunks⟩ := addDocument_tables h
  refine ⟨fun row hrow => ?_, fun row hrow => ?_⟩
  · rw [hdocuments] at hrow
    rcases KeyedTable.mem_put.mp hrow with rfl | ⟨hrow, _⟩
    · exact ⟨document, rfl⟩
    · exact hs.documents row hrow
  · rcases hchunks row hrow with hrow | ⟨chunk, _, rfl⟩
    · exact hs.chunks row hrow
    · exact ⟨chunk, rfl⟩

theorem Valid.exists_allDocuments {s : SQLiteKnowledgeStore} (hs : s.Valid runtime) :
    ∃ documents, (store runtime).allDocuments s = .ok documents := by
  obtain ⟨documents, hdocuments, _⟩ := mapM_fromRow _ (documentFromRow_row runtime) hs.documents
  exact ⟨documents, hdocuments⟩

theorem row_injective : Function.Injective KnowledgeChunk.row := fun a b h =>
  Except.ok.inj ((chunkFromRow_row a).symm.trans (congrArg chunkFromRow h |>.trans (chunkFromRow_row b)))

/-- The chunks that are read are those that were inserted. -/
theorem Valid.exists_allChunks {s : SQLiteKnowledgeStore} (hs : s.Valid runtime) :
    ∃ chunks, (store runtime).allChunks s = .ok chunks ∧
      ∀ chunk, chunk ∈ chunks ↔ chunk.row ∈ s.chunks.rows := by
  have hrows : ∀ row ∈ s.chunks.rows.insertionSort (fun a b => chunkOrder a ≤ chunkOrder b),
      ∃ chunk, row = KnowledgeChunk.row chunk := fun row hrow =>
    hs.chunks row ((List.mem_insertionSort _).mp hrow)
  obtain ⟨chunks, hchunks, hmem⟩ := mapM_fromRow id chunkFromRow_row hrows
  refine ⟨chunks, hchunks, fun chunk => (hmem chunk).trans ⟨?_, fun hrow => ?_⟩⟩
  · rintro ⟨row, hrow, hfrom⟩
    obtain ⟨other, rfl⟩ := hrows row hrow
    obtain rfl := Except.ok.inj ((chunkFromRow_row other).symm.trans hfrom)
    exact (List.mem_insertionSort _).mp hrow
  · exact ⟨chunk.row, (List.mem_insertionSort _).mpr hrow, chunkFromRow_row chunk⟩

theorem getDocument_some {s : SQLiteKnowledgeStore} {documentId version : String}
    {document : RunbookDocument}
    (h : s.documents.get (documentIdentity documentId version) = some (document.row runtime)) :
    (store runtime).getDocument s documentId version =
      .ok (some (asStored runtime document)) := by
  simp only [store, h, documentFromRow_row]
  rfl

theorem getDocument_none {s : SQLiteKnowledgeStore} {documentId version : String}
    (h : s.documents.get (documentIdentity documentId version) = none) :
    (store runtime).getDocument s documentId version = .ok none := by
  simp only [store, h]

/-- What is found under an identity. -/
theorem Valid.getDocument_cases {s : SQLiteKnowledgeStore} (hs : s.Valid runtime)
    (documentId version : String) :
    (store runtime).getDocument s documentId version = .ok none ∨
      ∃ document : RunbookDocument, document.documentId = documentId ∧ document.version = version ∧
        (store runtime).getDocument s documentId version =
          .ok (some (asStored runtime document)) := by
  cases hget : s.documents.get (documentIdentity documentId version) with
  | none => exact .inl (getDocument_none hget)
  | some row =>
      obtain ⟨hmem, hkey⟩ := (KeyedTable.get_eq_some_iff _).mp hget
      obtain ⟨document, rfl⟩ := hs.documents row hmem
      obtain ⟨hid, hversion⟩ := documentIdentity_inj.mp hkey
      exact .inr ⟨document, hid, hversion, getDocument_some hget⟩

theorem lawful (runtime : Runtime) :
    (store runtime).Lawful runtime (Valid runtime) where
  readable := by
    intro s hs
    refine ⟨fun documentId version => ?_, hs.exists_allDocuments, ?_⟩
    · rcases hs.getDocument_cases documentId version with h | ⟨document, _, _, h⟩
      · exact ⟨none, h⟩
      · exact ⟨_, h⟩
    · obtain ⟨chunks, hchunks, _⟩ := hs.exists_allChunks
      exact ⟨chunks, hchunks⟩
  identity := by
    intro s documentId version stored hs hstored
    rcases hs.getDocument_cases documentId version with h | ⟨document, hid, hversion, h⟩
    · cases h.symm.trans hstored
    · obtain rfl := Option.some.inj (Except.ok.inj (h.symm.trans hstored))
      exact ⟨hid, hversion⟩
  -- chunks are stored under their identifiers
  chunkIds := by
    intro s chunks a b hs h ha hb hid
    obtain ⟨read, hread, hmem⟩ := hs.exists_allChunks
    obtain rfl := Except.ok.inj (hread.symm.trans h)
    exact row_injective (s.chunks.eq_of_key_eq ((hmem a).mp ha) ((hmem b).mp hb) hid)
  added := by
    intro _ s next document chunks hs hadd
    have hnext := hs.addDocument hadd
    obtain ⟨hdocuments, hchunks⟩ := addDocument_tables hadd
    refine ⟨hnext, ⟨asStored runtime document, keeps_asStored runtime document, ?_⟩, ?_, ?_⟩
    · refine getDocument_some ?_
      rw [hdocuments]
      exact KeyedTable.get_put_self _ (document.row runtime)
    -- another document is left as it was
    · intro documentId version hne
      have hsame : next.documents.get (documentIdentity documentId version) =
          s.documents.get (documentIdentity documentId version) := by
        rw [hdocuments]
        exact KeyedTable.get_put_ne _ hne
      simp only [store, hsame]
    -- a stored chunk is one of the new ones or was there before
    · intro before after hbefore hafter chunk hchunk
      obtain ⟨readBefore, hreadBefore, hmemBefore⟩ := hs.exists_allChunks
      obtain ⟨readAfter, hreadAfter, hmemAfter⟩ := hnext.exists_allChunks
      obtain rfl := Except.ok.inj (hreadBefore.symm.trans hbefore)
      obtain rfl := Except.ok.inj (hreadAfter.symm.trans hafter)
      rcases hchunks _ ((hmemAfter chunk).mp hchunk) with hrow | ⟨other, hother, heq⟩
      · exact .inr ((hmemBefore chunk).mpr hrow)
      · exact .inl (row_injective heq ▸ hother)

end

end SQLiteKnowledgeStore

end ChangePilot
