import ChangePilot.Guarantees.Ingestion
import ChangePilot.Ports.CanonicalJson

/-!
# Chunk ids

The id of a chunk is a digest of the id and version of its document, its position and the
digest of its content, with colons between them.  A position and a digest hold no colon,
but ids and versions may.  So two chunks share an id exactly when they clash: they are at
one position, of one content, and of documents whose ids and versions read the same once
they are joined.

`KnowledgeChunk.chunkId_eq_iff` says this of two chunks, by taking the joined text apart
from behind.  The stores then differ in what a clash does: in memory the later chunk
replaces the earlier one, while the database refuses the document
(`addDocument_succeeds_iff`).  In both a document is kept along with what was there before
exactly if none of its chunks clashes with a stored one.
-/

namespace ChangePilot

/-! ## What is digested -/

/-- The id and version of the document, joined. -/
def KnowledgeChunk.label (chunk : KnowledgeChunk) : String :=
  s!"{chunk.documentId}:{chunk.documentVersion}"

/-- The text whose digest is the id of a chunk. -/
def KnowledgeChunk.idText (chunk : KnowledgeChunk) : String :=
  s!"{chunk.documentId}:{chunk.documentVersion}:{chunk.position}:{chunk.contentDigest}"

/-- The chunks cannot be told apart by their ids. -/
structure KnowledgeChunk.Clash (a b : KnowledgeChunk) : Prop where
  label : a.label = b.label
  position : a.position = b.position
  content : a.content = b.content

/-- The digests of the chunk are those of its texts. -/
structure KnowledgeChunk.Made (runtime : Runtime) (chunk : KnowledgeChunk) : Prop where
  content : chunk.contentDigest = (runtime.sha256 chunk.content).val
  id : chunk.chunkId = (runtime.sha256 chunk.idText).val

/-- What is digested of the chunk is among the texts. -/
def KnowledgeChunk.HashedIn (texts : Set String) (chunk : KnowledgeChunk) : Prop :=
  chunk.idText ∈ texts ∧ chunk.content ∈ texts

/-- What comes after the last separator is known, and what comes before it. -/
theorem append_cons_inj {α : Type} {separator : α} {first rest first' rest' : List α}
    (hrest : separator ∉ rest) (hrest' : separator ∉ rest') :
    first ++ separator :: rest = first' ++ separator :: rest' ↔ first = first' ∧ rest = rest' := by
  constructor
  · intro h
    rcases List.append_eq_append_iff.mp h with ⟨more, rfl, hmore⟩ | ⟨more, rfl, hmore⟩
    · cases more with
      | nil => exact ⟨(List.append_nil _).symm, (List.cons.inj hmore).2⟩
      | cons c more =>
          obtain ⟨rfl, rfl⟩ := List.cons.inj hmore
          exact absurd (List.mem_append_right _ List.mem_cons_self) hrest
    · cases more with
      | nil => exact ⟨List.append_nil _, (List.cons.inj hmore).2.symm⟩
      | cons c more =>
          obtain ⟨rfl, rfl⟩ := List.cons.inj hmore
          exact absurd (List.mem_append_right _ List.mem_cons_self) hrest'
  · intro ⟨hfirst, hrest⟩
    rw [hfirst, hrest]

theorem colon_notMem_natRepr (n : ℕ) : ':' ∉ (Nat.repr n).toList := fun h =>
  absurd (isDigit_of_mem_natRepr h) (by decide)

theorem colon_notMem_digest (digest : Sha256Digest) : ':' ∉ digest.val.toList := by
  intro h
  have hhex := (Bool.and_eq_true_iff.mp digest.property).2
  exact absurd (List.all_eq_true.mp hhex ':' h) (by decide)

theorem KnowledgeChunk.toList_idText (chunk : KnowledgeChunk) : chunk.idText.toList =
    chunk.label.toList ++ ':' :: ((Nat.repr chunk.position).toList ++
      ':' :: chunk.contentDigest.toList) := by
  simp only [idText, label, String.toList_append, List.append_assoc]
  rfl

section

variable {runtime : Runtime} {limits : ChunkLimits} {document : RunbookDocument}

/-- The text tells the label, the position and the digest. -/
theorem KnowledgeChunk.idText_inj {a b : KnowledgeChunk} (ha : a.Made runtime)
    (hb : b.Made runtime) : a.idText = b.idText ↔
      a.label = b.label ∧ a.position = b.position ∧ a.contentDigest = b.contentDigest := by
  have hdigest : ∀ {chunk : KnowledgeChunk}, chunk.Made runtime → ':' ∉ chunk.contentDigest.toList := by
    intro chunk hchunk
    rw [hchunk.content]
    exact colon_notMem_digest _
  have hassoc : ∀ chunk : KnowledgeChunk, chunk.idText.toList =
      (chunk.label.toList ++ ':' :: (Nat.repr chunk.position).toList) ++
        ':' :: chunk.contentDigest.toList := by
    intro chunk
    rw [chunk.toList_idText, List.append_assoc, List.cons_append]
  rw [← String.toList_inj, hassoc, hassoc, append_cons_inj (hdigest ha) (hdigest hb),
    append_cons_inj (colon_notMem_natRepr _) (colon_notMem_natRepr _), String.toList_inj,
    String.toList_inj, String.toList_inj, natRepr_injective.eq_iff, and_assoc]

/-- Two chunks have one id exactly when they clash. -/
theorem KnowledgeChunk.chunkId_eq_iff {texts : Set String}
    (hsha256 : Set.InjOn runtime.sha256 texts) {a b : KnowledgeChunk} (ha : a.Made runtime)
    (hb : b.Made runtime) (hina : a.HashedIn texts) (hinb : b.HashedIn texts) :
    a.chunkId = b.chunkId ↔ a.Clash b := by
  have hcontent : a.contentDigest = b.contentDigest ↔ a.content = b.content := by
    rw [ha.content, hb.content, Subtype.val_inj, hsha256.eq_iff hina.2 hinb.2]
  rw [ha.id, hb.id, Subtype.val_inj, hsha256.eq_iff hina.1 hinb.1, idText_inj ha hb, hcontent]
  exact ⟨fun ⟨hlabel, hposition, hsame⟩ => ⟨hlabel, hposition, hsame⟩,
    fun h => ⟨h.label, h.position, h.content⟩⟩

theorem makeChunk_made (position : ℕ) (window : List String × ℕ × ℕ × List Char) :
    (makeChunk runtime document position window).Made runtime := by
  obtain ⟨headingPath, startOffset, endOffset, content⟩ := window
  exact ⟨rfl, rfl⟩

theorem made_of_mem_chunkDocument {chunk : KnowledgeChunk}
    (h : chunk ∈ chunkDocument runtime limits document) : chunk.Made runtime := by
  obtain ⟨position, hposition, rfl⟩ := List.mem_mapIdx.mp h
  exact makeChunk_made position _

theorem position_makeChunk (position : ℕ) (window : List String × ℕ × ℕ × List Char) :
    (makeChunk runtime document position window).position = position := by
  obtain ⟨headingPath, startOffset, endOffset, content⟩ := window
  rfl

/-- The chunks of a document are told apart by their positions. -/
theorem eq_of_position_eq {a b : KnowledgeChunk} (ha : a ∈ chunkDocument runtime limits document)
    (hb : b ∈ chunkDocument runtime limits document) (h : a.position = b.position) : a = b := by
  obtain ⟨i, hi, rfl⟩ := List.mem_mapIdx.mp ha
  obtain ⟨j, hj, rfl⟩ := List.mem_mapIdx.mp hb
  rw [position_makeChunk, position_makeChunk] at h
  subst h
  rfl

end

/-- No chunk of a document comes twice. -/
theorem nodup_chunkDocument {runtime : Runtime} {limits : ChunkLimits}
    {document : RunbookDocument} : (chunkDocument runtime limits document).Nodup := by
  refine List.Nodup.of_map KnowledgeChunk.position ?_
  have hpositions : (chunkDocument runtime limits document).map KnowledgeChunk.position =
      List.range (chunkDocument runtime limits document).length := by
    refine List.ext_getElem (by simp) fun i hi _ => ?_
    simp only [List.getElem_map, List.getElem_range, chunkDocument, List.getElem_mapIdx]
    exact position_makeChunk _ _
  rw [hpositions]
  exact List.nodup_range

/-! ## Documents that overlap -/

def RunbookDocument.label (document : RunbookDocument) : String :=
  s!"{document.documentId}:{document.version}"

/-- The texts that the document is cut into. -/
def RunbookDocument.pieces (limits : ChunkLimits) (document : RunbookDocument) : List String :=
  ((markdownSections (normalizeNewlines document.content.toList)).flatMap
    (sectionWindows limits)).map fun window => String.ofList window.2.2.2

/-- The text of the chunk is where it would be in the document, whose id and version join
to the same. -/
structure KnowledgeChunk.OccursIn (limits : ChunkLimits) (document : RunbookDocument)
    (chunk : KnowledgeChunk) : Prop where
  label : chunk.label = document.label
  piece : (document.pieces limits)[chunk.position]? = some chunk.content

/-- The documents have the same text in the same position, under ids and versions that
join to the same. -/
def RunbookDocument.Overlaps (limits : ChunkLimits) (a b : RunbookDocument) : Prop :=
  a.label = b.label ∧ ∃ (position : ℕ) (piece : String),
    (a.pieces limits)[position]? = some piece ∧ (b.pieces limits)[position]? = some piece

section

variable {runtime : Runtime} {limits : ChunkLimits} {document : RunbookDocument}

theorem getElem?_pieces (runtime : Runtime) (limits : ChunkLimits) (document : RunbookDocument)
    (i : ℕ) : (document.pieces limits)[i]? =
      ((chunkDocument runtime limits document)[i]?).map KnowledgeChunk.content := by
  rw [RunbookDocument.pieces, chunkDocument, List.getElem?_mapIdx, List.getElem?_map, Option.map_map]
  rfl

theorem getElem?_position {chunk : KnowledgeChunk}
    (h : chunk ∈ chunkDocument runtime limits document) :
    (chunkDocument runtime limits document)[chunk.position]? = some chunk := by
  obtain ⟨i, hi, rfl⟩ := List.mem_mapIdx.mp h
  rw [position_makeChunk, chunkDocument, List.getElem?_mapIdx, List.getElem?_eq_getElem hi]
  rfl

theorem position_of_getElem? {chunk : KnowledgeChunk} {i : ℕ}
    (h : (chunkDocument runtime limits document)[i]? = some chunk) : chunk.position = i := by
  rw [chunkDocument, List.getElem?_mapIdx] at h
  obtain ⟨window, _, rfl⟩ := Option.map_eq_some_iff.mp h
  exact position_makeChunk i window

theorem label_of_mem_chunkDocument {chunk : KnowledgeChunk}
    (h : chunk ∈ chunkDocument runtime limits document) : chunk.label = document.label := by
  have hcarries := carries_of_mem_chunkDocument h
  rw [KnowledgeChunk.label, RunbookDocument.label, hcarries.documentId, hcarries.version]

theorem piece_of_mem_chunkDocument {chunk : KnowledgeChunk}
    (h : chunk ∈ chunkDocument runtime limits document) :
    (document.pieces limits)[chunk.position]? = some chunk.content := by
  rw [getElem?_pieces runtime, getElem?_position h]
  rfl

theorem exists_chunk_of_piece (runtime : Runtime) {i : ℕ} {piece : String}
    (h : (document.pieces limits)[i]? = some piece) :
    ∃ chunk ∈ chunkDocument runtime limits document, chunk.position = i ∧ chunk.content = piece := by
  rw [getElem?_pieces runtime] at h
  obtain ⟨chunk, hchunk, rfl⟩ := Option.map_eq_some_iff.mp h
  exact ⟨chunk, List.mem_of_getElem? hchunk, position_of_getElem? hchunk, rfl⟩

/-- A chunk occurs in a document when it clashes with one of the chunks. -/
theorem KnowledgeChunk.occursIn_iff {chunk : KnowledgeChunk} : chunk.OccursIn limits document ↔
    ∃ other ∈ chunkDocument runtime limits document, chunk.Clash other := by
  constructor
  · intro h
    obtain ⟨other, hother, hposition, hcontent⟩ := exists_chunk_of_piece runtime h.piece
    have hlabel := h.label.trans (label_of_mem_chunkDocument hother).symm
    exact ⟨other, hother, hlabel, hposition.symm, hcontent.symm⟩
  · intro ⟨other, hother, hclash⟩
    refine ⟨hclash.label.trans (label_of_mem_chunkDocument hother), ?_⟩
    rw [hclash.position, hclash.content]
    exact piece_of_mem_chunkDocument hother

theorem RunbookDocument.overlaps_iff (runtime : Runtime) {a b : RunbookDocument} : a.Overlaps limits b ↔
    ∃ chunk ∈ chunkDocument runtime limits a, chunk.OccursIn limits b := by
  constructor
  · intro ⟨hlabel, position, piece, ha, hb⟩
    obtain ⟨chunk, hchunk, rfl, rfl⟩ := exists_chunk_of_piece runtime ha
    exact ⟨chunk, hchunk, (label_of_mem_chunkDocument hchunk).trans hlabel, hb⟩
  · intro ⟨chunk, hchunk, h⟩
    exact ⟨(label_of_mem_chunkDocument hchunk).symm.trans h.label, chunk.position, chunk.content,
      piece_of_mem_chunkDocument hchunk, h.piece⟩

end

/-! ## What is stored -/

section

variable {runtime : Runtime} {limits : ChunkLimits} {ε σ : Type} {store : KnowledgeStore ε σ}
  {valid : σ → Prop} {start : σ}

/-- Every chunk that is stored is one of a document that was stored. -/
theorem exists_origin_of_chunk (hstore : store.Lawful runtime valid) (hdumps : runtime.DumpsPlain)
    (hstart : Holds runtime limits store valid start [] start)
    (history : List (ε × RunbookDocument)) : ∀ chunks,
      store.allChunks (ingestAll runtime limits store start history) = .ok chunks →
      ∀ chunk ∈ chunks, ∃ origin, HasCreated runtime limits store start history origin ∧
        chunk ∈ chunkDocument runtime limits origin := by
  induction history using List.reverseRecOn with
  | nil =>
      intro chunks hchunks chunk hchunk
      obtain ⟨stored, hstored, _⟩ := hstart.chunks chunks hchunks chunk hchunk
      obtain ⟨origin, ⟨earlier, e, later, _, hnil, _⟩, _⟩ := hstart.origins _ _ _ hstored
      simp at hnil
  | append_singleton history entry ih =>
      obtain ⟨e, document⟩ := entry
      have hholds := holds_ingestAll hstore hdumps hstart history
      intro chunks hchunks chunk hchunk
      rw [ingestAll_concat] at hchunks
      -- a chunk that was there before has its origin from before
      have hold : ∀ before, store.allChunks (ingestAll runtime limits store start history) =
          .ok before → chunk ∈ before → ∃ origin,
            HasCreated runtime limits store start (history ++ [(e, document)]) origin ∧
            chunk ∈ chunkDocument runtime limits origin := by
        intro before hbefore hmem
        obtain ⟨origin, hcreated, horigin⟩ := ih before hbefore chunk hmem
        exact ⟨origin, hcreated.concat _, horigin⟩
      -- the document is refused, known already, or new
      rcases ingest_cases hstore hdumps hholds.valid e document with ⟨_, hingest⟩ |
        ⟨_, _, _, _, hingest, _⟩ | ⟨next, result, hnone, hadd, hingest, hcreated⟩
      · rw [hingest] at hchunks
        exact hold chunks hchunks hchunk
      · rw [hingest] at hchunks
        exact hold chunks hchunks hchunk
      · rw [hingest] at hchunks
        obtain ⟨before, hbefore⟩ := (hstore.readable hholds.valid).2.2
        rcases (hstore.added hholds.valid hadd).2.2.2 before chunks hbefore hchunks chunk hchunk with
          hnew | hmem
        · exact ⟨document, ⟨history, e, [], result, rfl, congrArg Prod.fst hingest, hcreated⟩, hnew⟩
        · exact hold before hbefore hmem

end

section

variable {runtime : Runtime} {limits : ChunkLimits} {texts : Set String}
  {document : RunbookDocument}

theorem eq_of_chunkId_eq (hsha256 : Set.InjOn runtime.sha256 texts)
    (hin : ∀ chunk ∈ chunkDocument runtime limits document, chunk.HashedIn texts)
    {a b : KnowledgeChunk} (ha : a ∈ chunkDocument runtime limits document)
    (hb : b ∈ chunkDocument runtime limits document) (h : a.chunkId = b.chunkId) : a = b := by
  have hclash := (KnowledgeChunk.chunkId_eq_iff hsha256 (made_of_mem_chunkDocument ha)
    (made_of_mem_chunkDocument hb) (hin a ha) (hin b hb)).mp h
  exact eq_of_position_eq ha hb hclash.position

/-! ## In memory -/

/-- A new document replaces no chunk of another exactly when none clashes with one of its
own. -/
theorem InMemoryKnowledgeStore.addDocument_keeps_iff {s : InMemoryKnowledgeStore}
    (hsha256 : Set.InjOn runtime.sha256 texts) (hnew : s.documents.get document.identity = none)
    (hin : ∀ chunk ∈ chunkDocument runtime limits document, chunk.HashedIn texts)
    (hstored : ∀ chunk ∈ s.chunks.rows, chunk.Made runtime ∧ chunk.HashedIn texts ∧
      chunk.identity ≠ document.identity) :
    ∃ next, s.addDocument document (chunkDocument runtime limits document) = .ok next ∧
      ((∀ chunk ∈ s.chunks.rows, chunk ∈ next.chunks.rows) ↔ ∀ chunk ∈ s.chunks.rows,
        ∀ other ∈ chunkDocument runtime limits document, ¬ chunk.Clash other) := by
  have hid : ∀ chunk ∈ s.chunks.rows, ∀ other ∈ chunkDocument runtime limits document,
      (chunk.chunkId = other.chunkId ↔ chunk.Clash other) := by
    intro chunk hchunk other hother
    obtain ⟨hmade, hhashed, _⟩ := hstored chunk hchunk
    exact KnowledgeChunk.chunkId_eq_iff hsha256 hmade (made_of_mem_chunkDocument hother) hhashed
      (hin other hother)
  refine ⟨_, by rw [addDocument, hnew]; rfl, ?_⟩
  constructor
  · intro hkept chunk hchunk other hother hclash
    -- the chunk of the new document has taken the place of the old one
    have hreplaced := KeyedTable.mem_foldl_put_of_unique (t := s.chunks) _
      (fun y hy hkey => eq_of_chunkId_eq hsha256 hin hy hother hkey) (.inl hother)
    have hsame := KeyedTable.eq_of_key_eq _ (hkept chunk hchunk) hreplaced
      ((hid chunk hchunk other hother).mpr hclash)
    refine (hstored chunk hchunk).2.2 ?_
    have hcarries := carries_of_mem_chunkDocument hother
    rw [hsame, KnowledgeChunk.identity, hcarries.documentId, hcarries.version]
    rfl
  · intro hnone chunk hchunk
    refine KeyedTable.mem_foldl_put_of_unique _ (fun other hother hkey => ?_) (.inr hchunk)
    exact absurd ((hid chunk hchunk other hother).mp hkey.symm) (hnone chunk hchunk other hother)

/-! ## SQLite -/

namespace SQLiteKnowledgeStore

/-- Every embedding is one of a chunk that is there. -/
def Owned (s : SQLiteKnowledgeStore) : Prop :=
  ∀ row ∈ s.embeddings.rows, ∃ chunk ∈ s.chunks.rows, chunk.chunkId = row.chunkId

/-- The provider answers for the chunks, with vectors that can be packed. -/
def Embeds (embeddings : Option Embeddings) (chunks : List KnowledgeChunk)
    (vectors : List (List ℚ)) : Prop :=
  encode embeddings chunks = .ok vectors ∧ ∀ provider, embeddings = some provider →
    ∀ vector ∈ vectors, ∃ blob, provider.packVector vector = .ok blob

theorem length_of_encode {embeddings : Option Embeddings} {chunks : List KnowledgeChunk}
    {vectors : List (List ℚ)} (h : encode embeddings chunks = .ok vectors) :
    vectors.length = chunks.length := by
  unfold encode at h
  split at h
  · rw [← Except.ok.inj h, List.length_map]
  · rw [← Except.ok.inj h]
    rfl
  · obtain ⟨found, _, h⟩ := Except.bind_eq_ok_iff.mp h
    dsimp only at h
    split at h
    · cases h
    case isFalse hlength =>
      obtain rfl := Except.ok.inj h
      exact not_not.mp hlength

variable {embeddings : Option Embeddings} {s next : SQLiteKnowledgeStore}

/-- Chunks under new and distinct ids are inserted, and their embeddings with them. -/
theorem exists_insertChunks (pairs : List (KnowledgeChunk × List ℚ)) :
    ∀ {s : SQLiteKnowledgeStore}, s.Owned →
      (∀ pair ∈ pairs, s.chunks.get pair.1.chunkId = none) →
      (pairs.map fun pair => pair.1.chunkId).Nodup →
      (∀ provider, embeddings = some provider → ∀ pair ∈ pairs,
        ∃ blob, provider.packVector pair.2 = .ok blob) →
      ∃ next, insertChunks embeddings s pairs = .ok next ∧ next.Owned ∧
        ∀ row ∈ s.chunks.rows, row ∈ next.chunks.rows := by
  induction pairs with
  | nil => exact fun howned _ _ _ => ⟨_, rfl, howned, fun _ hrow => hrow⟩
  | cons pair rest ih =>
      intro s howned hfresh hnodup hpacks
      obtain ⟨chunk, vector⟩ := pair
      obtain ⟨hthis, hfresh⟩ := List.forall_mem_cons.mp hfresh
      obtain ⟨hne, hnodup⟩ := List.nodup_cons.mp hnodup
      have hkept : ∀ row ∈ s.chunks.rows, row ∈ (s.chunks.put chunk.row).rows := by
        intro row hrow
        refine KeyedTable.mem_put.mpr (.inr ⟨hrow, fun hkey => ?_⟩)
        exact (KeyedTable.get_eq_none_iff _).mp hthis row hrow hkey
      have hput : chunk.row ∈ (s.chunks.put chunk.row).rows := KeyedTable.mem_put.mpr (.inl rfl)
      have hstill : ∀ pair ∈ rest, (s.chunks.put chunk.row).get pair.1.chunkId = none := by
        intro pair hpair
        have hother : pair.1.chunkId ≠ chunk.row.chunkId := fun heq =>
          hne (List.mem_map.mpr ⟨pair, hpair, heq⟩)
        rw [KeyedTable.get_put_ne _ hother]
        exact hfresh pair hpair
      have hstep : ∃ inserted : SQLiteKnowledgeStore, inserted.Owned ∧
          inserted.chunks = s.chunks.put chunk.row ∧
          insertChunks embeddings s ((chunk, vector) :: rest) =
            insertChunks embeddings inserted rest := by
        cases embeddings with
        | none =>
            refine ⟨{ s with chunks := s.chunks.put chunk.row }, fun row hrow => ?_, rfl, ?_⟩
            · obtain ⟨owner, howner, hid⟩ := howned row hrow
              exact ⟨owner, hkept owner howner, hid⟩
            · conv_lhs => rw [insertChunks, hthis]
              rfl
        | some provider =>
            obtain ⟨blob, hblob⟩ := hpacks provider rfl _ List.mem_cons_self
            -- no embedding is there yet, for its chunk was not
            have hnone : s.embeddings.get (EmbeddingRow.key
                ⟨chunk.chunkId, provider.modelId, vector.length, blob⟩) = none := by
              refine (KeyedTable.get_eq_none_iff _).mpr fun row hrow hkey => ?_
              obtain ⟨owner, howner, hid⟩ := howned row hrow
              have hrowId : row.chunkId = chunk.chunkId := (Prod.mk.inj (toLex_inj.mp hkey)).1
              exact (KeyedTable.get_eq_none_iff _).mp hthis owner howner (hid.trans hrowId)
            refine ⟨{ s with
              chunks := s.chunks.put chunk.row
              embeddings := s.embeddings.put
                ⟨chunk.chunkId, provider.modelId, vector.length, blob⟩ }, fun row hrow => ?_, rfl, ?_⟩
            · rcases KeyedTable.mem_put.mp hrow with rfl | ⟨hrow, _⟩
              · exact ⟨chunk.row, hput, rfl⟩
              · obtain ⟨owner, howner, hid⟩ := howned row hrow
                exact ⟨owner, hkept owner howner, hid⟩
            · have hinserted : insertEmbedding provider { s with chunks := s.chunks.put chunk.row }
                  chunk vector = .ok { s with
                    chunks := s.chunks.put chunk.row
                    embeddings := s.embeddings.put
                      ⟨chunk.chunkId, provider.modelId, vector.length, blob⟩ } := by
                unfold insertEmbedding
                rw [Except.bind_of_eq_ok hblob]
                dsimp only
                split
                case isTrue hold =>
                  rw [hnone] at hold
                  cases hold
                case isFalse => rfl
              conv_lhs => rw [insertChunks, hthis]
              show (insertEmbedding provider { s with chunks := s.chunks.put chunk.row } chunk vector >>=
                fun next => insertChunks (some provider) next rest) = _
              rw [Except.bind_of_eq_ok hinserted]
      obtain ⟨inserted, hownedInserted, hchunks, heq⟩ := hstep
      obtain ⟨next, hnext, hownedNext, hrows⟩ := ih (s := inserted) hownedInserted
        (fun pair hpair => by rw [hchunks]; exact hstill pair hpair) hnodup
        fun provider hprovider pair hpair =>
          hpacks provider hprovider pair (List.mem_cons_of_mem _ hpair)
      refine ⟨next, heq.trans hnext, hownedNext, fun row hrow => hrows row ?_⟩
      rw [hchunks]
      exact hkept row hrow

/-- One turn of the loop that succeeds had a new id before it. -/
theorem fresh_of_insertChunks_cons {chunk : KnowledgeChunk} {vector : List ℚ}
    {rest : List (KnowledgeChunk × List ℚ)}
    (h : insertChunks embeddings s ((chunk, vector) :: rest) = .ok next) :
    s.chunks.get chunk.chunkId = none ∧ ∃ inserted : SQLiteKnowledgeStore,
      inserted.chunks = s.chunks.put chunk.row ∧
      (∀ row ∈ inserted.embeddings.rows, row ∈ s.embeddings.rows ∨ row.chunkId = chunk.chunkId) ∧
      insertChunks embeddings inserted rest = .ok next := by
  unfold insertChunks at h
  dsimp only at h
  split at h
  · cases h
  case isFalse hnew =>
    refine ⟨Option.not_isSome_iff_eq_none.mp hnew, ?_⟩
    cases embeddings with
    | none => exact ⟨{ s with chunks := s.chunks.put chunk.row }, rfl, fun _ hrow => .inl hrow, h⟩
    | some provider =>
        obtain ⟨inserted, hinserted, hrest⟩ := Except.bind_eq_ok_iff.mp h
        unfold insertEmbedding at hinserted
        obtain ⟨blob, _, hinserted⟩ := Except.bind_eq_ok_iff.mp hinserted
        dsimp only at hinserted
        split at hinserted
        · cases hinserted
        · obtain rfl := Except.ok.inj hinserted
          refine ⟨_, rfl, fun row hrow => ?_, hrest⟩
          rcases KeyedTable.mem_put.mp hrow with rfl | ⟨hrow, _⟩
          · exact .inr rfl
          · exact .inl hrow

theorem fresh_of_insertChunks (pairs : List (KnowledgeChunk × List ℚ)) :
    ∀ {s : SQLiteKnowledgeStore}, insertChunks embeddings s pairs = .ok next →
      ∀ pair ∈ pairs, s.chunks.get pair.1.chunkId = none := by
  induction pairs with
  | nil => exact fun _ => List.forall_mem_nil _
  | cons pair rest ih =>
      intro s h
      obtain ⟨hnew, inserted, hchunks, _, hrest⟩ := fresh_of_insertChunks_cons h
      refine List.forall_mem_cons.mpr ⟨hnew, fun other hother => ?_⟩
      have hnone := ih hrest other hother
      rw [hchunks, KeyedTable.get_put] at hnone
      split at hnone
      · cases hnone
      · exact hnone

theorem Owned.insertChunks (pairs : List (KnowledgeChunk × List ℚ)) :
    ∀ {s : SQLiteKnowledgeStore}, s.Owned →
      SQLiteKnowledgeStore.insertChunks embeddings s pairs = .ok next → next.Owned := by
  induction pairs with
  | nil =>
      intro s howned h
      obtain rfl := Except.ok.inj h
      exact howned
  | cons pair rest ih =>
      intro s howned h
      obtain ⟨_, inserted, hchunks, hembeddings, hrest⟩ := fresh_of_insertChunks_cons h
      refine ih (s := inserted) (fun row hrow => ?_) hrest
      rw [hchunks]
      rcases hembeddings row hrow with hold | hnew
      · obtain ⟨owner, howner, hid⟩ := howned row hold
        obtain ⟨kept, hkept, hkey⟩ := KeyedTable.exists_mem_put (v := pair.1.row) howner
        exact ⟨kept, hkept, hkey.trans hid⟩
      · exact ⟨pair.1.row, KeyedTable.mem_put.mpr (.inl rfl), hnew.symm⟩

theorem addDocument_eq_ok {chunks : List KnowledgeChunk} :
    addDocument runtime embeddings s document chunks = .ok next ↔ ∃ vectors,
      encode embeddings chunks = .ok vectors ∧ s.documents.get document.identity = none ∧
      insertChunks embeddings { s with documents := s.documents.put (document.row runtime) }
        (chunks.zip vectors) = .ok next := by
  unfold addDocument
  rw [Except.bind_eq_ok_iff]
  refine exists_congr fun vectors => and_congr_right fun _ => ?_
  dsimp only
  split
  case isTrue hold =>
    refine iff_of_false (fun h => ?_) fun h => ?_
    · cases h
    · rw [h.1] at hold
      cases hold
  case isFalse hnew => exact (and_iff_right (Option.not_isSome_iff_eq_none.mp hnew)).symm

theorem Owned.addDocument {chunks : List KnowledgeChunk} (h : s.Owned)
    (hadd : SQLiteKnowledgeStore.addDocument runtime embeddings s document chunks = .ok next) :
    next.Owned := by
  obtain ⟨vectors, _, _, hinsert⟩ := addDocument_eq_ok.mp hadd
  exact Owned.insertChunks (s := { s with documents := s.documents.put (document.row runtime) }) _ h
    hinsert

/-- A new document is refused exactly when a chunk that is there clashes with one of its
own; no chunk is lost. -/
theorem addDocument_succeeds_iff (hsha256 : Set.InjOn runtime.sha256 texts) (hs : s.Valid runtime)
    (howned : s.Owned) (hnew : s.documents.get document.identity = none)
    {vectors : List (List ℚ)}
    (hembeds : Embeds embeddings (chunkDocument runtime limits document) vectors)
    (hin : ∀ chunk ∈ chunkDocument runtime limits document, chunk.HashedIn texts)
    (hstored : ∀ chunk : KnowledgeChunk, chunk.row ∈ s.chunks.rows →
      chunk.Made runtime ∧ chunk.HashedIn texts) :
    (∃ next, addDocument runtime embeddings s document (chunkDocument runtime limits document) =
        .ok next ∧ ∀ row ∈ s.chunks.rows, row ∈ next.chunks.rows) ↔
      ∀ chunk : KnowledgeChunk, chunk.row ∈ s.chunks.rows →
        ∀ other ∈ chunkDocument runtime limits document, ¬ chunk.Clash other := by
  -- identifiers clash as the digested texts do, by injectivity
  have hid : ∀ chunk : KnowledgeChunk, chunk.row ∈ s.chunks.rows →
      ∀ other ∈ chunkDocument runtime limits document,
      (chunk.chunkId = other.chunkId ↔ chunk.Clash other) := by
    intro chunk hchunk other hother
    obtain ⟨hmade, hhashed⟩ := hstored chunk hchunk
    exact KnowledgeChunk.chunkId_eq_iff hsha256 hmade (made_of_mem_chunkDocument hother) hhashed
      (hin other hother)
  have hlength := length_of_encode hembeds.1
  have hpairs : ((chunkDocument runtime limits document).zip vectors).map Prod.fst =
      chunkDocument runtime limits document := List.map_fst_zip hlength.ge
  have hmem : ∀ pair ∈ (chunkDocument runtime limits document).zip vectors,
      pair.1 ∈ chunkDocument runtime limits document ∧ pair.2 ∈ vectors := fun pair hpair =>
    List.of_mem_zip hpair
  constructor
  -- an insertion that succeeded met no row of that identifier
  · intro ⟨next, hnext, _⟩ chunk hchunk other hother hclash
    obtain ⟨found, hfound, _, hinsert⟩ := addDocument_eq_ok.mp hnext
    obtain rfl := Except.ok.inj (hembeds.1.symm.trans hfound)
    rw [← hpairs] at hother
    obtain ⟨pair, hpair, rfl⟩ := List.mem_map.mp hother
    have hnone := fresh_of_insertChunks _ hinsert pair hpair
    have hsame := (hid chunk hchunk pair.1 (hmem pair hpair).1).mpr hclash
    exact (KeyedTable.get_eq_none_iff _).mp hnone chunk.row hchunk hsame
  · intro hnone
    -- no stored chunk is in the way of a new one
    have hfresh : ∀ pair ∈ (chunkDocument runtime limits document).zip vectors,
        s.chunks.get pair.1.chunkId = none := by
      intro pair hpair
      refine (KeyedTable.get_eq_none_iff _).mpr fun row hrow hkey => ?_
      obtain ⟨chunk, rfl⟩ := hs.chunks row hrow
      have hother := (hmem pair hpair).1
      exact hnone chunk hrow pair.1 hother ((hid chunk hrow pair.1 hother).mp hkey)
    -- nor is one new chunk in the way of another
    have hids : (((chunkDocument runtime limits document).zip vectors).map
        fun pair => pair.1.chunkId).Nodup := by
      have hchunks : (chunkDocument runtime limits document).Pairwise
          fun a b => a.chunkId ≠ b.chunkId := by
        refine List.Nodup.pairwise_of_forall_ne nodup_chunkDocument fun a ha b hb hne heq => ?_
        exact hne (eq_of_chunkId_eq hsha256 hin ha hb heq)
      rw [show (fun pair : KnowledgeChunk × List ℚ => pair.1.chunkId) =
        KnowledgeChunk.chunkId ∘ Prod.fst from rfl, ← List.map_map, hpairs]
      exact List.pairwise_map.mpr hchunks
    obtain ⟨next, hnext, _, hrows⟩ := exists_insertChunks _
      (s := { s with documents := s.documents.put (document.row runtime) }) howned hfresh hids
      fun provider hprovider pair hpair => hembeds.2 provider hprovider pair.2 (hmem pair hpair).2
    exact ⟨next, addDocument_eq_ok.mpr ⟨vectors, hembeds.1, hnew, hnext⟩, hrows⟩

end SQLiteKnowledgeStore

end

/-! ## Every history -/

/-- What is digested of the chunks of the document is among the texts. -/
def RunbookDocument.HashedIn (runtime : Runtime) (limits : ChunkLimits) (texts : Set String)
    (document : RunbookDocument) : Prop :=
  ∀ chunk ∈ chunkDocument runtime limits document, chunk.HashedIn texts

/-- After every history, a document of a new identity is ingested with every chunk that is
stored kept exactly when none of these occurs in it. -/
def KnowledgeStore.KeepsApart {ε σ : Type} (store : KnowledgeStore ε σ) (runtime : Runtime)
    (limits : ChunkLimits) (texts : Set String) (start : σ)
    (ready : ε → List KnowledgeChunk → Prop) : Prop :=
  ∀ (history : List (ε × RunbookDocument)) (e : ε) (document : RunbookDocument) before,
    store.getDocument (ingestAll runtime limits store start history) document.documentId
      document.version = .ok none →
    (∀ entry ∈ history ++ [(e, document)], entry.2.HashedIn runtime limits texts) →
    ready e (chunkDocument runtime limits document) →
    store.allChunks (ingestAll runtime limits store start history) = .ok before →
    ((∃ result next after,
      ingest runtime limits store e (ingestAll runtime limits store start history) document =
        (.ok result, next) ∧
      store.allChunks next = .ok after ∧ ∀ chunk ∈ before, chunk ∈ after) ↔
      ∀ chunk ∈ before, ¬ chunk.OccursIn limits document)

section

variable {runtime : Runtime} {limits : ChunkLimits} {texts : Set String}

section

variable {ε σ : Type} {store : KnowledgeStore ε σ} {valid : σ → Prop} {start s : σ} {e : ε}
  {document : RunbookDocument} {before : List KnowledgeChunk}

/-- An ingestion of a new identity does what the addition does. -/
theorem ingest_keeps_iff (hstore : store.Lawful runtime valid) (hdumps : runtime.DumpsPlain)
    (hs : valid s) (hnone : store.getDocument s document.documentId document.version = .ok none) :
    (∃ result next after, ingest runtime limits store e s document = (.ok result, next) ∧
      store.allChunks next = .ok after ∧ ∀ chunk ∈ before, chunk ∈ after) ↔
      ∃ next after,
        store.addDocument e s document (chunkDocument runtime limits document) = .ok next ∧
        store.allChunks next = .ok after ∧ ∀ chunk ∈ before, chunk ∈ after := by
  -- all that a new document depends on is `addDocument`
  have hingest : ∀ next,
      store.addDocument e s document (chunkDocument runtime limits document) = .ok next →
      ingest runtime limits store e s document =
        (ingestionResult runtime store document (chunkDocument runtime limits document).length false
          next, next) := by
    intro next hadd
    unfold ingest
    rw [hnone]
    dsimp only
    rw [hadd]
  constructor
  · intro ⟨result, next, after, h, hafter, hkept⟩
    cases hadd : store.addDocument e s document (chunkDocument runtime limits document) with
    | error error =>
        unfold ingest at h
        rw [hnone] at h
        dsimp only at h
        rw [hadd] at h
        cases h
    | ok added =>
        obtain rfl : added = next := congrArg Prod.snd ((hingest added hadd).symm.trans h)
        exact ⟨added, after, rfl, hafter, hkept⟩
  · intro ⟨next, after, hadd, hafter, hkept⟩
    obtain ⟨result, hresult, _⟩ := exists_ingestionResult hstore hdumps (hstore.added hs hadd).1
      document (chunkDocument runtime limits document).length false
    exact ⟨result, next, after, (hingest next hadd).trans (congrArg (·, next) hresult), hafter, hkept⟩

/-- The chunks that are stored were digested, and belong to other documents than a new
one. -/
theorem made_of_stored (hstore : store.Lawful runtime valid) (hdumps : runtime.DumpsPlain)
    (hstart : Holds runtime limits store valid start [] start)
    {history : List (ε × RunbookDocument)}
    (hbefore : store.allChunks (ingestAll runtime limits store start history) = .ok before)
    (hin : ∀ entry ∈ history, entry.2.HashedIn runtime limits texts) :
    ∀ chunk ∈ before, chunk.Made runtime ∧ chunk.HashedIn texts := by
  intro chunk hchunk
  obtain ⟨origin, ⟨earlier, e, later, _, rfl, _⟩, hmem⟩ :=
    exists_origin_of_chunk hstore hdumps hstart history before hbefore chunk hchunk
  exact ⟨made_of_mem_chunkDocument hmem, hin (e, origin) (by simp) chunk hmem⟩

end

/-- In memory a chunk that occurs in a new document is replaced. -/
theorem InMemoryKnowledgeStore.keepsApart (hdumps : runtime.DumpsPlain)
    (hsha256 : Set.InjOn runtime.sha256 texts) :
    store.KeepsApart runtime limits texts {} fun _ _ => True := by
  intro history e document before hnone hin _ hbefore
  have hlawful := lawful runtime
  have hholds := holds_ingestAll hlawful hdumps (holds_inMemory runtime limits) history
  rw [ingest_keeps_iff hlawful hdumps hholds.valid hnone]
  have hrows : ∀ (s : InMemoryKnowledgeStore) chunk, chunk ∈ s.allChunks ↔ chunk ∈ s.chunks.rows :=
    fun s chunk => List.mem_insertionSort _
  obtain rfl := Except.ok.inj hbefore
  -- stored chunks are of other documents than the new one
  have hstored : ∀ chunk ∈ (ingestAll runtime limits store {} history).chunks.rows,
      chunk.Made runtime ∧ chunk.HashedIn texts ∧ chunk.identity ≠ document.identity := by
    intro chunk hchunk
    obtain ⟨hmade, hhashed⟩ := made_of_stored hlawful hdumps (holds_inMemory runtime limits) rfl
      (fun entry hentry => hin entry (List.mem_append_left _ hentry)) chunk ((hrows _ _).mpr hchunk)
    refine ⟨hmade, hhashed, fun hsame => ?_⟩
    obtain ⟨owner, howner, _⟩ := hholds.chunks _ rfl chunk ((hrows _ _).mpr hchunk)
    obtain ⟨hid, hversion⟩ := documentIdentity_inj.mp hsame
    rw [hid, hversion, hnone] at howner
    cases howner
  have hhashed : document.HashedIn runtime limits texts := hin (e, document) (by simp)
  obtain ⟨next, hnext, hkept⟩ :=
    addDocument_keeps_iff hsha256 (Except.ok.inj hnone) hhashed hstored
  constructor
  · intro ⟨added, after, hadded, hafter, hall⟩ chunk hchunk hoccurs
    obtain rfl : next = added := Except.ok.inj (hnext.symm.trans hadded)
    obtain rfl := Except.ok.inj hafter
    obtain ⟨other, hother, hclash⟩ := KnowledgeChunk.occursIn_iff.mp hoccurs
    refine hkept.mp (fun chunk hchunk => ?_) chunk ((hrows _ _).mp hchunk) other hother hclash
    exact (hrows _ _).mp (hall chunk ((hrows _ _).mpr hchunk))
  · intro hfree
    refine ⟨next, _, hnext, rfl, fun chunk hchunk => (hrows _ _).mpr ?_⟩
    refine hkept.mpr (fun chunk hchunk other hother hclash => ?_) chunk ((hrows _ _).mp hchunk)
    exact hfree chunk ((hrows _ _).mpr hchunk) (KnowledgeChunk.occursIn_iff.mpr ⟨other, hother, hclash⟩)

/-- Every embedding is one of a chunk that is there, after every history. -/
theorem SQLiteKnowledgeStore.owned_ingestAll (hdumps : runtime.DumpsPlain)
    (history : List (Option Embeddings × RunbookDocument)) :
    (ingestAll runtime limits (store runtime) {} history).Owned := by
  induction history using List.reverseRecOn with
  | nil => exact List.forall_mem_nil _
  | append_singleton history entry ih =>
      obtain ⟨e, document⟩ := entry
      have hholds := holds_ingestAll (lawful runtime) hdumps (holds_sqlite runtime limits) history
      rw [ingestAll_concat]
      rcases ingest_cases (lawful runtime) hdumps hholds.valid e document with ⟨_, hingest⟩ |
        ⟨_, _, _, _, hingest, _⟩ | ⟨next, _, _, hadd, hingest, _⟩
      · rw [hingest]
        exact ih
      · rw [hingest]
        exact ih
      · rw [hingest]
        exact ih.addDocument hadd

/-- In SQLite a new document that a chunk occurs in is refused. -/
theorem SQLiteKnowledgeStore.keepsApart (hdumps : runtime.DumpsPlain)
    (hsha256 : Set.InjOn runtime.sha256 texts) :
    (store runtime).KeepsApart runtime limits texts {} fun embeddings chunks =>
      ∃ vectors, Embeds embeddings chunks vectors := by
  intro history e document before hnone hin ⟨vectors, hembeds⟩ hbefore
  have hlawful := lawful runtime
  have hholds := holds_ingestAll hlawful hdumps (holds_sqlite runtime limits) history
  rw [ingest_keeps_iff hlawful hdumps hholds.valid hnone]
  have hrows : ∀ {s : SQLiteKnowledgeStore} {chunks}, s.Valid runtime →
      (store runtime).allChunks s = .ok chunks → ∀ chunk, chunk ∈ chunks ↔ chunk.row ∈ s.chunks.rows := by
    intro s chunks hs hchunks
    obtain ⟨read, hread, hmem⟩ := hs.exists_allChunks
    obtain rfl := Except.ok.inj (hread.symm.trans hchunks)
    exact hmem
  have hstored := made_of_stored hlawful hdumps (holds_sqlite runtime limits) hbefore
    fun entry hentry => hin entry (List.mem_append_left _ hentry)
  -- the row of the document is free, or it would have been read
  have hnew : (ingestAll runtime limits (store runtime) {} history).documents.get document.identity =
      none := by
    cases hget : (ingestAll runtime limits (store runtime) {} history).documents.get
      document.identity with
    | none => rfl
    | some row =>
        obtain ⟨stored, rfl⟩ := hholds.valid.documents row
          ((KeyedTable.get_eq_some_iff _).mp hget).1
        cases hnone.symm.trans (getDocument_some hget)
  have hsucceeds := addDocument_succeeds_iff hsha256 hholds.valid
    (owned_ingestAll hdumps history) hnew hembeds (hin (e, document) (by simp))
    fun chunk hchunk => hstored chunk ((hrows hholds.valid hbefore chunk).mpr hchunk)
  constructor
  · intro ⟨next, after, hadd, hafter, hall⟩ chunk hchunk hoccurs
    obtain ⟨other, hother, hclash⟩ := KnowledgeChunk.occursIn_iff.mp hoccurs
    refine hsucceeds.mp ⟨next, hadd, fun row hrow => ?_⟩ chunk
      ((hrows hholds.valid hbefore chunk).mp hchunk) other hother hclash
    obtain ⟨kept, rfl⟩ := hholds.valid.chunks row hrow
    exact (hrows (hholds.valid.addDocument hadd) hafter kept).mp
      (hall kept ((hrows hholds.valid hbefore kept).mpr hrow))
  · intro hfree
    obtain ⟨next, hadd, hkept⟩ := hsucceeds.mpr fun chunk hchunk other hother hclash =>
      hfree chunk ((hrows hholds.valid hbefore chunk).mpr hchunk)
        (KnowledgeChunk.occursIn_iff.mpr ⟨other, hother, hclash⟩)
    have hvalid := hholds.valid.addDocument hadd
    obtain ⟨after, hafter, hmem⟩ := hvalid.exists_allChunks
    refine ⟨next, after, hadd, hafter, fun chunk hchunk => (hmem chunk).mpr (hkept _ ?_)⟩
    exact (hrows hholds.valid hbefore chunk).mp hchunk

/-- No chunk of one document has the id of one of another exactly when they do not
overlap. -/
theorem chunkId_ne_iff_not_overlaps (hsha256 : Set.InjOn runtime.sha256 texts)
    {a b : RunbookDocument} (ha : a.HashedIn runtime limits texts)
    (hb : b.HashedIn runtime limits texts) :
    (∀ chunk ∈ chunkDocument runtime limits a, ∀ other ∈ chunkDocument runtime limits b,
      chunk.chunkId ≠ other.chunkId) ↔ ¬ a.Overlaps limits b := by
  have hid : ∀ chunk ∈ chunkDocument runtime limits a, ∀ other ∈ chunkDocument runtime limits b,
      (chunk.chunkId = other.chunkId ↔ chunk.Clash other) := fun chunk hchunk other hother =>
    KnowledgeChunk.chunkId_eq_iff hsha256 (made_of_mem_chunkDocument hchunk)
      (made_of_mem_chunkDocument hother) (ha chunk hchunk) (hb other hother)
  rw [RunbookDocument.overlaps_iff runtime]
  constructor
  · intro hne ⟨chunk, hchunk, hoccurs⟩
    obtain ⟨other, hother, hclash⟩ := KnowledgeChunk.occursIn_iff.mp hoccurs
    exact hne chunk hchunk other hother ((hid chunk hchunk other hother).mpr hclash)
  · intro hnone chunk hchunk other hother heq
    have hclash := (hid chunk hchunk other hother).mp heq
    exact hnone ⟨chunk, hchunk, KnowledgeChunk.occursIn_iff.mpr ⟨other, hother, hclash⟩⟩

end

/-- Documents of different identities share no chunk id, and one that is ingested under a
new identity disturbs no chunk that is stored and is not refused for one, exactly when the
two do not have the same text in the same position under ids and versions that join to the
same. -/
theorem chunk_ids_unique_iff (runtime : Runtime) (hdumps : runtime.DumpsPlain)
    (limits : ChunkLimits) {texts : Set String} (hsha256 : Set.InjOn runtime.sha256 texts) :
    (∀ a b : RunbookDocument, a.identity ≠ b.identity → a.HashedIn runtime limits texts →
      b.HashedIn runtime limits texts →
      ((∀ chunk ∈ chunkDocument runtime limits a, ∀ other ∈ chunkDocument runtime limits b,
        chunk.chunkId ≠ other.chunkId) ↔ ¬ a.Overlaps limits b)) ∧
    InMemoryKnowledgeStore.store.KeepsApart runtime limits texts {} (fun _ _ => True) ∧
    (SQLiteKnowledgeStore.store runtime).KeepsApart runtime limits texts {}
      (fun embeddings chunks => ∃ vectors, SQLiteKnowledgeStore.Embeds embeddings chunks vectors) :=
  ⟨fun _ _ _ ha hb => chunkId_ne_iff_not_overlaps hsha256 ha hb,
    InMemoryKnowledgeStore.keepsApart hdumps hsha256,
    SQLiteKnowledgeStore.keepsApart hdumps hsha256⟩

namespace Sample

/-- A runbook of one sentence. -/
def restart (documentId version : String) : RunbookDocument where
  documentId := documentId
  version := version
  source := "runbooks/restart.md"
  trustLevel := .authoritative
  content := "Restart."
  policyKey := "restart"
  effectiveAt := "2026-07-01"

theorem chunkDocument_restart (documentId version : String) :
    chunkDocument canonicalRuntime {} (restart documentId version) =
      [makeChunk canonicalRuntime (restart documentId version) 0 ([], 0, 8, "Restart.".toList)] := by
  have hwindows : (markdownSections (normalizeNewlines "Restart.".toList)).flatMap
      (sectionWindows {}) = [([], 0, 8, "Restart.".toList)] := by decide +kernel
  show List.mapIdx _ ((markdownSections (normalizeNewlines "Restart.".toList)).flatMap
    (sectionWindows {})) = _
  rw [hwindows]
  rfl

/-- What is digested for a chunk of the runbook. -/
def restartText (documentId version : String) : String :=
  (makeChunk canonicalRuntime (restart documentId version) 0 ([], 0, 8, "Restart.".toList)).idText

def restartTexts : List String := ["Restart.", restartText "a" "1", restartText "b" "1"]

theorem sha256_injOn_restartTexts :
    Set.InjOn canonicalRuntime.sha256 {text | text ∈ restartTexts} := by
  have hnodup : (restartTexts.map fun text => (canonicalRuntime.sha256 text).val).Nodup := by
    decide +kernel
  exact fun _ ha _ hb h => List.inj_on_of_nodup_map hnodup ha hb (congrArg Subtype.val h)

theorem restart_hashedIn {documentId version : String}
    (h : restartText documentId version ∈ restartTexts) :
    (restart documentId version).HashedIn canonicalRuntime {} {text | text ∈ restartTexts} := by
  intro chunk hchunk
  rw [chunkDocument_restart] at hchunk
  obtain rfl := List.mem_singleton.mp hchunk
  exact ⟨h, List.mem_cons_self⟩

end Sample

theorem chunk_ids_unique_iff_restart : List.Disjoint
    ((chunkDocument Sample.canonicalRuntime {} (Sample.restart "a" "1")).map KnowledgeChunk.chunkId)
    ((chunkDocument Sample.canonicalRuntime {} (Sample.restart "b" "1")).map
      KnowledgeChunk.chunkId) := by
  have h := chunk_ids_unique_iff Sample.canonicalRuntime Sample.canonicalRuntime_dumpsPlain {}
    Sample.sha256_injOn_restartTexts
  rw [List.disjoint_iff_ne, List.forall_mem_map]
  simp only [List.forall_mem_map]
  refine (h.1 _ _ (by decide) (Sample.restart_hashedIn ?_) (Sample.restart_hashedIn ?_)).mpr ?_
  · exact List.mem_cons_of_mem _ List.mem_cons_self
  · exact List.mem_cons_of_mem _ (List.mem_cons_of_mem _ List.mem_cons_self)
  · intro hoverlaps
    exact absurd hoverlaps.1 (by decide)

/-- Version `b:c` of document `a` and version `c` of document `a:b` share a chunk id. -/
theorem joined_identities_share_chunk_id : ∃ a b : RunbookDocument, a.identity ≠ b.identity ∧
    ∃ chunk ∈ chunkDocument Sample.canonicalRuntime {} a,
      ∃ other ∈ chunkDocument Sample.canonicalRuntime {} b, chunk.chunkId = other.chunkId := by
  refine ⟨Sample.restart "a" "b:c", Sample.restart "a:b" "c", by decide, ?_⟩
  rw [Sample.chunkDocument_restart, Sample.chunkDocument_restart]
  exact ⟨_, List.mem_cons_self, _, List.mem_cons_self, rfl⟩

end ChangePilot
