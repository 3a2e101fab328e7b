import ChangePilot.Domain.Digests
import ChangePilot.Planning.Stores
import ChangePilot.System.Sample

/-!
# Ingestion is faithful

A document is stored as it was when its identity was first ingested, and its chunks say
what it says.  An ingestion of the same identity and content afterwards changes nothing,
whatever else the document says; nor does one that raises.
-/

namespace ChangePilot

/-! ## Histories -/

section

variable (runtime : Runtime) (limits : ChunkLimits) {ε σ : Type} (store : KnowledgeStore ε σ)

/-- The state after ingestions, whatever became of each. -/
def ingestAll (start : σ) (history : List (ε × RunbookDocument)) : σ :=
  history.foldl (fun s entry => (ingest runtime limits store entry.1 s entry.2).2) start

/-- One of the ingestions has stored the document. -/
def HasCreated (start : σ) (history : List (ε × RunbookDocument)) (origin : RunbookDocument) :
    Prop :=
  ∃ earlier e later result, history = earlier ++ (e, origin) :: later ∧
    (ingest runtime limits store e (ingestAll runtime limits store start earlier) origin).1 =
      .ok result ∧ result.reused = false

/-- What every ingestion after a history does: one that raises leaves the store, one that
creates stores the document, and one that reuses finds the content of a document that an
earlier ingestion has stored. -/
structure KnowledgeStore.Faithful (start : σ) : Prop where
  failed : ∀ history e document error,
    (ingest runtime limits store e (ingestAll runtime limits store start history) document).1 =
      .error error →
    (ingest runtime limits store e (ingestAll runtime limits store start history) document).2 =
      ingestAll runtime limits store start history
  succeeded : ∀ history e document result next,
    ingest runtime limits store e (ingestAll runtime limits store start history) document =
      (.ok result, next) →
    ∃ stored chunks,
      store.getDocument next document.documentId document.version = .ok (some stored) ∧
      store.allChunks next = .ok chunks ∧
      (∀ chunk ∈ chunks, chunk.identity = document.identity → chunk.Carries runtime stored) ∧
      (result.reused = false → stored.Keeps runtime document) ∧
      (result.reused = true →
        stored.contentDigest runtime = document.contentDigest runtime ∧
        ∃ origin, HasCreated runtime limits store start history origin ∧
          origin.identity = document.identity ∧ stored.Keeps runtime origin)

end

section

variable {runtime : Runtime} {limits : ChunkLimits} {ε σ : Type} {store : KnowledgeStore ε σ}
  {valid : σ → Prop} {start s : σ} {history : List (ε × RunbookDocument)}

theorem ingestAll_concat (e : ε) (document : RunbookDocument) :
    ingestAll runtime limits store start (history ++ [(e, document)]) =
      (ingest runtime limits store e (ingestAll runtime limits store start history) document).2 := by
  rw [ingestAll, List.foldl_append]
  rfl

theorem HasCreated.concat {origin : RunbookDocument}
    (h : HasCreated runtime limits store start history origin) (entry : ε × RunbookDocument) :
    HasCreated runtime limits store start (history ++ [entry]) origin := by
  obtain ⟨earlier, e, later, result, rfl, hresult, hcreated⟩ := h
  exact ⟨earlier, e, later ++ [entry], result, by simp, hresult, hcreated⟩

/-! ## One ingestion -/

theorem exists_ingestionResult (hstore : store.Lawful runtime valid) (hdumps : runtime.DumpsPlain)
    (hs : valid s) (document : RunbookDocument) (createdChunks : ℕ) (reused : Bool) :
    ∃ result, ingestionResult runtime store document createdChunks reused s = .ok result ∧
      result.reused = reused := by
  obtain ⟨snapshot, hsnapshot⟩ := hstore.exists_snapshot hdumps hs
  exact ⟨_, by rw [ingestionResult, hsnapshot]; rfl, rfl⟩

theorem ingest_of_same_content {document existing : RunbookDocument} {result : IngestionResult}
    (hexisting : store.getDocument s document.documentId document.version = .ok (some existing))
    (hcontent : existing.contentDigest runtime = document.contentDigest runtime)
    (hresult : ingestionResult runtime store document 0 true s = .ok result) (e : ε) :
    ingest runtime limits store e s document = (.ok result, s) := by
  unfold ingest
  rw [hexisting]
  dsimp only
  rw [if_neg (not_not_intro hcontent), hresult]

/-- What one ingestion can do. -/
theorem ingest_cases (hstore : store.Lawful runtime valid) (hdumps : runtime.DumpsPlain)
    (hs : valid s) (e : ε) (document : RunbookDocument) :
    (∃ error, ingest runtime limits store e s document = (.error error, s)) ∨
    (∃ existing result,
      store.getDocument s document.documentId document.version = .ok (some existing) ∧
      existing.contentDigest runtime = document.contentDigest runtime ∧
      ingest runtime limits store e s document = (.ok result, s) ∧ result.reused = true) ∨
    ∃ next result, store.getDocument s document.documentId document.version = .ok none ∧
      store.addDocument e s document (chunkDocument runtime limits document) = .ok next ∧
      ingest runtime limits store e s document = (.ok result, next) ∧ result.reused = false := by
  obtain ⟨found, hfound⟩ := (hstore.readable hs).1 document.documentId document.version
  cases found with
  -- the identity is taken, by the same content or by another
  | some existing =>
      by_cases hcontent : existing.contentDigest runtime = document.contentDigest runtime
      · obtain ⟨result, hresult, hreused⟩ :=
          exists_ingestionResult hstore hdumps hs document 0 true
        exact .inr (.inl ⟨existing, result, hfound, hcontent,
          ingest_of_same_content hfound hcontent hresult e, hreused⟩)
      · refine .inl ⟨.knowledgeError "document identity is immutable; use a new version", ?_⟩
        unfold ingest
        rw [hfound]
        dsimp only
        rw [if_pos hcontent]
  -- the identity is new, and the store takes the document or refuses it
  | none =>
      unfold ingest
      rw [hfound]
      dsimp only
      cases hadd : store.addDocument e s document (chunkDocument runtime limits document) with
      | error error => exact .inl ⟨error, rfl⟩
      | ok next =>
          obtain ⟨result, hresult, hcreated⟩ := exists_ingestionResult hstore hdumps
            (hstore.added hs hadd).1 document (chunkDocument runtime limits document).length false
          exact .inr (.inr ⟨next, result, rfl, rfl, congrArg (·, next) hresult, hcreated⟩)

/-! ## All of them -/

/-- What holds of the store after a history: each document is that of an ingestion, and
each chunk that of a document. -/
structure Holds (runtime : Runtime) (limits : ChunkLimits) (store : KnowledgeStore ε σ)
    (valid : σ → Prop) (start : σ) (history : List (ε × RunbookDocument)) (s : σ) : Prop where
  valid : valid s
  origins : ∀ documentId version stored,
    store.getDocument s documentId version = .ok (some stored) →
      ∃ origin, HasCreated runtime limits store start history origin ∧ stored.Keeps runtime origin
  chunks : ∀ chunks, store.allChunks s = .ok chunks → ∀ chunk ∈ chunks, ∃ stored,
    store.getDocument s chunk.documentId chunk.documentVersion = .ok (some stored) ∧
      chunk.Carries runtime stored

theorem Holds.concat (h : Holds runtime limits store valid start history s)
    (entry : ε × RunbookDocument) :
    Holds runtime limits store valid start (history ++ [entry]) s where
  valid := h.valid
  origins documentId version stored hstored := by
    obtain ⟨origin, horigin, hkeeps⟩ := h.origins documentId version stored hstored
    exact ⟨origin, horigin.concat entry, hkeeps⟩
  chunks := h.chunks

/-- A document that is added is stored, with its chunks and nothing else. -/
theorem Holds.added (hstore : store.Lawful runtime valid)
    (h : Holds runtime limits store valid start history
      (ingestAll runtime limits store start history))
    {e : ε} {document : RunbookDocument} {next : σ} {result : IngestionResult}
    (hnone : store.getDocument (ingestAll runtime limits store start history)
      document.documentId document.version = .ok none)
    (hadd : store.addDocument e (ingestAll runtime limits store start history) document
      (chunkDocument runtime limits document) = .ok next)
    (hingest : ingest runtime limits store e (ingestAll runtime limits store start history)
      document = (.ok result, next)) (hcreated : result.reused = false) :
    Holds runtime limits store valid start (history ++ [(e, document)]) next := by
  obtain ⟨hnext, ⟨stored, hkeeps, hstored⟩, hothers, hchunks⟩ := hstore.added h.valid hadd
  -- this document has just been created
  have hnew : HasCreated runtime limits store start (history ++ [(e, document)]) document :=
    ⟨history, e, [], result, rfl, congrArg Prod.fst hingest, hcreated⟩
  refine ⟨hnext, fun documentId version found hfound => ?_, fun after hafter chunk hchunk => ?_⟩
  · by_cases hsame : documentIdentity documentId version = document.identity
    · obtain ⟨rfl, rfl⟩ := documentIdentity_inj.mp hsame
      obtain rfl : stored = found := Option.some.inj (Except.ok.inj (hstored.symm.trans hfound))
      exact ⟨document, hnew, hkeeps⟩
    -- what is stored under another identity was stored before
    · rw [hothers _ _ hsame] at hfound
      obtain ⟨origin, horigin, hkeeps⟩ := h.origins _ _ _ hfound
      exact ⟨origin, horigin.concat _, hkeeps⟩
  · obtain ⟨before, hbefore⟩ := (hstore.readable h.valid).2.2
    rcases hchunks before after hbefore hafter chunk hchunk with hchunk | hchunk
    · have hcarries := carries_of_mem_chunkDocument hchunk
      refine ⟨stored, ?_, hcarries.of_keeps hkeeps⟩
      rw [hcarries.documentId, hcarries.version]
      exact hstored
    · -- an older chunk belongs to another document, for this one was not stored yet
      obtain ⟨old, hold, hcarries⟩ := h.chunks before hbefore chunk hchunk
      refine ⟨old, ?_, hcarries⟩
      have hother : documentIdentity chunk.documentId chunk.documentVersion ≠ document.identity := by
        intro hsame
        obtain ⟨hid, hversion⟩ := documentIdentity_inj.mp hsame
        rw [hid, hversion, hnone] at hold
        cases hold
      rw [hothers _ _ hother]
      exact hold

theorem holds_ingestAll (hstore : store.Lawful runtime valid) (hdumps : runtime.DumpsPlain)
    (hstart : Holds runtime limits store valid start [] start)
    (history : List (ε × RunbookDocument)) : Holds runtime limits store valid start history
      (ingestAll runtime limits store start history) := by
  induction history using List.reverseRecOn with
  | nil => exact hstart
  | append_singleton history entry ih =>
      obtain ⟨e, document⟩ := entry
      rw [ingestAll_concat]
      rcases ingest_cases hstore hdumps ih.valid e document with ⟨error, hingest⟩ |
        ⟨existing, result, _, _, hingest, _⟩ | ⟨next, result, hnone, hadd, hingest, hcreated⟩
      · rw [hingest]
        exact ih.concat _
      · rw [hingest]
        exact ih.concat _
      · rw [hingest]
        exact ih.added hstore hnone hadd hingest hcreated

theorem KnowledgeStore.Lawful.faithful (hstore : store.Lawful runtime valid)
    (hdumps : runtime.DumpsPlain) (hstart : Holds runtime limits store valid start [] start) :
    store.Faithful runtime limits start where
  failed := by
    intro history e document error herror
    have hholds := holds_ingestAll hstore hdumps hstart history
    rcases ingest_cases hstore hdumps hholds.valid e document with ⟨_, hingest⟩ |
      ⟨_, _, _, _, hingest, _⟩ | ⟨_, _, _, _, hingest, _⟩
    · rw [hingest]
    · cases (congrArg Prod.fst hingest).symm.trans herror
    · cases (congrArg Prod.fst hingest).symm.trans herror
  succeeded := by
    intro history e document result next hnext
    have hholds := holds_ingestAll hstore hdumps hstart history
    have hafter := holds_ingestAll hstore hdumps hstart (history ++ [(e, document)])
    rw [ingestAll_concat, hnext] at hafter
    obtain ⟨chunks, hchunks⟩ := (hstore.readable hafter.valid).2.2
    -- chunks of this identity are those of the stored document
    have hcarry : ∀ stored,
        store.getDocument next document.documentId document.version = .ok (some stored) →
        ∀ chunk ∈ chunks, chunk.identity = document.identity → chunk.Carries runtime stored := by
      intro stored hstored chunk hchunk hidentity
      obtain ⟨owner, howner, hcarries⟩ := hafter.chunks chunks hchunks chunk hchunk
      obtain ⟨hid, hversion⟩ := documentIdentity_inj.mp hidentity
      rw [hid, hversion, hstored] at howner
      exact Option.some.inj (Except.ok.inj howner) ▸ hcarries
    rcases ingest_cases hstore hdumps hholds.valid e document with ⟨_, hingest⟩ |
      ⟨existing, _, hexisting, hcontent, hingest, hreused⟩ |
      ⟨_, _, _, hadd, hingest, hcreated⟩
    · cases hnext.symm.trans hingest
    -- reused: the document was created earlier, by some ingestion of the history
    · obtain ⟨⟨⟩, rfl⟩ := Prod.mk.inj (hnext.symm.trans hingest)
      refine ⟨existing, chunks, hexisting, hchunks, hcarry existing hexisting, ?_, fun _ => ?_⟩
      · rw [hreused]
        intro h
        cases h
      · obtain ⟨origin, horigin, hkeeps⟩ := hholds.origins _ _ _ hexisting
        obtain ⟨hid, hversion⟩ := hstore.identity hholds.valid hexisting
        have hsame : existing.identity = document.identity := documentIdentity_inj.mpr ⟨hid, hversion⟩
        exact ⟨hcontent, origin, horigin, hkeeps.identity.symm.trans hsame, hkeeps⟩
    -- created now
    · obtain ⟨⟨⟩, rfl⟩ := Prod.mk.inj (hnext.symm.trans hingest)
      obtain ⟨_, ⟨stored, hkeeps, hstored⟩, _⟩ := hstore.added hholds.valid hadd
      refine ⟨stored, chunks, hstored, hchunks, hcarry stored hstored, fun _ => hkeeps, ?_⟩
      rw [hcreated]
      intro h
      cases h

end

/-! ## Both stores -/

theorem holds_inMemory (runtime : Runtime) (limits : ChunkLimits) :
    Holds runtime limits InMemoryKnowledgeStore.store (fun _ => True) {} [] {} where
  valid := trivial
  origins _ _ _ h := by cases h
  chunks chunks h chunk hchunk := by
    obtain rfl := Except.ok.inj h
    cases hchunk

theorem holds_sqlite (runtime : Runtime) (limits : ChunkLimits) :
    Holds runtime limits (SQLiteKnowledgeStore.store runtime)
      (SQLiteKnowledgeStore.Valid runtime) {} [] {} where
  valid := ⟨List.forall_mem_nil _, List.forall_mem_nil _⟩
  origins _ _ _ h := by cases h
  chunks chunks h chunk hchunk := by
    obtain rfl := Except.ok.inj h
    cases hchunk

/-- A kind of store, with the empty one. -/
structure KnowledgeBackend (runtime : Runtime) where
  {ε σ : Type}
  store : KnowledgeStore ε σ
  valid : σ → Prop
  empty : σ
  lawful : store.Lawful runtime valid
  holds : ∀ limits, Holds runtime limits store valid empty [] empty

namespace KnowledgeBackend

def inMemory (runtime : Runtime) : KnowledgeBackend runtime where
  store := InMemoryKnowledgeStore.store
  valid _ := True
  empty := {}
  lawful := InMemoryKnowledgeStore.lawful runtime
  holds := holds_inMemory runtime

def sqlite (runtime : Runtime) : KnowledgeBackend runtime where
  store := SQLiteKnowledgeStore.store runtime
  valid := SQLiteKnowledgeStore.Valid runtime
  empty := {}
  lawful := SQLiteKnowledgeStore.lawful runtime
  holds := holds_sqlite runtime

variable {runtime : Runtime} (backend : KnowledgeBackend runtime) (limits : ChunkLimits)

/-- The store after ingestions. -/
def after (history : List (backend.ε × RunbookDocument)) : backend.σ :=
  ingestAll runtime limits backend.store backend.empty history

theorem holds_after (hdumps : runtime.DumpsPlain) (history : List (backend.ε × RunbookDocument)) :
    Holds runtime limits backend.store backend.valid backend.empty history
      (backend.after limits history) :=
  holds_ingestAll backend.lawful hdumps (backend.holds limits) history

end KnowledgeBackend

/-- What a document says is stored when its identity is first ingested, with the chunks
saying the same; afterwards only the same content is accepted under the identity, and
nothing changes. -/
theorem ingestion_is_faithful (runtime : Runtime) (hdumps : runtime.DumpsPlain)
    (limits : ChunkLimits) :
    InMemoryKnowledgeStore.store.Faithful runtime limits {} ∧
      (SQLiteKnowledgeStore.store runtime).Faithful runtime limits {} :=
  ⟨(InMemoryKnowledgeStore.lawful runtime).faithful hdumps (holds_inMemory runtime limits),
    (SQLiteKnowledgeStore.lawful runtime).faithful hdumps (holds_sqlite runtime limits)⟩

namespace Sample

theorem canonicalRuntime_dumpsPlain : canonicalRuntime.DumpsPlain := by
  intro value hvalue
  have hjson : ∃ json, value.json? = some json := by
    induction hvalue with
    | str text => exact ⟨_, rfl⟩
    | list _ ih => exact Value.exists_json?_list ih
    | ofFields hnodup _ ih => exact Value.exists_json?_ofFields hnodup ih
  obtain ⟨json, hjson⟩ := hjson
  refine ⟨ChangePilot.jsonText floatText json, ?_⟩
  simp only [canonicalRuntime, hjson]

/-- A runbook of this trust. -/
def runbook (trustLevel : TrustLevel) : RunbookDocument where
  documentId := "schema-migration"
  version := "1"
  source := "runbooks/schema-migration.md"
  trustLevel := trustLevel
  content := "# Migration\nTake a backup first."
  policyKey := "database-schema"
  effectiveAt := "2026-07-01"

end Sample

theorem ingestion_is_faithful_canonical :
    InMemoryKnowledgeStore.store.Faithful Sample.canonicalRuntime {} {} ∧
      (SQLiteKnowledgeStore.store Sample.canonicalRuntime).Faithful Sample.canonicalRuntime {} {} :=
  ingestion_is_faithful Sample.canonicalRuntime Sample.canonicalRuntime_dumpsPlain {}

/-- A runbook that is ingested again as untrusted stays authoritative. -/
theorem reingested_runbook_stays_authoritative : ∃ result next stored,
    ingest Sample.canonicalRuntime {} InMemoryKnowledgeStore.store ()
      (ingestAll Sample.canonicalRuntime {} InMemoryKnowledgeStore.store {}
        [((), Sample.runbook .authoritative)]) (Sample.runbook .untrusted) = (.ok result, next) ∧
    InMemoryKnowledgeStore.store.getDocument next (Sample.runbook .untrusted).documentId
      (Sample.runbook .untrusted).version = .ok (some stored) ∧
    stored.trustLevel ≠ (Sample.runbook .untrusted).trustLevel := by
  let s := ingestAll Sample.canonicalRuntime {} InMemoryKnowledgeStore.store {}
    [((), Sample.runbook .authoritative)]
  have hdocuments : s.documents = KeyedTable.empty.put (Sample.runbook .authoritative) := rfl
  have hstored : InMemoryKnowledgeStore.store.getDocument s (Sample.runbook .untrusted).documentId
      (Sample.runbook .untrusted).version = .ok (some (Sample.runbook .authoritative)) := by
    show Except.ok (s.documents.get _) = _
    rw [hdocuments]
    exact congrArg Except.ok (KeyedTable.get_put_self _ (Sample.runbook .authoritative))
  obtain ⟨result, hresult, _⟩ := exists_ingestionResult
    (InMemoryKnowledgeStore.lawful Sample.canonicalRuntime) Sample.canonicalRuntime_dumpsPlain
    trivial (s := s) (Sample.runbook .untrusted) 0 true
  have hsame : (Sample.runbook .authoritative).contentDigest Sample.canonicalRuntime =
      (Sample.runbook .untrusted).contentDigest Sample.canonicalRuntime := rfl
  exact ⟨result, s, Sample.runbook .authoritative,
    ingest_of_same_content hstored hsame hresult (), hstored, by decide⟩

end ChangePilot
