import ChangePilot.Guarantees.ChunkIds
import ChangePilot.Planning.Sections

/-!
# Chunks cover their document

The chunks of a document are numbered in its order and hold what its lines say, under the
headings in force.  The offsets they carry point at their text unless their section begins
with blank characters: the text is taken without these, but the offsets count them.
-/

namespace ChangePilot

/-- The content with its lines ended by newlines. -/
def RunbookDocument.normalized (document : RunbookDocument) : List Char :=
  normalizeNewlines document.content.toList

/-- The characters from one offset to another. -/
def slice (content : List Char) (start stop : ℕ) : List Char := (content.take stop).drop start

/-! ## Where chunks come from -/

/-- The chunk is that of a window of a section. -/
structure KnowledgeChunk.CutFrom (chunk : KnowledgeChunk) (piece : Section) (window : ℕ × ℕ) :
    Prop where
  headingPath : chunk.headingPath = piece.headingPath
  startOffset : chunk.startOffset = piece.start + window.1
  endOffset : chunk.endOffset = piece.start + window.2
  content : chunk.content.toList = strip (slice piece.text window.1 window.2)
  nonempty : strip (slice piece.text window.1 window.2) ≠ []

section

variable {runtime : Runtime} {limits : ChunkLimits} {document : RunbookDocument}

/-- The windows of a section, as they are cut. -/
def windowsOf (limits : ChunkLimits) (piece : Section) : List (ℕ × ℕ) :=
  windows limits piece.text.length piece.text.length 0

theorem mem_sectionWindows_iff {piece : Section} {cut : List String × ℕ × ℕ × List Char} :
    cut ∈ sectionWindows limits piece ↔ ∃ window ∈ windowsOf limits piece,
      strip (slice piece.text window.1 window.2) ≠ [] ∧
      cut = (piece.headingPath, piece.start + window.1, piece.start + window.2,
        strip (slice piece.text window.1 window.2)) := by
  rw [sectionWindows, List.mem_filterMap]
  refine exists_congr fun window => and_congr_right fun _ => ?_
  obtain ⟨cursor, stop⟩ := window
  dsimp only [slice]
  split
  case isTrue hblank => simp [hblank]
  case isFalse hfull => simp [hfull, eq_comm]

variable (runtime document) in
theorem makeChunk_cutFrom (position : ℕ) {piece : Section} {window : ℕ × ℕ}
    (hfull : strip (slice piece.text window.1 window.2) ≠ []) :
    (makeChunk runtime document position (piece.headingPath, piece.start + window.1,
      piece.start + window.2, strip (slice piece.text window.1 window.2))).CutFrom piece window :=
  ⟨rfl, rfl, rfl, String.toList_ofList, hfull⟩

/-- Every chunk is that of a window. -/
theorem exists_cutFrom {chunk : KnowledgeChunk}
    (h : chunk ∈ chunkDocument runtime limits document) :
    ∃ piece ∈ markdownSections document.normalized, ∃ window ∈ windowsOf limits piece,
      chunk.CutFrom piece window := by
  obtain ⟨position, hposition, rfl⟩ := List.mem_mapIdx.mp h
  obtain ⟨piece, hpiece, hcut⟩ := List.mem_flatMap.mp (List.getElem_mem hposition)
  obtain ⟨window, hwindow, hfull, heq⟩ := mem_sectionWindows_iff.mp hcut
  refine ⟨piece, hpiece, window, hwindow, ?_⟩
  rw [heq]
  exact makeChunk_cutFrom runtime document position hfull

/-- Every window that is not blank has its chunk. -/
theorem exists_chunk_of_window {piece : Section}
    (hpiece : piece ∈ markdownSections document.normalized) {window : ℕ × ℕ}
    (hwindow : window ∈ windowsOf limits piece)
    (hfull : strip (slice piece.text window.1 window.2) ≠ []) :
    ∃ chunk ∈ chunkDocument runtime limits document, chunk.CutFrom piece window := by
  have hmem : (piece.headingPath, piece.start + window.1, piece.start + window.2,
      strip (slice piece.text window.1 window.2)) ∈
      (markdownSections document.normalized).flatMap (sectionWindows limits) :=
    List.mem_flatMap.mpr ⟨piece, hpiece, mem_sectionWindows_iff.mpr ⟨window, hwindow, hfull, rfl⟩⟩
  obtain ⟨position, hposition, heq⟩ := List.getElem_of_mem hmem
  refine ⟨_, List.mem_mapIdx.mpr ⟨position, hposition, rfl⟩, ?_⟩
  have hcut := makeChunk_cutFrom runtime document position hfull
  rw [← heq] at hcut
  exact hcut

/-! ## Order and size -/

theorem drop_prefix_drop {α : Type} {xs ys : List α} (h : xs <+: ys) (n : ℕ) :
    xs.drop n <+: ys.drop n := by
  obtain ⟨rest, rfl⟩ := h
  rw [List.drop_append]
  exact List.prefix_append _ _

theorem slice_isPrefix_drop (content : List Char) (start stop : ℕ) :
    slice content start stop <+: content.drop start :=
  drop_prefix_drop (List.take_prefix _ _) _

/-- The chunk of a window is in the document after what is blank. -/
theorem KnowledgeChunk.CutFrom.found {chunk : KnowledgeChunk} {piece : Section} {window : ℕ × ℕ}
    {content : List Char} (h : chunk.CutFrom piece window) (hpiece : piece.Located content) :
    chunk.content.toList <+: content.drop (piece.start + blanksBefore content piece + window.1 +
      (Trimming.lead isSpace (slice piece.text window.1 window.2)).length) := by
  have hslice : slice piece.text window.1 window.2 <+:
      content.drop (piece.start + blanksBefore content piece + window.1) := by
    rw [← List.drop_drop]
    exact (slice_isPrefix_drop _ _ _).trans (drop_prefix_drop hpiece.found _)
  rw [h.content, ← List.drop_drop]
  exact (Trimming.trim_prefix _).trans (drop_prefix_drop hslice _)

end

/-- The offsets of the chunk lie in the document and point at its text. -/
structure KnowledgeChunk.PointsAtText (content : List Char) (chunk : KnowledgeChunk) : Prop where
  start_lt : chunk.startOffset < chunk.endOffset
  end_le : chunk.endOffset ≤ content.length
  text : strip (slice content chunk.startOffset chunk.endOffset) = chunk.content.toList

/-- A window reads as it does so many characters earlier as there are blank ones before the
text of its section. -/
def ReadsAlike (content : List Char) (piece : Section) (window : ℕ × ℕ) : Prop :=
  strip (slice content (piece.start + window.1) (piece.start + window.2)) =
    strip (slice content (piece.start + blanksBefore content piece + window.1)
      (piece.start + blanksBefore content piece + window.2))

section

variable {runtime : Runtime} {limits : ChunkLimits} {document : RunbookDocument}
  {content : List Char} {piece : Section} {window : ℕ × ℕ}

theorem slice_eq_take_drop (content : List Char) (start stop : ℕ) :
    slice content start stop = (content.drop start).take (stop - start) := List.drop_take

variable (window) in
/-- A window of a section is one of the document. -/
theorem slice_text (hpiece : piece.Located content) (hwindow : window.2 ≤ piece.text.length) :
    slice piece.text window.1 window.2 =
      slice content (piece.start + blanksBefore content piece + window.1)
        (piece.start + blanksBefore content piece + window.2) := by
  obtain ⟨rest, hrest⟩ := hpiece.found
  rw [slice_eq_take_drop, slice_eq_take_drop, ← List.drop_drop, ← hrest, List.drop_append,
    List.take_append_of_le_length (by rw [List.length_drop]; omega)]
  congr 1
  omega

/-- The offsets of a chunk lie in the document; they point at its text if its window reads
alike. -/
theorem pointsAtText_iff {chunk : KnowledgeChunk} (hpiece : piece.Located content)
    (hwindow : window ∈ windowsOf limits piece) (hcut : chunk.CutFrom piece window) :
    chunk.PointsAtText content ↔ ReadsAlike content piece window := by
  obtain ⟨_, hlt, hstop, _⟩ := (windows_bounds _ _ _ 0).1 window hwindow
  have hlength := hpiece.le_length
  have htext : (strip (slice content chunk.startOffset chunk.endOffset) = chunk.content.toList) ↔
      ReadsAlike content piece window := by
    rw [hcut.startOffset, hcut.endOffset, hcut.content, slice_text _ hpiece hstop]
    rfl
  constructor
  · exact fun h => htext.mp h.text
  · intro h
    refine ⟨?_, ?_, htext.mpr h⟩
    · rw [hcut.startOffset, hcut.endOffset]
      omega
    · rw [hcut.endOffset]
      omega

theorem readsAlike_of_blanksBefore_eq_zero (h : blanksBefore content piece = 0) :
    ReadsAlike content piece window := by
  rw [ReadsAlike, h, Nat.add_zero]

theorem windowsOf_of_le (hne : piece.text ≠ []) (hshort : piece.text.length ≤ limits.maxChunkChars) :
    windowsOf limits piece = [(0, piece.text.length)] := by
  have hpos := List.length_pos_iff.mpr hne
  obtain ⟨fuel, hfuel⟩ := Nat.exists_eq_succ_of_ne_zero hpos.ne'
  have hstop : min fuel.succ (0 + limits.maxChunkChars) = fuel.succ := by omega
  rw [windowsOf, hfuel, windows, if_pos fuel.succ_pos]
  dsimp only
  rw [hstop, if_pos rfl]

/-- The one window of a short section reads alike only if nothing blank comes before its
text. -/
theorem blanksBefore_eq_zero_of_readsAlike (hpiece : piece.Located content)
    (h : ReadsAlike content piece (0, piece.text.length)) : blanksBefore content piece = 0 := by
  rw [ReadsAlike, ← slice_text (0, piece.text.length) hpiece le_rfl] at h
  have hwhole : slice piece.text 0 piece.text.length = piece.text := by
    rw [slice, List.take_length, List.drop_zero]
  rw [hwhole, hpiece.trimmed, slice_eq_take_drop] at h
  by_contra hblanks
  -- what is read begins with the blank characters, and so misses as many at its end
  have hsplit : content.drop piece.start = Trimming.lead isSpace (content.drop piece.start) ++
      (content.drop piece.start).dropWhile isSpace := List.takeWhile_append_dropWhile.symm
  have hlength := congrArg List.length h
  rw [Nat.add_zero, Nat.add_sub_cancel_left, hsplit, List.take_append, strip_eq_trim,
    Trimming.trim_append_of_forall fun x hx =>
      Trimming.forall_mem_lead _ x (List.mem_of_mem_take hx)] at hlength
  have hpos := List.length_pos_iff.mpr hpiece.nonempty
  have htrim := Trimming.length_trim_le (p := isSpace)
    (((content.drop piece.start).dropWhile isSpace).take
      (piece.text.length - (Trimming.lead isSpace (content.drop piece.start)).length))
  rw [hlength, List.length_take] at htrim
  rw [blanksBefore] at hblanks
  omega

end

/-- The offsets of every chunk point at its text if and only if each window of a section
reads alike as many characters earlier as there are blank ones before the text of the
section.  When the sections fit into one window each, none of them may begin with
something blank. -/
theorem offsets_point_at_text_iff (runtime : Runtime) (limits : ChunkLimits)
    (document : RunbookDocument) :
    ((∀ chunk ∈ chunkDocument runtime limits document, chunk.PointsAtText document.normalized) ↔
      ∀ piece ∈ markdownSections document.normalized, ∀ window ∈ windowsOf limits piece,
        strip (slice piece.text window.1 window.2) ≠ [] →
        ReadsAlike document.normalized piece window) ∧
    ((∀ piece ∈ markdownSections document.normalized,
        piece.text.length ≤ limits.maxChunkChars) →
      ((∀ chunk ∈ chunkDocument runtime limits document, chunk.PointsAtText document.normalized) ↔
        ∀ piece ∈ markdownSections document.normalized,
          blanksBefore document.normalized piece = 0)) := by
  have hlocated := (cut_markdownSections document.normalized).located
  have hiff : (∀ chunk ∈ chunkDocument runtime limits document,
        chunk.PointsAtText document.normalized) ↔
      ∀ piece ∈ markdownSections document.normalized, ∀ window ∈ windowsOf limits piece,
        strip (slice piece.text window.1 window.2) ≠ [] →
        ReadsAlike document.normalized piece window := by
    constructor
    · intro h piece hpiece window hwindow hfull
      obtain ⟨chunk, hchunk, hcut⟩ := exists_chunk_of_window hpiece hwindow hfull
      exact (pointsAtText_iff (hlocated piece hpiece) hwindow hcut).mp (h chunk hchunk)
    · intro h chunk hchunk
      obtain ⟨piece, hpiece, window, hwindow, hcut⟩ := exists_cutFrom hchunk
      exact (pointsAtText_iff (hlocated piece hpiece) hwindow hcut).mpr
        (h piece hpiece window hwindow hcut.nonempty)
  refine ⟨hiff, fun hshort => hiff.trans ?_⟩
  constructor
  · intro h piece hpiece
    have hwhole : slice piece.text 0 piece.text.length = piece.text := by
      rw [slice, List.take_length, List.drop_zero]
    refine blanksBefore_eq_zero_of_readsAlike (hlocated piece hpiece) (h piece hpiece _ ?_ ?_)
    · rw [windowsOf_of_le (hlocated piece hpiece).nonempty (hshort piece hpiece)]
      exact List.mem_cons_self
    · rw [hwhole, (hlocated piece hpiece).trimmed]
      exact (hlocated piece hpiece).nonempty
  · exact fun h piece hpiece _ _ _ => readsAlike_of_blanksBefore_eq_zero (h piece hpiece)

/-- After a heading and an empty line, the chunk ends one character before its text. -/
theorem offsets_miss_text_after_empty_line : ∃ (document : RunbookDocument),
    ∃ chunk ∈ chunkDocument Sample.canonicalRuntime {} document,
      strip (slice document.normalized chunk.startOffset chunk.endOffset) ≠ chunk.content.toList := by
  refine ⟨{ Sample.restart "a" "1" with content := "# Restart\n\nRestart." },
    makeChunk Sample.canonicalRuntime { Sample.restart "a" "1" with
      content := "# Restart\n\nRestart." } 0 (["Restart"], 10, 18, "Restart.".toList), ?_, ?_⟩
  · have hwindows : (markdownSections (normalizeNewlines "# Restart\n\nRestart.".toList)).flatMap
        (sectionWindows {}) = [(["Restart"], 10, 18, "Restart.".toList)] := by decide +kernel
    show _ ∈ List.mapIdx _ ((markdownSections (normalizeNewlines
      "# Restart\n\nRestart.".toList)).flatMap (sectionWindows {}))
    rw [hwindows]
    exact List.mem_cons_self
  · show strip (slice (normalizeNewlines "# Restart\n\nRestart.".toList) 10 18) ≠
      (String.ofList "Restart.".toList).toList
    decide +kernel

end ChangePilot
