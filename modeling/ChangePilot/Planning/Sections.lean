import ChangePilot.Library.Trimming
import ChangePilot.Planning.Ingestion
import Mathlib.Data.List.Induction

/-!
# Where sections and windows lie

A section lies in the document right after the blank characters that its first line begins
with.  The sections come one after another, under the headings in force, and every
character of a line that is no heading lies in one of them unless it is blank.  The windows
of a section leave nothing out.

The walk over the lines has one invariant, `Walked`: where the lines gathered so far began,
which headings are in force, and what the sections so far cover.  A line that is no heading
extends the lines, a heading flushes them first (`Walked.flush`), and so does the end.
-/

namespace ChangePilot

theorem strip_eq_trim : strip = Trimming.trim isSpace := rfl

/-! ## Lines -/

/-- The lines with their ends. -/
def unlines (lines : List (List Char)) : List Char := lines.flatMap fun line => line ++ ['\n']

@[simp] theorem unlines_append (xs ys : List (List Char)) :
    unlines (xs ++ ys) = unlines xs ++ unlines ys := List.flatMap_append

@[simp] theorem unlines_singleton (line : List Char) : unlines [line] = line ++ ['\n'] :=
  List.flatMap_singleton _ _

theorem unlines_cons (line : List Char) (rest : List (List Char)) :
    unlines (line :: rest) = line ++ '\n' :: unlines rest := by
  rw [unlines, List.flatMap_cons, List.append_assoc]
  rfl

/-- The text with an end for its last line. -/
theorem unlines_splitLines (content : List Char) :
    unlines (splitLines content) = content ++ ['\n'] := by
  induction content using splitLines.induct with
  | case1 => rfl
  | case2 rest ih => rw [splitLines, unlines_cons, ih]; rfl
  | case3 c rest hne line lines hlines ih =>
      rw [splitLines.eq_3 _ _ hne, hlines]
      dsimp only
      rw [unlines_cons, List.cons_append, ← unlines_cons, ← hlines, ih]
      rfl
  | case4 c rest hne hnil ih =>
      rw [hnil] at ih
      cases rest <;> cases ih

/-- Lines that are joined end with the last of them. -/
theorem intercalate_concat {lines : List (List Char)} (h : lines ≠ []) :
    List.intercalate ['\n'] lines ++ ['\n'] = unlines lines := by
  induction lines with
  | nil => exact absurd rfl h
  | cons line rest ih =>
      cases rest with
      | nil => simp
      | cons next rest =>
          rw [List.intercalate_cons_cons, unlines_cons, ← ih (List.cons_ne_nil _ _)]
          simp

/-- A line among those that are joined comes after the lines before it. -/
theorem exists_intercalate_eq (before : List (List Char)) (line : List Char)
    (after : List (List Char)) : ∃ rest,
      List.intercalate ['\n'] (before ++ line :: after) = unlines before ++ (line ++ rest) := by
  induction before with
  | nil =>
      cases after with
      | nil => exact ⟨[], by simp [unlines]⟩
      | cons next rest => exact ⟨'\n' :: List.intercalate ['\n'] (next :: rest), by
          rw [List.nil_append, List.intercalate_cons_cons]
          simp [unlines]⟩
  | cons first before ih =>
      obtain ⟨rest, hrest⟩ := ih
      refine ⟨rest, ?_⟩
      rw [List.cons_append]
      cases hlines : before ++ line :: after with
      | nil => simp at hlines
      | cons next others =>
          rw [List.intercalate_cons_cons, ← hlines, hrest, unlines_cons]
          simp

/-- The headings in force after lines. -/
def headingsAfter (lines : List (List Char)) : List String :=
  lines.foldl (fun headings line =>
    match headingOf line with
    | some (level, title) => pushHeading headings level (String.ofList title)
    | none => headings) []

theorem headingsAfter_append_of_none (before : List (List Char)) {lines : List (List Char)}
    (h : ∀ line ∈ lines, headingOf line = none) :
    headingsAfter (before ++ lines) = headingsAfter before := by
  induction lines using List.reverseRecOn with
  | nil => rw [List.append_nil]
  | append_singleton lines line ih =>
      have hlast := h line (List.mem_append_right _ List.mem_cons_self)
      rw [← List.append_assoc, headingsAfter, List.foldl_append, List.foldl_cons, hlast]
      exact ih fun other hother => h other (List.mem_append_left _ hother)

/-! ## Sections -/

/-- The number of blank characters that come before the text of a section. -/
def blanksBefore (content : List Char) (piece : Section) : ℕ :=
  (Trimming.lead isSpace (content.drop piece.start)).length

/-- The text of the section is in the document, after blank characters. -/
structure Section.Located (content : List Char) (piece : Section) : Prop where
  nonempty : piece.text ≠ []
  trimmed : strip piece.text = piece.text
  found : piece.text <+: content.drop (piece.start + blanksBefore content piece)

/-- The position lies in the text of the section. -/
def Section.Covers (content : List Char) (piece : Section) (position : ℕ) : Prop :=
  piece.start + blanksBefore content piece ≤ position ∧
    position < piece.start + blanksBefore content piece + piece.text.length

/-- Every character of the lines that is not blank lies in one of the sections, under the
headings in force, unless its line is a heading. -/
def CoversLines (content : List Char) (sections : List Section) (lines : List (List Char)) : Prop :=
  ∀ earlier line later left c right, lines = earlier ++ line :: later → headingOf line = none →
    line = left ++ c :: right → isSpace c = false →
    ∃ piece ∈ sections, piece.headingPath = headingsAfter earlier ∧
      piece.Covers content ((unlines earlier).length + left.length)

section

variable {content front raw : List Char}

/-- What is left of a part of the document is a section of it. -/
theorem located_of_append (front : List Char) (hfront : front ++ raw <+: content)
    (hne : strip raw ≠ []) (headingPath : List String) :
    Section.Located content ⟨headingPath, front.length, strip raw⟩ ∧
      blanksBefore content ⟨headingPath, front.length, strip raw⟩ =
        (Trimming.lead isSpace raw).length := by
  obtain ⟨rest, hcontent⟩ := hfront
  have hdrop : content.drop front.length = raw ++ rest := by
    rw [← hcontent, List.append_assoc, List.drop_left]
  have hblanks : blanksBefore content ⟨headingPath, front.length, strip raw⟩ =
      (Trimming.lead isSpace raw).length := by
    rw [blanksBefore, hdrop, Trimming.lead_append hne]
  refine ⟨⟨hne, Trimming.trim_trim raw, ?_⟩, hblanks⟩
  obtain ⟨trail, hraw, _⟩ := Trimming.exists_eq_append isSpace raw
  have hwhole : raw ++ rest = Trimming.lead isSpace raw ++ (strip raw ++ (trail ++ rest)) := by
    conv_lhs => rw [hraw]
    rw [List.append_assoc, List.append_assoc]
    rfl
  rw [hblanks, ← List.drop_drop, hdrop, hwhole, List.drop_left]
  exact List.prefix_append _ _

/-- A section that is located ends within the document. -/
theorem Section.Located.le_length {piece : Section} (h : piece.Located content) :
    piece.start + blanksBefore content piece + piece.text.length ≤ content.length := by
  have hlength := h.found.length_le
  have hpos := List.length_pos_iff.mpr h.nonempty
  rw [List.length_drop] at hlength
  omega

end

/-! ## The loop over the lines -/

/-- Where the loop is after some of the lines. -/
structure Walked (content : List Char) (done : List (List Char)) (s : SectionState) : Prop where
  offset : s.offset = (unlines done).length
  headings : s.headings = headingsAfter done
  lines : ∃ before, done = before ++ s.currentLines ∧
    (s.currentLines ≠ [] → s.currentStart = (unlines before).length) ∧
    (∀ line ∈ s.currentLines, headingOf line = none) ∧
    (∀ piece ∈ s.sections, piece.start + piece.text.length ≤ (unlines before).length) ∧
    CoversLines content s.sections before
  located : ∀ piece ∈ s.sections, piece.Located content
  sorted : s.sections.Pairwise fun a b => a.start + a.text.length ≤ b.start

section

variable {content : List Char} {done : List (List Char)} {s : SectionState}

theorem walked_nil (content : List Char) : Walked content [] {} where
  offset := rfl
  headings := rfl
  lines := ⟨[], rfl, fun h => absurd rfl h, List.forall_mem_nil _, List.forall_mem_nil _, by
    intro earlier line later left c right hlines
    simp at hlines⟩
  located := List.forall_mem_nil _
  sorted := List.Pairwise.nil

theorem prefix_of_prefix_concat {α : Type} {xs ys : List α} {x y : α}
    (h : xs ++ [x] <+: ys ++ [y]) : xs <+: ys := by
  have hlength := h.length_le
  rw [List.length_append, List.length_append, List.length_singleton, List.length_singleton]
    at hlength
  exact List.prefix_of_prefix_length_le ((List.prefix_append _ _).trans h) (List.prefix_append _ _)
    (by omega)

/-- The text that the collected lines make up, where they start. -/
theorem Walked.prefix {before : List (List Char)} (hsplit : done = before ++ s.currentLines)
    (hne : s.currentLines ≠ []) (hdone : unlines done <+: content ++ ['\n']) :
    unlines before ++ List.intercalate ['\n'] s.currentLines <+: content := by
  rw [hsplit, unlines_append, ← intercalate_concat hne, ← List.append_assoc] at hdone
  exact prefix_of_prefix_concat hdone

/-- What is in the text of some lines is in one of them. -/
theorem covers_of_mem {before current earlier later : List (List Char)} {line left right : List Char}
    {c : Char} (hsplit : before ++ current = earlier ++ line :: later)
    (hline : line = left ++ c :: right) (hlong : before.length ≤ earlier.length) :
    ∃ front rest, List.intercalate ['\n'] current = front ++ c :: rest ∧
      (unlines earlier).length + left.length = (unlines before).length + front.length := by
  obtain ⟨more, rfl⟩ : ∃ more, earlier = before ++ more := by
    have hfront : before <+: earlier := List.prefix_of_prefix_length_le
      ⟨current, hsplit⟩ ⟨line :: later, rfl⟩ hlong
    exact ⟨_, hfront.choose_spec.symm⟩
  rw [List.append_assoc] at hsplit
  obtain rfl := List.append_cancel_left hsplit
  obtain ⟨rest, hrest⟩ := exists_intercalate_eq more line later
  refine ⟨unlines more ++ left, right ++ rest, ?_, ?_⟩
  · rw [hrest, hline]
    simp
  · rw [unlines_append, List.length_append, List.length_append]
    omega

theorem CoversLines.mono {sections more : List Section} {lines : List (List Char)}
    (h : CoversLines content sections lines) : CoversLines content (sections ++ more) lines := by
  intro earlier line later left c right hlines hplain hline hc
  obtain ⟨piece, hpiece, hcovers⟩ := h earlier line later left c right hlines hplain hline hc
  exact ⟨piece, List.mem_append_left _ hpiece, hcovers⟩

/-- Lines are covered when the collected ones are, after those before. -/
theorem CoversLines.append {sections : List Section} {before current : List (List Char)}
    (h : CoversLines content sections before)
    (hcurrent : ∀ earlier line later left c right, before ++ current = earlier ++ line :: later →
      before.length ≤ earlier.length → headingOf line = none → line = left ++ c :: right →
      isSpace c = false → ∃ piece ∈ sections, piece.headingPath = headingsAfter earlier ∧
        piece.Covers content ((unlines earlier).length + left.length)) :
    CoversLines content sections (before ++ current) := by
  intro earlier line later left c right hlines hplain hline hc
  by_cases hlong : before.length ≤ earlier.length
  · exact hcurrent earlier line later left c right hlines hlong hplain hline hc
  · -- the line is among those before
    have hfront : earlier ++ [line] <+: before := by
      refine List.prefix_of_prefix_length_le (List.IsPrefix.trans ⟨later, ?_⟩ List.prefix_rfl)
        (List.prefix_append before current) ?_
      · rw [hlines, List.append_assoc]
        rfl
      · rw [List.length_append, List.length_singleton]
        omega
    obtain ⟨rest, hrest⟩ := hfront
    refine h earlier line rest left c right ?_ hplain hline hc
    rw [← hrest, List.append_assoc]
    rfl

/-- The lines that were collected have nothing that is not blank, or make a section. -/
theorem Walked.flush (h : Walked content done s) (hdone : unlines done <+: content ++ ['\n']) :
    Walked content done s.flush := by
  obtain ⟨before, hsplit, hstart, hplain, hends, hcovers⟩ := h.lines
  have hbefore : (unlines before).length ≤ (unlines done).length := by
    rw [hsplit, unlines_append, List.length_append]
    omega
  -- only blanks since the last section: nothing is added
  by_cases htext : strip (List.intercalate ['\n'] s.currentLines) = []
  · have hflush : s.flush = { s with currentLines := [] } := by
      rw [SectionState.flush, if_pos htext]
    rw [hflush]
    refine ⟨h.offset, h.headings, ⟨done, (List.append_nil _).symm, fun hne => absurd rfl hne,
      List.forall_mem_nil _, fun piece hpiece => (hends piece hpiece).trans hbefore, ?_⟩, h.located,
      h.sorted⟩
    rw [hsplit]
    refine hcovers.append fun earlier line later left c right hlines hlong _ hline hc => ?_
    obtain ⟨front, rest, hraw, _⟩ := covers_of_mem hlines hline hlong
    -- they hide no character
    have hblank := Trimming.trim_eq_nil_iff.mp htext c (by rw [hraw]; simp)
    rw [hblank] at hc
    cases hc
  -- the lines since then make one more section
  · have hne : s.currentLines ≠ [] := fun hnil => htext (by rw [hnil]; rfl)
    have hflush : s.flush = { s with
        sections := s.sections ++ [⟨s.headings, s.currentStart,
          strip (List.intercalate ['\n'] s.currentLines)⟩]
        currentLines := [] } := by
      rw [SectionState.flush, if_neg htext]
    -- its text starts where its first line does, after the blanks
    have hfront := Walked.prefix hsplit hne hdone
    obtain ⟨hlocated, hblanks⟩ := located_of_append _ hfront htext s.headings
    rw [← hstart hne] at hlocated hblanks
    -- no heading came in between
    have hheadings : s.headings = headingsAfter before := by
      rw [h.headings, hsplit, headingsAfter_append_of_none before hplain]
    have hlength : (unlines before).length +
        (strip (List.intercalate ['\n'] s.currentLines)).length ≤ (unlines done).length := by
      have htrim := Trimming.length_trim_le (p := isSpace) (List.intercalate ['\n'] s.currentLines)
      rw [← strip_eq_trim] at htrim
      rw [hsplit, unlines_append, List.length_append, ← intercalate_concat hne, List.length_append]
      omega
    rw [hflush]
    refine ⟨h.offset, h.headings, ⟨done, (List.append_nil _).symm, fun hne => absurd rfl hne,
      List.forall_mem_nil _, ?_, ?_⟩, ?_, ?_⟩
    -- no section ends behind what was read
    · intro piece hpiece
      rcases List.mem_append.mp hpiece with hpiece | hpiece
      · exact (hends piece hpiece).trans hbefore
      · rw [List.mem_singleton.mp hpiece, hstart hne]
        exact hlength
    · rw [hsplit]
      refine hcovers.mono.append fun earlier line later left c right hlines hlong _ hline hc => ?_
      obtain ⟨front, rest, hraw, hposition⟩ := covers_of_mem hlines hline hlong
      refine ⟨_, List.mem_append_right _ List.mem_cons_self, ?_, ?_⟩
      -- the line is one of those gathered, so its headings are the section's
      · obtain ⟨more, rfl⟩ : ∃ more, earlier = before ++ more := by
          have hearlier : before <+: earlier := List.prefix_of_prefix_length_le
            ⟨s.currentLines, hlines⟩ ⟨line :: later, rfl⟩ hlong
          exact ⟨_, hearlier.choose_spec.symm⟩
        rw [List.append_assoc] at hlines
        rw [hheadings, headingsAfter_append_of_none before fun other hother => hplain other ?_]
        rw [List.append_cancel_left hlines]
        exact List.mem_append_left _ hother
      -- a character that is not trimmed away lies within the section
      · obtain ⟨hlow, hhigh⟩ := Trimming.mem_range_of_not front rest hc
        rw [← hraw] at hlow hhigh
        rw [Section.Covers, hblanks, hposition, hstart hne]
        rw [← strip_eq_trim] at hhigh
        dsimp only
        exact ⟨by omega, by omega⟩
    · intro piece hpiece
      rcases List.mem_append.mp hpiece with hpiece | hpiece
      · exact h.located piece hpiece
      · rw [List.mem_singleton.mp hpiece]
        exact hlocated
    -- the new section starts behind all the others
    · refine List.pairwise_append.mpr ⟨h.sorted, List.pairwise_singleton _ _, fun a ha b hb => ?_⟩
      rw [List.mem_singleton.mp hb, hstart hne]
      exact hends a ha

theorem Walked.next (h : Walked content done s) {line : List Char}
    (hdone : unlines (done ++ [line]) <+: content ++ ['\n']) :
    Walked content (done ++ [line]) (s.next line) := by
  have hbefore : unlines done <+: content ++ ['\n'] := by
    rw [unlines_append] at hdone
    exact (List.prefix_append _ _).trans hdone
  have hlength : (unlines (done ++ [line])).length = (unlines done).length + line.length + 1 := by
    simp only [unlines_append, unlines_singleton, List.length_append, List.length_singleton]
    omega
  cases hheading : headingOf line with
  | some heading =>
      obtain ⟨level, title⟩ := heading
      have hnext : s.next line = { s.flush with
          headings := pushHeading s.headings level (String.ofList title)
          currentStart := s.offset + line.length + 1
          offset := s.offset + line.length + 1 } := by
        rw [SectionState.next, hheading]
      have hflushed := h.flush hbefore
      obtain ⟨before, hsplit, _, _, hends, hcovers⟩ := hflushed.lines
      have hnone : s.flush.currentLines = [] := rfl
      rw [hnone, List.append_nil] at hsplit
      subst hsplit
      rw [hnext]
      refine ⟨by rw [hlength, h.offset], ?_, ⟨done ++ [line], ?_, fun hne => absurd hnone hne, ?_, ?_,
        ?_⟩, hflushed.located, hflushed.sorted⟩
      · rw [headingsAfter, List.foldl_append, List.foldl_cons, hheading, ← headingsAfter, ← h.headings]
        rfl
      · exact (List.append_nil _).symm
      · exact List.forall_mem_nil _
      · intro piece hpiece
        exact (hends piece hpiece).trans (by omega)
      · refine hcovers.append fun earlier other later left c right hlines hlong hplain _ _ => ?_
        -- the one line is the heading
        have hcount := congrArg List.length hlines
        simp only [List.length_append, List.length_cons, List.length_nil] at hcount
        obtain ⟨_, hlast⟩ := List.append_inj hlines (by omega)
        rw [← (List.cons.inj hlast).1, hheading] at hplain
        cases hplain
  | none =>
      have hnext : s.next line = { s with
          currentStart := if s.currentLines = [] then s.offset else s.currentStart
          currentLines := s.currentLines ++ [line]
          offset := s.offset + line.length + 1 } := by
        rw [SectionState.next, hheading]
      obtain ⟨before, hsplit, hstart, hplain, hends, hcovers⟩ := h.lines
      rw [hnext]
      refine ⟨by rw [hlength, h.offset], ?_, ⟨before, ?_, fun _ => ?_, ?_, hends, hcovers⟩, h.located,
        h.sorted⟩
      · rw [h.headings, headingsAfter_append_of_none done (List.forall_mem_singleton.mpr hheading)]
      · rw [hsplit, List.append_assoc]
      · dsimp only
        split
        case isTrue hnone => rw [h.offset, hsplit, hnone, List.append_nil]
        case isFalse hne => exact hstart hne
      · exact fun other hother => (List.mem_append.mp hother).elim (hplain other)
          fun hlast => (List.mem_singleton.mp hlast) ▸ hheading

theorem walked_foldl (todo : List (List Char)) : ∀ {done : List (List Char)} {s : SectionState},
    Walked content done s → unlines (done ++ todo) <+: content ++ ['\n'] →
    Walked content (done ++ todo) (todo.foldl SectionState.next s) := by
  induction todo with
  | nil =>
      intro done s h _
      rw [List.append_nil]
      exact h
  | cons line rest ih =>
      intro done s h hdone
      rw [← List.singleton_append, ← List.append_assoc] at hdone ⊢
      refine ih (h.next ?_) hdone
      rw [unlines_append] at hdone
      exact (List.prefix_append _ _).trans hdone

/-- The sections of a document lie in it, one after another, and cover its lines. -/
structure Cut (content : List Char) (sections : List Section) : Prop where
  located : ∀ piece ∈ sections, piece.Located content
  sorted : sections.Pairwise fun a b => a.start + a.text.length ≤ b.start
  covers : CoversLines content sections (splitLines content)

theorem cut_markdownSections (content : List Char) : Cut content (markdownSections content) := by
  have hwhole : unlines (splitLines content) <+: content ++ ['\n'] :=
    (unlines_splitLines content) ▸ List.prefix_rfl
  have hwalked := walked_foldl (splitLines content) (walked_nil content) hwhole
  have hflushed := hwalked.flush hwhole
  obtain ⟨before, hsplit, _, _, _, hcovers⟩ := hflushed.lines
  obtain rfl : splitLines content = before := hsplit.trans (List.append_nil _)
  unfold markdownSections
  dsimp only
  split
  case isFalse => exact ⟨hflushed.located, hflushed.sorted, hcovers⟩
  case isTrue hnone =>
    -- headings only: the document as it is
    refine ⟨List.forall_mem_singleton.mpr ?_, List.pairwise_singleton _ _, ?_⟩
    · exact (located_of_append [] List.prefix_rfl hnone.2 []).1
    · intro earlier line later left c right hlines hplain hline hc
      obtain ⟨piece, hpiece, _⟩ := hcovers earlier line later left c right hlines hplain hline hc
      rw [hnone.1] at hpiece
      cases hpiece

/-! ## Windows -/

variable (limits : ChunkLimits) (length : ℕ)

/-- The windows lie within the text and begin one after another. -/
theorem windows_bounds (fuel : ℕ) : ∀ cursor, (∀ window ∈ windows limits length fuel cursor,
    cursor ≤ window.1 ∧ window.1 < window.2 ∧ window.2 ≤ length ∧
      window.2 ≤ window.1 + limits.maxChunkChars) ∧
    (windows limits length fuel cursor).Pairwise fun a b => a.1 < b.1 := by
  have hoverlap := limits.overlap_lt
  induction fuel with
  | zero => exact fun cursor => ⟨List.forall_mem_nil _, List.Pairwise.nil⟩
  | succ fuel ih =>
      intro cursor
      unfold windows
      split
      case isFalse => exact ⟨List.forall_mem_nil _, List.Pairwise.nil⟩
      case isTrue hcursor =>
        dsimp only
        split
        -- the last window reaches the end
        case isTrue hlast =>
          exact ⟨List.forall_mem_singleton.mpr ⟨le_rfl, by omega, by omega, by omega⟩,
            List.pairwise_singleton _ _⟩
        -- the next one starts further on, since the overlap is shorter than a window
        case isFalse hmore =>
          obtain ⟨hbounds, hsorted⟩ :=
            ih (min length (cursor + limits.maxChunkChars) - limits.overlapChars)
          refine ⟨List.forall_mem_cons.mpr ⟨⟨le_rfl, by omega, by omega, by omega⟩, ?_⟩,
            List.pairwise_cons.mpr ⟨?_, hsorted⟩⟩
          · intro window hwindow
            obtain ⟨hlow, hrest⟩ := hbounds window hwindow
            exact ⟨by omega, hrest⟩
          · intro window hwindow
            have hlow := (hbounds window hwindow).1
            dsimp only
            omega

end

end ChangePilot
