import ChangePilot.Library.KeyedTable
import ChangePilot.Library.Transaction
import Mathlib.Data.List.Nodup

/-!
# Tables under optimistic concurrency control

A writer copies a table, changes its copy, and later publishes what it changed
into the table as it then is.  `StagedTable` is the copy, with the keys that were
added, the keys that were saved, and the revision that the table is expected to
hold for a key whose record is replaced.

`checkAdded` and `checkExpected` are the two checks before publication.  A table
that passes them is changed at the added and the saved keys only (`get_publish`),
and where every replaced record moves past the revision it replaces, a record
that was above a revision stays above it (`above_publish`).
-/

namespace KeyedTable

variable {V K : Type} [LinearOrder K] {key : V → K}

theorem elem_keys_iff {k : K} {keys : List K} : keys.elem k = true ↔ k ∈ keys := List.elem_iff

/-- A key is looked for in a list by comparing it. -/
@[reducible] def decidableMemKeys (k : K) (keys : List K) : Decidable (k ∈ keys) :=
  decidable_of_iff (keys.elem k = true) elem_keys_iff

attribute [local instance] decidableMemKeys

/-- The revision of the record with the key `k`, and `-1` without one. -/
def revisionAt (t : KeyedTable key) (revision : V → ℤ) (k : K) : ℤ :=
  (t.get k).elim (-1) revision

theorem revisionAt_of_get {t : KeyedTable key} {revision : V → ℤ} {k : K} {v : V}
    (h : t.get k = some v) : t.revisionAt revision k = revision v := by
  simp [revisionAt, h]

/-- There is a record with the key `k`, and its revision is above `r`. -/
def Above (t : KeyedTable key) (revision : V → ℤ) (k : K) (r : ℤ) : Prop :=
  ∃ v, t.get k = some v ∧ r < revision v

theorem get_restrict_keys (t : KeyedTable key) (keys : List K) (k : K) :
    (t.restrict fun v => key v ∈ keys).get k = if k ∈ keys then t.get k else none := by
  split
  case isTrue hk =>
    cases hget : t.get k with
    | none =>
        rw [get_eq_none_iff] at hget ⊢
        exact fun v hv => hget v (mem_restrict.mp hv).1
    | some v =>
        obtain ⟨hv, rfl⟩ := t.get_eq_some_iff.mp hget
        exact (get_eq_some_iff _).mpr ⟨mem_restrict.mpr ⟨hv, by simpa using hk⟩, rfl⟩
  case isFalse hk =>
    rw [get_eq_none_iff]
    rintro v hv rfl
    exact hk (by simpa using (mem_restrict.mp hv).2)

end KeyedTable

/-- A copy of a table with the changes that were made to it. -/
structure StagedTable {V K : Type} [LinearOrder K] (key : V → K) where
  rows : KeyedTable key
  added : List K
  saved : List K
  expected : List (K × ℤ)
  nodup_added : added.Nodup
  nodup_saved : saved.Nodup
  present : ∀ k ∈ added ++ saved, (rows.get k).isSome

namespace StagedTable

variable {V K : Type} [LinearOrder K] {key : V → K} {revision : V → ℤ}

attribute [local instance] KeyedTable.decidableMemKeys

/-! ## The changes -/

/-- The copy before any change. -/
def copy (rows : KeyedTable key) : StagedTable key := 
  ⟨rows, [], [], [], List.nodup_nil, List.nodup_nil, by simp⟩

theorem isSome_get_put {rows : KeyedTable key} {keys : List K} {v : V}
    (h : ∀ k ∈ keys, (rows.get k).isSome) {k : K} (hk : k = key v ∨ k ∈ keys) :
    ((rows.put v).get k).isSome := by
  rw [KeyedTable.get_put]
  split
  case isTrue => rfl
  case isFalse hne => exact h k (hk.resolve_left hne)

theorem isSome_get_of_put {rows : KeyedTable key} {v : V} {k : K}
    (h : ((rows.put v).get k).isSome) : key v = k ∨ (rows.get k).isSome := by
  by_cases heq : key v = k
  · exact Or.inl heq
  · rw [KeyedTable.get_put_ne _ (Ne.symm heq)] at h
    exact Or.inr h

def add (t : StagedTable key) (v : V) : StagedTable key where
  rows := t.rows.put v
  added := t.added.insert (key v)
  saved := t.saved
  expected := t.expected
  nodup_added := t.nodup_added.insert
  nodup_saved := t.nodup_saved
  present := by
    intro k hk
    refine isSome_get_put t.present ?_
    rcases List.mem_append.mp hk with hk | hk
    · exact (List.mem_insert_iff.mp hk).imp_right (List.mem_append_left _)
    · exact Or.inr (List.mem_append_right _ hk)

/-- Replace a record whatever its revision. -/
def replace (t : StagedTable key) (v : V) : StagedTable key where
  rows := t.rows.put v
  added := t.added
  saved := t.saved.insert (key v)
  expected := t.expected
  nodup_added := t.nodup_added
  nodup_saved := t.nodup_saved.insert
  present := by
    intro k hk
    refine isSome_get_put t.present ?_
    rcases List.mem_append.mp hk with hk | hk
    · exact Or.inr (List.mem_append_left _ hk)
    · exact (List.mem_insert_iff.mp hk).imp_right (List.mem_append_right _)

/-- Expect `revision` under `k`, unless the record is new or a revision is expected already. -/
def expect (t : StagedTable key) (k : K) (revision : ℤ) : StagedTable key :=
  if k ∈ t.added ∨ k ∈ t.expected.map Prod.fst then t
  else { t with expected := t.expected ++ [(k, revision)] }

/-- Replace a record that has the revision `expected` in the table. -/
def save (t : StagedTable key) (v : V) (expected : ℤ) : StagedTable key :=
  (t.replace v).expect (key v) expected

/-- Whether a key is among the saved ones. -/
def hasSaved (t : StagedTable key) (k : K) : Bool := t.saved.elem k

theorem hasSaved_iff {t : StagedTable key} {k : K} : t.hasSaved k = true ↔ k ∈ t.saved :=
  KeyedTable.elem_keys_iff

/-! ## Publication -/

/-- Fail for an added key that the table has. -/
def checkAdded {ε : Type} (t : StagedTable key) (store : KeyedTable key) (fail : K → ε) :
    Except ε Unit :=
  t.added.forM fun k => if (store.get k).isSome then .error (fail k) else .ok ()

/-- Fail for a key whose record has another revision than the one expected. -/
def checkExpected {ε : Type} (t : StagedTable key) (revision : V → ℤ) (store : KeyedTable key)
    (fail : K → ℤ → ℤ → ε) : Except ε Unit :=
  t.expected.forM fun (k, expected) =>
    if store.revisionAt revision k = expected then .ok ()
    else .error (fail k expected (store.revisionAt revision k))

/-- The table with the added and the saved records in place. -/
def publish (t : StagedTable key) (store : KeyedTable key) : KeyedTable key :=
  store.override (t.rows.restrict fun v => key v ∈ t.added ++ t.saved)

/-! ## What each change does -/

section

variable (t : StagedTable key) (v : V) (k : K) (r : ℤ)

@[simp] theorem rows_expect : (t.expect k r).rows = t.rows := by unfold expect; split <;> rfl

@[simp] theorem added_expect : (t.expect k r).added = t.added := by unfold expect; split <;> rfl

@[simp] theorem saved_expect : (t.expect k r).saved = t.saved := by unfold expect; split <;> rfl

@[simp] theorem rows_save : (t.save v r).rows = t.rows.put v := by simp [save, replace]

@[simp] theorem added_save : (t.save v r).added = t.added := by simp [save, replace]

@[simp] theorem saved_save : (t.save v r).saved = t.saved.insert (key v) := by simp [save, replace]

theorem expected_save : (t.save v r).expected =
    if key v ∈ t.added ∨ key v ∈ t.expected.map Prod.fst then t.expected
    else t.expected ++ [(key v, r)] := by
  show ((t.replace v).expect (key v) r).expected = _
  unfold expect
  split
  case isTrue hknown => exact (if_pos hknown).symm
  case isFalse hknown => exact (if_neg hknown).symm

theorem mem_added_add : k ∈ (t.add v).added ↔ k ∈ t.added ∨ key v = k := by
  show k ∈ t.added.insert (key v) ↔ _
  rw [List.mem_insert_iff, or_comm, eq_comm]

@[simp] theorem rows_add : (t.add v).rows = t.rows.put v := rfl

@[simp] theorem rows_replace : (t.replace v).rows = t.rows.put v := rfl

@[simp] theorem publish_copy (rows store : KeyedTable key) : (copy rows).publish store = store := by
  have hnone : rows.restrict (fun v => key v ∈ ([] : List K)) = .empty :=
    KeyedTable.ext_get fun k => by
      rw [KeyedTable.get_restrict_keys, KeyedTable.get_empty, if_neg (List.not_mem_nil)]
  unfold publish copy
  rw [List.append_nil, hnone, KeyedTable.override_empty]

end

theorem get_publish (t : StagedTable key) (store : KeyedTable key) (k : K) :
    (t.publish store).get k =
      if k ∈ t.added ∨ k ∈ t.saved then t.rows.get k else store.get k := by
  unfold publish
  rw [KeyedTable.get_override, KeyedTable.get_restrict_keys]
  by_cases hk : k ∈ t.added ++ t.saved
  · obtain ⟨v, hv⟩ := Option.isSome_iff_exists.mp (t.present k hk)
    rw [if_pos hk, if_pos (List.mem_append.mp hk), hv, Option.some_or]
  · rw [if_neg hk, if_neg fun h => hk (List.mem_append.mpr h), Option.none_or]

/-- Changing one record of the copy, with its key marked, changes that record of
what is published. -/
theorem publish_eq_put {t u : StagedTable key} {v : V} (hrows : u.rows = t.rows.put v)
    (hkeys : ∀ k, (k ∈ u.added ∨ k ∈ u.saved) ↔ k = key v ∨ k ∈ t.added ∨ k ∈ t.saved)
    (store : KeyedTable key) : u.publish store = (t.publish store).put v := by
  refine KeyedTable.ext_get fun k => ?_
  rw [get_publish, hrows, KeyedTable.get_put, KeyedTable.get_put, get_publish]
  by_cases hk : k = key v
  · rw [if_pos ((hkeys k).mpr (Or.inl hk)), if_pos hk, if_pos hk]
  · by_cases hold : k ∈ t.added ∨ k ∈ t.saved
    · rw [if_pos ((hkeys k).mpr (Or.inr hold)), if_neg hk, if_neg hk, if_pos hold]
    · rw [if_neg fun h => ((hkeys k).mp h).elim hk hold, if_neg hk, if_neg hold]

theorem publish_add (t : StagedTable key) (v : V) (store : KeyedTable key) :
    (t.add v).publish store = (t.publish store).put v := by
  refine publish_eq_put rfl (fun k => ?_) store
  show (k ∈ t.added.insert (key v) ∨ k ∈ t.saved) ↔ _
  rw [List.mem_insert_iff, or_assoc]

theorem publish_replace (t : StagedTable key) (v : V) (store : KeyedTable key) :
    (t.replace v).publish store = (t.publish store).put v := by
  refine publish_eq_put rfl (fun k => ?_) store
  show (k ∈ t.added ∨ k ∈ t.saved.insert (key v)) ↔ _
  rw [List.mem_insert_iff, or_left_comm]

theorem publish_save (t : StagedTable key) (v : V) (r : ℤ) (store : KeyedTable key) :
    (t.save v r).publish store = (t.publish store).put v := by
  refine publish_eq_put (rows_save t v r) (fun k => ?_) store
  rw [added_save, saved_save, List.mem_insert_iff, or_left_comm]

/-! ## The checks -/

theorem checkAdded_eq_ok_iff {ε : Type} {t : StagedTable key} {store : KeyedTable key}
    {fail : K → ε} :
    t.checkAdded store fail = .ok () ↔ ∀ k ∈ t.added, store.get k = none := by
  rw [checkAdded, Except.forM_eq_ok_iff]
  refine forall₂_congr fun k _ => ?_
  cases store.get k <;> simp

theorem checkAdded_fails {ε : Type} {P : ε → Prop} {t : StagedTable key} {store : KeyedTable key}
    {fail : K → ε} (h : ∀ k, P (fail k)) : Except.Fails P (t.checkAdded store fail) := by
  refine Except.Fails.forM fun k _ => ?_
  split
  case isTrue => exact Except.fails_error (h k)
  case isFalse => exact Except.fails_ok

theorem checkExpected_fails {ε : Type} {P : ε → Prop} {t : StagedTable key}
    {store : KeyedTable key} {fail : K → ℤ → ℤ → ε} (h : ∀ k expected actual,
      P (fail k expected actual)) : Except.Fails P (t.checkExpected revision store fail) := by
  refine Except.Fails.forM fun (k, expected) _ => ?_
  show Except.Fails P (if store.revisionAt revision k = expected then .ok () else .error _)
  split
  case isTrue => exact Except.fails_ok
  case isFalse => exact Except.fails_error (h ..)

theorem checkExpected_eq_ok_iff {ε : Type} {t : StagedTable key} {store : KeyedTable key}
    {fail : K → ℤ → ℤ → ε} :
    t.checkExpected revision store fail = .ok () ↔
      ∀ entry ∈ t.expected, store.revisionAt revision entry.1 = entry.2 := by
  rw [checkExpected, Except.forM_eq_ok_iff]
  refine forall₂_congr fun entry _ => ?_
  simp

/-! ## Revisions -/

/-- Every saved record is new or has an expected revision, and only saved records do. -/
structure Guarded (t : StagedTable key) : Prop where
  known : ∀ k ∈ t.saved, k ∈ t.added ∨ k ∈ t.expected.map Prod.fst
  saved : ∀ entry ∈ t.expected, entry.1 ∈ t.saved

/-- Every replaced record is left above the revision that it is expected to have. -/
def Advances (t : StagedTable key) (revision : V → ℤ) : Prop :=
  ∀ entry ∈ t.expected, t.rows.Above revision entry.1 entry.2

theorem guarded_copy (rows : KeyedTable key) : (copy rows).Guarded where
  known _ hk := absurd hk List.not_mem_nil
  saved _ hentry := absurd hentry List.not_mem_nil

theorem Guarded.add {t : StagedTable key} (h : t.Guarded) (v : V) : (t.add v).Guarded where
  known k hk := (h.known k hk).imp_left fun hadded => List.mem_insert_of_mem hadded
  saved := h.saved

theorem mem_expect {t : StagedTable key} {k k' : K} {r : ℤ}
    (h : k' = k ∨ k' ∈ t.added ∨ k' ∈ t.expected.map Prod.fst) :
    k' ∈ (t.expect k r).added ∨ k' ∈ (t.expect k r).expected.map Prod.fst := by
  unfold expect
  split
  case isTrue hknown =>
    rcases h with rfl | h
    · exact hknown
    · exact h
  case isFalse =>
    rw [List.map_append, List.mem_append]
    rcases h with rfl | h | h
    · exact Or.inr (Or.inr (List.mem_singleton_self _))
    · exact Or.inl h
    · exact Or.inr (Or.inl h)

theorem mem_of_mem_expect {t : StagedTable key} {k : K} {r : ℤ} {entry : K × ℤ}
    (h : entry ∈ (t.expect k r).expected) : entry ∈ t.expected ∨ entry.1 = k := by
  unfold expect at h
  split at h
  case isTrue => exact Or.inl h
  case isFalse =>
    rcases List.mem_append.mp h with h | h
    · exact Or.inl h
    · exact Or.inr (congrArg Prod.fst (List.mem_singleton.mp h))

theorem Guarded.save {t : StagedTable key} (h : t.Guarded) (v : V) (r : ℤ) :
    (t.save v r).Guarded where
  known := by
    intro k hk
    rw [saved_save, List.mem_insert_iff] at hk
    exact mem_expect (hk.imp_right (h.known k))
  saved := by
    intro entry hentry
    rw [saved_save, List.mem_insert_iff]
    exact (mem_of_mem_expect hentry).symm.imp_right (h.saved entry)

/-- A record above `r` stays above `r`: it is not added again, and a record that
replaces it was expected at its revision and moves past it. -/
theorem above_publish {t : StagedTable key} {store : KeyedTable key} {k : K} {r : ℤ}
    (hguarded : t.Guarded) (hadvances : t.Advances revision)
    (hadded : ∀ k ∈ t.added, store.get k = none)
    (hexpected : ∀ entry ∈ t.expected, store.revisionAt revision entry.1 = entry.2)
    (h : store.Above revision k r) : (t.publish store).Above revision k r := by
  obtain ⟨v, hget, hr⟩ := h
  have hnew : k ∉ t.added := fun hk => by
    have := hadded k hk
    simp [hget] at this
  by_cases hsaved : k ∈ t.saved
  · obtain ⟨entry, hentry, rfl⟩ := List.mem_map.mp ((hguarded.known k hsaved).resolve_left hnew)
    obtain ⟨w, hw, hlt⟩ := hadvances entry hentry
    have hbase : revision v = entry.2 :=
      (KeyedTable.revisionAt_of_get hget).symm.trans (hexpected entry hentry)
    refine ⟨w, ?_, by omega⟩
    rw [get_publish, if_pos (Or.inr hsaved), hw]
  · refine ⟨v, ?_, hr⟩
    rw [get_publish, if_neg (not_or.mpr ⟨hnew, hsaved⟩), hget]

/-- What is published is above the expected revisions. -/
theorem above_of_advances {t : StagedTable key} (store : KeyedTable key) (hguarded : t.Guarded)
    (hadvances : t.Advances revision) {entry : K × ℤ} (hentry : entry ∈ t.expected) :
    (t.publish store).Above revision entry.1 entry.2 := by
  obtain ⟨w, hw, hlt⟩ := hadvances entry hentry
  exact ⟨w, by rw [get_publish, if_pos (Or.inr (hguarded.saved entry hentry)), hw], hlt⟩

/-- No revision is expected where the record is above it. -/
theorem not_above_of_expected {store : KeyedTable key} {entry : K × ℤ}
    (hexpected : store.revisionAt revision entry.1 = entry.2) :
    ¬ store.Above revision entry.1 entry.2 := by
  rintro ⟨v, hget, hlt⟩
  rw [KeyedTable.revisionAt_of_get hget] at hexpected
  omega

end StagedTable
