import ChangePilot.Library.StagedTable

/-!
# Inserting and updating rows one at a time

A database changes a table statement by statement, and each statement can fail.
`insertAll` and `updateAll` are loops of such statements: an insertion needs the
consent of the constraints on the table as it is then, an update needs a row that
matches.  Before an update is executed, its parameters are bound, which can fail as well.
The lemmas say what a loop makes of the table when every statement succeeds, and when one
fails.

Each of them is an induction on the rows.  What carries it is that the keys are distinct: a
statement leaves the rows of the later statements as they were (`matches_put`).
-/

namespace KeyedTable

variable {V W K C ε : Type} [LinearOrder K] {key : V → K} {key' : W → K}

/-! ## Projecting rows -/

/-- A column projection that keeps the key. -/
def mapRows (t : KeyedTable key) (f : V → W) (hf : ∀ v, key' (f v) = key v) : KeyedTable key' :=
  ⟨t.rows.map f, List.pairwise_map.mpr (t.sorted.imp fun h => by rwa [hf, hf])⟩

theorem get_mapRows {t : KeyedTable key} {f : V → W} (hf : ∀ v, key' (f v) = key v) (k : K) :
    (t.mapRows f hf).get k = (t.get k).map f := by
  cases hget : t.get k with
  | none =>
      rw [get_eq_none_iff] at hget
      rw [Option.map_none, get_eq_none_iff]
      intro w hw
      obtain ⟨v, hv, rfl⟩ := List.mem_map.mp hw
      rw [hf]
      exact hget v hv
  | some v =>
      obtain ⟨hv, rfl⟩ := t.get_eq_some_iff.mp hget
      exact (get_eq_some_iff _).mpr ⟨List.mem_map_of_mem hv, hf v⟩

theorem mapRows_put (t : KeyedTable key) {f : V → W} (hf : ∀ v, key' (f v) = key v) (v : V) :
    (t.put v).mapRows f hf = (t.mapRows f hf).put (f v) := by
  refine ext_get fun k => ?_
  rw [get_mapRows, get_put, get_put, get_mapRows, hf]
  split <;> rfl

theorem mapRows_self (t : KeyedTable key) : t.mapRows (fun v => v) (fun _ => rfl) = t := by
  refine ext_get fun k => ?_
  rw [get_mapRows]
  exact Option.map_id'

theorem mapRows_foldl_put {f : V → W} (hf : ∀ v, key' (f v) = key v) {rows : List V} :
    ∀ {t : KeyedTable key},
      (rows.foldl put t).mapRows f hf = (rows.map f).foldl put (t.mapRows f hf) := by
  induction rows with
  | nil => exact fun {t} => rfl
  | cons v rest ih =>
      intro t
      rw [List.foldl_cons, ih, mapRows_put, List.map_cons, List.foldl_cons]

/-! ## Several rows -/

theorem get_foldl_put_of_nodup {rows : List V} : ∀ {t : KeyedTable key}, (rows.map key).Nodup →
    ∀ k, (rows.foldl put t).get k = (rows.find? fun v => key v = k).or (t.get k) := by
  induction rows with
  | nil => intro t _ k; rfl
  | cons v rest ih =>
      intro t hnodup k
      obtain ⟨hv, hrest⟩ := List.nodup_cons.mp hnodup
      rw [List.foldl_cons, ih hrest, List.find?_cons]
      by_cases hk : key v = k
      · subst hk
        have hnone : rest.find? (fun w => key w = key v) = none := by
          rw [List.find?_eq_none]
          intro w hw
          simp only [decide_eq_true_eq]
          intro heq
          exact hv (heq ▸ List.mem_map_of_mem hw)
        simp [hnone]
      · simp [hk, get_put_ne t (v := v) (k := k) (Ne.symm hk)]

/-! ## Insertion -/

/-- Insert rows one after another, each when the constraints allow it. -/
def insertAll (allow : KeyedTable key → V → Except ε Unit) :
    KeyedTable key → List V → Except ε (KeyedTable key)
  | t, [] => .ok t
  | t, v :: rest => do
      allow t v
      insertAll allow (t.put v) rest

/-- Rows with new and distinct keys are inserted where nothing else is asked of them. -/
theorem insertAll_eq_ok {allow : KeyedTable key → V → Except ε Unit} {rows : List V}
    (hallow : ∀ (t : KeyedTable key), ∀ v ∈ rows, t.get (key v) = none → allow t v = .ok ()) :
    ∀ {t : KeyedTable key}, (rows.map key).Nodup → (∀ v ∈ rows, t.get (key v) = none) →
      insertAll allow t rows = .ok (rows.foldl put t) := by
  induction rows with
  | nil => exact fun _ _ => rfl
  | cons v rest ih =>
      intro t hnodup hnew
      obtain ⟨hv, hrest⟩ := List.nodup_cons.mp hnodup
      have hfresh : ∀ w ∈ rest, (t.put v).get (key w) = none := by
        intro w hw
        have hne : key w ≠ key v := fun heq => hv (heq ▸ List.mem_map_of_mem hw)
        rw [get_put_ne t hne]
        exact hnew w (List.mem_cons_of_mem _ hw)
      rw [insertAll, hallow t v (List.mem_cons_self ..) (hnew v (List.mem_cons_self ..))]
      exact ih (fun t w hw => hallow t w (List.mem_cons_of_mem _ hw)) hrest hfresh

/-- Where all rows have been inserted, each of them has been allowed. -/
theorem exists_allow_of_insertAll {allow : KeyedTable key → V → Except ε Unit} {rows : List V} :
    ∀ {t u : KeyedTable key}, insertAll allow t rows = .ok u →
      ∀ v ∈ rows, ∃ table, allow table v = .ok () := by
  induction rows with
  | nil => exact fun _ v hv => absurd hv List.not_mem_nil
  | cons first rest ih =>
      intro t u h v hv
      rw [insertAll, Except.bind_eq_ok_iff] at h
      obtain ⟨_, hfirst, hrest⟩ := h
      rcases List.mem_cons.mp hv with rfl | hv
      · exact ⟨t, hfirst⟩
      · exact ih hrest v hv

/-! ## Update -/

/-- Update rows one after another, each when its parameters can be bound and the row under
the key matches. -/
def updateAll (bound : C → Except ε Unit) (keyOf : C → K) (matching : V → C → Bool)
    (write : V → C → V) (allow : KeyedTable key → V → Except ε Unit)
    (fail : KeyedTable key → C → ε) : KeyedTable key → List C → Except ε (KeyedTable key)
  | t, [] => .ok t
  | t, change :: rest => do
      bound change
      match (t.get (keyOf change)).filter fun old => matching old change with
      | none => .error (fail t change)
      | some old => do
          allow t (write old change)
          updateAll bound keyOf matching write allow fail (t.put (write old change)) rest

section

variable {bound : C → Except ε Unit} {keyOf : C → K} {matching : V → C → Bool} {write : V → C → V}
  {allow : KeyedTable key → V → Except ε Unit} {fail : KeyedTable key → C → ε}

/-- The row that the change replaces is there. -/
def Matches (keyOf : C → K) (matching : V → C → Bool) (t : KeyedTable key) (change : C) : Prop :=
  ∃ old, t.get (keyOf change) = some old ∧ matching old change = true

theorem matches_put {t : KeyedTable key} {v : V} {change : C} (hne : keyOf change ≠ key v) :
    Matches keyOf matching (t.put v) change ↔ Matches keyOf matching t change := by
  unfold Matches
  rw [get_put_ne t hne]

/-- When every change finds its row, the projections of the written rows are put in place. -/
theorem updateAll_eq_ok {f : V → W} (hf : ∀ v, key' (f v) = key v) {g : C → W}
    (hwrite : ∀ old change, f (write old change) = g change)
    (hkey : ∀ old change, key (write old change) = keyOf change)
    {changes : List C} (hbound : ∀ change ∈ changes, bound change = .ok ())
    (hallow : ∀ (t : KeyedTable key), ∀ change ∈ changes, ∀ old, matching old change = true →
      allow t (write old change) = .ok ()) :
    ∀ {t : KeyedTable key}, (changes.map keyOf).Nodup →
      (∀ change ∈ changes, Matches keyOf matching t change) →
      ∃ u, updateAll bound keyOf matching write allow fail t changes = .ok u ∧
        u.mapRows f hf = (changes.map g).foldl put (t.mapRows f hf) := by
  induction changes with
  | nil => exact fun {t} _ _ => ⟨t, rfl, rfl⟩
  | cons change rest ih =>
      intro t hnodup hmatches
      obtain ⟨hchange, hrest⟩ := List.nodup_cons.mp hnodup
      obtain ⟨old, hget, hmatch⟩ := hmatches change (List.mem_cons_self ..)
      -- the rows of the other changes are still there
      have hlater : ∀ other ∈ rest,
          Matches keyOf matching (t.put (write old change)) other := by
        intro other hother
        have hne : keyOf other ≠ key (write old change) := by
          rw [hkey]
          exact fun heq => hchange (heq ▸ List.mem_map_of_mem hother)
        exact (matches_put hne).mpr (hmatches other (List.mem_cons_of_mem _ hother))
      obtain ⟨u, hu, hrows⟩ := ih (fun other hother => hbound other (List.mem_cons_of_mem _ hother))
        (fun t other hother => hallow t other (List.mem_cons_of_mem _ hother)) hrest hlater
      refine ⟨u, ?_, ?_⟩
      -- the statement finds its row and is allowed
      · rw [updateAll, Except.bind_of_eq_ok (hbound change (List.mem_cons_self ..)), hget,
          Option.filter_some, if_pos hmatch]
        show (do allow t (write old change); updateAll bound keyOf matching write allow fail _ rest) = _
        rw [hallow t change (List.mem_cons_self ..) old hmatch]
        exact hu
      · rw [hrows, mapRows_put, hwrite, List.map_cons, List.foldl_cons]

/-- Where all updates have been executed, the parameters of each have been bound. -/
theorem bound_of_updateAll {changes : List C} :
    ∀ {t u : KeyedTable key}, updateAll bound keyOf matching write allow fail t changes = .ok u →
      ∀ change ∈ changes, bound change = .ok () := by
  induction changes with
  | nil => exact fun _ change hchange => absurd hchange List.not_mem_nil
  | cons first rest ih =>
      intro t u h change hchange
      rw [updateAll, Except.bind_eq_ok_iff] at h
      obtain ⟨_, hfirst, h⟩ := h
      split at h
      case h_1 => cases h
      case h_2 =>
        obtain ⟨_, _, hrest⟩ := Except.bind_eq_ok_iff.mp h
        rcases List.mem_cons.mp hchange with rfl | hchange
        · exact hfirst
        · exact ih hrest change hchange

/-- A column that no update writes stays as it was. -/
theorem get_updateAll {γ : Type} {column : V → γ}
    (hcolumn : ∀ old change, column (write old change) = column old)
    (hkey : ∀ old change, key (write old change) = keyOf change) {changes : List C} :
    ∀ {t u : KeyedTable key}, updateAll bound keyOf matching write allow fail t changes = .ok u →
      ∀ k, (u.get k).map column = (t.get k).map column := by
  induction changes with
  | nil =>
      intro t u h k
      cases h
      rfl
  | cons change rest ih =>
      intro t u h k
      rw [updateAll, Except.bind_eq_ok_iff] at h
      obtain ⟨_, _, h⟩ := h
      split at h
      case h_1 => cases h
      case h_2 old hold =>
        obtain ⟨hget, _⟩ := Option.filter_eq_some_iff.mp hold
        rw [Except.bind_eq_ok_iff] at h
        obtain ⟨_, _, hrest⟩ := h
        rw [ih hrest k, get_put, hkey]
        split
        case isTrue heq => rw [heq, hget, Option.map_some, Option.map_some, hcolumn]
        case isFalse => rfl

/-- When some change does not find its row, the loop fails at one that does not. -/
theorem updateAll_eq_error (hkey : ∀ old change, key (write old change) = keyOf change)
    {changes : List C} (hbound : ∀ change ∈ changes, bound change = .ok ())
    (hallow : ∀ (t : KeyedTable key), ∀ change ∈ changes, ∀ old, matching old change = true →
      allow t (write old change) = .ok ()) :
    ∀ {t : KeyedTable key}, (changes.map keyOf).Nodup →
      (∃ change ∈ changes, ¬ Matches keyOf matching t change) →
      ∃ table change, updateAll bound keyOf matching write allow fail t changes =
        .error (fail table change) := by
  induction changes with
  | nil =>
      rintro t _ ⟨_, hchange, _⟩
      exact absurd hchange List.not_mem_nil
  | cons change rest ih =>
      rintro t hnodup ⟨missing, hmissing, hnot⟩
      obtain ⟨hchange, hrest⟩ := List.nodup_cons.mp hnodup
      rw [updateAll, Except.bind_of_eq_ok (hbound change (List.mem_cons_self ..))]
      -- the first statement that finds no row fails
      cases hfound : (t.get (keyOf change)).filter fun old => matching old change with
      | none => exact ⟨t, change, rfl⟩
      | some old =>
          obtain ⟨hget, hmatch⟩ := Option.filter_eq_some_iff.mp hfound
          rcases List.mem_cons.mp hmissing with rfl | hmissing
          · exact absurd ⟨old, hget, hmatch⟩ hnot
          -- it is one of the others, whose row this change leaves alone
          · have hne : keyOf missing ≠ key (write old change) := by
              rw [hkey]
              exact fun heq => hchange (heq ▸ List.mem_map_of_mem hmissing)
            obtain ⟨table, failing, hfail⟩ := ih
              (fun other hother => hbound other (List.mem_cons_of_mem _ hother))
              (fun t other hother => hallow t other (List.mem_cons_of_mem _ hother)) hrest
              ⟨missing, hmissing, fun h => hnot ((matches_put hne).mp h)⟩
            refine ⟨table, failing, ?_⟩
            show (do allow t (write old change); updateAll bound keyOf matching write allow fail _ rest) = _
            rw [hallow t change (List.mem_cons_self ..) old hmatch]
            exact hfail

end

end KeyedTable

/-! ## The rows that a staged table writes -/

namespace StagedTable

variable {V K : Type} [LinearOrder K] {key : V → K}

attribute [local instance] KeyedTable.decidableMemKeys

/-- The added records. -/
def addedRows (t : StagedTable key) : List V := t.added.filterMap t.rows.get

/-- The saved records that are not new. -/
def savedRows (t : StagedTable key) : List V :=
  (t.saved.filter fun k => k ∉ t.added).filterMap t.rows.get

/-- The revision that is expected under a key. -/
def expectedAt (t : StagedTable key) (k : K) : Option ℤ :=
  (t.expected.find? fun entry => entry.1 = k).map Prod.snd

/-- The saved records that are not new, with the revisions that they replace. -/
def replacements (t : StagedTable key) : List (V × ℤ) :=
  t.savedRows.filterMap fun v => (t.expectedAt (key v)).map fun revision => (v, revision)

theorem mem_filterMap_get {rows : KeyedTable key} {keys : List K} {v : V} :
    v ∈ keys.filterMap rows.get ↔ key v ∈ keys ∧ rows.get (key v) = some v := by
  rw [List.mem_filterMap]
  constructor
  · rintro ⟨k, hk, hget⟩
    obtain ⟨_, rfl⟩ := rows.get_eq_some_iff.mp hget
    exact ⟨hk, hget⟩
  · exact fun ⟨hk, hget⟩ => ⟨key v, hk, hget⟩

theorem mem_addedRows {t : StagedTable key} {v : V} :
    v ∈ t.addedRows ↔ key v ∈ t.added ∧ t.rows.get (key v) = some v :=
  mem_filterMap_get

theorem mem_savedRows {t : StagedTable key} {v : V} :
    v ∈ t.savedRows ↔ (key v ∈ t.saved ∧ key v ∉ t.added) ∧ t.rows.get (key v) = some v := by
  rw [savedRows, mem_filterMap_get, List.mem_filter, decide_eq_true_eq]

theorem map_key_filterMap_get {rows : KeyedTable key} {keys : List K}
    (hpresent : ∀ k ∈ keys, (rows.get k).isSome) : (keys.filterMap rows.get).map key = keys := by
  induction keys with
  | nil => rfl
  | cons k rest ih =>
      obtain ⟨v, hv⟩ := Option.isSome_iff_exists.mp (hpresent k (List.mem_cons_self ..))
      rw [List.filterMap_cons, hv, List.map_cons, (rows.get_eq_some_iff.mp hv).2,
        ih fun k hk => hpresent k (List.mem_cons_of_mem _ hk)]

theorem find?_filterMap_get {rows : KeyedTable key} {keys : List K} (k : K) :
    ((keys.filterMap rows.get).find? fun v => key v = k) =
      if k ∈ keys then rows.get k else none := by
  split
  case isTrue hk =>
    -- no record of that key
    cases hget : rows.get k with
    | none =>
        rw [List.find?_eq_none]
        intro v hv
        obtain ⟨_, hrow⟩ := mem_filterMap_get.mp hv
        simp only [decide_eq_true_eq]
        rintro rfl
        rw [hget] at hrow
        cases hrow
    -- the record is among those listed, and the only one of its key
    | some v =>
        obtain ⟨_, rfl⟩ := rows.get_eq_some_iff.mp hget
        have hv : v ∈ keys.filterMap rows.get := mem_filterMap_get.mpr ⟨hk, hget⟩
        cases hfind : (keys.filterMap rows.get).find? fun w => key w = key v with
        | none => simpa using List.find?_eq_none.mp hfind v hv
        | some w =>
            have hkey : key w = key v := by simpa using List.find?_some hfind
            have hw := (mem_filterMap_get.mp (List.mem_of_find?_eq_some hfind)).2
            rw [hkey, hget] at hw
            exact hw.symm
  case isFalse hk =>
    rw [List.find?_eq_none]
    intro v hv
    simp only [decide_eq_true_eq]
    rintro rfl
    exact hk (mem_filterMap_get.mp hv).1

theorem map_key_addedRows (t : StagedTable key) : t.addedRows.map key = t.added :=
  map_key_filterMap_get fun k hk => t.present k (List.mem_append_left _ hk)

theorem map_key_savedRows (t : StagedTable key) :
    t.savedRows.map key = t.saved.filter fun k => k ∉ t.added :=
  map_key_filterMap_get fun k hk =>
    t.present k (List.mem_append_right _ (List.mem_of_mem_filter hk))

theorem nodup_addedRows (t : StagedTable key) : (t.addedRows.map key).Nodup := by
  rw [map_key_addedRows]
  exact t.nodup_added

theorem nodup_savedRows (t : StagedTable key) : (t.savedRows.map key).Nodup := by
  rw [map_key_savedRows]
  exact t.nodup_saved.filter _

/-- Putting the added records in place leaves the others alone. -/
theorem get_foldl_addedRows {t : StagedTable key} {base : KeyedTable key} {k : K}
    (hk : k ∉ t.added) : (t.addedRows.foldl KeyedTable.put base).get k = base.get k := by
  rw [KeyedTable.get_foldl_put_of_nodup t.nodup_addedRows, addedRows, find?_filterMap_get,
    if_neg hk, Option.none_or]

/-- Publication puts the added records and then the saved ones. -/
theorem publish_eq_foldl (t : StagedTable key) (store : KeyedTable key) :
    t.publish store = t.savedRows.foldl KeyedTable.put (t.addedRows.foldl KeyedTable.put store) := by
  refine KeyedTable.ext_get fun k => ?_
  rw [get_publish, KeyedTable.get_foldl_put_of_nodup t.nodup_savedRows,
    KeyedTable.get_foldl_put_of_nodup t.nodup_addedRows]
  unfold savedRows addedRows
  rw [find?_filterMap_get, find?_filterMap_get]
  by_cases hadded : k ∈ t.added
  · obtain ⟨v, hv⟩ := Option.isSome_iff_exists.mp (t.present k (List.mem_append_left _ hadded))
    rw [if_pos (Or.inl hadded), if_neg (by simp [hadded]), if_pos hadded, hv]
    rfl
  · by_cases hsaved : k ∈ t.saved
    · obtain ⟨v, hv⟩ := Option.isSome_iff_exists.mp (t.present k (List.mem_append_right _ hsaved))
      rw [if_pos (Or.inr hsaved), if_pos (by simp [hadded, hsaved]), hv]
      rfl
    · rw [if_neg (by simp [hadded, hsaved]), if_neg (by simp [hsaved]), if_neg hadded]
      rfl

/-- A record that is in the table or added is there after publication. -/
theorem isSome_get_publish {t : StagedTable key} {store : KeyedTable key} {k : K}
    (h : (store.get k).isSome ∨ k ∈ t.added) : ((t.publish store).get k).isSome := by
  rw [get_publish]
  split
  case isTrue hk => exact t.present k (List.mem_append.mpr hk)
  case isFalse hk => exact h.resolve_right fun hadded => hk (Or.inl hadded)

/-! ## Replacements that fit -/

/-- The copy was changed as the ports ask: what is saved is in the table or added, once
for each key, at the revision after the one that is expected. -/
structure Prepared (revision : V → ℤ) (base : KeyedTable key) (t : StagedTable key) : Prop where
  guarded : t.Guarded
  visible : ∀ k, (t.rows.get k).isSome → (base.get k).isSome ∨ k ∈ t.added
  held : ∀ entry ∈ t.expected, (base.get entry.1).isSome
  nodup : (t.expected.map Prod.fst).Nodup
  next : ∀ entry ∈ t.expected, entry.1 ∉ t.added →
    ∃ v, t.rows.get entry.1 = some v ∧ revision v = entry.2 + 1

variable {revision : V → ℤ} {base : KeyedTable key} {t : StagedTable key}

theorem prepared_copy (rows : KeyedTable key) : Prepared revision rows (copy rows) where
  guarded := guarded_copy rows
  visible _ h := Or.inl h
  held _ h := absurd h List.not_mem_nil
  nodup := List.nodup_nil
  next _ h := absurd h List.not_mem_nil

/-- A larger table lets the same changes in. -/
theorem Prepared.mono (h : Prepared revision base t) {larger : KeyedTable key}
    (hgrown : ∀ k, (base.get k).isSome → (larger.get k).isSome) : Prepared revision larger t where
  guarded := h.guarded
  visible k hk := (h.visible k hk).imp_left (hgrown k)
  held entry hentry := hgrown entry.1 (h.held entry hentry)
  nodup := h.nodup
  next := h.next

theorem Prepared.add (h : Prepared revision base t) (v : V) : Prepared revision base (t.add v) where
  guarded := h.guarded.add v
  visible k hk := by
    rw [mem_added_add]
    by_cases heq : key v = k
    · exact Or.inr (Or.inr heq)
    · rw [rows_add, KeyedTable.get_put_ne _ (Ne.symm heq)] at hk
      exact (h.visible k hk).imp_right Or.inl
  held := h.held
  nodup := h.nodup
  next entry hentry hnew := by
    rw [mem_added_add, not_or] at hnew
    obtain ⟨w, hw, hrevision⟩ := h.next entry hentry hnew.1
    exact ⟨w, by rw [rows_add, KeyedTable.get_put_ne _ (Ne.symm hnew.2), hw], hrevision⟩

/-- A save of a record that is there and was not saved before. -/
theorem Prepared.save (h : Prepared revision base t) {v : V} {expected : ℤ}
    (hvisible : (t.rows.get (key v)).isSome) (hfirst : key v ∉ t.saved)
    (hrevision : revision v = expected + 1) : Prepared revision base (t.save v expected) where
  guarded := h.guarded.save v expected
  -- a record that is visible in the copy is held by the table or added
  visible k hk := by
    rw [added_save]
    by_cases heq : k = key v
    · exact heq ▸ h.visible (key v) hvisible
    · rw [rows_save, KeyedTable.get_put_ne _ heq] at hk
      exact h.visible k hk
  held entry hentry := by
    rw [expected_save] at hentry
    split at hentry
    case isTrue => exact h.held entry hentry
    case isFalse hunknown =>
      rcases List.mem_append.mp hentry with hentry | hentry
      · exact h.held entry hentry
      · obtain rfl := List.mem_singleton.mp hentry
        -- the saved record was not added, for its revision is now expected
        exact (h.visible _ hvisible).resolve_right fun hadded => hunknown (Or.inl hadded)
  nodup := by
    rw [expected_save]
    split
    case isTrue => exact h.nodup
    case isFalse hunknown =>
      rw [List.map_append, List.nodup_append]
      refine ⟨h.nodup, List.nodup_singleton _, ?_⟩
      intro k hk other hother heq
      have hlast : other = key v := List.mem_singleton.mp hother
      rw [heq, hlast] at hk
      exact hunknown (Or.inr hk)
  next entry hentry hnew := by
    rw [added_save] at hnew
    -- the earlier records are at the revisions they had
    have hold : ∀ entry ∈ t.expected, entry.1 ∉ t.added →
        ∃ w, (t.save v expected).rows.get entry.1 = some w ∧ revision w = entry.2 + 1 := by
      intro entry hentry hnew
      obtain ⟨w, hw, hnext⟩ := h.next entry hentry hnew
      have hne : entry.1 ≠ key v := fun heq => hfirst (heq ▸ h.guarded.saved entry hentry)
      exact ⟨w, by rw [rows_save, KeyedTable.get_put_ne _ hne, hw], hnext⟩
    rw [expected_save] at hentry
    split at hentry
    case isTrue => exact hold entry hentry hnew
    case isFalse =>
      rcases List.mem_append.mp hentry with hentry | hentry
      · exact hold entry hentry hnew
      · obtain rfl := List.mem_singleton.mp hentry
        exact ⟨v, by rw [rows_save, KeyedTable.get_put_self], hrevision⟩

section

variable (h : Prepared revision base t)
  (hnew : ∀ k ∈ t.added, base.get k = none)

include h

theorem Prepared.expectedAt {entry : K × ℤ} (hentry : entry ∈ t.expected) :
    t.expectedAt entry.1 = some entry.2 := by
  unfold StagedTable.expectedAt
  cases hfind : t.expected.find? fun other => other.1 = entry.1 with
  | none => simpa using List.find?_eq_none.mp hfind entry hentry
  | some other =>
      have hkey : other.1 = entry.1 := by simpa using List.find?_some hfind
      have heq : other = entry := List.inj_on_of_nodup_map h.nodup
        (List.mem_of_find?_eq_some hfind) hentry hkey
      rw [heq]
      rfl

theorem Prepared.expectedAt_of_mem {v : V} (hv : v ∈ t.savedRows) :
    ∃ entry ∈ t.expected, entry.1 = key v := by
  obtain ⟨⟨hsaved, hadded⟩, _⟩ := mem_savedRows.mp hv
  obtain ⟨entry, hentry, heq⟩ := List.mem_map.mp ((h.guarded.known _ hsaved).resolve_left hadded)
  exact ⟨entry, hentry, heq⟩

theorem Prepared.map_replacements : t.replacements.map Prod.fst = t.savedRows := by
  have hall : ∀ rows : List V, (∀ v ∈ rows, (t.expectedAt (key v)).isSome) →
      (rows.filterMap fun v => (t.expectedAt (key v)).map fun revision => (v, revision)).map
        Prod.fst = rows := by
    intro rows
    induction rows with
    | nil => exact fun _ => rfl
    | cons v rest ih =>
        intro hrows
        obtain ⟨r, hr⟩ := Option.isSome_iff_exists.mp (hrows v (List.mem_cons_self ..))
        rw [List.filterMap_cons, hr, Option.map_some, List.map_cons,
          ih fun w hw => hrows w (List.mem_cons_of_mem _ hw)]
  refine hall t.savedRows fun v hv => ?_
  obtain ⟨entry, hentry, heq⟩ := h.expectedAt_of_mem hv
  rw [← heq, h.expectedAt hentry]
  rfl

theorem Prepared.nodup_replacements : (t.replacements.map fun change => key change.1).Nodup := by
  have := t.nodup_savedRows
  rwa [← h.map_replacements, List.map_map] at this

theorem Prepared.revision_replacements {change : V × ℤ} (hchange : change ∈ t.replacements) :
    revision change.1 = change.2 + 1 := by
  obtain ⟨v, hv, hmap⟩ := List.mem_filterMap.mp hchange
  obtain ⟨entry, hentry, hkey⟩ := h.expectedAt_of_mem hv
  rw [← hkey, h.expectedAt hentry] at hmap
  obtain rfl := Option.some.inj hmap
  obtain ⟨⟨_, hadded⟩, hget⟩ := mem_savedRows.mp hv
  rw [← hkey] at hadded
  obtain ⟨w, hw, hrevision⟩ := h.next entry hentry hadded
  rw [hkey, hget] at hw
  exact Option.some.inj hw ▸ hrevision

include hnew

/-- Every replacement finds its row, in a table that differs from the base in the added
records only, exactly when every expected revision is there. -/
theorem Prepared.forall_replacements {table : KeyedTable key}
    (htable : ∀ k ∉ t.added, table.get k = base.get k) :
    (∀ change ∈ t.replacements, ∃ old, table.get (key change.1) = some old ∧
        revision old = change.2) ↔
      ∀ entry ∈ t.expected, base.revisionAt revision entry.1 = entry.2 := by
  -- a record that was added is expected at no revision
  have hold : ∀ entry ∈ t.expected, entry.1 ∉ t.added := by
    intro entry hentry hadded
    have hheld := h.held entry hentry
    rw [hnew _ hadded] at hheld
    cases hheld
  -- every expected revision belongs to one replacement
  constructor
  · intro hall entry hentry
    obtain ⟨v, hv, _⟩ := h.next entry hentry (hold entry hentry)
    obtain ⟨_, hkey⟩ := t.rows.get_eq_some_iff.mp hv
    have hrow : v ∈ t.savedRows := mem_savedRows.mpr
      ⟨⟨hkey ▸ h.guarded.saved entry hentry, hkey ▸ hold entry hentry⟩, hkey ▸ hv⟩
    have hchange : (v, entry.2) ∈ t.replacements :=
      List.mem_filterMap.mpr ⟨v, hrow, by rw [hkey, h.expectedAt hentry]; rfl⟩
    obtain ⟨old, hget, hrevision⟩ := hall _ hchange
    rw [hkey, htable _ (hold entry hentry)] at hget
    rw [KeyedTable.revisionAt_of_get hget, hrevision]
  -- and every replacement to one expected revision
  · intro hall change hchange
    obtain ⟨v, hv, hmap⟩ := List.mem_filterMap.mp hchange
    obtain ⟨entry, hentry, hkey⟩ := h.expectedAt_of_mem hv
    rw [← hkey, h.expectedAt hentry] at hmap
    obtain rfl := Option.some.inj hmap
    obtain ⟨old, hget⟩ := Option.isSome_iff_exists.mp (h.held entry hentry)
    refine ⟨old, ?_, ?_⟩
    · rw [← hkey, htable _ (hold entry hentry), hget]
    · rw [← hall entry hentry, KeyedTable.revisionAt_of_get hget]

end

end StagedTable
