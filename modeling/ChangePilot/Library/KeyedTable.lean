import Mathlib.Order.Lattice
import Mathlib.Data.List.Basic
import Mathlib.Data.List.Pairwise
import Mathlib.Data.Option.Basic

/-!
# Tables of records that carry their own key

A `KeyedTable key` is a finite set of records with at most one record for each
value of `key`, stored in strictly increasing key order.  The order is a field
of the structure, so an unsorted table or one with a repeated key cannot be
built, and two tables with the same lookups are equal (`ext_get`).

`put` inserts or replaces a record, `override` puts every record of a second
table, and `restrict` keeps the records that satisfy a test.
-/

/-- Records of type `V`, at most one for each key, in increasing key order. -/
structure KeyedTable {V K : Type} [LinearOrder K] (key : V → K) where
  rows : List V
  sorted : rows.Pairwise fun a b => key a < key b

namespace KeyedTable

variable {V K : Type} [LinearOrder K] {key : V → K}

/-! ## The operations -/

/-- The table without records. -/
def empty : KeyedTable key := ⟨[], List.Pairwise.nil⟩

/-- The record with the key `k`. -/
def get (t : KeyedTable key) (k : K) : Option V :=
  t.rows.find? fun v => key v = k

/-- Insert `v` at its place, replacing the record with its key. -/
def insertRow (key : V → K) (v : V) : List V → List V
  | [] => [v]
  | a :: rest =>
      if key v < key a then v :: a :: rest
      else if key v = key a then v :: rest
      else a :: insertRow key v rest

theorem mem_insertRow {v x : V} :
    ∀ {rows : List V}, x ∈ insertRow key v rows → x = v ∨ x ∈ rows := by
  intro rows
  induction rows with
  | nil => simp [insertRow]
  | cons a rest ih =>
      intro hx
      unfold insertRow at hx
      split at hx
      · simpa using hx
      · split at hx
        · rcases List.mem_cons.mp hx with rfl | hx
          · exact Or.inl rfl
          · exact Or.inr (List.mem_cons_of_mem _ hx)
        · rcases List.mem_cons.mp hx with rfl | hx
          · exact Or.inr (List.mem_cons_self ..)
          · exact (ih hx).imp_right (List.mem_cons_of_mem _)

theorem pairwise_insertRow (v : V) :
    ∀ {rows : List V}, (rows.Pairwise fun a b => key a < key b) →
      (insertRow key v rows).Pairwise fun a b => key a < key b := by
  intro rows
  induction rows with
  | nil => intro _; simp [insertRow]
  | cons a rest ih =>
      intro hsorted
      obtain ⟨ha, hrest⟩ := List.pairwise_cons.mp hsorted
      unfold insertRow
      split
      case isTrue hlt =>
        refine List.pairwise_cons.mpr ⟨?_, hsorted⟩
        intro x hx
        rcases List.mem_cons.mp hx with rfl | hx
        · exact hlt
        · exact hlt.trans (ha x hx)
      case isFalse hge =>
        split
        case isTrue heq =>
          exact List.pairwise_cons.mpr ⟨fun x hx => heq ▸ ha x hx, hrest⟩
        case isFalse hne =>
          refine List.pairwise_cons.mpr ⟨?_, ih hrest⟩
          intro x hx
          rcases mem_insertRow hx with rfl | hx
          · exact lt_of_le_of_ne (not_lt.mp hge) (Ne.symm hne)
          · exact ha x hx

/-- Insert a record, or replace the one with its key. -/
def put (t : KeyedTable key) (v : V) : KeyedTable key :=
  ⟨insertRow key v t.rows, pairwise_insertRow v t.sorted⟩

/-- Put every record of `changes` into `t`. -/
def override (t changes : KeyedTable key) : KeyedTable key :=
  changes.rows.foldl put t

/-- The records of `t` that satisfy `p`. -/
def restrict (t : KeyedTable key) (p : V → Bool) : KeyedTable key :=
  ⟨t.rows.filter p, t.sorted.filter p⟩

/-! ## Lookups -/

theorem eq_of_key_eq (t : KeyedTable key) {a b : V} (ha : a ∈ t.rows) (hb : b ∈ t.rows)
    (hkey : key a = key b) : a = b := by
  have hpairs : t.rows.Pairwise fun a b => key a = key b → a = b :=
    t.sorted.imp fun hlt heq => absurd heq hlt.ne
  have : Std.Symm fun a b : V => key a = key b → a = b :=
    ⟨fun _ _ h heq => (h heq.symm).symm⟩
  exact List.Pairwise.forall_of_forall (fun _ _ _ => rfl) hpairs ha hb hkey

theorem get_eq_some_iff (t : KeyedTable key) {k : K} {v : V} :
    t.get k = some v ↔ v ∈ t.rows ∧ key v = k := by
  constructor
  · intro h
    exact ⟨List.mem_of_find?_eq_some h, by simpa using List.find?_some h⟩
  · rintro ⟨hv, rfl⟩
    cases hget : t.get (key v) with
    | none =>
        have := List.find?_eq_none.mp hget v hv
        simp at this
    | some w =>
        have hw := List.mem_of_find?_eq_some hget
        have hkey : key w = key v := by simpa using List.find?_some hget
        rw [t.eq_of_key_eq hw hv hkey]

theorem get_key {t : KeyedTable key} {v : V} (hv : v ∈ t.rows) : t.get (key v) = some v :=
  t.get_eq_some_iff.mpr ⟨hv, rfl⟩

theorem get_eq_none_iff (t : KeyedTable key) {k : K} :
    t.get k = none ↔ ∀ v ∈ t.rows, key v ≠ k := by
  simp [get, List.find?_eq_none]

@[simp] theorem get_empty (k : K) : (empty : KeyedTable key).get k = none := rfl

@[simp] theorem rows_empty : (empty : KeyedTable key).rows = [] := rfl

theorem mem_put {t : KeyedTable key} {v x : V} :
    x ∈ (t.put v).rows ↔ x = v ∨ (x ∈ t.rows ∧ key x ≠ key v) := by
  have hlookup : ∀ {rows : List V}, (rows.Pairwise fun a b => key a < key b) →
      (x ∈ insertRow key v rows ↔ x = v ∨ (x ∈ rows ∧ key x ≠ key v)) := by
    intro rows
    induction rows with
    | nil => simp [insertRow]
    | cons a rest ih =>
        intro hsorted
        obtain ⟨ha, hrest⟩ := List.pairwise_cons.mp hsorted
        unfold insertRow
        split
        case isTrue hlt =>
          have hne : ∀ y ∈ a :: rest, key y ≠ key v := by
            intro y hy
            rcases List.mem_cons.mp hy with rfl | hy
            · exact hlt.ne'
            · exact (hlt.trans (ha y hy)).ne'
          grind
        case isFalse hge =>
          split
          case isTrue heq =>
            have hne : ∀ y ∈ rest, key y ≠ key v := fun y hy => heq ▸ (ha y hy).ne'
            grind
          case isFalse hne =>
            have := ih hrest
            grind
  exact hlookup t.sorted

/-- What is found after many records were put is one of them, or was there. -/
theorem mem_foldl_put {x : V} (changes : List V) : ∀ {t : KeyedTable key},
    x ∈ (changes.foldl put t).rows → x ∈ changes ∨ x ∈ t.rows := by
  induction changes with
  | nil => exact fun h => .inr h
  | cons change rest ih =>
      intro t h
      rcases ih h with hrest | hput
      · exact .inl (List.mem_cons_of_mem _ hrest)
      · rcases mem_put.mp hput with rfl | ⟨ht, _⟩
        · exact .inl List.mem_cons_self
        · exact .inr ht

/-- A record stays if no other is put under its key. -/
theorem mem_foldl_put_of_unique {x : V} (changes : List V) : ∀ {t : KeyedTable key},
    (∀ y ∈ changes, key y = key x → y = x) → x ∈ changes ∨ x ∈ t.rows →
      x ∈ (changes.foldl put t).rows := by
  induction changes with
  | nil => exact fun _ h => h.resolve_left List.not_mem_nil
  | cons change rest ih =>
      intro t hunique h
      obtain ⟨hchange, hrest⟩ := List.forall_mem_cons.mp hunique
      refine ih hrest ?_
      by_cases hkey : key change = key x
      · obtain rfl := hchange hkey
        exact .inr (mem_put.mpr (.inl rfl))
      · rcases h with h | h
        · rcases List.mem_cons.mp h with rfl | h
          · exact absurd rfl hkey
          · exact .inl h
        · exact .inr (mem_put.mpr (.inr ⟨h, Ne.symm hkey⟩))

/-- No key is lost. -/
theorem exists_mem_put {t : KeyedTable key} {v x : V} (hx : x ∈ t.rows) :
    ∃ y ∈ (t.put v).rows, key y = key x := by
  by_cases hkey : key x = key v
  · exact ⟨v, mem_put.mpr (Or.inl rfl), hkey.symm⟩
  · exact ⟨x, mem_put.mpr (Or.inr ⟨hx, hkey⟩), rfl⟩

theorem get_put (t : KeyedTable key) (v : V) (k : K) :
    (t.put v).get k = if k = key v then some v else t.get k := by
  split
  case isTrue h =>
    exact (get_eq_some_iff _).mpr ⟨mem_put.mpr (Or.inl rfl), h.symm⟩
  case isFalse h =>
    cases hget : t.get k with
    | none =>
        rw [get_eq_none_iff] at hget ⊢
        intro w hw
        rcases mem_put.mp hw with rfl | ⟨hw, _⟩
        · exact fun heq => h heq.symm
        · exact hget w hw
    | some w =>
        obtain ⟨hw, hkey⟩ := (get_eq_some_iff _).mp hget
        exact (get_eq_some_iff _).mpr
          ⟨mem_put.mpr (Or.inr ⟨hw, fun heq => h (hkey ▸ heq)⟩), hkey⟩

@[simp] theorem get_put_self (t : KeyedTable key) (v : V) : (t.put v).get (key v) = some v := by
  simp [get_put]

theorem get_put_ne (t : KeyedTable key) {v : V} {k : K} (h : k ≠ key v) :
    (t.put v).get k = t.get k := by
  simp [get_put, h]

/-! ## Tables are determined by their lookups -/

theorem nodup_of_sorted {xs : List V} (h : xs.Pairwise fun a b => key a < key b) : xs.Nodup :=
  h.imp fun hlt heq => (heq ▸ hlt).false

theorem rows_eq_of_mem_iff : ∀ {xs ys : List V},
    (xs.Pairwise fun a b => key a < key b) → (ys.Pairwise fun a b => key a < key b) →
      (∀ v, v ∈ xs ↔ v ∈ ys) → xs = ys := by
  intro xs ys hxs hys hmem
  exact List.Perm.eq_of_pairwise (fun a b _ _ hab hba => absurd hab hba.asymm) hxs hys
    ((List.perm_ext_iff_of_nodup (nodup_of_sorted hxs) (nodup_of_sorted hys)).mpr hmem)

theorem ext_mem {t u : KeyedTable key} (h : ∀ v, v ∈ t.rows ↔ v ∈ u.rows) : t = u := by
  obtain ⟨xs, hxs⟩ := t
  obtain ⟨ys, hys⟩ := u
  obtain rfl : xs = ys := rows_eq_of_mem_iff hxs hys h
  rfl

/-- At most one row is counted exactly when all that are counted are the same. -/
theorem length_filter_le_one_iff (t : KeyedTable key) {p : V → Bool} :
    (t.rows.filter p).length ≤ 1 ↔
      ∀ a ∈ t.rows, ∀ b ∈ t.rows, p a = true → p b = true → a = b := by
  have hmem : ∀ {a : V}, a ∈ t.rows.filter p ↔ a ∈ t.rows ∧ p a = true := List.mem_filter
  have hnodup : (t.rows.filter p).Nodup := (nodup_of_sorted t.sorted).filter p
  match hrows : t.rows.filter p with
  | [] =>
      refine iff_of_true (Nat.zero_le _) fun a ha b _ hpa _ => ?_
      have hin := hmem.mpr ⟨ha, hpa⟩
      rw [hrows] at hin
      cases hin
  | [row] =>
      refine iff_of_true (Nat.le_refl _) fun a ha b hb hpa hpb => ?_
      have hina := hmem.mpr ⟨ha, hpa⟩
      have hinb := hmem.mpr ⟨hb, hpb⟩
      rw [hrows, List.mem_singleton] at hina hinb
      exact hina.trans hinb.symm
  | first :: second :: rest =>
      have hfirst := hmem.mp (hrows ▸ List.mem_cons_self ..)
      have hsecond := hmem.mp (hrows ▸ List.mem_cons_of_mem first (List.mem_cons_self ..))
      rw [hrows] at hnodup
      refine iff_of_false (by simp only [List.length_cons]; omega) fun h => ?_
      refine (List.nodup_cons.mp hnodup).1 ?_
      rw [h first hfirst.1 second hsecond.1 hfirst.2 hsecond.2]
      exact List.mem_cons_self ..

theorem ext_get {t u : KeyedTable key} (h : ∀ k, t.get k = u.get k) : t = u := by
  refine ext_mem fun v => ?_
  have hiff : ∀ s : KeyedTable key, v ∈ s.rows ↔ s.get (key v) = some v := fun s => by
    simp [get_eq_some_iff]
  rw [hiff t, hiff u, h]

/-! ## Overriding and restricting -/

theorem get_foldl_put (changes : List V) (hsorted : changes.Pairwise fun a b => key a < key b)
    (t : KeyedTable key) (k : K) :
    (changes.foldl put t).get k = ((changes.find? fun v => key v = k).or (t.get k)) := by
  induction changes generalizing t with
  | nil => simp
  | cons v rest ih =>
      obtain ⟨hv, hrest⟩ := List.pairwise_cons.mp hsorted
      rw [List.foldl_cons, ih hrest, List.find?_cons]
      by_cases hk : key v = k
      · subst hk
        have hnone : rest.find? (fun w => key w = key v) = none := by
          rw [List.find?_eq_none]
          intro w hw
          simpa using (hv w hw).ne'
        simp [hnone]
      · simp [hk, get_put_ne t (v := v) (k := k) (Ne.symm hk)]

theorem get_override (t changes : KeyedTable key) (k : K) :
    (t.override changes).get k = (changes.get k).or (t.get k) :=
  get_foldl_put changes.rows changes.sorted t k

@[simp] theorem override_empty (t : KeyedTable key) : t.override empty = t := rfl

theorem mem_restrict {t : KeyedTable key} {p : V → Bool} {v : V} :
    v ∈ (t.restrict p).rows ↔ v ∈ t.rows ∧ p v := by
  simp [restrict, List.mem_filter]

/-- Putting a record that the test accepts commutes with restricting. -/
theorem restrict_put {t : KeyedTable key} {p : V → Bool} {v : V} (hv : p v) :
    (t.put v).restrict p = (t.restrict p).put v := by
  refine ext_mem fun x => ?_
  simp only [mem_restrict, mem_put]
  constructor
  · rintro ⟨rfl | ⟨hx, hne⟩, hpx⟩
    · exact Or.inl rfl
    · exact Or.inr ⟨⟨hx, hpx⟩, hne⟩
  · rintro (rfl | ⟨⟨hx, hpx⟩, hne⟩)
    · exact ⟨Or.inl rfl, hv⟩
    · exact ⟨Or.inr ⟨hx, hne⟩, hpx⟩

/-- Putting a record that the test refuses is invisible in the restriction, when
the test only looks at the key. -/
theorem restrict_put_of_not {t : KeyedTable key} {p : V → Bool} {v : V} (hv : ¬ p v)
    (hp : ∀ a b, key a = key b → p a = p b) : (t.put v).restrict p = t.restrict p := by
  refine ext_mem fun x => ?_
  simp only [mem_restrict, mem_put]
  constructor
  · rintro ⟨rfl | ⟨hx, _⟩, hpx⟩
    · exact absurd hpx hv
    · exact ⟨hx, hpx⟩
  · rintro ⟨hx, hpx⟩
    exact ⟨Or.inr ⟨hx, fun hkey => hv (hp x v hkey ▸ hpx)⟩, hpx⟩

end KeyedTable
