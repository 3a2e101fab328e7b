import ChangePilot.Domain.Digests
import ChangePilot.Persistence.Definitions

/-!
# Stored arguments

Arguments that are frozen JSON come back from their text equal to what they were, with
a reference that is not available where each secret reference was
(`FrozenJson.restore`), and have the JSON value they had when they are thawed again
(`FrozenJson.sameJson_loaded`).

The lemmas are inductions on `FrozenJson`, with one lemma beside them for the items of a
tuple and one for the entries of a mapping.  Objects are written in the order of their keys,
so that the entries of a mapping come back permuted; places are therefore compared by their
paths (`secretAt`, `MarkedIn`), which do not depend on that order.
-/

namespace ChangePilot

theorem itemsToValue_eq_map (items : List (Json PyScalar)) :
    itemsToValue items = items.map valueOfJson := by
  induction items with
  | nil => rfl
  | cons item rest ih => rw [itemsToValue, ih, List.map_cons]

theorem membersToValue_eq_map (members : List (String × Json PyScalar)) :
    membersToValue members = members.map fun member => (.str member.1, valueOfJson member.2) := by
  induction members with
  | nil => rfl
  | cons member rest ih => rw [membersToValue, ih, List.map_cons]

theorem freezeItems_eq_map (items : List Value) : freezeItems items = items.map freezeValue := by
  induction items with
  | nil => rfl
  | cons item rest ih => rw [freezeItems, ih, List.map_cons]

theorem freezeEntries_eq_map (entries : List (Value × Value)) :
    freezeEntries entries = entries.map fun entry => (entry.1, freezeValue entry.2) := by
  induction entries with
  | nil => rfl
  | cons entry rest ih => rw [freezeEntries, ih, List.map_cons]

/-- What is in the second of two related lists is related to something in the first. -/
theorem exists_of_mem_right {α β : Type} {R : α → β → Prop} {xs : List α} {ys : List β}
    (h : List.Forall₂ R xs ys) {y : β} (hy : y ∈ ys) : ∃ x ∈ xs, R x y := by
  induction h with
  | nil => cases hy
  | @cons x _ _ _ hxy _ ih =>
      rcases List.mem_cons.mp hy with rfl | hrest
      · exact ⟨x, List.mem_cons_self, hxy⟩
      · obtain ⟨other, hother, hrelated⟩ := ih hrest
        exact ⟨other, List.mem_cons_of_mem _ hother, hrelated⟩

/-! ## The round trip -/

theorem jsonRoundTrip_eq_some_iff {value loaded : Value} : jsonRoundTrip value = some loaded ↔
    ∃ json, value.json? = some json ∧ valueOfJson json = loaded := by
  rw [jsonRoundTrip, Option.map_eq_some_iff]

theorem jsonRoundTrip_list {items : List Value} {loaded : Value}
    (h : jsonRoundTrip (.list items) = some loaded) : ∃ loadedItems, loaded = .list loadedItems ∧
      List.Forall₂ (fun item loaded => jsonRoundTrip item = some loaded) items loadedItems := by
  obtain ⟨json, hjson, rfl⟩ := jsonRoundTrip_eq_some_iff.mp h
  obtain ⟨members, rfl, hmembers⟩ := Value.json?_list_eq_some_iff.mp hjson
  refine ⟨members.map valueOfJson, ?_, ?_⟩
  · rw [valueOfJson, itemsToValue_eq_map]
  · rw [List.forall₂_map_right_iff]
    exact hmembers.imp fun _ member hmember => jsonRoundTrip_eq_some_iff.mpr ⟨member, hmember, rfl⟩

/-- The entries come back in the order of their keys. -/
theorem jsonRoundTrip_dict {entries : List (Value × Value)} {loaded : Value}
    (h : jsonRoundTrip (.dict entries) = some loaded) : ∃ permuted loadedEntries,
      loaded = .dict loadedEntries ∧ entries.Perm permuted ∧
      (loadedEntries.map Prod.fst).Nodup ∧
      List.Forall₂ (fun entry loaded => entry.1 = loaded.1 ∧ jsonRoundTrip entry.2 = some loaded.2)
        permuted loadedEntries := by
  obtain ⟨json, hjson, rfl⟩ := jsonRoundTrip_eq_some_iff.mp h
  obtain ⟨members, hmembers, hnodup, rfl⟩ := Value.json?_dict_eq_some_iff.mp hjson
  have hsorted := List.perm_insertionSort (fun a b : String × Json PyScalar => a.1 ≤ b.1) members
  obtain ⟨permuted, hperm, hrelated⟩ : Relation.Comp List.Perm (List.Forall₂ _) entries _ := by
    rw [← List.forall₂_comp_perm_eq_perm_comp_forall₂]
    exact ⟨members, hmembers, hsorted.symm⟩
  refine ⟨permuted, membersToValue _, rfl, hperm, ?_, ?_⟩
  · rw [membersToValue_eq_map, List.map_map]
    have hkeys := ((hsorted.map Prod.fst).nodup_iff.mpr hnodup).map fun _ _ => Value.str.inj
    rwa [List.map_map] at hkeys
  · rw [membersToValue_eq_map, List.forall₂_map_right_iff]
    exact hrelated.imp fun _ member hmember =>
      ⟨hmember.1, jsonRoundTrip_eq_some_iff.mpr ⟨member.2, hmember.2, rfl⟩⟩

theorem pairwise_sortMembers (members : List (String × Json PyScalar)) :
    (members.insertionSort fun a b => a.1 ≤ b.1).Pairwise fun a b => a.1 ≤ b.1 := by
  have : Std.Total fun a b : String × Json PyScalar => a.1 ≤ b.1 :=
    ⟨fun a b => le_total a.1 b.1⟩
  have : IsTrans (String × Json PyScalar) fun a b => a.1 ≤ b.1 := ⟨fun _ _ _ => le_trans⟩
  exact List.pairwise_insertionSort _ members

namespace Value

/-- A JSON value of frozen JSON is that of the value it is read as. -/
theorem FrozenJson.canonical {value : Value} (h : value.FrozenJson) :
    ∀ {json : Json PyScalar}, (thawValue value).json? = some json →
      (valueOfJson json).json? = some json ∧
        thawValue (freezeValue (valueOfJson json)) = valueOfJson json := by
  induction h with
  | none | bool | int | float | str | secretRef =>
      intro json hjson
      obtain rfl := Option.some.inj hjson
      exact ⟨rfl, rfl⟩
  | @tuple items _ ih =>
      intro json hjson
      rw [thawValue, thawItems_eq_map] at hjson
      obtain ⟨members, rfl, hmembers⟩ := json?_list_eq_some_iff.mp hjson
      rw [List.forall₂_map_left_iff] at hmembers
      -- the items of the array, by induction
      have hcanonical : ∀ member ∈ members, (valueOfJson member).json? = some member ∧
          thawValue (freezeValue (valueOfJson member)) = valueOfJson member := by
        intro member hmember
        obtain ⟨item, hitem, hjson⟩ := exists_of_mem_right hmembers hmember
        exact ih item hitem hjson
      rw [valueOfJson, itemsToValue_eq_map]
      constructor
      · refine json?_list_eq_some_iff.mpr ⟨members, rfl, ?_⟩
        rw [List.forall₂_map_left_iff, List.forall₂_same]
        exact fun member hmember => (hcanonical member hmember).1
      · rw [freezeValue, freezeItems_eq_map, thawValue, thawItems_eq_map, List.map_map, List.map_map]
        exact congrArg Value.list
          (List.map_congr_left fun member hmember => (hcanonical member hmember).2)
  | @mappingProxy entries hnodup hkeys _ ih =>
      intro json hjson
      rw [thawValue, thawEntries_eq_map] at hjson
      obtain ⟨members, hmembers, hunique, rfl⟩ := json?_dict_eq_some_iff.mp hjson
      rw [List.forall₂_map_left_iff] at hmembers
      have hperm := List.perm_insertionSort (fun a b : String × Json PyScalar => a.1 ≤ b.1) members
      -- the members of the object, in whatever order they are written
      have hcanonical : ∀ member ∈ members.insertionSort fun a b => a.1 ≤ b.1,
          (valueOfJson member.2).json? = some member.2 ∧
            thawValue (freezeValue (valueOfJson member.2)) = valueOfJson member.2 := by
        intro member hmember
        obtain ⟨entry, hentry, -, hjson⟩ := exists_of_mem_right hmembers (hperm.mem_iff.mp hmember)
        exact ih entry hentry hjson
      rw [valueOfJson, membersToValue_eq_map]
      constructor
      · refine json?_dict_eq_some_iff.mpr ⟨members.insertionSort fun a b => a.1 ≤ b.1, ?_, ?_, ?_⟩
        · rw [List.forall₂_map_left_iff, List.forall₂_same]
          exact fun member hmember => ⟨rfl, (hcanonical member hmember).1⟩
        · exact (hperm.map Prod.fst).nodup_iff.mpr hunique
        -- sorting the sorted members changes nothing
        · rw [(pairwise_sortMembers members).insertionSort_eq]
      · rw [freezeValue, freezeEntries_eq_map, thawValue, thawEntries_eq_map, List.map_map,
          List.map_map]
        exact congrArg Value.dict (List.map_congr_left fun member hmember =>
          congrArg (Prod.mk (Value.str member.1)) (hcanonical member hmember).2)

/-- What frozen JSON is loaded as has its JSON value when it is thawed. -/
theorem FrozenJson.sameJson_loaded {value loaded : Value} (h : value.FrozenJson)
    (hloaded : jsonRoundTrip (thawValue value) = some loaded) :
    (thawValue value).SameJson (thawValue (freezeValue loaded)) := by
  obtain ⟨json, hjson, rfl⟩ := jsonRoundTrip_eq_some_iff.mp hloaded
  obtain ⟨hcanonical, hthawed⟩ := h.canonical hjson
  refine ⟨json, hjson, ?_⟩
  rw [hthawed]
  exact hcanonical

end Value

/-! ## Paths -/

/-- The segment as it stands in a path. -/
def Segment.value : Segment → Value
  | index position => .int position
  | key name => .str name

theorem Segment.value_injective : Function.Injective Segment.value := by
  intro a b h
  cases a <;> cases b <;> cases h <;> rfl

/-- The path as it is stored. -/
def pathValue (path : List Segment) : List Value := path.map Segment.value

theorem pathValue_injective : Function.Injective pathValue :=
  Segment.value_injective.list_map

theorem pathValue_append (path : List Segment) (segment : Segment) :
    pathValue path ++ [segment.value] = pathValue (path ++ [segment]) := by
  rw [pathValue, pathValue, List.map_append, List.map_cons, List.map_nil]

theorem sameSegment_value {segment : Segment} {other : Value} :
    sameSegment segment.value other = true ↔ segment.value = other := by
  cases segment <;> cases other <;> simp [sameSegment, Segment.value]

theorem samePath_pathValue {path : List Segment} : ∀ {other : List Value},
    samePath (pathValue path) other = true ↔ pathValue path = other := by
  induction path with
  | nil =>
      intro other
      cases other <;> simp [samePath, pathValue]
  | cons segment rest ih =>
      intro other
      cases other with
      | nil => simp [samePath, pathValue]
      | cons other others =>
          rw [pathValue, List.map_cons, samePath, Bool.and_eq_true, sameSegment_value,
            ← pathValue, ih, List.cons.injEq]

theorem isTarget_pathValue {targetPaths : List (List Value)} {path : List Segment} :
    isTarget targetPaths (pathValue path) = true ↔ pathValue path ∈ targetPaths := by
  rw [isTarget, List.any_eq_true]
  constructor
  · rintro ⟨target, htarget, hsame⟩
    exact samePath_pathValue.mp hsame ▸ htarget
  · exact fun hmem => ⟨_, hmem, samePath_pathValue.mpr rfl⟩

/-! ## Serialized arguments -/

/-- The value is stored as it thaws, with the paths of its secret references. -/
def Value.Serializes (value : Value) : Prop :=
  ∀ here, (serializeDefinitionArguments (pathValue here) value).1 = thawValue value ∧
    ∀ path, path ∈ (serializeDefinitionArguments (pathValue here) value).2 ↔
      ∃ rest, path = pathValue (here ++ rest) ∧ (value.secretAt rest).isSome

theorem serializeDefinitionItems_cons (path : List Value) (index : ℕ) (item : Value)
    (rest : List Value) : serializeDefinitionItems path index (item :: rest) =
      ((serializeDefinitionArguments (path ++ [.int index]) item).1 ::
          (serializeDefinitionItems path (index + 1) rest).1,
        (serializeDefinitionArguments (path ++ [.int index]) item).2 ++
          (serializeDefinitionItems path (index + 1) rest).2) := rfl

theorem serializeDefinitionEntries_cons (path : List Value) (key item : Value)
    (rest : List (Value × Value)) : serializeDefinitionEntries path ((key, item) :: rest) =
      ((key, (serializeDefinitionArguments (path ++ [key]) item).1) ::
          (serializeDefinitionEntries path rest).1,
        (serializeDefinitionArguments (path ++ [key]) item).2 ++
          (serializeDefinitionEntries path rest).2) := rfl

theorem serializeDefinitionItems_spec {items : List Value} (here : List Segment) :
    (∀ item ∈ items, item.Serializes) → ∀ index,
      (serializeDefinitionItems (pathValue here) index items).1 = items.map thawValue ∧
      ∀ path, path ∈ (serializeDefinitionItems (pathValue here) index items).2 ↔
        ∃ i item rest, items[i]? = some item ∧ (item.secretAt rest).isSome ∧
          path = pathValue (here ++ .index (index + i) :: rest) := by
  induction items with
  | nil => exact fun _ index => ⟨rfl, fun path => by simp [serializeDefinitionItems]⟩
  | cons item items ih =>
      intro h index
      obtain ⟨hitem, hitems⟩ := List.forall_mem_cons.mp h
      obtain ⟨hvalue, hpaths⟩ := hitem (here ++ [.index index])
      obtain ⟨hvalues, hmore⟩ := ih hitems (index + 1)
      have hhere : pathValue here ++ [.int index] = pathValue (here ++ [.index index]) :=
        pathValue_append here (.index index)
      rw [serializeDefinitionItems_cons, hhere]
      refine ⟨by rw [hvalue, hvalues, List.map_cons], fun path => ?_⟩
      rw [List.mem_append, hpaths, hmore]
      constructor
      · rintro (⟨rest, rfl, hsecret⟩ | ⟨i, other, rest, hother, hsecret, rfl⟩)
        · exact ⟨0, item, rest, rfl, hsecret, by simp⟩
        · exact ⟨i + 1, other, rest, hother, hsecret, by rw [Nat.add_right_comm, Nat.add_assoc]⟩
      · rintro ⟨i, other, rest, hother, hsecret, rfl⟩
        cases i with
        | zero =>
            obtain rfl := Option.some.inj hother
            exact .inl ⟨rest, by simp, hsecret⟩
        | succ i =>
            exact .inr ⟨i, other, rest, hother, hsecret, by rw [Nat.add_right_comm, Nat.add_assoc]⟩

theorem serializeDefinitionEntries_spec {entries : List (Value × Value)} (here : List Segment) :
    (∀ entry ∈ entries, ∃ name, entry.1 = .str name) → (∀ entry ∈ entries, entry.2.Serializes) →
      (serializeDefinitionEntries (pathValue here) entries).1 =
        entries.map (fun entry => (entry.1, thawValue entry.2)) ∧
      ∀ path, path ∈ (serializeDefinitionEntries (pathValue here) entries).2 ↔
        ∃ name item rest, (.str name, item) ∈ entries ∧ (item.secretAt rest).isSome ∧
          path = pathValue (here ++ .key name :: rest) := by
  induction entries with
  | nil => exact fun _ _ => ⟨rfl, fun path => by simp [serializeDefinitionEntries]⟩
  | cons entry entries ih =>
      intro hkeys h
      obtain ⟨⟨name, hname⟩, hmoreKeys⟩ := List.forall_mem_cons.mp hkeys
      obtain ⟨hentry, hentries⟩ := List.forall_mem_cons.mp h
      obtain ⟨key, item⟩ := entry
      obtain rfl : key = .str name := hname
      obtain ⟨hvalue, hpaths⟩ := hentry (here ++ [.key name])
      obtain ⟨hvalues, hmore⟩ := ih hmoreKeys hentries
      have hhere : pathValue here ++ [.str name] = pathValue (here ++ [.key name]) :=
        pathValue_append here (.key name)
      rw [serializeDefinitionEntries_cons, hhere]
      refine ⟨by rw [hvalue, hvalues, List.map_cons], fun path => ?_⟩
      rw [List.mem_append, hpaths, hmore]
      -- a secret of the first entry or of one of the others
      constructor
      · rintro (⟨rest, rfl, hsecret⟩ | ⟨other, value, rest, hother, hsecret, rfl⟩)
        · exact ⟨name, item, rest, List.mem_cons_self, hsecret, by simp⟩
        · exact ⟨other, value, rest, List.mem_cons_of_mem _ hother, hsecret, rfl⟩
      · rintro ⟨other, value, rest, hother, hsecret, rfl⟩
        rcases List.mem_cons.mp hother with heq | hmem
        · obtain ⟨hkey, rfl⟩ := Prod.mk.inj heq
          obtain rfl := Value.str.inj hkey
          exact .inl ⟨rest, by simp, hsecret⟩
        · exact .inr ⟨other, value, rest, hmem, hsecret, rfl⟩

/-- A path leads to a secret in a sequence if it does in the item it goes through. -/
theorem Value.isSome_secretAt_tuple {items : List Value} {path : List Segment} :
    ((Value.tuple items).secretAt path).isSome ↔ ∃ i item rest, items[i]? = some item ∧
      (item.secretAt rest).isSome ∧ path = .index i :: rest := by
  cases path with
  | nil => simp [secretAt]
  | cons segment rest =>
      cases segment with
      | key => simp [secretAt]
      | index i =>
          cases hitem : items[i]? with
          | none => simp [secretAt, hitem]
          | some item => simp [secretAt, hitem]

theorem Value.isSome_secretAt_mappingProxy {entries : List (Value × Value)}
    (hnodup : (entries.map Prod.fst).Nodup) {path : List Segment} :
    ((Value.mappingProxy entries).secretAt path).isSome ↔ ∃ name item rest,
      (.str name, item) ∈ entries ∧ (item.secretAt rest).isSome ∧ path = .key name :: rest := by
  cases path with
  | nil => simp [secretAt]
  | cons segment rest =>
      cases segment with
      | index => simp [secretAt]
      | key name =>
          rw [secretAt, Option.isSome_iff_exists]
          constructor
          · rintro ⟨secret, hsecret⟩
            obtain ⟨item, hitem, hsecret⟩ := Option.bind_eq_some_iff.mp hsecret
            exact ⟨name, item, rest, mem_of_lookup hitem, Option.isSome_of_eq_some hsecret, rfl⟩
          · rintro ⟨other, item, rest', hmem, hsecret, heq⟩
            obtain ⟨hname, rfl⟩ := List.cons.inj heq
            obtain rfl := Segment.key.inj hname
            obtain ⟨secret, hsecret⟩ := Option.isSome_iff_exists.mp hsecret
            exact ⟨secret, by rw [lookup_of_mem hnodup hmem, Option.bind_some, hsecret]⟩

/-- The paths of frozen JSON are those at which there is a secret reference. -/
theorem Value.FrozenJson.serializes {value : Value} (h : value.FrozenJson) :
    value.Serializes := by
  induction h with
  | none | bool | int | float | str =>
      refine fun here => ⟨rfl, fun path => ?_⟩
      simp only [serializeDefinitionArguments, List.not_mem_nil, false_iff, not_exists, not_and]
      -- no path leads to a secret in a scalar
      intro rest _
      rcases rest with _ | ⟨_ | _, _⟩ <;> simp [secretAt]
  | secretRef provider name =>
      refine fun here => ⟨rfl, fun path => ?_⟩
      simp only [serializeDefinitionArguments, List.mem_singleton]
      -- the reference is its own only secret
      constructor
      · rintro rfl
        exact ⟨[], by rw [List.append_nil], rfl⟩
      · rintro ⟨rest, rfl, hsecret⟩
        rcases rest with _ | ⟨_ | _, _⟩
        · rw [List.append_nil]
        · simp [secretAt] at hsecret
        · simp [secretAt] at hsecret
  | @tuple items _ ih =>
      intro here
      obtain ⟨hvalues, hpaths⟩ := serializeDefinitionItems_spec here ih 0
      refine ⟨?_, fun path => ?_⟩
      · rw [thawValue, thawItems_eq_map, ← hvalues]
        rfl
      · refine (hpaths path).trans ?_
        simp only [isSome_secretAt_tuple, Nat.zero_add]
        -- a secret is in some item, at its place
        constructor
        · rintro ⟨i, item, rest, hitem, hsecret, rfl⟩
          exact ⟨_, rfl, i, item, rest, hitem, hsecret, rfl⟩
        · rintro ⟨_, rfl, i, item, rest, hitem, hsecret, rfl⟩
          exact ⟨i, item, rest, hitem, hsecret, rfl⟩
  | @mappingProxy entries hnodup hkeys _ ih =>
      intro here
      obtain ⟨hvalues, hpaths⟩ := serializeDefinitionEntries_spec here hkeys ih
      refine ⟨?_, fun path => ?_⟩
      · rw [thawValue, thawEntries_eq_map, ← hvalues]
        rfl
      · refine (hpaths path).trans ?_
        simp only [isSome_secretAt_mappingProxy hnodup]
        -- a secret is in some entry, under its key
        constructor
        · rintro ⟨name, item, rest, hitem, hsecret, rfl⟩
          exact ⟨_, rfl, name, item, rest, hitem, hsecret, rfl⟩
        · rintro ⟨_, rfl, name, item, rest, hitem, hsecret, rfl⟩
          exact ⟨name, item, rest, hitem, hsecret, rfl⟩

/-! ## Restored arguments -/

mutual

/-- The value with a reference that is not available for each secret reference. -/
def loseSecrets : Value → Value
  | .secretRef _ _ => .unavailableSecretRef
  | .mappingProxy entries => .mappingProxy (loseSecretEntries entries)
  | .tuple items => .tuple (loseSecretItems items)
  | value => value

def loseSecretItems : List Value → List Value
  | [] => []
  | item :: rest => loseSecrets item :: loseSecretItems rest

def loseSecretEntries : List (Value × Value) → List (Value × Value)
  | [] => []
  | (key, value) :: rest => (key, loseSecrets value) :: loseSecretEntries rest

end

theorem loseSecretItems_eq_map (items : List Value) :
    loseSecretItems items = items.map loseSecrets := by
  induction items with
  | nil => rfl
  | cons item rest ih => rw [loseSecretItems, ih, List.map_cons]

theorem loseSecretEntries_eq_map (entries : List (Value × Value)) :
    loseSecretEntries entries = entries.map fun entry => (entry.1, loseSecrets entry.2) := by
  induction entries with
  | nil => rfl
  | cons entry rest ih => rw [loseSecretEntries, ih, List.map_cons]

/-- The targets under `here` are the secret references of the value. -/
def Value.MarkedIn (targetPaths : List (List Value)) (here : List Segment) (value : Value) : Prop :=
  ∀ rest, pathValue (here ++ rest) ∈ targetPaths ↔ (value.secretAt rest).isSome

section

variable {targetPaths : List (List Value)} {here : List Segment}

theorem Value.MarkedIn.isTarget {value : Value} (h : value.MarkedIn targetPaths here) :
    isTarget targetPaths (pathValue here) = (value.secretAt []).isSome := by
  have hroot := h []
  rw [List.append_nil, ← isTarget_pathValue] at hroot
  exact Bool.eq_iff_iff.mpr hroot

theorem Value.MarkedIn.item {items : List Value} {i : ℕ} {item : Value}
    (h : (Value.tuple items).MarkedIn targetPaths here) (hitem : items[i]? = some item) :
    item.MarkedIn targetPaths (here ++ [.index i]) := by
  intro rest
  rw [List.append_assoc, List.singleton_append, h, secretAt, hitem, Option.bind_some]

theorem Value.MarkedIn.entry {entries : List (Value × Value)} {name : String} {item : Value}
    (h : (Value.mappingProxy entries).MarkedIn targetPaths here)
    (hnodup : (entries.map Prod.fst).Nodup) (hitem : (.str name, item) ∈ entries) :
    item.MarkedIn targetPaths (here ++ [.key name]) := by
  intro rest
  rw [List.append_assoc, List.singleton_append, h, secretAt, lookup_of_mem hnodup hitem,
    Option.bind_some]

/-- The item is loaded and restored as itself without its secrets. -/
def Value.RestoredAt (targetPaths : List (List Value)) (path : List Value) (item : Value) : Prop :=
  ∀ loaded, jsonRoundTrip (thawValue item) = some loaded → ∃ restored,
    restoreReferences targetPaths path (freezeValue loaded) = .ok restored ∧
      (loseSecrets item).Equals restored

theorem restoreItems_eq_ok {items loaded : List Value}
    (h : List.Forall₂ (fun item loaded => jsonRoundTrip (thawValue item) = some loaded)
      items loaded) : ∀ index,
    (∀ (i : ℕ) (item : Value), items[i]? = some item →
      item.RestoredAt targetPaths (pathValue (here ++ [.index (index + i)]))) →
    ∃ restored, restoreItems targetPaths (pathValue here) index (freezeItems loaded) =
      .ok restored ∧ List.Forall₂ (fun item restored => (loseSecrets item).Equals restored)
        items restored := by
  induction h with
  | nil => exact fun index _ => ⟨[], rfl, .nil⟩
  | @cons item value items loaded hvalue _ ih =>
      intro index hitems
      obtain ⟨first, hfirst, hequals⟩ := hitems 0 item rfl value hvalue
      rw [Nat.add_zero] at hfirst
      obtain ⟨restored, hrest, hequal⟩ := ih (index + 1) fun i other hother => by
        rw [Nat.add_right_comm, Nat.add_assoc]
        exact hitems (i + 1) other hother
      have hhere : pathValue here ++ [.int index] = pathValue (here ++ [.index index]) :=
        pathValue_append here (.index index)
      refine ⟨first :: restored, ?_, .cons hequals hequal⟩
      rw [freezeItems, restoreItems, hhere, Except.bind_of_eq_ok hfirst, Except.bind_of_eq_ok hrest]
      rfl

theorem restoreEntries_eq_ok {entries loaded : List (Value × Value)}
    (h : List.Forall₂ (fun entry loaded => entry.1 = loaded.1 ∧
      jsonRoundTrip (thawValue entry.2) = some loaded.2) entries loaded) :
    (∀ entry ∈ entries, entry.2.RestoredAt targetPaths (pathValue here ++ [entry.1])) →
    ∃ restored, restoreEntries targetPaths (pathValue here) (freezeEntries loaded) =
      .ok restored ∧ List.Forall₂ (fun entry restored => entry.1 = restored.1 ∧
        (loseSecrets entry.2).Equals restored.2) entries restored := by
  induction h with
  | nil => exact fun _ => ⟨[], rfl, .nil⟩
  | @cons entry value entries loaded hvalue _ ih =>
      intro hentries
      obtain ⟨hkey, hvalue⟩ := hvalue
      obtain ⟨first, hfirst, hequals⟩ := hentries entry List.mem_cons_self value.2 hvalue
      obtain ⟨restored, hrest, hequal⟩ := ih fun other hother =>
        hentries other (List.mem_cons_of_mem _ hother)
      refine ⟨(value.1, first) :: restored, ?_, .cons ⟨hkey, hequals⟩ hequal⟩
      obtain ⟨key, value⟩ := value
      obtain rfl : entry.1 = key := hkey
      rw [freezeEntries, restoreEntries, Except.bind_of_eq_ok hfirst, Except.bind_of_eq_ok hrest]
      rfl

end

/-- Frozen JSON is loaded and restored as itself without its secrets. -/
theorem Value.FrozenJson.restoredAt {targetPaths : List (List Value)} {value : Value}
    (h : value.FrozenJson) : ∀ {here : List Segment}, value.MarkedIn targetPaths here →
      value.RestoredAt targetPaths (pathValue here) := by
  induction h with
  | none | bool | int | float | str =>
      intro here hmarked loaded hloaded
      obtain rfl := Option.some.inj hloaded
      -- no reference was there, so nothing is restored
      have htarget : isTarget targetPaths (pathValue here) = false := hmarked.isTarget
      refine ⟨_, ?_, .refl _⟩
      simp [valueOfJson, freezeValue, restoreReferences, htarget, loseSecrets]
  | secretRef provider name =>
      intro here hmarked loaded hloaded
      obtain rfl := Option.some.inj hloaded
      -- a reference was there, and it comes back without its secret
      have htarget : isTarget targetPaths (pathValue here) = true := hmarked.isTarget
      exact ⟨.unavailableSecretRef,
        by simp [valueOfJson, freezeValue, restoreReferences, htarget, secretReferencePlaceholder],
        .refl _⟩
  | @tuple items _ ih =>
      intro here hmarked loaded hloaded
      have htarget : isTarget targetPaths (pathValue here) = false := hmarked.isTarget
      rw [thawValue, thawItems_eq_map] at hloaded
      obtain ⟨loadedItems, rfl, hitems⟩ := jsonRoundTrip_list hloaded
      rw [List.forall₂_map_left_iff] at hitems
      -- each item is restored at its own place
      obtain ⟨restored, hrestored, hequal⟩ := restoreItems_eq_ok hitems 0 fun i item hitem => by
        rw [Nat.zero_add]
        exact ih item (List.mem_of_getElem? hitem) (hmarked.item hitem)
      refine ⟨.tuple restored, ?_, ?_⟩
      · rw [freezeValue, restoreReferences, htarget, if_neg Bool.false_ne_true,
          Except.bind_of_eq_ok hrestored]
        rfl
      · rw [loseSecrets, loseSecretItems_eq_map]
        exact .tuple (List.forall₂_map_left_iff.mpr hequal)
  | @mappingProxy entries hnodup hkeys _ ih =>
      intro here hmarked loaded hloaded
      have htarget : isTarget targetPaths (pathValue here) = false := hmarked.isTarget
      rw [thawValue, thawEntries_eq_map] at hloaded
      -- the entries come back in the order of their keys
      obtain ⟨thawed, loadedEntries, rfl, hperm, -, hentries⟩ := jsonRoundTrip_dict hloaded
      obtain ⟨permuted, hpermuted, rfl⟩ := exists_perm_of_map_perm _ hperm
      rw [List.forall₂_map_left_iff] at hentries
      obtain ⟨restored, hrestored, hequal⟩ := restoreEntries_eq_ok hentries fun entry hentry => by
        have hmem := hpermuted.mem_iff.mpr hentry
        obtain ⟨name, hname⟩ := hkeys entry hmem
        have hitem : (.str name, entry.2) ∈ entries := hname ▸ hmem
        rw [hname, show Value.str name = (Segment.key name).value from rfl, pathValue_append]
        exact ih entry hmem (hmarked.entry hnodup hitem)
      refine ⟨.mappingProxy restored, ?_, ?_⟩
      · rw [freezeValue, restoreReferences, htarget, if_neg Bool.false_ne_true,
          Except.bind_of_eq_ok hrestored]
        rfl
      · rw [loseSecrets, loseSecretEntries_eq_map]
        refine .mappingProxy (hpermuted.map _) ?_ ?_
        · rw [List.map_map, ← List.forall₂_eq_eq_eq, List.forall₂_map_left_iff,
            List.forall₂_map_right_iff]
          exact hequal.imp fun _ _ hentry => hentry.1
        · rw [List.map_map, List.forall₂_map_left_iff, List.forall₂_map_right_iff]
          exact hequal.imp fun _ _ hentry => hentry.2

end ChangePilot
