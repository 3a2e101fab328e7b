import ChangePilot.Domain.Acceptance
import ChangePilot.Ports.CanonicalJson

/-!
# What a digest tells of a definition

The digest of a definition is taken of a JSON text in which each secret reference is
replaced by the placeholder.  Two definitions with one digest are equal once the same is
done to both, as long as SHA-256 tells their texts apart (`equals_of_digest_eq`).

The text determines the JSON value, and the JSON value each field of the definition: the
identifiers, numbers and flags as they are, the arguments up to the order of the keys and
what stands for a secret.  Equality of arguments in that sense (`Equals`) is an inductive
relation, so that what it keeps, such as the places of the secrets, is an induction on it.
-/

namespace ChangePilot

/-! ## Equality of values -/

/-- `==` on frozen values: mappings are compared whatever the order of their entries. -/
inductive Value.Equals : Value → Value → Prop
  | refl (value : Value) : Equals value value
  | tuple {items items' : List Value} (h : List.Forall₂ Equals items items') :
      Equals (.tuple items) (.tuple items')
  | mappingProxy {entries permuted entries' : List (Value × Value)}
      (hperm : entries.Perm permuted) (hkeys : permuted.map Prod.fst = entries'.map Prod.fst)
      (hvalues : List.Forall₂ Equals (permuted.map Prod.snd) (entries'.map Prod.snd)) :
      Equals (.mappingProxy entries) (.mappingProxy entries')

/-- Frozen JSON: numbers other than `nan`, texts and secret references, in sequences and
in mappings with texts as keys. -/
inductive Value.FrozenJson : Value → Prop
  | none : FrozenJson .none
  | bool (value : Bool) : FrozenJson (.bool value)
  | int (value : ℤ) : FrozenJson (.int value)
  | float {value : PyFloat} (h : value ≠ .nan) : FrozenJson (.float value)
  | str (text : String) : FrozenJson (.str text)
  | secretRef (provider name : String) : FrozenJson (.secretRef provider name)
  | tuple {items : List Value} (h : ∀ item ∈ items, FrozenJson item) : FrozenJson (.tuple items)
  | mappingProxy {entries : List (Value × Value)} (hnodup : (entries.map Prod.fst).Nodup)
      (hkeys : ∀ entry ∈ entries, ∃ key, entry.1 = .str key)
      (h : ∀ entry ∈ entries, FrozenJson entry.2) : FrozenJson (.mappingProxy entries)

mutual

/-- The value with the placeholder for each secret reference. -/
def hideSecrets : Value → Value
  | .secretRef _ _ => redacted
  | .mappingProxy entries => .mappingProxy (hideSecretEntries entries)
  | .tuple items => .tuple (hideSecretItems items)
  | value => value

def hideSecretItems : List Value → List Value
  | [] => []
  | item :: rest => hideSecrets item :: hideSecretItems rest

def hideSecretEntries : List (Value × Value) → List (Value × Value)
  | [] => []
  | (key, value) :: rest => (key, hideSecrets value) :: hideSecretEntries rest

end

theorem hideSecretItems_eq_map (items : List Value) :
    hideSecretItems items = items.map hideSecrets := by
  induction items with
  | nil => rfl
  | cons item rest ih => rw [hideSecretItems, ih, List.map_cons]

theorem hideSecretEntries_eq_map (entries : List (Value × Value)) :
    hideSecretEntries entries = entries.map fun entry => (entry.1, hideSecrets entry.2) := by
  induction entries with
  | nil => rfl
  | cons entry rest ih => rw [hideSecretEntries, ih, List.map_cons]

theorem thawItems_eq_map (items : List Value) : thawItems items = items.map thawValue := by
  induction items with
  | nil => rfl
  | cons item rest ih => rw [thawItems, ih, List.map_cons]

theorem thawEntries_eq_map (entries : List (Value × Value)) :
    thawEntries entries = entries.map fun entry => (entry.1, thawValue entry.2) := by
  induction entries with
  | nil => rfl
  | cons entry rest ih => rw [thawEntries, ih, List.map_cons]

/-! ## Secrets -/

/-- A step into a value. -/
inductive Segment where
  | index (position : ℕ)
  | key (name : String)

/-- The secret reference at a path, if there is one. -/
def Value.secretAt : List Segment → Value → Option (String × String)
  | [], .secretRef provider name => some (provider, name)
  | .index position :: rest, .tuple items => items[position]?.bind (secretAt rest)
  | .key name :: rest, .mappingProxy entries => (Value.lookup name entries).bind (secretAt rest)
  | _, _ => Option.none

/-- The same secret references stand at the same places. -/
def Value.SameSecrets (a b : Value) : Prop := ∀ path, a.secretAt path = b.secretAt path

theorem Value.lookup_of_mem {name : String} {value : Value} {entries : List (Value × Value)}
    (hnodup : (entries.map Prod.fst).Nodup) (h : (.str name, value) ∈ entries) :
    Value.lookup name entries = some value := by
  induction entries with
  | nil => cases h
  | cons entry rest ih =>
      obtain ⟨hfresh, hrest⟩ := List.nodup_cons.mp hnodup
      rcases List.mem_cons.mp h with rfl | hmem
      · rw [lookup, if_pos rfl]
      · have hkey : entry.1 ≠ .str name := fun hkey =>
          hfresh (hkey ▸ List.mem_map_of_mem (f := Prod.fst) hmem)
        obtain ⟨key, _⟩ := entry
        cases key with
        | str key =>
            rw [lookup, if_neg fun heq => hkey (congrArg Value.str heq)]
            exact ih hrest hmem
        | _ => exact ih hrest hmem

theorem Value.mem_of_lookup {name : String} {value : Value} {entries : List (Value × Value)}
    (h : Value.lookup name entries = some value) : (.str name, value) ∈ entries := by
  induction entries with
  | nil => cases h
  | cons entry rest ih =>
      obtain ⟨key, _⟩ := entry
      cases key with
      | str key =>
          rw [lookup] at h
          split at h
          case isTrue hkey => exact Option.some.inj h ▸ hkey ▸ List.mem_cons_self
          case isFalse => exact List.mem_cons_of_mem _ (ih h)
      | _ => exact List.mem_cons_of_mem _ (ih h)

/-- Keys are distinct, so that the order of the entries does not matter. -/
theorem Value.lookup_perm {name : String} {entries permuted : List (Value × Value)}
    (hnodup : (entries.map Prod.fst).Nodup) (hperm : entries.Perm permuted) :
    Value.lookup name entries = Value.lookup name permuted := by
  have hnodup' := (hperm.map Prod.fst).nodup_iff.mp hnodup
  refine Option.ext fun value => ⟨fun h => ?_, fun h => ?_⟩
  · exact lookup_of_mem hnodup' (hperm.mem_iff.mp (mem_of_lookup h))
  · exact lookup_of_mem hnodup (hperm.mem_iff.mpr (mem_of_lookup h))

theorem Value.lookup_bind_congr {α : Type} {name : String} {f : Value → Option α}
    {entries entries' : List (Value × Value)}
    (h : List.Forall₂ (fun a b => a.1 = b.1 ∧ f a.2 = f b.2) entries entries') :
    (Value.lookup name entries).bind f = (Value.lookup name entries').bind f := by
  induction h with
  | nil => rfl
  | @cons entry other _ _ hentry _ ih =>
      obtain ⟨key, value⟩ := entry
      obtain ⟨_, value'⟩ := other
      obtain ⟨rfl, hvalue⟩ := hentry
      cases key with
      | str key =>
          rw [lookup, lookup]
          split
          · exact hvalue
          · exact ih
      | _ => exact ih

theorem Value.SameSecrets.items {items items' : List Value}
    (h : (Value.tuple items).SameSecrets (.tuple items')) {position : ℕ} {a b : Value}
    (ha : items[position]? = some a) (hb : items'[position]? = some b) : a.SameSecrets b := by
  intro path
  have hpath := h (.index position :: path)
  rwa [secretAt, secretAt, ha, hb, Option.bind_some, Option.bind_some] at hpath

theorem Value.SameSecrets.entries {entries entries' : List (Value × Value)}
    (h : (Value.mappingProxy entries).SameSecrets (.mappingProxy entries'))
    (hnodup : (entries.map Prod.fst).Nodup) (hnodup' : (entries'.map Prod.fst).Nodup)
    {name : String} {a b : Value} (ha : (.str name, a) ∈ entries) (hb : (.str name, b) ∈ entries') :
    a.SameSecrets b := by
  intro path
  have hpath := h (.key name :: path)
  rwa [secretAt, secretAt, lookup_of_mem hnodup ha, lookup_of_mem hnodup' hb, Option.bind_some,
    Option.bind_some] at hpath

/-! ## Relations between lists -/

/-- Whatever is related to something, item by item, is related as a list. -/
theorem exists_forall₂ {α β : Type} {R : α → β → Prop} {items : List α}
    (h : ∀ item ∈ items, ∃ other, R item other) : ∃ others, List.Forall₂ R items others := by
  induction items with
  | nil => exact ⟨[], .nil⟩
  | cons item rest ih =>
      obtain ⟨hitem, hrest⟩ := List.forall_mem_cons.mp h
      obtain ⟨other, hother⟩ := hitem
      obtain ⟨others, hothers⟩ := ih hrest
      exact ⟨other :: others, .cons hother hothers⟩

theorem forall₂_comp {α β : Type} {R : α → β → Prop} {xs ys : List α} : ∀ {zs : List β},
    List.Forall₂ R xs zs → List.Forall₂ R ys zs →
      List.Forall₂ (fun x y => ∃ z, R x z ∧ R y z) xs ys := by
  intro zs hx
  induction hx generalizing ys with
  | nil => intro hy; rw [List.forall₂_nil_right_iff.mp hy]; exact .nil
  | cons hxz _ ih =>
      intro hy
      obtain ⟨y, ys, hyz, hys, rfl⟩ := List.forall₂_cons_right_iff.mp hy
      exact .cons ⟨_, hxz, hyz⟩ (ih hys)

theorem forall₂_imp_of_mem {α β : Type} {R S : α → β → Prop} {xs : List α} {ys : List β}
    (h : List.Forall₂ R xs ys) : (∀ x ∈ xs, ∀ y ∈ ys, R x y → S x y) → List.Forall₂ S xs ys := by
  induction h with
  | nil => exact fun _ => .nil
  | cons hxy _ ih =>
      intro himp
      refine .cons (himp _ List.mem_cons_self _ List.mem_cons_self hxy) (ih fun x hx y hy => ?_)
      exact himp x (List.mem_cons_of_mem _ hx) y (List.mem_cons_of_mem _ hy)

/-- Entries with the same keys and with related values. -/
theorem forall₂_of_keys_of_values {α β γ : Type} {R : β → γ → Prop} {xs : List (α × β)}
    {ys : List (α × γ)} (hkeys : xs.map Prod.fst = ys.map Prod.fst)
    (hvalues : List.Forall₂ R (xs.map Prod.snd) (ys.map Prod.snd)) :
    List.Forall₂ (fun a b => a.1 = b.1 ∧ R a.2 b.2) xs ys := by
  rw [← List.forall₂_eq_eq_eq, List.forall₂_map_left_iff, List.forall₂_map_right_iff] at hkeys
  rw [List.forall₂_map_left_iff, List.forall₂_map_right_iff] at hvalues
  rw [List.forall₂_iff_get] at hkeys hvalues ⊢
  exact ⟨hkeys.1, fun i hi hi' => ⟨hkeys.2 i hi hi', hvalues.2 i hi hi'⟩⟩

/-- The order in which the images of a list come is one of the list itself. -/
theorem exists_perm_of_map_perm {α β : Type} (f : α → β) {xs : List α} {ys : List β}
    (h : (xs.map f).Perm ys) : ∃ permuted, xs.Perm permuted ∧ ys = permuted.map f := by
  obtain ⟨permuted, hmap, hperm⟩ :
      Relation.Comp (fun ys permuted => ys = permuted.map f) List.Perm ys xs := by
    rw [List.eq_map_comp_perm]
    exact h.symm
  exact ⟨permuted, hperm.symm, hmap⟩

/-- Lists that differ in order only are the same if their keys are, each of which occurs once. -/
theorem eq_of_perm_of_map_eq {α β : Type} (f : α → β) {xs : List α} : ∀ {ys : List α},
    xs.Perm ys → xs.map f = ys.map f → (xs.map f).Nodup → xs = ys := by
  induction xs with
  | nil => exact fun hperm _ _ => hperm.nil_eq
  | cons x xs ih =>
      intro ys hperm hkeys hnodup
      cases ys with
      | nil => cases hkeys
      | cons y ys =>
          obtain ⟨hkey, hrest⟩ := List.cons.inj hkeys
          obtain ⟨hfresh, hnodup⟩ := List.nodup_cons.mp hnodup
          obtain rfl | hmem := List.mem_cons.mp (hperm.mem_iff.mp List.mem_cons_self)
          · rw [ih hperm.cons_inv hrest hnodup]
          · exact absurd (hrest ▸ List.mem_map_of_mem hmem) hfresh

/-! ## Values with the same JSON -/

namespace Value

/-- Both have a JSON value, and it is one. -/
def SameJson (a b : Value) : Prop := ∃ json, a.json? = some json ∧ b.json? = some json

theorem jsonItems?_eq_some_iff {items : List Value} : ∀ {members : List (Json PyScalar)},
    jsonItems? items = some members ↔
      List.Forall₂ (fun item member => item.json? = some member) items members := by
  induction items with
  | nil => simp [jsonItems?, eq_comm]
  | cons item rest ih =>
      intro members
      simp only [jsonItems?, Option.bind_eq_bind, Option.bind_eq_some_iff, Option.pure_def,
        Option.some.injEq, ih, List.forall₂_cons_left_iff]
      constructor
      · rintro ⟨member, hmember, members, hmembers, rfl⟩
        exact ⟨member, members, hmember, hmembers, rfl⟩
      · rintro ⟨member, members, hmember, hmembers, rfl⟩
        exact ⟨member, hmember, members, hmembers, rfl⟩

theorem jsonEntries?_eq_some_iff {entries : List (Value × Value)} :
    ∀ {members : List (String × Json PyScalar)}, jsonEntries? entries = some members ↔
      List.Forall₂ (fun entry member => entry.1 = .str member.1 ∧ entry.2.json? = some member.2)
        entries members := by
  induction entries with
  | nil => simp [jsonEntries?, eq_comm]
  | cons entry rest ih =>
      obtain ⟨key, value⟩ := entry
      intro members
      rw [List.forall₂_cons_left_iff]
      cases key with
      | str key =>
          simp only [jsonEntries?, Option.bind_eq_bind, Option.bind_eq_some_iff, Option.pure_def,
            Option.some.injEq, ih, Value.str.injEq]
          constructor
          · rintro ⟨json, hjson, members, hmembers, rfl⟩
            exact ⟨(key, json), members, ⟨rfl, hjson⟩, hmembers, rfl⟩
          · rintro ⟨⟨_, json⟩, members, ⟨rfl, hjson⟩, hmembers, rfl⟩
            exact ⟨json, hjson, members, hmembers, rfl⟩
      | _ =>
          simp only [jsonEntries?, reduceCtorEq, false_and, exists_false]

theorem json?_list_eq_some_iff {items : List Value} {json : Json PyScalar} :
    (Value.list items).json? = some json ↔ ∃ members, json = .arr members ∧
      List.Forall₂ (fun item member => item.json? = some member) items members := by
  simp only [json?, Option.map_eq_some_iff, jsonItems?_eq_some_iff, and_comm,
    @eq_comm _ json]

/-- The members come sorted by key. -/
theorem json?_dict_eq_some_iff {entries : List (Value × Value)} {json : Json PyScalar} :
    (Value.dict entries).json? = some json ↔ ∃ members,
      List.Forall₂ (fun entry member => entry.1 = .str member.1 ∧ entry.2.json? = some member.2)
        entries members ∧ (members.map Prod.fst).Nodup ∧
      json = .obj (members.insertionSort fun a b => a.1 ≤ b.1) := by
  simp only [json?, Option.bind_eq_bind, Option.bind_eq_some_iff, jsonEntries?_eq_some_iff,
    Option.ite_none_right_eq_some, Option.some.injEq, @eq_comm _ json]

theorem exists_json?_list {items : List Value} (h : ∀ item ∈ items, ∃ json, item.json? = some json) :
    ∃ json, (Value.list items).json? = some json := by
  obtain ⟨members, hmembers⟩ := exists_forall₂ h
  exact ⟨_, json?_list_eq_some_iff.mpr ⟨members, rfl, hmembers⟩⟩

theorem exists_json?_dict {entries : List (Value × Value)}
    (hnodup : (entries.map Prod.fst).Nodup)
    (h : ∀ entry ∈ entries, (∃ key, entry.1 = .str key) ∧ ∃ json, entry.2.json? = some json) :
    ∃ json, (Value.dict entries).json? = some json := by
  have hrelated : ∀ entry ∈ entries, ∃ member : String × Json PyScalar,
      entry.1 = .str member.1 ∧ entry.2.json? = some member.2 := by
    intro entry hentry
    obtain ⟨⟨key, hkey⟩, json, hjson⟩ := h entry hentry
    exact ⟨(key, json), hkey, hjson⟩
  obtain ⟨members, hmembers⟩ := exists_forall₂ hrelated
  refine ⟨_, json?_dict_eq_some_iff.mpr ⟨members, hmembers, ?_, rfl⟩⟩
  have hkeys : entries.map Prod.fst = (members.map Prod.fst).map Value.str := by
    rw [List.map_map, ← List.forall₂_eq_eq_eq, List.forall₂_map_left_iff,
      List.forall₂_map_right_iff]
    exact hmembers.imp fun _ _ hmember => hmember.1
  exact List.Nodup.of_map _ (hkeys ▸ hnodup)

theorem exists_json?_ofFields {fields : List (String × Value)}
    (hnodup : (fields.map Prod.fst).Nodup) (h : ∀ field ∈ fields, ∃ json, field.2.json? = some json) :
    ∃ json, (Value.ofFields fields).json? = some json := by
  refine exists_json?_dict ?_ ?_
  · rw [List.map_map]
    have hkeys : fields.map (Prod.fst ∘ fun field : String × Value => (Value.str field.1, field.2)) =
        (fields.map Prod.fst).map Value.str := by rw [List.map_map]; rfl
    rw [hkeys]
    exact hnodup.map fun _ _ => Value.str.inj
  · intro entry hentry
    obtain ⟨field, hfield, rfl⟩ := List.mem_map.mp hentry
    exact ⟨⟨field.1, rfl⟩, h field hfield⟩

theorem SameJson.str {a b : String} (h : (Value.str a).SameJson (.str b)) : a = b := by
  obtain ⟨json, ha, hb⟩ := h
  exact Json.str.inj (Option.some.inj (ha.trans hb.symm))

theorem SameJson.int {a b : ℤ} (h : (Value.int a).SameJson (.int b)) : a = b := by
  obtain ⟨json, ha, hb⟩ := h
  exact PyScalar.int.inj (Json.scalar.inj (Option.some.inj (ha.trans hb.symm)))

theorem SameJson.float {a b : PyFloat} (h : (Value.float a).SameJson (.float b)) : a = b := by
  obtain ⟨json, ha, hb⟩ := h
  exact PyScalar.float.inj (Json.scalar.inj (Option.some.inj (ha.trans hb.symm)))

theorem SameJson.list {items items' : List Value}
    (h : (Value.list items).SameJson (.list items')) : List.Forall₂ SameJson items items' := by
  obtain ⟨json, ha, hb⟩ := h
  obtain ⟨members, rfl, hmembers⟩ := json?_list_eq_some_iff.mp ha
  obtain ⟨members', heq, hmembers'⟩ := json?_list_eq_some_iff.mp hb
  obtain rfl := Json.arr.inj heq
  exact forall₂_comp hmembers hmembers'

/-- The entries of one have the keys of the other, and there the same values. -/
theorem SameJson.dict {entries entries' : List (Value × Value)}
    (h : (Value.dict entries).SameJson (.dict entries')) : ∃ permuted, entries.Perm permuted ∧
      List.Forall₂ (fun a b => a.1 = b.1 ∧ a.2.SameJson b.2) permuted entries' := by
  obtain ⟨json, ha, hb⟩ := h
  obtain ⟨members, hmembers, -, rfl⟩ := json?_dict_eq_some_iff.mp ha
  obtain ⟨members', hmembers', -, heq⟩ := json?_dict_eq_some_iff.mp hb
  have hperm : members.Perm members' := by
    have hsorted := List.perm_insertionSort (fun a b : String × Json PyScalar => a.1 ≤ b.1) members
    rw [Json.obj.inj heq] at hsorted
    exact hsorted.symm.trans (List.perm_insertionSort _ _)
  obtain ⟨permuted, hentries, hrelated⟩ : Relation.Comp List.Perm (List.Forall₂ _) entries members' := by
    rw [← List.forall₂_comp_perm_eq_perm_comp_forall₂]
    exact ⟨members, hmembers, hperm⟩
  refine ⟨permuted, hentries, (forall₂_comp hrelated hmembers').imp fun a b => ?_⟩
  rintro ⟨member, ⟨hkey, hjson⟩, hkey', hjson'⟩
  exact ⟨hkey.trans hkey'.symm, _, hjson, hjson'⟩

/-- Fields of the same names are compared one by one. -/
theorem SameJson.ofFields {fields fields' : List (String × Value)}
    (h : (Value.ofFields fields).SameJson (.ofFields fields')) {names : List String}
    (hnames : fields.map Prod.fst = names) (hnames' : fields'.map Prod.fst = names)
    (hnodup : names.Nodup) :
    List.Forall₂ (fun a b => a.2.SameJson b.2) fields fields' := by
  obtain ⟨permuted, hperm, hrelated⟩ := SameJson.dict h
  have hkeys (fields : List (String × Value)) :
      (fields.map fun field => (Value.str field.1, field.2)).map Prod.fst =
        (fields.map Prod.fst).map .str := by
    rw [List.map_map, List.map_map]
    rfl
  have hsame : fields.map (fun field => (Value.str field.1, field.2)) = permuted := by
    refine eq_of_perm_of_map_eq Prod.fst hperm ?_ ?_
    · rw [hkeys, hnames, ← hnames', ← hkeys, eq_comm, ← List.forall₂_eq_eq_eq, List.forall₂_map_left_iff,
        List.forall₂_map_right_iff]
      exact hrelated.imp fun _ _ hentry => hentry.1
    · rw [hkeys, hnames]
      exact hnodup.map fun _ _ => Value.str.inj
  rw [← hsame, List.forall₂_map_left_iff, List.forall₂_map_right_iff] at hrelated
  exact hrelated.imp fun _ _ hfield => hfield.2

/-- Fields are replaced by fields of the same JSON. -/
theorem SameJson.of_fields {fields fields' : List (String × Value)}
    (h : List.Forall₂ (fun a b => a.1 = b.1 ∧ (a.2 = b.2 ∨ a.2.SameJson b.2)) fields fields')
    (hjson : ∃ json, (Value.ofFields fields).json? = some json) :
    (Value.ofFields fields).SameJson (.ofFields fields') := by
  obtain ⟨json, hjson⟩ := hjson
  obtain ⟨members, hmembers, hnodup, rfl⟩ := json?_dict_eq_some_iff.mp hjson
  refine ⟨_, hjson, json?_dict_eq_some_iff.mpr ⟨members, ?_, hnodup, rfl⟩⟩
  rw [List.forall₂_map_left_iff] at hmembers ⊢
  clear hnodup hjson
  induction h generalizing members with
  | nil => exact hmembers
  | cons hfield _ ih =>
      obtain ⟨member, rest, ⟨hkey, hvalue⟩, hrest, rfl⟩ := List.forall₂_cons_left_iff.mp hmembers
      obtain ⟨hname, heq | ⟨value, hfirst, hsecond⟩⟩ := hfield
      · exact .cons ⟨hname ▸ hkey, heq ▸ hvalue⟩ (ih rest hrest)
      · exact .cons ⟨hname ▸ hkey, hsecond.trans (hfirst.symm.trans hvalue)⟩ (ih rest hrest)

theorem SameJson.of_items {items items' : List Value} (h : List.Forall₂ SameJson items items') :
    (Value.list items).SameJson (.list items') := by
  have hmembers : ∃ members : List (Json PyScalar),
      List.Forall₂ (fun item member => item.json? = some member) items members ∧
        List.Forall₂ (fun item member => item.json? = some member) items' members := by
    induction h with
    | nil => exact ⟨[], .nil, .nil⟩
    | cons hitem _ ih =>
        obtain ⟨member, hfirst, hsecond⟩ := hitem
        obtain ⟨members, hmembers, hmembers'⟩ := ih
        exact ⟨member :: members, .cons hfirst hmembers, .cons hsecond hmembers'⟩
  obtain ⟨members, hmembers, hmembers'⟩ := hmembers
  exact ⟨_, json?_list_eq_some_iff.mpr ⟨members, rfl, hmembers⟩,
    json?_list_eq_some_iff.mpr ⟨members, rfl, hmembers'⟩⟩

/-! ## Frozen JSON -/

theorem FrozenJson.exists_json? {value : Value} (h : value.FrozenJson) :
    ∃ json, (thawValue value).json? = some json := by
  induction h with
  | none | bool | int | float | str | secretRef => exact ⟨_, rfl⟩
  | tuple _ ih =>
      rw [thawValue, thawItems_eq_map]
      exact exists_json?_list (List.forall_mem_map.mpr ih)
  | mappingProxy hnodup hkeys _ ih =>
      rw [thawValue, thawEntries_eq_map]
      refine exists_json?_dict (by rwa [List.map_map]) ?_
      exact List.forall_mem_map.mpr fun entry hentry => ⟨hkeys entry hentry, ih entry hentry⟩

/-- What thaws to a sequence is one. -/
theorem FrozenJson.of_arr {value : Value} {members : List (Json PyScalar)} (h : value.FrozenJson)
    (hjson : (thawValue value).json? = some (.arr members)) :
    ∃ items, value = .tuple items ∧ ∀ item ∈ items, item.FrozenJson := by
  cases h with
  | none | bool | int | float | str | secretRef => cases hjson
  | tuple h => exact ⟨_, rfl, h⟩
  | mappingProxy =>
      obtain ⟨_, _, _, heq⟩ := json?_dict_eq_some_iff.mp hjson
      cases heq

theorem FrozenJson.of_obj {value : Value} {members : List (String × Json PyScalar)}
    (h : value.FrozenJson) (hjson : (thawValue value).json? = some (.obj members)) :
    ∃ entries, value = .mappingProxy entries ∧ (entries.map Prod.fst).Nodup ∧
      ∀ entry ∈ entries, entry.2.FrozenJson := by
  cases h with
  | none | bool | int | float | str | secretRef => cases hjson
  | tuple =>
      obtain ⟨_, heq, _⟩ := json?_list_eq_some_iff.mp hjson
      cases heq
  | mappingProxy hnodup _ h => exact ⟨_, rfl, hnodup, h⟩

/-- Values with the same secrets that have one JSON value when thawed are equal. -/
theorem FrozenJson.equals_of_sameJson {a : Value} (ha : a.FrozenJson) :
    ∀ {b : Value}, b.FrozenJson → (thawValue a).SameJson (thawValue b) → a.SameSecrets b →
      a.Equals b := by
  induction ha with
  | none | bool | int | float | str | secretRef =>
      intro b hb hsame hsecrets
      obtain ⟨json, hjson, hjson'⟩ := hsame
      obtain rfl := Option.some.inj hjson
      have hroot := hsecrets []
      cases hb with
      | none | bool | int | float | str | secretRef =>
          first
          | cases hroot; cases Option.some.inj hjson'; exact .refl _
          | cases hroot; cases hjson'
          | cases hroot
      | tuple =>
          obtain ⟨_, heq, _⟩ := json?_list_eq_some_iff.mp hjson'
          cases heq
      | mappingProxy =>
          obtain ⟨_, _, _, heq⟩ := json?_dict_eq_some_iff.mp hjson'
          cases heq
  | @tuple items _ ih =>
      intro b hb hsame hsecrets
      obtain ⟨items', rfl, hitems'⟩ :
          ∃ items', b = .tuple items' ∧ ∀ item ∈ items', item.FrozenJson := by
        obtain ⟨json, hjson, hjson'⟩ := hsame
        obtain ⟨members, rfl, -⟩ := json?_list_eq_some_iff.mp hjson
        exact hb.of_arr hjson'
      rw [thawValue, thawValue, thawItems_eq_map, thawItems_eq_map] at hsame
      have hitems := hsame.list
      rw [List.forall₂_map_left_iff, List.forall₂_map_right_iff, List.forall₂_iff_get] at hitems
      obtain ⟨hlength, hitems⟩ := hitems
      refine .tuple (List.forall₂_iff_get.mpr ⟨hlength, fun i hi hi' => ?_⟩)
      exact ih _ (List.get_mem _ _) (hitems' _ (List.get_mem _ _)) (hitems i hi hi')
        (hsecrets.items (List.getElem?_eq_getElem hi) (List.getElem?_eq_getElem hi'))
  | @mappingProxy entries hnodup hkeys _ ih =>
      intro b hb hsame hsecrets
      obtain ⟨entries', rfl, hnodup', hentries'⟩ : ∃ entries', b = .mappingProxy entries' ∧
          (entries'.map Prod.fst).Nodup ∧ ∀ entry ∈ entries', entry.2.FrozenJson := by
        obtain ⟨json, hjson, hjson'⟩ := hsame
        obtain ⟨members, _, _, rfl⟩ := json?_dict_eq_some_iff.mp hjson
        exact hb.of_obj hjson'
      rw [thawValue, thawValue, thawEntries_eq_map, thawEntries_eq_map] at hsame
      obtain ⟨thawed, hperm, hthawed⟩ := hsame.dict
      -- the order in which the thawed entries agree is one of the entries themselves
      obtain ⟨permuted, hpermuted, rfl⟩ := exists_perm_of_map_perm _ hperm
      rw [List.forall₂_map_left_iff, List.forall₂_map_right_iff] at hthawed
      refine .mappingProxy hpermuted ?_ ?_
      · rw [← List.forall₂_eq_eq_eq, List.forall₂_map_left_iff, List.forall₂_map_right_iff]
        exact hthawed.imp fun _ _ hentry => hentry.1
      · rw [List.forall₂_map_left_iff, List.forall₂_map_right_iff]
        refine forall₂_imp_of_mem hthawed fun entry hentry other hother hrelated => ?_
        have hmem := hpermuted.mem_iff.mpr hentry
        obtain ⟨key, hkey⟩ := hkeys entry hmem
        have hfirst : (.str key, entry.2) ∈ entries := hkey ▸ hmem
        have hsecond : (.str key, other.2) ∈ entries' := (hkey ▸ hrelated.1) ▸ hother
        exact ih entry hmem (hentries' other hother) hrelated.2
          (hsecrets.entries hnodup hnodup' hfirst hsecond)

theorem FrozenJson.hideSecrets {value : Value} (h : value.FrozenJson) :
    (hideSecrets value).FrozenJson := by
  induction h with
  | none | bool | int | str => constructor
  | float h => exact .float h
  | secretRef => exact .str _
  | tuple _ ih =>
      rw [ChangePilot.hideSecrets, hideSecretItems_eq_map]
      exact .tuple (List.forall_mem_map.mpr ih)
  | mappingProxy hnodup hkeys _ ih =>
      rw [ChangePilot.hideSecrets, hideSecretEntries_eq_map]
      exact .mappingProxy (by rwa [List.map_map]) (List.forall_mem_map.mpr hkeys)
        (List.forall_mem_map.mpr ih)

/-- Thawing hides the secrets. -/
theorem FrozenJson.thaw_hideSecrets {value : Value} (h : value.FrozenJson) :
    thawValue (ChangePilot.hideSecrets value) = thawValue value := by
  induction h with
  | none | bool | int | float | str | secretRef => rfl
  | tuple _ ih =>
      rw [ChangePilot.hideSecrets, hideSecretItems_eq_map, thawValue, thawValue, thawItems_eq_map,
        thawItems_eq_map, List.map_map]
      exact congrArg Value.list (List.map_congr_left ih)
  | mappingProxy _ _ _ ih =>
      rw [ChangePilot.hideSecrets, hideSecretEntries_eq_map, thawValue, thawValue,
        thawEntries_eq_map, thawEntries_eq_map, List.map_map]
      exact congrArg Value.dict (List.map_congr_left fun entry hentry =>
        congrArg (Prod.mk entry.1) (ih entry hentry))

theorem lookup_hideSecretEntries (name : String) (entries : List (Value × Value)) :
    Value.lookup name (hideSecretEntries entries) =
      (Value.lookup name entries).map ChangePilot.hideSecrets := by
  induction entries with
  | nil => rfl
  | cons entry rest ih =>
      obtain ⟨key, value⟩ := entry
      cases key with
      | str key =>
          rw [hideSecretEntries, lookup, lookup, ih]
          split <;> rfl
      | _ => exact ih

/-- No secret is left. -/
theorem secretAt_hideSecrets (path : List Segment) :
    ∀ value : Value, (ChangePilot.hideSecrets value).secretAt path = Option.none := by
  induction path with
  | nil => exact fun value => by cases value <;> rfl
  | cons segment rest ih =>
      intro value
      cases segment with
      | index position =>
          cases value with
          | tuple items =>
              rw [ChangePilot.hideSecrets, hideSecretItems_eq_map, secretAt, List.getElem?_map]
              cases items[position]? with
              | none => rfl
              | some item => exact ih item
          | _ => rfl
      | key name =>
          cases value with
          | mappingProxy entries =>
              rw [ChangePilot.hideSecrets, secretAt, lookup_hideSecretEntries]
              cases Value.lookup name entries with
              | none => rfl
              | some entry => exact ih entry
          | _ => rfl

/-- Equal values name the same secrets. -/
theorem Equals.sameSecrets (path : List Segment) : ∀ {a b : Value}, a.FrozenJson → b.FrozenJson →
    a.Equals b → a.secretAt path = b.secretAt path := by
  induction path with
  | nil =>
      intro a b _ _ h
      cases h <;> rfl
  | cons segment rest ih =>
      intro a b ha hb h
      cases h with
      | refl => rfl
      -- the items are compared place by place
      | @tuple items items' h =>
          cases segment with
          | key => rfl
          | index position =>
              rw [secretAt, secretAt]
              cases ha with | tuple ha =>
              cases hb with | tuple hb =>
              obtain ⟨hlength, hitems⟩ := List.forall₂_iff_get.mp h
              rcases lt_or_ge position items.length with hlt | hge
              · rw [List.getElem?_eq_getElem hlt, List.getElem?_eq_getElem (hlength ▸ hlt)]
                exact ih (ha _ (List.getElem_mem _)) (hb _ (List.getElem_mem _)) (hitems _ _ _)
              · rw [List.getElem?_eq_none hge, List.getElem?_eq_none (hlength ▸ hge)]
      -- the entries key by key
      | @mappingProxy entries permuted entries' hperm hkeys hvalues =>
          cases segment with
          | index => rfl
          | key name =>
              rw [secretAt, secretAt]
              cases ha with | mappingProxy hnodup _ ha =>
              cases hb with | mappingProxy hnodup' _ hb =>
              have hrelated := forall₂_of_keys_of_values hkeys hvalues
              rw [lookup_perm hnodup hperm]
              refine lookup_bind_congr (forall₂_imp_of_mem hrelated ?_)
              exact fun entry hentry other hother hentries => ⟨hentries.1,
                ih (ha entry (hperm.mem_iff.mpr hentry)) (hb other hother) hentries.2⟩

/-- Values that have one JSON value when thawed are equal but for their secrets. -/
theorem FrozenJson.equals_hideSecrets {a b : Value} (ha : a.FrozenJson) (hb : b.FrozenJson)
    (hsame : (thawValue a).SameJson (thawValue b)) :
    (ChangePilot.hideSecrets a).Equals (ChangePilot.hideSecrets b) := by
  refine ha.hideSecrets.equals_of_sameJson hb.hideSecrets ?_ fun path => ?_
  · rwa [ha.thaw_hideSecrets, hb.thaw_hideSecrets]
  · rw [secretAt_hideSecrets, secretAt_hideSecrets]

end Value

/-! ## Equality of definitions -/

/-- Equality of steps; their arguments are compared as mappings are. -/
structure StepDefinition.Equals (a b : StepDefinition) : Prop where
  id : a.id = b.id
  tool : a.tool = b.tool
  arguments : a.arguments.Equals b.arguments
  dependsOn : a.dependsOn = b.dependsOn
  risk : a.risk = b.risk
  retry : a.retry = b.retry
  compensationTool : a.compensationTool = b.compensationTool

structure WorkflowDefinition.Equals (a b : WorkflowDefinition) : Prop where
  definitionId : a.definitionId = b.definitionId
  version : a.version = b.version
  steps : List.Forall₂ StepDefinition.Equals a.steps b.steps
  digest : a.digest = b.digest

/-- The step with its secrets hidden. -/
def StepDefinition.withoutSecrets (step : StepDefinition) : StepDefinition :=
  { step with arguments := hideSecrets step.arguments }

/-- The definition with the secrets of its steps hidden. -/
def WorkflowDefinition.withoutSecrets (definition : WorkflowDefinition) : WorkflowDefinition where
  __ := definition
  steps := definition.steps.map StepDefinition.withoutSecrets
  steps_sorted := List.pairwise_map.mpr definition.steps_sorted
  dependencies_known := by
    refine List.forall_mem_map.mpr fun step hstep d hd => ?_
    obtain ⟨other, hother, hid⟩ := definition.dependencies_known step hstep d hd
    exact ⟨other.withoutSecrets, List.mem_map_of_mem hother, hid⟩
  acyclic := by
    obtain ⟨rank, hrank⟩ := definition.acyclic
    exact ⟨rank, List.forall_mem_map.mpr hrank⟩

/-! ## Definitions with one digest -/

/-- What the digest of a definition is taken of. -/
def WorkflowDefinition.payload (definition : WorkflowDefinition) : Value :=
  .ofFields [
    ("definition_id", .str definition.definitionId),
    ("version", .int definition.version),
    ("steps", .list (definition.steps.map stepToCanonical))]

/-- The text of the definition, if it is encoded, is one of `texts`. -/
def WorkflowDefinition.EncodedIn (runtime : Runtime) (texts : Set String)
    (definition : WorkflowDefinition) : Prop :=
  ∀ text, runtime.jsonDumps true definition.payload = .ok text → text ∈ texts

/-- The arguments of the steps are JSON values and secret references. -/
def WorkflowDefinition.HasJsonArguments (definition : WorkflowDefinition) : Prop :=
  ∀ step ∈ definition.steps, step.arguments.FrozenJson

/-- The names of the fields of an encoded step. -/
def stepFields : List String :=
  ["id", "tool", "arguments", "depends_on", "risk", "retry", "compensation_tool"]

theorem exists_json?_toolToCanonical (tool : ToolReference) :
    ∃ json, (toolToCanonical tool).json? = some json := by
  refine Value.exists_json?_ofFields (show ["name", "version"].Nodup by decide) ?_
  simp [Value.json?]

/-- The fields of an encoded step. -/
def canonicalFields (step : StepDefinition) : List (String × Value) :=
  [("id", .str step.id),
    ("tool", toolToCanonical step.tool),
    ("arguments", thawValue step.arguments),
    ("depends_on", .list (step.dependsOn.map .str)),
    ("risk", .str step.risk),
    ("retry", .ofFields [
      ("max_attempts", .int step.retry.maxAttempts),
      ("initial_backoff_seconds", .float step.retry.initialBackoffSeconds)]),
    ("compensation_tool", (step.compensationTool.map toolToCanonical).getD .none)]

theorem exists_json?_canonicalFields {step : StepDefinition} (h : step.arguments.FrozenJson) :
    ∀ field ∈ canonicalFields step, ∃ json, field.2.json? = some json := by
  have hdepends : ∃ json, (Value.list (step.dependsOn.map .str)).json? = some json :=
    Value.exists_json?_list (List.forall_mem_map.mpr fun _ _ => ⟨_, rfl⟩)
  have hretry : ∃ json, (Value.ofFields [
      ("max_attempts", .int step.retry.maxAttempts),
      ("initial_backoff_seconds", .float step.retry.initialBackoffSeconds)]).json? = some json :=
    Value.exists_json?_ofFields
      (show ["max_attempts", "initial_backoff_seconds"].Nodup by decide) (by simp [Value.json?])
  have hcompensation :
      ∃ json, ((step.compensationTool.map toolToCanonical).getD .none).json? = some json := by
    cases step.compensationTool with
    | none => exact ⟨_, rfl⟩
    | some tool => exact exists_json?_toolToCanonical tool
  simp only [canonicalFields, List.forall_mem_cons]
  exact ⟨⟨_, rfl⟩, exists_json?_toolToCanonical step.tool, h.exists_json?, hdepends, ⟨_, rfl⟩, hretry,
    hcompensation, List.forall_mem_nil _⟩

theorem exists_json?_stepToCanonical {step : StepDefinition} (h : step.arguments.FrozenJson) :
    ∃ json, (stepToCanonical step).json? = some json :=
  Value.exists_json?_ofFields (show stepFields.Nodup by decide) (exists_json?_canonicalFields h)

theorem WorkflowDefinition.HasJsonArguments.exists_json? {definition : WorkflowDefinition}
    (h : definition.HasJsonArguments) : ∃ json, definition.payload.json? = some json := by
  refine Value.exists_json?_ofFields (show ["definition_id", "version", "steps"].Nodup by decide) ?_
  have hsteps : ∃ json, (Value.list (definition.steps.map stepToCanonical)).json? = some json :=
    Value.exists_json?_list (List.forall_mem_map.mpr fun step hstep =>
      exists_json?_stepToCanonical (h step hstep))
  simp only [List.forall_mem_cons]
  exact ⟨⟨_, rfl⟩, ⟨_, rfl⟩, hsteps, List.forall_mem_nil _⟩

theorem toolToCanonical_inj {a b : ToolReference}
    (h : (toolToCanonical a).SameJson (toolToCanonical b)) : a = b := by
  have hfields := Value.SameJson.ofFields h rfl rfl (show ["name", "version"].Nodup by decide)
  simp only [List.forall₂_cons, List.forall₂_nil_left_iff, and_true] at hfields
  obtain ⟨hname, hversion⟩ := hfields
  cases a
  cases b
  obtain rfl := hname.str
  obtain rfl := hversion.str
  rfl

theorem compensationToCanonical_inj : ∀ {a b : Option ToolReference},
    ((a.map toolToCanonical).getD .none).SameJson ((b.map toolToCanonical).getD .none) → a = b := by
  intro a b h
  have hobj (tool : ToolReference) : (toolToCanonical tool).json? ≠ Value.json? .none := by
    intro hjson
    obtain ⟨_, _, _, heq⟩ := Value.json?_dict_eq_some_iff.mp hjson
    cases heq
  cases a with
  | none =>
      cases b with
      | none => rfl
      | some tool =>
          obtain ⟨json, hjson, hjson'⟩ := h
          exact absurd (hjson'.trans hjson.symm) (hobj tool)
  | some tool =>
      cases b with
      | none =>
          obtain ⟨json, hjson, hjson'⟩ := h
          exact absurd (hjson.trans hjson'.symm) (hobj tool)
      | some other => exact congrArg some (toolToCanonical_inj h)

theorem retryToCanonical_inj {a b : RetryPolicy}
    (h : (Value.ofFields [("max_attempts", .int a.maxAttempts),
        ("initial_backoff_seconds", .float a.initialBackoffSeconds)]).SameJson
      (.ofFields [("max_attempts", .int b.maxAttempts),
        ("initial_backoff_seconds", .float b.initialBackoffSeconds)])) : a = b := by
  have hfields := Value.SameJson.ofFields h rfl rfl
    (show ["max_attempts", "initial_backoff_seconds"].Nodup by decide)
  simp only [List.forall₂_cons, List.forall₂_nil_left_iff, and_true] at hfields
  obtain ⟨hattempts, hbackoff⟩ := hfields
  cases a
  cases b
  obtain rfl := Int.ofNat.inj hattempts.int
  obtain rfl := hbackoff.float
  rfl

/-- Steps with one encoding are equal but for their arguments. -/
theorem stepToCanonical_equals {a b : StepDefinition}
    (h : (stepToCanonical a).SameJson (stepToCanonical b)) {first second : Value}
    (harguments : (thawValue a.arguments).SameJson (thawValue b.arguments) → first.Equals second) :
    StepDefinition.Equals { a with arguments := first } { b with arguments := second } := by
  have hfields := Value.SameJson.ofFields h rfl rfl (show stepFields.Nodup by decide)
  simp only [List.forall₂_cons, List.forall₂_nil_left_iff, and_true] at hfields
  obtain ⟨hid, htool, hthawed, hdepends, hrisk, hretry, hcompensation⟩ := hfields
  have hsame := hdepends.list
  rw [List.forall₂_map_left_iff, List.forall₂_map_right_iff] at hsame
  have hdependsOn : a.dependsOn = b.dependsOn := by
    rw [← List.forall₂_eq_eq_eq]
    exact hsame.imp fun _ _ hstr => hstr.str
  exact {
    id := hid.str
    tool := toolToCanonical_inj htool
    arguments := harguments hthawed
    dependsOn := hdependsOn
    risk := hrisk.str
    retry := retryToCanonical_inj hretry
    compensationTool := compensationToCanonical_inj hcompensation }

/-- The digest is that of the text. -/
theorem WorkflowDefinition.encoding_of_digest {runtime : Runtime} {definition : WorkflowDefinition}
    (h : calculateDigest runtime definition.definitionId definition.version definition.steps =
      .ok definition.digest) : ∃ text, runtime.jsonDumps true definition.payload = .ok text ∧
        definition.digest = (runtime.sha256 text).val := by
  simp only [calculateDigest, Except.bind_eq_ok_iff, Except.pure_eq_ok_iff] at h
  obtain ⟨text, htext, hdigest⟩ := h
  exact ⟨text, htext, hdigest.symm⟩

/-- The digests of such definitions are told apart, and so are their texts. -/
structure WorkflowDefinition.Digested (runtime : Runtime) (texts : Set String)
    (definition : WorkflowDefinition) : Prop where
  digest : calculateDigest runtime definition.definitionId definition.version definition.steps =
    .ok definition.digest
  hasJsonArguments : definition.HasJsonArguments
  encodedIn : definition.EncodedIn runtime texts

section

variable {runtime : Runtime} {floatText : PyFloat → String} (hjson : runtime.DumpsJson floatText)
  {texts : Set String} (hsha256 : Set.InjOn runtime.sha256 texts) {a b : WorkflowDefinition}
  (ha : a.Digested runtime texts) (hb : b.Digested runtime texts) (hdigest : a.digest = b.digest)

include hjson hsha256 ha hb hdigest

/-- The digest tells the encoding. -/
theorem WorkflowDefinition.sameJson_of_digest_eq : a.definitionId = b.definitionId ∧
    a.version = b.version ∧
      List.Forall₂ (fun step other => (stepToCanonical step).SameJson (stepToCanonical other))
        a.steps b.steps := by
  obtain ⟨text, htext, hdigestA⟩ := encoding_of_digest ha.digest
  obtain ⟨text', htext', hdigestB⟩ := encoding_of_digest hb.digest
  have hsame : text = text' := hsha256 (ha.encodedIn text htext) (hb.encodedIn text' htext')
    (Subtype.ext (hdigestA.symm.trans (hdigest.trans hdigestB)))
  obtain ⟨json, hjsonA⟩ := ha.hasJsonArguments.exists_json?
  obtain ⟨json', hjsonB⟩ := hb.hasJsonArguments.exists_json?
  have heq : json = json' := by
    refine hjson.text_injective ?_
    rw [← hjson.dumps _ _ _ hjsonA htext, ← hjson.dumps _ _ _ hjsonB htext', hsame]
  have hpayload : a.payload.SameJson b.payload := ⟨json, hjsonA, heq ▸ hjsonB⟩
  have hfields := Value.SameJson.ofFields hpayload rfl rfl
    (show ["definition_id", "version", "steps"].Nodup by decide)
  simp only [List.forall₂_cons, List.forall₂_nil_left_iff, and_true] at hfields
  obtain ⟨hid, hversion, hsteps⟩ := hfields
  have hsteps := hsteps.list
  rw [List.forall₂_map_left_iff, List.forall₂_map_right_iff] at hsteps
  exact ⟨hid.str, Int.ofNat.inj hversion.int, hsteps⟩

/-- Definitions whose texts SHA-256 tells apart are equal but for their secrets if they
have one digest. -/
theorem WorkflowDefinition.equals_of_digest_eq : a.withoutSecrets.Equals b.withoutSecrets := by
  obtain ⟨hid, hversion, hsteps⟩ := sameJson_of_digest_eq hjson hsha256 ha hb hdigest
  refine { definitionId := hid, version := hversion, steps := ?_, digest := hdigest }
  show List.Forall₂ _ (a.steps.map StepDefinition.withoutSecrets)
    (b.steps.map StepDefinition.withoutSecrets)
  rw [List.forall₂_map_left_iff, List.forall₂_map_right_iff]
  exact forall₂_imp_of_mem hsteps fun step hstep other hother hencoded =>
    stepToCanonical_equals hencoded
      ((ha.hasJsonArguments step hstep).equals_hideSecrets (hb.hasJsonArguments other hother))

/-- They are equal if and only if their steps name the same secrets. -/
theorem WorkflowDefinition.equals_iff_sameSecrets : a.Equals b ↔
    List.Forall₂ (fun step other => step.arguments.SameSecrets other.arguments) a.steps b.steps := by
  obtain ⟨hid, hversion, hsteps⟩ := sameJson_of_digest_eq hjson hsha256 ha hb hdigest
  constructor
  · intro h
    refine forall₂_imp_of_mem h.steps fun step hstep other hother hequals path => ?_
    exact hequals.arguments.sameSecrets path (ha.hasJsonArguments step hstep)
      (hb.hasJsonArguments other hother)
  · intro hsecrets
    refine { definitionId := hid, version := hversion, steps := ?_, digest := hdigest }
    obtain ⟨hlength, hsteps⟩ := List.forall₂_iff_get.mp hsteps
    refine List.forall₂_iff_get.mpr ⟨hlength, fun i hi hi' => ?_⟩
    refine stepToCanonical_equals (hsteps i hi hi') fun hthawed => ?_
    exact (ha.hasJsonArguments _ (List.get_mem _ _)).equals_of_sameJson
      (hb.hasJsonArguments _ (List.get_mem _ _)) hthawed (hsecrets.get hi hi')

end

end ChangePilot
