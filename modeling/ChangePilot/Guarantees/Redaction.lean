import ChangePilot.System.Sample

/-!
# What redaction hides and what it keeps

Two values that are the same but for what is sensitive are redacted to the same value, and
a redacted value is not changed any more.
-/

namespace ChangePilot

/-! ## Lists by position -/

/-- Lists of the same length with the same images position by position. -/
theorem mapIdx_eq_mapIdx {α β : Type} {xs ys : List α} {f g : ℕ → α → β}
    (hlength : xs.length = ys.length)
    (h : ∀ (i : ℕ) (x y : α), xs[i]? = some x → ys[i]? = some y → f i x = g i y) :
    xs.mapIdx f = ys.mapIdx g := by
  refine List.ext_getElem? fun i => ?_
  rw [List.getElem?_mapIdx, List.getElem?_mapIdx]
  cases hx : xs[i]? with
  | none =>
      have hy : ys[i]? = none := by
        rw [List.getElem?_eq_none_iff] at hx ⊢
        omega
      rw [hy]
      rfl
  | some x =>
      obtain ⟨y, hy⟩ : ∃ y, ys[i]? = some y := by
        obtain ⟨hi, _⟩ := List.getElem?_eq_some_iff.mp hx
        exact ⟨_, List.getElem?_eq_getElem (hlength ▸ hi)⟩
      rw [hy]
      exact congrArg some (h i x y hx hy)

section

variable {runtime : Runtime} {sensitivePaths : List (List String)}

theorem redactItems_eq_mapIdx (path : List String) (items : List Value) : ∀ index,
    redactItems runtime sensitivePaths path index items = items.mapIdx fun i item =>
      redactValue runtime sensitivePaths (path ++ [toString (index + i)]) item := by
  induction items with
  | nil => exact fun _ => rfl
  | cons item rest ih =>
      intro index
      rw [redactItems, List.mapIdx_cons, ih (index + 1)]
      simp only [Nat.add_zero, Nat.add_right_comm, Nat.add_assoc]

/-- What stands for an argument of an exception. -/
def redactExceptionArgument (runtime : Runtime) (sensitivePaths : List (List String))
    (path : List String) : Value → Value
  | .str _ | .bytes _ => redacted
  | value => redactValue runtime sensitivePaths path value

theorem redactExceptionArgs_cons (path : List String) (index : ℕ) (argument : Value)
    (rest : List Value) :
    redactExceptionArgs runtime sensitivePaths path index (argument :: rest) =
      redactExceptionArgument runtime sensitivePaths (path ++ [toString index]) argument ::
        redactExceptionArgs runtime sensitivePaths path (index + 1) rest := by
  cases argument <;> rfl

theorem redactExceptionArgs_eq_mapIdx (path : List String) (args : List Value) : ∀ index,
    redactExceptionArgs runtime sensitivePaths path index args = args.mapIdx fun i argument =>
      redactExceptionArgument runtime sensitivePaths (path ++ [toString (index + i)]) argument := by
  induction args with
  | nil => exact fun _ => rfl
  | cons argument rest ih =>
      intro index
      rw [redactExceptionArgs_cons, List.mapIdx_cons, ih (index + 1)]
      simp only [Nat.add_zero, Nat.add_right_comm, Nat.add_assoc]

theorem redactFields_eq_map (path : List String) (fields : List (String × Value)) :
    redactFields runtime sensitivePaths path fields = fields.map fun field =>
      (.str field.1, hideField runtime sensitivePaths path field.1
        (redactValue runtime sensitivePaths (path ++ [field.1]) field.2)) := by
  induction fields with
  | nil => rfl
  | cons field rest ih => rw [redactFields, List.map_cons, ih]

theorem redactEntries_eq_map (path : List String) (entries : List (Value × Value)) :
    redactEntries runtime sensitivePaths path entries = entries.map fun entry =>
      (runtime.str entry.1, hideField runtime sensitivePaths path (runtime.str entry.1)
        (redactValue runtime sensitivePaths (path ++ [runtime.str entry.1]) entry.2)) := by
  induction entries with
  | nil => rfl
  | cons entry rest ih => rw [redactEntries, List.map_cons, ih]

end

/-! ## Values that differ in what is sensitive -/

/-- A text, or bytes. -/
def Value.Textual : Value → Prop
  | str _ | bytes _ => True
  | _ => False

/-- The two values, found at `path`, have the same shape, and they are the same but at
declared paths, under sensitive names, in secret references, and in the texts and bytes that
are arguments of exceptions. -/
inductive Value.Alike (runtime : Runtime) (sensitivePaths : List (List String)) :
    List String → Value → Value → Prop
  | same (path : List String) (value : Value) : Alike runtime sensitivePaths path value value
  | declared {path : List String} {a b : Value} (hpath : path ∈ sensitivePaths) :
      Alike runtime sensitivePaths path a b
  | secretRef {path : List String} {provider name provider' name' : String} :
      Alike runtime sensitivePaths path (.secretRef provider name) (.secretRef provider' name')
  | list {path : List String} {xs ys : List Value} (hlength : xs.length = ys.length)
      (hitems : ∀ (i : ℕ) (x y : Value), xs[i]? = some x → ys[i]? = some y →
        Alike runtime sensitivePaths (path ++ [toString i]) x y) :
      Alike runtime sensitivePaths path (.list xs) (.list ys)
  | tuple {path : List String} {xs ys : List Value} (hlength : xs.length = ys.length)
      (hitems : ∀ (i : ℕ) (x y : Value), xs[i]? = some x → ys[i]? = some y →
        Alike runtime sensitivePaths (path ++ [toString i]) x y) :
      Alike runtime sensitivePaths path (.tuple xs) (.tuple ys)
  | model {path : List String} {className : String} {fields fields' : List (String × Value)}
      (hnames : fields.map Prod.fst = fields'.map Prod.fst)
      (hfields : ∀ (i : ℕ) (name : String) (a b : Value), fields[i]? = some (name, a) →
        fields'[i]? = some (name, b) → isSensitiveSegment runtime name = false →
          Alike runtime sensitivePaths (path ++ [name]) a b) :
      Alike runtime sensitivePaths path (.model className fields) (.model className fields')
  | mapping {path : List String} {a b : Value} {entries entries' : List (Value × Value)}
      (ha : a.entries? = some entries) (hb : b.entries? = some entries')
      (hkeys : entries.map Prod.fst = entries'.map Prod.fst)
      (hentries : ∀ (i : ℕ) (key a b : Value), entries[i]? = some (key, a) →
        entries'[i]? = some (key, b) → isSensitiveSegment runtime (runtime.str key) = false →
          Alike runtime sensitivePaths (path ++ [runtime.str key]) a b) :
      Alike runtime sensitivePaths path a b
  | exception {path : List String} {className : String} {args args' : List Value}
      (hlength : args.length = args'.length)
      (htextual : ∀ (i : ℕ) (a b : Value), args[i]? = some a → args'[i]? = some b →
        (a.Textual ↔ b.Textual))
      (hargs : ∀ (i : ℕ) (a b : Value), args[i]? = some a → args'[i]? = some b → ¬ a.Textual →
        Alike runtime sensitivePaths (path ++ ["args"] ++ [toString i]) a b) :
      Alike runtime sensitivePaths path (.exception className args) (.exception className args')

section

variable {runtime : Runtime} {sensitivePaths : List (List String)}

theorem redactExceptionArgument_of_textual {path : List String} {value : Value}
    (h : value.Textual) :
    redactExceptionArgument runtime sensitivePaths path value = redacted := by
  cases value <;> first | rfl | exact h.elim

theorem redactExceptionArgument_of_not_textual {path : List String} {value : Value}
    (h : ¬ value.Textual) : redactExceptionArgument runtime sensitivePaths path value =
      redactValue runtime sensitivePaths path value := by
  cases value <;> first | rfl | exact absurd trivial h

theorem hideAt_of_mem {path : List String} (hpath : path ∈ sensitivePaths) (value : Value) :
    hideAt sensitivePaths path value = redacted := if_pos hpath

@[simp]
theorem hideAt_hideAt (path : List String) (value : Value) :
    hideAt sensitivePaths path (hideAt sensitivePaths path value) =
      hideAt sensitivePaths path value := by
  unfold hideAt
  split <;> rfl

theorem hideAt_redacted (path : List String) :
    hideAt sensitivePaths path redacted = redacted := ite_self _

/-- What stands for a value is hidden already where its path is declared. -/
theorem hideAt_redactValue (path : List String) (value : Value) :
    hideAt sensitivePaths path (redactValue runtime sensitivePaths path value) =
      redactValue runtime sensitivePaths path value := by
  cases value <;> first
    | exact hideAt_hideAt path _
    | exact hideAt_redacted path

/-- At a declared path every value is hidden. -/
theorem redactValue_of_mem {path : List String} (hpath : path ∈ sensitivePaths) (value : Value) :
    redactValue runtime sensitivePaths path value = redacted := by
  rw [← hideAt_redactValue, hideAt_of_mem hpath]

/-- What is hidden under a name does not matter. -/
theorem hideField_congr {path : List String} {name : String} {a b : Value}
    (h : isSensitiveSegment runtime name = false → a = b) :
    hideField runtime sensitivePaths path name a = hideField runtime sensitivePaths path name b := by
  cases hsensitive : isSensitiveSegment runtime name with
  | true => simp only [hideField, hsensitive, true_or, if_true]
  | false => rw [h hsensitive]

theorem redactValue_of_entries {path : List String} {value : Value}
    {entries : List (Value × Value)} (h : value.entries? = some entries) :
    redactValue runtime sensitivePaths path value = hideAt sensitivePaths path
      (.ofAssignments (redactEntries runtime sensitivePaths path entries)) := by
  cases value <;> simp only [Value.entries?, reduceCtorEq, Option.some.injEq] at h <;>
    rw [redactValue, h]

/-- Lists of pairs with the same first components. -/
theorem map_eq_map_of_fst {α β γ : Type} {xs ys : List (α × β)} {f g : α × β → γ}
    (hfst : xs.map Prod.fst = ys.map Prod.fst)
    (h : ∀ (i : ℕ) (a : α) (x y : β),
      xs[i]? = some (a, x) → ys[i]? = some (a, y) → f (a, x) = g (a, y)) :
    xs.map f = ys.map g := by
  have hmap : ∀ (zs : List (α × β)) (k : α × β → γ), zs.map k = zs.mapIdx fun _ => k :=
    fun zs k => List.ext_getElem? fun i => by rw [List.getElem?_map, List.getElem?_mapIdx]
  rw [hmap, hmap]
  refine mapIdx_eq_mapIdx (by simpa using congrArg List.length hfst) ?_
  rintro i ⟨a, x⟩ ⟨b, y⟩ hx hy
  have hsame : (xs.map Prod.fst)[i]? = (ys.map Prod.fst)[i]? := by rw [hfst]
  rw [List.getElem?_map, List.getElem?_map, hx, hy] at hsame
  obtain rfl : a = b := Option.some.inj hsame
  exact h i a x y hx hy

/-- Values that are the same but for what is sensitive are redacted to the same value. -/
theorem Value.Alike.redactValue_eq {path : List String} {a b : Value}
    (h : Value.Alike runtime sensitivePaths path a b) :
    redactValue runtime sensitivePaths path a = redactValue runtime sensitivePaths path b := by
  induction h with
  | same => rfl
  -- what is declared is hidden, whatever it is
  | declared hpath => rw [redactValue_of_mem hpath, redactValue_of_mem hpath]
  | secretRef => rfl
  | @list path xs ys hlength _ ih =>
      -- items are redacted one by one
      have hsame : redactItems runtime sensitivePaths path 0 xs =
          redactItems runtime sensitivePaths path 0 ys := by
        rw [redactItems_eq_mapIdx, redactItems_eq_mapIdx]
        refine mapIdx_eq_mapIdx hlength fun i x y hx hy => ?_
        rw [Nat.zero_add]
        exact ih i x y hx hy
      rw [redactValue, redactValue, hsame]
  | @tuple path xs ys hlength _ ih =>
      have hsame : redactItems runtime sensitivePaths path 0 xs =
          redactItems runtime sensitivePaths path 0 ys := by
        rw [redactItems_eq_mapIdx, redactItems_eq_mapIdx]
        refine mapIdx_eq_mapIdx hlength fun i x y hx hy => ?_
        rw [Nat.zero_add]
        exact ih i x y hx hy
      rw [redactValue, redactValue, hsame]
  | @model path _ fields fields' hnames _ ih =>
      -- a field is hidden by its name, and the names agree
      have hsame : redactFields runtime sensitivePaths path fields =
          redactFields runtime sensitivePaths path fields' := by
        rw [redactFields_eq_map, redactFields_eq_map]
        refine map_eq_map_of_fst hnames fun i name a b ha hb => ?_
        rw [hideField_congr (ih i name a b ha hb)]
      rw [redactValue, redactValue, hsame]
  | @mapping path _ _ entries entries' ha hb hkeys _ ih =>
      have hsame : redactEntries runtime sensitivePaths path entries =
          redactEntries runtime sensitivePaths path entries' := by
        rw [redactEntries_eq_map, redactEntries_eq_map]
        refine map_eq_map_of_fst hkeys fun i key a b ha hb => ?_
        rw [hideField_congr (ih i key a b ha hb)]
      rw [redactValue_of_entries ha, redactValue_of_entries hb, hsame]
  | @exception path _ args args' hlength htextual _ ih =>
      have hsame : redactExceptionArgs runtime sensitivePaths (path ++ ["args"]) 0 args =
          redactExceptionArgs runtime sensitivePaths (path ++ ["args"]) 0 args' := by
        rw [redactExceptionArgs_eq_mapIdx, redactExceptionArgs_eq_mapIdx]
        refine mapIdx_eq_mapIdx hlength fun i a b ha hb => ?_
        rw [Nat.zero_add]
        -- texts among the arguments are hidden outright
        by_cases htext : a.Textual
        · rw [redactExceptionArgument_of_textual htext,
            redactExceptionArgument_of_textual ((htextual i a b ha hb).mp htext)]
        · rw [redactExceptionArgument_of_not_textual htext,
            redactExceptionArgument_of_not_textual fun h => htext ((htextual i a b ha hb).mpr h)]
          exact ih i a b ha hb htext
      rw [redactValue, redactValue, hsame]

end

/-! ## Assignments -/

namespace Value

theorem map_fst_assign (entries : List (String × Value)) (key : String) (value : Value) :
    (assign entries key value).map Prod.fst =
      if key ∈ entries.map Prod.fst then entries.map Prod.fst
      else entries.map Prod.fst ++ [key] := by
  have hany : (entries.any fun entry => entry.1 = key) = true ↔ key ∈ entries.map Prod.fst := by
    simp only [List.any_eq_true, decide_eq_true_eq, List.mem_map]
  by_cases hkey : key ∈ entries.map Prod.fst
  · rw [assign, if_pos (hany.mpr hkey), if_pos hkey, List.map_map]
    refine List.map_congr_left fun entry _ => ?_
    rw [Function.comp_apply]
    split
    · exact Eq.symm ‹_›
    · rfl
  · rw [assign, if_neg (hany.not.mpr hkey), if_neg hkey, List.map_append, List.map_singleton]

theorem nodup_assign {entries : List (String × Value)} (h : (entries.map Prod.fst).Nodup)
    (key : String) (value : Value) : ((assign entries key value).map Prod.fst).Nodup := by
  rw [map_fst_assign]
  split
  · exact h
  · rename_i hkey
    exact List.nodup_append.mpr ⟨h, List.nodup_singleton key, by
      rintro name hname other hother rfl
      exact hkey (List.mem_singleton.mp hother ▸ hname)⟩

theorem mem_of_mem_assign {entries : List (String × Value)} {key : String} {value : Value}
    {entry : String × Value} (h : entry ∈ assign entries key value) :
    entry ∈ entries ∨ entry = (key, value) := by
  unfold assign at h
  split at h
  · obtain ⟨old, hold, hentry⟩ := List.mem_map.mp h
    split at hentry
    · exact .inr hentry.symm
    · exact .inl (hentry ▸ hold)
  · rcases List.mem_append.mp h with hold | hnew
    · exact .inl hold
    · exact .inr (List.mem_singleton.mp hnew)

/-- The entries of the dictionary that the assignments build. -/
def assigned (assignments : List (String × Value)) : List (String × Value) :=
  assignments.foldl (fun entries entry => assign entries entry.1 entry.2) []

theorem ofAssignments_eq (assignments : List (String × Value)) :
    ofAssignments assignments = ofFields (assigned assignments) := rfl

theorem assigned_append_singleton (assignments : List (String × Value))
    (entry : String × Value) : assigned (assignments ++ [entry]) =
      assign (assigned assignments) entry.1 entry.2 := by
  rw [assigned, List.foldl_append]
  rfl

theorem nodup_assigned (assignments : List (String × Value)) :
    ((assigned assignments).map Prod.fst).Nodup := by
  induction assignments using List.reverseRecOn with
  | nil => exact List.nodup_nil
  | append_singleton assignments entry ih =>
      rw [assigned_append_singleton]
      exact nodup_assign ih entry.1 entry.2

theorem mem_of_mem_assigned {assignments : List (String × Value)} {entry : String × Value}
    (h : entry ∈ assigned assignments) : entry ∈ assignments := by
  induction assignments using List.reverseRecOn with
  | nil => exact h
  | append_singleton assignments last ih =>
      rw [assigned_append_singleton] at h
      rcases mem_of_mem_assign h with hold | rfl
      · exact List.mem_append_left _ (ih hold)
      · exact List.mem_append_right _ List.mem_cons_self

/-- Assignments under different keys are the entries. -/
theorem assigned_of_nodup {assignments : List (String × Value)}
    (h : (assignments.map Prod.fst).Nodup) : assigned assignments = assignments := by
  induction assignments using List.reverseRecOn with
  | nil => rfl
  | append_singleton assignments entry ih =>
      rw [List.map_append, List.nodup_append] at h
      obtain ⟨hold, _, hnew⟩ := h
      rw [assigned_append_singleton, ih hold, assign, if_neg]
      intro hany
      obtain ⟨other, hother, hkey⟩ := List.any_eq_true.mp hany
      exact hnew other.1 (List.mem_map_of_mem hother) entry.1 (by simp) (of_decide_eq_true hkey)

end Value

/-! ## Redacting twice -/

/-- The values a value is made of. -/
def Value.parts : Value → List Value
  | list items | tuple items | exception _ items => items
  | dict entries | mappingProxy entries => entries.map Prod.snd
  | model _ fields => fields.map Prod.snd
  | _ => []

/-- No exception occurs in the value; the fields of every model in it have different names. -/
inductive Value.ExceptionFree : Value → Prop
  | of_parts {value : Value} (hexception : ∀ className args, value ≠ .exception className args)
      (hnames : ∀ className fields, value = .model className fields →
        (fields.map Prod.fst).Nodup)
      (hparts : ∀ part ∈ value.parts, part.ExceptionFree) : Value.ExceptionFree value

theorem Value.exceptionFree_int (number : ℤ) : (Value.int number).ExceptionFree :=
  .of_parts (fun _ _ => Value.noConfusion) (fun _ _ => Value.noConfusion)
    fun _ hpart => absurd hpart List.not_mem_nil

theorem Value.exceptionFree_str (text : String) : (Value.str text).ExceptionFree :=
  .of_parts (fun _ _ => Value.noConfusion) (fun _ _ => Value.noConfusion)
    fun _ hpart => absurd hpart List.not_mem_nil

theorem Value.ExceptionFree.dict {entries : List (Value × Value)}
    (h : ∀ entry ∈ entries, entry.2.ExceptionFree) : (Value.dict entries).ExceptionFree := by
  refine .of_parts (fun _ _ => Value.noConfusion) (fun _ _ => Value.noConfusion) ?_
  intro part hpart
  obtain ⟨entry, hentry, rfl⟩ := List.mem_map.mp hpart
  exact h entry hentry

section

variable {runtime : Runtime} {sensitivePaths : List (List String)}

/-- A value that was hidden at its path is redacted there to the hidden redaction of it. -/
theorem redactValue_hideAt (path : List String) (value : Value) :
    redactValue runtime sensitivePaths path (hideAt sensitivePaths path value) =
      hideAt sensitivePaths path (redactValue runtime sensitivePaths path value) := by
  by_cases hpath : path ∈ sensitivePaths
  · rw [redactValue_of_mem hpath, hideAt_of_mem hpath]
  · rw [hideAt, hideAt, if_neg hpath, if_neg hpath]

/-- What stands under a name is not changed, if what it stands for is not. -/
theorem hideField_redactValue_hideField {path : List String} {name : String} {value : Value}
    (h : redactValue runtime sensitivePaths (path ++ [name])
      (redactValue runtime sensitivePaths (path ++ [name]) value) =
        redactValue runtime sensitivePaths (path ++ [name]) value) :
    hideField runtime sensitivePaths path name (redactValue runtime sensitivePaths (path ++ [name])
      (hideField runtime sensitivePaths path name
        (redactValue runtime sensitivePaths (path ++ [name]) value))) =
      hideField runtime sensitivePaths path name
        (redactValue runtime sensitivePaths (path ++ [name]) value) := by
  by_cases hhidden : isSensitiveSegment runtime name ∨ path ++ [name] ∈ sensitivePaths
  · rw [hideField, hideField, if_pos hhidden, if_pos hhidden]
  · rw [hideField, hideField, if_neg hhidden, if_neg hhidden, h]

theorem redactItems_redactItems {items : List Value} (path : List String)
    (h : ∀ item ∈ items, ∀ path, redactValue runtime sensitivePaths path
      (redactValue runtime sensitivePaths path item) = redactValue runtime sensitivePaths path item)
    (index : ℕ) : redactItems runtime sensitivePaths path index
      (redactItems runtime sensitivePaths path index items) =
        redactItems runtime sensitivePaths path index items := by
  induction items generalizing index with
  | nil => rfl
  | cons item rest ih =>
      rw [redactItems, redactItems, h item List.mem_cons_self,
        ih (fun other hother => h other (List.mem_cons_of_mem item hother))]

/-- The entries of a dictionary that redaction built are redacted to themselves. -/
theorem redactEntries_ofFields (hstr : ∀ text, runtime.str (.str text) = text)
    {path : List String} {entries : List (String × Value)}
    (h : ∀ entry ∈ entries, hideField runtime sensitivePaths path entry.1
      (redactValue runtime sensitivePaths (path ++ [entry.1]) entry.2) = entry.2) :
    redactEntries runtime sensitivePaths path
      (entries.map fun entry => (.str entry.1, entry.2)) = entries := by
  rw [redactEntries_eq_map, List.map_map]
  conv_rhs => rw [← List.map_id entries]
  refine List.map_congr_left fun entry hentry => ?_
  rw [Function.comp_apply, hstr, h entry hentry]
  rfl

/-- A dictionary that redaction built from assignments is redacted to itself. -/
theorem redactValue_ofAssignments (hstr : ∀ text, runtime.str (.str text) = text)
    {path : List String} {assignments : List (String × Value)}
    (h : ∀ entry ∈ assignments, hideField runtime sensitivePaths path entry.1
      (redactValue runtime sensitivePaths (path ++ [entry.1]) entry.2) = entry.2) :
    redactValue runtime sensitivePaths path (.ofAssignments assignments) =
      hideAt sensitivePaths path (.ofAssignments assignments) := by
  have hentries : redactEntries runtime sensitivePaths path ((Value.assigned assignments).map
      fun entry => (.str entry.1, entry.2)) = Value.assigned assignments :=
    redactEntries_ofFields hstr fun entry hentry => h entry (Value.mem_of_mem_assigned hentry)
  rw [Value.ofAssignments_eq, Value.ofFields, redactValue, hentries, Value.ofAssignments_eq,
    Value.assigned_of_nodup (Value.nodup_assigned assignments), Value.ofFields]

theorem redactEntries_kept {path : List String} {entries : List (Value × Value)}
    (h : ∀ (name : String), ∀ part ∈ entries.map Prod.snd,
      hideField runtime sensitivePaths path name (redactValue runtime sensitivePaths
        (path ++ [name]) (hideField runtime sensitivePaths path name
          (redactValue runtime sensitivePaths (path ++ [name]) part))) =
        hideField runtime sensitivePaths path name
          (redactValue runtime sensitivePaths (path ++ [name]) part)) :
    ∀ entry ∈ redactEntries runtime sensitivePaths path entries,
      hideField runtime sensitivePaths path entry.1
        (redactValue runtime sensitivePaths (path ++ [entry.1]) entry.2) = entry.2 := by
  intro entry hentry
  rw [redactEntries_eq_map] at hentry
  obtain ⟨old, hold, rfl⟩ := List.mem_map.mp hentry
  exact h (runtime.str old.1) old.2 (List.mem_map_of_mem hold)

/-- The dictionary that stands for a model is the one its fields build as assignments. -/
theorem redactFields_eq_ofAssignments {fields : List (String × Value)}
    (hnames : (fields.map Prod.fst).Nodup) (path : List String) :
    Value.dict (redactFields runtime sensitivePaths path fields) =
      .ofAssignments (fields.map fun field =>
        (field.1, hideField runtime sensitivePaths path field.1
          (redactValue runtime sensitivePaths (path ++ [field.1]) field.2))) := by
  rw [Value.ofAssignments_eq, Value.assigned_of_nodup, Value.ofFields, redactFields_eq_map,
    List.map_map]
  · rfl
  · rw [List.map_map]
    exact hnames

/-- Redacting a value without exceptions twice is redacting it once. -/
theorem Value.ExceptionFree.redactValue_redactValue (hstr : ∀ text, runtime.str (.str text) = text)
    {value : Value} (h : value.ExceptionFree) : ∀ path,
    redactValue runtime sensitivePaths path (redactValue runtime sensitivePaths path value) =
      redactValue runtime sensitivePaths path value := by
  induction h with
  | @of_parts value hexception hnames _ ih =>
      intro path
      -- Hidden entries come back as they are.
      have hkept : ∀ (name : String), ∀ part ∈ value.parts,
          hideField runtime sensitivePaths path name (redactValue runtime sensitivePaths
            (path ++ [name]) (hideField runtime sensitivePaths path name
              (redactValue runtime sensitivePaths (path ++ [name]) part))) =
            hideField runtime sensitivePaths path name
              (redactValue runtime sensitivePaths (path ++ [name]) part) :=
        fun name part hpart => hideField_redactValue_hideField (ih part hpart _)
      cases value with
      | none | bool | int | float | str | bytes | unavailableSecretRef | object =>
          exact (redactValue_hideAt path _).trans (hideAt_hideAt path _)
      | secretRef => exact hideAt_redacted path
      | exception className args => exact absurd rfl (hexception className args)
      | list items =>
          have hitems : redactItems runtime sensitivePaths path 0
              (redactItems runtime sensitivePaths path 0 items) =
                redactItems runtime sensitivePaths path 0 items :=
            redactItems_redactItems path ih 0
          rw [redactValue, redactValue_hideAt, redactValue, hitems, hideAt_hideAt]
      | tuple items =>
          have hitems : redactItems runtime sensitivePaths path 0
              (redactItems runtime sensitivePaths path 0 items) =
                redactItems runtime sensitivePaths path 0 items :=
            redactItems_redactItems path ih 0
          rw [redactValue, redactValue_hideAt, redactValue, hitems, hideAt_hideAt]
      | model className fields =>
          rw [redactValue, redactValue_hideAt,
            redactFields_eq_ofAssignments (hnames className fields rfl),
            redactValue_ofAssignments hstr, hideAt_hideAt]
          intro entry hentry
          obtain ⟨field, hfield, rfl⟩ := List.mem_map.mp hentry
          exact hkept field.1 field.2 (List.mem_map_of_mem hfield)
      | dict entries =>
          rw [redactValue, redactValue_hideAt, redactValue_ofAssignments hstr, hideAt_hideAt]
          exact redactEntries_kept hkept
      | mappingProxy entries =>
          rw [redactValue, redactValue_hideAt, redactValue_ofAssignments hstr, hideAt_hideAt]
          exact redactEntries_kept hkept

end

/-! ## The letter case of names -/

theorem toList_toLower (text : String) : text.toLower.toList = text.toList.map Char.toLower := by
  unfold String.toLower
  exact String.toList_map

theorem ascii_of_toLower {c : Char} (h : c.toLower.toNat < 128) : c.toNat < 128 := by
  unfold Char.toLower at h
  split at h
  · rename_i hupper
    exact lt_of_le_of_lt (UInt32.le_iff_toNat_le.mp hupper.2) (by decide)
  · exact h

/-- A name that is a sensitive key but for the case of its letters is sensitive. -/
theorem isSensitiveSegment_of_toLower {runtime : Runtime}
    (hcasefold : ∀ text : String, (∀ c ∈ text.toList, c.toNat < 128) →
      runtime.casefold text = text.toLower)
    {name : String} (h : name.toLower ∈ commonSensitiveKeys) :
    isSensitiveSegment runtime name = true := by
  have hkeys : commonSensitiveKeys.all (fun key =>
      key.toList.all fun c => decide (c.toNat < 128)) = true := by decide +kernel
  -- The keys are ASCII texts, and only an ASCII letter has one in lower case.
  have hname : ∀ c ∈ name.toList, c.toNat < 128 := by
    intro c hc
    have hkey := List.all_eq_true.mp (List.all_eq_true.mp hkeys _ h)
    refine ascii_of_toLower (of_decide_eq_true (hkey c.toLower ?_))
    rw [toList_toLower]
    exact List.mem_map_of_mem hc
  rw [isSensitiveSegment, hcasefold name hname]
  exact decide_eq_true h

/-! ## What redaction reveals -/

/-- Values that are the same but for what is sensitive, in any letter case of the sensitive
names, are redacted alike, and what redaction returns for a value without exceptions is
redacted to itself. -/
theorem redactDeclared_reveals_nothing (runtime : Runtime) (strip : String → String)
    (hstr : ∀ text, runtime.str (.str text) = text)
    (hcasefold : ∀ text : String, (∀ c ∈ text.toList, c.toNat < 128) →
      runtime.casefold text = text.toLower)
    (sensitivePaths : List String) :
    (∀ a b : Value,
      (∀ paths, sensitivePaths.mapM (normalizeSensitivePath strip) = .ok paths →
        Value.Alike runtime paths [] a b) →
      redactDeclared runtime strip sensitivePaths a =
        redactDeclared runtime strip sensitivePaths b) ∧
    (∀ name : String, name.toLower ∈ commonSensitiveKeys →
      isSensitiveSegment runtime name = true) ∧
    ∀ value hidden : Value, value.ExceptionFree →
      redactDeclared runtime strip sensitivePaths value = .ok hidden →
      redactDeclared runtime strip sensitivePaths hidden = .ok hidden := by
  refine ⟨fun a b h => ?_, fun name => isSensitiveSegment_of_toLower hcasefold,
    fun value hidden hfree hhidden => ?_⟩
  -- values that differ in hidden places only
  · unfold redactDeclared
    cases hpaths : sensitivePaths.mapM (normalizeSensitivePath strip) with
    | error _ => rfl
    | ok paths => exact congrArg Except.ok (h paths hpaths).redactValue_eq
  -- redacting again
  · unfold redactDeclared at hhidden ⊢
    cases hpaths : sensitivePaths.mapM (normalizeSensitivePath strip) with
    | error _ =>
        rw [hpaths] at hhidden
        cases hhidden
    | ok paths =>
        rw [hpaths] at hhidden
        obtain rfl : redact runtime paths value = hidden := Except.ok.inj hhidden
        exact congrArg Except.ok (hfree.redactValue_redactValue hstr [])

namespace Sample

/-- A request with a declared path and a password in it. -/
def login (user : ℤ) (password : String) : Value :=
  .dict [
    (.str "session", .dict [(.str "user", .int user)]),
    (.str "PassWord", .str password)]

theorem alike_login (user user' : ℤ) (password password' : String) :
    Value.Alike runtime [["session", "user"]] [] (login user password)
      (login user' password') := by
  refine .mapping rfl rfl rfl fun i key a b ha hb hkey => ?_
  match i with
  | 0 =>
      obtain ⟨rfl, rfl⟩ := Prod.mk.inj (Option.some.inj ha)
      obtain rfl := (Prod.mk.inj (Option.some.inj hb)).2
      refine .mapping rfl rfl rfl fun j key a b ha hb _ => ?_
      match j with
      | 0 =>
          obtain ⟨rfl, rfl⟩ := Prod.mk.inj (Option.some.inj ha)
          exact .declared List.mem_cons_self
      | j + 1 => cases ha
  | 1 =>
      obtain ⟨rfl, rfl⟩ := Prod.mk.inj (Option.some.inj ha)
      exact absurd hkey (by decide +kernel)
  | i + 2 => cases ha

theorem exceptionFree_login (user : ℤ) (password : String) : (login user password).ExceptionFree := by
  refine .dict ?_
  simp only [List.mem_cons, List.not_mem_nil, or_false, forall_eq_or_imp, forall_eq]
  exact ⟨.dict (by simp [Value.exceptionFree_int]), Value.exceptionFree_str password⟩

end Sample

theorem redactDeclared_reveals_nothing_login :
    redactDeclared Sample.runtime id ["session.user"] (Sample.login 4 "hunter2") =
      redactDeclared Sample.runtime id ["session.user"] (Sample.login 7 "letmein") ∧
    isSensitiveSegment Sample.runtime "PassWord" = true ∧
    ∃ hidden, redactDeclared Sample.runtime id ["session.user"] (Sample.login 4 "hunter2") =
      .ok hidden ∧ redactDeclared Sample.runtime id ["session.user"] hidden = .ok hidden := by
  have hpaths : ["session.user"].mapM (normalizeSensitivePath id) =
      .ok [["session", "user"]] := by decide +kernel
  obtain ⟨hequal, hnames, htwice⟩ := redactDeclared_reveals_nothing Sample.runtime id
    (fun _ => rfl) (fun text _ => String.map_eq_internal.symm) ["session.user"]
  refine ⟨hequal _ _ fun paths h => ?_, hnames "PassWord" (by decide +kernel), ?_⟩
  · obtain rfl := Except.ok.inj (hpaths.symm.trans h)
    exact Sample.alike_login 4 7 "hunter2" "letmein"
  · have hhidden : redactDeclared Sample.runtime id ["session.user"]
        (Sample.login 4 "hunter2") =
          .ok (redact Sample.runtime [["session", "user"]] (Sample.login 4 "hunter2")) := by
      rw [redactDeclared, hpaths]
      rfl
    exact ⟨_, hhidden, htwice _ _ (Sample.exceptionFree_login 4 "hunter2") hhidden⟩

end ChangePilot
