import ChangePilot.Guarantees.Histories

/-!
# Which deployment has switched the service

A deployment switches the service in one file and records its effect in another.  When its
outcome is lost, recovery looks for the record, and executes the deployment again if there is
none.  What is found counts as applied; what is executed again counts as applied if the
service is switched then.
-/

namespace ChangePilot

open Sql Script SQLiteSandboxDatabase

section

variable {d : Sql.Database} {effects : List EffectEntry}

theorem tells_effectOutput (h : d "tool_effects" = some (effectsTable effects)) {key : String}
    (hnew : ∀ entry ∈ effects, entry.key ≠ key) (toolName : String) :
    Tells (Scripts.effectOutput key toolName) d (· = none) := by
  intro I Q hI hQ
  refine assured_bind.mpr (assured_select hI fun found hfound => ?_)
  have hselect := select_effects h key
  rw [List.filter_eq_nil_iff.mpr fun entry hentry => by simp [hnew entry hentry]] at hselect
  obtain rfl := Except.ok.inj (hselect.symm.trans hfound)
  exact hQ none rfl

end

section

open Sandboxed

variable {tools : SandboxTools} {sandboxId key : String} {service : ServiceVersion}
  {orders : Orders} {effects : List EffectEntry} {files : SandboxFiles}

/-- What a deployment under a new key may leave. -/
theorem assured_deployment (tool : SandboxTools.ServiceVersionTool)
    (h : files.Readable sandboxId service orders) (heffects : files.Records effects)
    (hnew : ∀ entry ∈ effects, entry.key ≠ key) :
    Assured tools.runtime
      (fun next => ∃ version, (version = service ∨ version = tool.targetVersion) ∧
        next.Readable sandboxId version orders ∧ next.Records effects)
      (fun result next => (result.effectApplied = true ↔ service ≠ tool.targetVersion) ∧
        next.Readable sandboxId tool.targetVersion orders ∧
        ∃ output, next.Records (effects ++ [⟨key, tool.name, dumpOutput output⟩]))
      (tool.execute tools sandboxId key) files := by
  obtain ⟨d, copy, hdatabase, hholds⟩ := h.database
  have htable : d "tool_effects" = some (effectsTable effects) := by
    obtain ⟨other, hother, hrecords⟩ := heffects
    obtain rfl := Option.some.inj (hdatabase.symm.trans hother)
    exact hrecords
  -- before the switch the service is the old one
  have hI : ∃ version, (version = service ∨ version = tool.targetVersion) ∧
      files.Readable sandboxId version orders ∧ files.Records effects :=
    ⟨service, .inl rfl, h, heffects⟩
  refine assured_permanently (assured_bind.mpr ?_)
  refine looks_databasePath _ _ _ _ _ _ hI fun path => assured_bind.mpr ?_
  refine assured_read hdatabase (tells_effectOutput htable hnew tool.name) hI ?_
  rintro _ rfl
  refine assured_bind.mpr (assured_inspect h.stateFile hdatabase hholds hI ?_)
  intro before hservice hversion hread
  split
  · exact assured_bind.mpr (assured_throw hI)
  · refine assured_bind.mpr (assured_bind.mpr ?_)
    refine looks_sandboxRoot _ _ _ _ _ _ hI fun root => assured_bind.mpr ?_
    refine looks_inspect _ _ _ _ _ _ hI fun _ => assured_bind.mpr (assured_bind.mpr ?_)
    -- the state file is replaced in one operation
    refine assured_operate (fun _ _ h => SandboxOp.noConfusion h) rfl hI ?_
    refine assured_operate (fun _ _ h => SandboxOp.noConfusion h) rfl hI ?_
    -- after the switch it is the target, whatever happens next
    have hnext := h.switch tool.targetVersion
    have hI : ∃ version, (version = service ∨ version = tool.targetVersion) ∧
        SandboxFiles.Readable
          { files with stateFile := some ⟨sandboxId, tool.targetVersion.value⟩ } sandboxId version
          orders ∧ SandboxFiles.Records
            { files with stateFile := some ⟨sandboxId, tool.targetVersion.value⟩ } effects :=
      ⟨_, .inr rfl, hnext, heffects⟩
    refine looks_inspect _ _ _ _ _ _ hI fun after => assured_bind.mpr ?_
    have hcommitted : ∃ version, (version = service ∨ version = tool.targetVersion) ∧
        SandboxFiles.Readable { files with
          stateFile := some ⟨sandboxId, tool.targetVersion.value⟩
          database := some d } sandboxId version orders ∧
        SandboxFiles.Records { files with
          stateFile := some ⟨sandboxId, tool.targetVersion.value⟩
          database := some d } effects := by rwa [← hdatabase]
    -- the entry is the last thing to be written
    refine assured_call hdatabase hI (assured_connected hcommitted (assured_execute_rows trivial
      hcommitted fun recorded hrun => ⟨hcommitted, ?_, ?_⟩))
    · simp [SandboxTools.ServiceVersionTool.output, hservice]
    · have hrecorded : d.run (.insert "tool_effects" (EffectEntry.row ⟨key, tool.name,
          dumpOutput (tool.output sandboxId before after)⟩)) = .ok recorded := hrun
      obtain ⟨hreadable, hrecords⟩ := hnext.record heffects hdatabase hrecorded
      exact ⟨hreadable, _, hrecords⟩

end

/-- What becomes of a deployment whose outcome is lost: what the probe finds counts as
applied, what it does not find is executed again, and the rest is left to an operator. -/
def SandboxTools.ServiceVersionTool.recover (tools : SandboxTools) (sandboxId : String)
    (tool : SandboxTools.ServiceVersionTool) (key : String) : Sandboxed (Option Bool) := do
  match ← tool.probe tools sandboxId key with
  | .found _ => return some true
  | .notFound => return some (← tool.execute tools sandboxId key).effectApplied
  | .inconclusive => return none

/-- The process may die when the service is switched and the effect is not recorded. -/
theorem mayStop_deployment {tools : SandboxTools} {sandboxId key : String}
    {service : ServiceVersion} {orders : Orders} {effects : List EffectEntry}
    {files : SandboxFiles} (tool : SandboxTools.ServiceVersionTool)
    (h : files.Readable sandboxId service orders) (heffects : files.Records effects)
    (hid : isSandboxId sandboxId = true) (hnew : ∀ entry ∈ effects, entry.key ≠ key)
    (hready : tool.targetVersion = .v2 → orders.version = .v2) :
    Routine.MayStop (sandboxHazards tools.runtime) (tool.execute tools sandboxId key) files
      { files with stateFile := some ⟨sandboxId, tool.targetVersion.value⟩ } := by
  obtain ⟨d, hdatabase, htable⟩ := heffects
  obtain ⟨path, hpath⟩ := SandboxFiles.Readable.does_databasePath tools hid
  obtain ⟨before, _, hschema, _, hbefore⟩ := h.does_inspect tools hid
  obtain ⟨after, _, hafter⟩ := h.does_setServiceVersion tools hid tool.targetVersion
  have hexec := SandboxOp.ends_perform tools.runtime
  have hread : Sandboxed.Does tools.runtime
      (operate (.database path (.effectOutput key tool.name))) files none files :=
    Sandboxed.does_read hdatabase (reads_effectOutput htable hnew tool.name)
  have hnotready : ¬ (tool.targetVersion = .v2 ∧ before.schemaVersion ≠ .v2) := by
    rintro ⟨hv2, hother⟩
    exact hother (hschema.trans (hready hv2))
  apply Routine.MayStop.tryCatch
  apply hpath.bind_mayStop hexec
  apply hread.bind_mayStop hexec
  apply hbefore.bind_mayStop hexec
  rw [if_neg hnotready]
  apply hafter.bind_mayStop hexec
  -- the record is the next operation
  exact (Routine.mayStop_perform (SandboxOp.Stops.before _ _)).bind

/-- A deployment under a new key is executed, and fails or stops wherever it may.  If it
returns, it says rightly whether it has switched the service.  If its outcome is lost,
recovery says so rightly if and only if the effect was recorded just when the service had
been switched. -/
theorem deployment_is_attributed_iff {tools : SandboxTools} {sandboxId key : String}
    {service : ServiceVersion} {orders : Orders} {effects : List EffectEntry}
    {files next : SandboxFiles} (tool : SandboxTools.ServiceVersionTool)
    (hid : isSandboxId sandboxId = true) (h : files.Readable sandboxId service orders)
    (heffects : files.Records effects) (hnew : ¬ files.HasRecord key)
    (hready : tool.targetVersion = .v2 → orders.version = .v2)
    {result : Option (Except SandboxError SandboxResult)}
    (hends : Prog.Ends (sandboxHazards tools.runtime)
      (ExceptT.run (tool.execute tools sandboxId key)) files result next) :
    (∀ returned, result = some (.ok returned) →
      (returned.effectApplied = true ↔ next.stateFile ≠ files.stateFile)) ∧
    ∃ applied final, Sandboxed.Does tools.runtime (tool.recover tools sandboxId key) next
        (some applied) final ∧
      ((applied = true ↔ final.stateFile ≠ files.stateFile) ↔
        (next.HasRecord key ↔ next.stateFile ≠ files.stateFile)) := by
  have hkeys : ∀ entry ∈ effects, entry.key ≠ key := fun entry hentry hkey =>
    hnew (heffects.hasRecord_iff.mpr ⟨entry, hentry, hkey⟩)
  have hswitched {later : SandboxFiles} {version : ServiceVersion}
      (hlater : later.Readable sandboxId version orders) :
      later.stateFile ≠ files.stateFile ↔ version ≠ service := by
    rw [hlater.stateFile, h.stateFile]
    cases version <;> cases service <;> simp [ServiceVersion.value]
  have hassured : Sandboxed.Assured tools.runtime _ _ _ _ := assured_deployment tool h heffects hkeys
  obtain ⟨hend, hstop⟩ := Prog.assured_iff.mp hassured
  -- without a record, the deployment is executed again
  have hrepeated : (∃ version, (version = service ∨ version = tool.targetVersion) ∧
      next.Readable sandboxId version orders ∧ next.Records effects) →
      ∃ applied final, Sandboxed.Does tools.runtime (tool.recover tools sandboxId key) next
          (some applied) final ∧
        ((applied = true ↔ final.stateFile ≠ files.stateFile) ↔
          (next.HasRecord key ↔ next.stateFile ≠ files.stateFile)) := by
    rintro ⟨version, hversion, hnext, hrecords⟩
    obtain ⟨repeated, final, happlied, hfinal, hdoes⟩ :=
      does_deployment tool hnext hrecords hid hkeys hready
    refine ⟨repeated.effectApplied, final, (does_probe_of_new tool hid hrecords hkeys).bind
      (hdoes.bind (Routine.does_pure _ _)), ?_⟩
    have hnone : ¬ next.HasRecord key := by
      rw [hrecords.hasRecord_iff]
      rintro ⟨entry, hentry, hkey⟩
      exact hkeys entry hentry hkey
    rw [happlied, hswitched hfinal, hswitched hnext]
    rcases hversion with rfl | rfl
    · simp [hnone, eq_comm]
    · simp [hnone]
  rcases result with _ | (e | returned)
  · exact ⟨fun _ h => absurd h (by simp), hrepeated (hstop next hends)⟩
  · exact ⟨fun _ h => absurd h (by simp), hrepeated (hend _ next hends)⟩
  · obtain ⟨happlied, hnext, output, hrecords⟩ := hend _ next hends
    refine ⟨?_, true, next, (does_probe_of_record tool hid hkeys hrecords).bind
      (Routine.does_pure _ _), ?_⟩
    · rintro _ ⟨⟩
      rw [happlied, hswitched hnext, ne_comm]
    · have hrecord : next.HasRecord key :=
        hrecords.hasRecord_iff.mpr ⟨_, List.mem_append_right _ List.mem_cons_self, rfl⟩
      simp [hrecord]

theorem deployment_is_attributed_iff_unrecorded : ∃ files next : SandboxFiles,
    Prog.Ends (sandboxHazards Sample.sandboxTools.runtime) (ExceptT.run
      (SandboxTools.deployV2.execute Sample.sandboxTools "sandbox" "deployment")) files none next ∧
    next.stateFile ≠ files.stateFile ∧
    ∃ applied final, Sandboxed.Does Sample.sandboxTools.runtime
        (SandboxTools.deployV2.recover Sample.sandboxTools "sandbox" "deployment") next
        (some applied) final ∧
      ¬ (applied = true ↔ final.stateFile ≠ files.stateFile) := by
  obtain ⟨files, _, hreadable, hrecords⟩ := Sample.exists_migrated
  have hnew : ¬ files.HasRecord "deployment" := by
    rw [hrecords.hasRecord_iff]
    simp
  have hstops := @mayStop_deployment Sample.sandboxTools "sandbox" "deployment" .v1 _ [] files
    SandboxTools.deployV2 hreadable hrecords (by decide) (List.forall_mem_nil _) fun _ => rfl
  have hswitched : some ⟨"sandbox", ServiceVersion.v2.value⟩ ≠ files.stateFile := by
    rw [hreadable.stateFile]
    decide
  obtain ⟨applied, final, hdoes, hiff⟩ := (deployment_is_attributed_iff SandboxTools.deployV2
    (by decide) hreadable hrecords hnew (fun _ => rfl) hstops).2
  refine ⟨files, _, hstops, hswitched, applied, final, hdoes, fun hright => ?_⟩
  -- the database is as before, and so there is no record
  exact hnew ((hiff.mp hright).mpr hswitched)

end ChangePilot
