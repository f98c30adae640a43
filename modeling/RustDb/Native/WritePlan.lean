import RustDb.Native.Table

/-!
# Write plans

A write starts with a plan: the identity of the new snapshot, what it inherits
from the table's present snapshot, and how many bytes it may use.

* `planWithExisting` is the common part; `planWrite` plans against the current
  table and `planTransactionWrite` against the working table of a transaction.
* `newSnapshotLimit` and `checkLimits` bound the storage of the new snapshot.
-/

namespace RustDb.Native

open Std RustDb.Lib Faulty Program Spec

/-- The statements that write a native table. -/
inductive NativeWriteMode where
  | create
  | replace
  | append
  | delete
  | update
  | truncate
deriving DecidableEq, Repr

/-- What a statement is going to write: the new snapshot, the one it replaces, and the bytes that
each of them may take. -/
structure NativeWritePlan where
  name : String
  expectedGeneration : Nat
  tableId : Uuid
  version : Nat
  snapshotId : Uuid
  parent : Option TableReference
  operation : SnapshotOperation
  schema : Schema
  inheritedSourceBytes : Nat
  newSourceBytes : Nat
  retainedOldSourceBytes : Nat
  retainedOldStorageBytes : Nat
  inheritedStorageBytes : Nat
  newSnapshotLimit : Nat
  inheritedSegments : List NativeSegment
deriving DecidableEq, Repr

/-- What a generation of the catalog may take for each table. -/
def catalogGenerationBudgetPerTableBytes : Nat := 8 * 1024

/-- What the old and the new generation may take for a table. -/
def catalogHeadroomBytes : Nat := catalogGenerationBudgetPerTableBytes * 2

/-- `str::to_ascii_lowercase`. -/
def toAsciiLowercase (name : String) : String :=
  String.ofList (name.toList.map Char.toLower)

/-! ## Schemas -/

/-- The types that native segments store. -/
def supportedType : DataType → Bool
  | .boolean | .utf8 | .largeUtf8 | .binary | .largeBinary | .date32 | .date64
  | .time32 _ | .time64 _ | .timestamp _ _ | .interval _ => true
  | .int bits | .uint bits => bits ∈ [8, 16, 32, 64]
  | .float bits => bits ∈ [32, 64]
  | .decimal128 precision _ => precision ≤ 38
  | .fixedSizeBinary bytes => bytes = 16
  | .other _ => false

/-- `validate_schema`, with the column names seen so far. -/
def validateSchema (seen : List String) : Schema → Except Error Unit
  | [] => .ok ()
  | field :: rest => do
    let normalized := toAsciiLowercase field.name
    let name := field.name
    rejectIf (normalized.isEmpty = true ∨ normalized ∈ seen) (.invalidArgument
      s!"native table output contains an empty or duplicate column name '{name}'")
    rejectIf (supportedType field.dataType = false) (.unsupported
      s!"native table column '{name}' has unsupported type")
    validateSchema (normalized :: seen) rest

/-- Inserted columns match the columns of the table by place. -/
def validateAppendSchema (source target : Schema) : Except Error Unit :=
  rejectIf (source.map Field.dataType ≠ target.map Field.dataType) (.invalidArgument
    "INSERT source columns must match the native table types by position")

/-! ## Limits -/

/-- `checked_add` and `checked_sub` with the error of the code. -/
def orExhausted (message : String) (value : Option Nat) : Except Error Nat :=
  match value with
  | none => .error (.resourceExhausted message)
  | some value => .ok value

/-- The bytes that a new snapshot may write: afterwards the table takes at most twice its source,
and together with the old snapshots at most three times, plus metadata. -/
def newSnapshotLimit (inheritedSourceBytes newSourceBytes inheritedStorageBytes
    retainedOldSourceBytes retainedOldStorageBytes : Nat) : Except Error Nat := do
  let sourceBytes ← orExhausted "native source byte count overflow"
    (checkedAdd inheritedSourceBytes newSourceBytes)
  let finalLimit ← storageLimit sourceBytes 2 "final"
  let finalRemaining ← orExhausted
    s!"existing native storage {inheritedStorageBytes} bytes already exceeds the 2x plus metadata allowance limit of {finalLimit} bytes"
    (checkedSub finalLimit inheritedStorageBytes)
  let peakSourceBytes ← orExhausted "native peak source byte count overflow"
    (checkedAdd sourceBytes retainedOldSourceBytes)
  let peakLimit ← storageLimit peakSourceBytes 3 "peak"
  let peakStorage ← orExhausted "native peak byte count overflow"
    (checkedAdd retainedOldStorageBytes inheritedStorageBytes)
  let peakUsed ← orExhausted "native peak byte count overflow"
    (checkedAdd peakStorage newSourceBytes)
  let peakRemaining ← orExhausted
    s!"native write requires {peakUsed} bytes before creating a new snapshot, exceeding the 3x plus metadata allowance limit of {peakLimit} bytes"
    (checkedSub peakLimit peakUsed)
  orExhausted
    s!"native write has insufficient space under the 2x/3x plus metadata allowance limits for {catalogHeadroomBytes} bytes of catalog metadata"
    (checkedSub (min finalRemaining peakRemaining) catalogHeadroomBytes)

/-- The limit for the source bytes that have been measured. -/
def NativeWritePlan.limitForMeasuredSource (plan : NativeWritePlan)
    (newSourceBytes : Nat) : Except Error Nat :=
  RustDb.Native.newSnapshotLimit plan.inheritedSourceBytes newSourceBytes
    plan.inheritedStorageBytes plan.retainedOldSourceBytes plan.retainedOldStorageBytes

/-- `table_writer::check_limits`: what was written is compared with the limits once more, with room
for the catalog. -/
def checkLimits (plan : NativeWritePlan)
    (newSourceBytes newSnapshotBytes totalSourceBytes : Nat) : Except Error Unit := do
  let finalBytes ← orExhausted "native final byte count overflow"
    (checkedAdd plan.inheritedStorageBytes newSnapshotBytes)
  let finalWithCatalog ← orExhausted "native final byte count overflow"
    (checkedAdd finalBytes catalogHeadroomBytes)
  let finalLimit ← storageLimit totalSourceBytes 2 "final"
  rejectIf (finalLimit < finalWithCatalog) (.resourceExhausted
    s!"native storage and catalog reserve {finalWithCatalog} bytes exceeds the 2x plus metadata allowance limit of {finalLimit} bytes")
  let peak ← checkedSum (.resourceExhausted "native peak byte count overflow")
    [plan.retainedOldStorageBytes, plan.inheritedStorageBytes, catalogHeadroomBytes,
      newSourceBytes, newSnapshotBytes]
  let peakSourceBytes ← orExhausted "native peak source byte count overflow"
    (checkedAdd plan.retainedOldSourceBytes totalSourceBytes)
  let limit ← storageLimit peakSourceBytes 3 "peak"
  rejectIf (limit < peak) (.resourceExhausted
    s!"native write peak {peak} bytes exceeds the 3x plus metadata allowance limit of {limit} bytes")

/-! ## Planning -/

/-- The version of the next snapshot. -/
def nextVersion (current : Nat) : Except Error Nat :=
  orExhausted "native table version is exhausted" (checkedAdd current 1)

/-- The part of a plan that the mode and the existing snapshot decide.  A new
table has no id yet. -/
structure PlanParts where
  tableId : Option Uuid
  version : Nat
  parent : Option TableReference
  operation : SnapshotOperation
  schema : Schema
  inheritedSourceBytes : Nat
  retainedOldSourceBytes : Nat
  retainedOldStorageBytes : Nat
  inheritedStorageBytes : Nat
  inheritedSegments : List NativeSegment

/-- The parts of a plan that starts a table again: `REPLACE` and `TRUNCATE`. -/
def PlanParts.overwriting (snapshot : TableSnapshot) (operation : SnapshotOperation)
    (schema : Schema) : Except Error PlanParts := do
  let version ← nextVersion snapshot.version
  pure {
    tableId := some snapshot.tableId
    version
    parent := some snapshot.tableReference
    operation
    schema
    inheritedSourceBytes := 0
    retainedOldSourceBytes := snapshot.sourceBytes
    retainedOldStorageBytes := snapshot.storageBytes
    inheritedStorageBytes := 0
    inheritedSegments := [] }

/-- The parts of a plan that keeps the segments of a table. -/
def PlanParts.inheriting (snapshot : TableSnapshot) (operation : SnapshotOperation)
    (sourceSchema : Schema) : Except Error PlanParts := do
  validateAppendSchema sourceSchema snapshot.schema
  let version ← nextVersion snapshot.version
  pure {
    tableId := some snapshot.tableId
    version
    parent := some snapshot.tableReference
    operation
    schema := snapshot.schema
    inheritedSourceBytes := snapshot.sourceBytes
    retainedOldSourceBytes := 0
    retainedOldStorageBytes := 0
    inheritedStorageBytes := snapshot.storageBytes
    inheritedSegments := snapshot.segments }

/-- The `match (mode, existing)` of `plan_with_existing`: what the write inherits from the table, or
why it may not be made. -/
def planParts (name : String) (mode : NativeWriteMode)
    (existing : Option TableSnapshot) (sourceSchema : Schema) :
    Except Error PlanParts :=
  match mode, existing with
  | .create, some _ => .error (.catalog s!"table '{name}' already exists")
  | .append, none | .delete, none | .update, none | .truncate, none =>
    .error (.catalog s!"native table '{name}' does not exist")
  | .create, none | .replace, none =>
    .ok {
      tableId := none
      version := 1
      parent := none
      operation := .imported
      schema := sourceSchema
      inheritedSourceBytes := 0
      retainedOldSourceBytes := 0
      retainedOldStorageBytes := 0
      inheritedStorageBytes := 0
      inheritedSegments := [] }
  | .replace, some snapshot => PlanParts.overwriting snapshot .replace sourceSchema
  | .truncate, some snapshot => PlanParts.overwriting snapshot .truncate snapshot.schema
  | .append, some snapshot => PlanParts.inheriting snapshot .append sourceSchema
  | .delete, some snapshot => PlanParts.inheriting snapshot .delete sourceSchema
  | .update, some snapshot => PlanParts.inheriting snapshot .update sourceSchema

/-- The source bytes of old snapshots of a table that readers still hold. -/
def NativeState.retiredSourceBytes (state : NativeState) (tableId : Uuid) :
    Except Error Nat :=
  checkedSum (.resourceExhausted "retired native source byte count overflow")
    ((state.retired.filter (·.tableId = tableId)).map RetiredSnapshot.sourceBytes)

/-- The directories that `retired_storage_bytes` measures. -/
def NativeState.retiredKeys (state : NativeState) (tableId : Uuid) :
    List SnapshotKey :=
  (state.retired.filter (·.tableId = tableId)).map fun retired =>
    ⟨tableId, retired.location⟩

/-- `validate_planned_update_with_views`: the catalog with the planned table. -/
def validatePlannedUpdate (current : CatalogState) (schemas : NameSet)
    (name : String) (reference : TableReference) (views : NameMap ViewReference) :
    Except Error Unit := do
  let generation ← orExhausted "catalog generation counter is exhausted"
    (checkedAdd current.generation 1)
  validateCatalog (.generation generation) schemas (current.tables.insert name reference)
    views

/-- The checks that `plan_with_existing` makes before it draws new ids.  `schemas` are
the working schemas of a transaction. -/
def startPlan (state : NativeState) (name : String) (mode : NativeWriteMode)
    (existing : Option TableSnapshot) (sourceSchema : Schema)
    (schemas : Option NameSet) : Except Error PlanParts := do
  let normalized := toAsciiLowercase name
  rejectIf (normalized.isEmpty = true ∨ normalized ≠ name ∨
      maxTableNameBytes < normalized.utf8ByteSize)
    (.catalog
      s!"native table name must be normalized, non-empty, and at most {maxTableNameBytes} UTF-8 bytes")
  validateSchema [] sourceSchema
  rejectIf (schemas = none ∧ normalized ∈ state.views)
    (.catalog s!"cannot replace view '{name}' with a table")
  planParts name mode existing sourceSchema

/-- The catalog check of `plan_with_existing`. -/
def validatePlan (state : NativeState) (schemas : Option NameSet) (name : String)
    (reference : TableReference) : Except Error Unit :=
  match schemas with
  | some schemas => validatePlannedUpdate state.catalog schemas name reference
      (state.catalog.views.erase name)
  | none => validatePlannedUpdate state.catalog state.catalog.schemas name reference
      state.catalog.views

/-- The source bytes of the old versions that a plan keeps on disk. -/
def PlanParts.retainedSourceBytes (parts : PlanParts) (state : NativeState)
    (tableId : Uuid) : Except Error Nat := do
  let retiredSourceBytes ← state.retiredSourceBytes tableId
  orExhausted "retired native source byte count overflow"
    (checkedAdd parts.retainedOldSourceBytes retiredSourceBytes)

/-- The id of the table, a new one where the table is new. -/
def PlanParts.drawTableId (parts : PlanParts) : Program Uuid :=
  match parts.tableId with
  | some tableId => pure tableId
  | none => newUuid

/-- The last part of `plan_with_existing`: the limit and the plan. -/
def PlanParts.finish (parts : PlanParts) (database : Database) (name : String)
    (expectedGeneration : Nat) (tableId snapshotId : Uuid)
    (newSourceBytes retainedOldSourceBytes : Nat) : Except Error NativeWritePlan := do
  let retiredStorageBytes :=
    database.disk.storageBytes (database.state.retiredKeys tableId)
  let retainedOldStorageBytes ←
    orExhausted "retired native storage byte count overflow"
      (checkedAdd parts.retainedOldStorageBytes retiredStorageBytes)
  let newSnapshotLimit ← RustDb.Native.newSnapshotLimit parts.inheritedSourceBytes
    newSourceBytes parts.inheritedStorageBytes retainedOldSourceBytes
    retainedOldStorageBytes
  pure {
    name
    expectedGeneration
    tableId
    version := parts.version
    snapshotId
    parent := parts.parent
    operation := parts.operation
    schema := parts.schema
    inheritedSourceBytes := parts.inheritedSourceBytes
    newSourceBytes
    retainedOldSourceBytes
    retainedOldStorageBytes
    inheritedStorageBytes := parts.inheritedStorageBytes
    newSnapshotLimit
    inheritedSegments := parts.inheritedSegments }

/-- The plan for a table in the state that the statement has seen; each mode checks whether the
table may exist. -/
def planWithExisting (name : String) (mode : NativeWriteMode)
    (expectedGeneration : Nat) (existing : Option TableSnapshot)
    (sourceSchema : Schema) (newSourceBytes : Nat) (schemas : Option NameSet) :
    Program NativeWritePlan := do
  let database ← get
  let state := database.state
  let normalized := toAsciiLowercase name
  let parts ← lift (startPlan state name mode existing sourceSchema schemas)
  let tableId ← parts.drawTableId
  let snapshotId ← newUuid
  lift (validatePlan state schemas normalized
    { tableId, version := parts.version, snapshotId, manifestSha256 := 0 })
  demand (.nativeStorage (.generation (state.catalog.generation + 1))
    "catalog generation manifest exceeds its byte limit")
  let retainedOldSourceBytes ← lift (parts.retainedSourceBytes state tableId)
  touch (.label "retired snapshots")
  lift (parts.finish database normalized expectedGeneration tableId snapshotId
    newSourceBytes retainedOldSourceBytes)

/-- The plan of a statement outside a transaction, which refuses a catalog that has changed. -/
def plan (name : String) (mode : NativeWriteMode) (expectedGeneration : Nat)
    (sourceSchema : Schema) (newSourceBytes : Nat) : Program NativeWritePlan := do
  let database ← get
  let found := database.state.catalog.generation
  lift (rejectIf (found ≠ expectedGeneration) (.catalog
    s!"catalog generation changed: expected {expectedGeneration}, found {found}"))
  planWithExisting name mode expectedGeneration
    database.state.tables[toAsciiLowercase name]? sourceSchema newSourceBytes none

/-- The plan of a statement in a transaction, from the catalog that the transaction reads. -/
def planFromSnapshot (name : String) (mode : NativeWriteMode)
    (expectedGeneration : Nat) (existing : Option TableSnapshot) (schemas : NameSet)
    (sourceSchema : Schema) (newSourceBytes : Nat) : Program NativeWritePlan := do
  let database ← get
  let generation := database.state.catalog.generation
  lift (rejectIf (generation < expectedGeneration) (.catalog
    s!"transaction snapshot generation {expectedGeneration} is ahead of catalog generation {generation}"))
  planWithExisting name mode expectedGeneration existing sourceSchema newSourceBytes
    (some schemas)

/-- Registered files are read-only. -/
def NativeState.rejectExternalTarget (state : NativeState) (name : String) :
    Except Error Unit :=
  let name := toAsciiLowercase name
  rejectIf (name ∈ state.externalSources) (.catalog
    s!"external source '{name}' is read-only and cannot be a Native write target")

/-- `NativeDatabase::plan_write`. -/
def planWrite (name : String) (mode : NativeWriteMode) (expectedGeneration : Nat)
    (sourceSchema : Schema) (sourceBytes : Nat) : Program NativeWritePlan := do
  let database ← get
  lift (database.state.rejectExternalTarget name)
  let schema := schemaOf name
  lift (rejectIf (toAsciiLowercase schema ∉ database.state.catalog.schemas)
    (.catalog s!"schema '{schema}' does not exist"))
  plan name mode expectedGeneration sourceSchema sourceBytes

/-- `NativeDatabase::plan_transaction_write`. -/
def planTransactionWrite (name : String) (mode : NativeWriteMode)
    (snapshotGeneration : Nat) (existing : Option TableSnapshot) (schemas : NameSet)
    (sourceSchema : Schema) (sourceBytes : Nat) : Program NativeWritePlan := do
  let database ← get
  lift (database.state.rejectExternalTarget name)
  planFromSnapshot name mode snapshotGeneration existing schemas sourceSchema sourceBytes

/-! ## What a plan is -/

section Specs

variable {faults : Prop} {s₀ s : Database} {name : String} {mode : NativeWriteMode}
  {expectedGeneration newSourceBytes : Nat} {existing : Option TableSnapshot}
  {sourceSchema : Schema} {schemas : Option NameSet} {plan : NativeWritePlan}

/-- The table id of a plan: the one of the table, or a new one. -/
def PlanParts.tableIdFor (parts : PlanParts) (s₀ : Database) : Uuid :=
  parts.tableId.getD s₀.nextUuid

/-- The snapshot id of a plan: the first new id, or the second one where the table
is new as well. -/
def PlanParts.snapshotIdFor (parts : PlanParts) (s₀ : Database) : Uuid :=
  if parts.tableId.isSome then s₀.nextUuid else s₀.nextUuid + 1

/-- What `plan_with_existing` computes from the state. -/
def planFor (s₀ : Database) (name : String) (mode : NativeWriteMode)
    (expectedGeneration : Nat) (existing : Option TableSnapshot)
    (sourceSchema : Schema) (newSourceBytes : Nat) (schemas : Option NameSet) :
    Except Error NativeWritePlan := do
  let parts ← startPlan s₀.state name mode existing sourceSchema schemas
  let tableId := parts.tableIdFor s₀
  let snapshotId := parts.snapshotIdFor s₀
  validatePlan s₀.state schemas (toAsciiLowercase name)
    { tableId, version := parts.version, snapshotId, manifestSha256 := 0 }
  let retainedOldSourceBytes ← parts.retainedSourceBytes s₀.state tableId
  parts.finish s₀ (toAsciiLowercase name) expectedGeneration tableId snapshotId
    newSourceBytes retainedOldSourceBytes

/-- Only new ids were drawn. -/
def Drawn (s₀ s : Database) : Prop :=
  s₀.nextUuid ≤ s.nextUuid ∧ s = { s₀ with nextUuid := s.nextUuid }

theorem Drawn.refl (s : Database) : Drawn s s :=
  ⟨Nat.le_refl _, rfl⟩

theorem PlanParts.drawTableId_bind {α : Type} {parts : PlanParts} {k : Uuid → Program α}
    {R : Result Error α → Database → Prop}
    (h : Spec faults (· = { s₀ with nextUuid := parts.snapshotIdFor s₀ })
      (k (parts.tableIdFor s₀)) R) :
    Spec faults (· = s₀) (parts.drawTableId >>= k) R := by
  unfold tableIdFor snapshotIdFor at h
  unfold drawTableId
  cases htable : parts.tableId with
  | some tableId =>
    rw [htable] at h
    exact h
  | none =>
    rw [htable] at h
    exact newUuid_bind h

theorem PlanParts.le_snapshotIdFor (parts : PlanParts) (s₀ : Database) :
    s₀.nextUuid ≤ parts.snapshotIdFor s₀ := by
  unfold snapshotIdFor
  split
  · exact Nat.le_refl _
  · exact Nat.le_succ _

theorem planWithExisting_spec :
    Spec faults (· = s₀)
      (planWithExisting name mode expectedGeneration existing sourceSchema
        newSourceBytes schemas)
      (ends
        (fun plan s => Drawn s₀ s ∧ s.nextUuid = plan.snapshotId + 1 ∧
          planFor s₀ name mode expectedGeneration existing sourceSchema newSourceBytes
            schemas = .ok plan)
        fun _ s => Drawn s₀ s ∧ (faults ∨ ∀ plan, planFor s₀ name mode
          expectedGeneration existing sourceSchema newSourceBytes schemas ≠ .ok plan)) := by
  unfold planWithExisting
  refine get_self (lift_bind (fun parts hparts => ?_) fun e s h hs => ?_)
  swap
  · refine ⟨hs ▸ .refl s₀, .inr fun plan hplan => ?_⟩
    obtain ⟨parts, hparts, -⟩ := bind_eq_ok.mp hplan
    cases hparts.symm.trans h
  have hplanFor : ∀ plan, planFor s₀ name mode expectedGeneration existing sourceSchema
      newSourceBytes schemas = .ok plan ↔
      validatePlan s₀.state schemas (toAsciiLowercase name)
        ⟨parts.tableIdFor s₀, parts.version, parts.snapshotIdFor s₀, 0⟩ = .ok () ∧
      ∃ bytes, parts.retainedSourceBytes s₀.state (parts.tableIdFor s₀) = .ok bytes ∧
        parts.finish s₀ (toAsciiLowercase name) expectedGeneration (parts.tableIdFor s₀)
          (parts.snapshotIdFor s₀) newSourceBytes bytes = .ok plan := by
    intro plan
    unfold planFor
    rw [hparts]
    show (validatePlan _ _ _ _ >>= fun _ => _ >>= _) = _ ↔ _
    rw [check_bind_eq_ok, bind_eq_ok]
  refine PlanParts.drawTableId_bind (newUuid_bind (of_forall fun s₁ hs₁ => ?_))
  have hdrawn : Drawn s₀ s₁ := by
    subst hs₁
    exact ⟨Nat.le_succ_of_le (parts.le_snapshotIdFor s₀), rfl⟩
  have hnext : s₁.nextUuid = parts.snapshotIdFor s₀ + 1 := by
    rw [hs₁]
  refine lift_bind (fun _ hvalid => ?_) fun e s h hs => ?_
  swap
  · refine ⟨hs ▸ hdrawn, .inr fun plan hplan => ?_⟩
    cases ((hplanFor plan).mp hplan).1.symm.trans h
  refine idle_bind (fun hf _ s hs => ⟨hs ▸ hdrawn, .inl hf⟩) ?_
  refine lift_bind (fun bytes hbytes => ?_) fun e s h hs => ?_
  swap
  · refine ⟨hs ▸ hdrawn, .inr fun plan hplan => ?_⟩
    obtain ⟨-, bytes, hbytes, -⟩ := (hplanFor plan).mp hplan
    cases hbytes.symm.trans h
  refine idle_bind (fun hf _ s hs => ⟨hs ▸ hdrawn, .inl hf⟩) ?_
  refine lift (fun plan s hplan hs => ?_) fun e s h hs => ?_
  · refine ⟨hs ▸ hdrawn, ?_, (hplanFor plan).mpr ⟨hvalid, bytes, hbytes, hplan⟩⟩
    rw [hs]
    simp only [PlanParts.finish, bind_eq_ok] at hplan
    obtain ⟨_, -, _, -, hplan⟩ := hplan
    cases hplan
    exact hnext
  · refine ⟨hs ▸ hdrawn, .inr fun plan hplan => ?_⟩
    obtain ⟨-, bytes', hbytes', hfinish⟩ := (hplanFor plan).mp hplan
    cases hbytes'.symm.trans hbytes
    cases hfinish.symm.trans h

/-- A plan that keeps the segments of `snapshot` and adds `newSourceBytes`. -/
structure NativeWritePlan.Extends (plan : NativeWritePlan) (snapshot : TableSnapshot)
    (snapshotId newSourceBytes : Nat) : Prop where
  tableId_eq : plan.tableId = snapshot.tableId
  version_eq : plan.version = snapshot.version + 1
  version_lt : snapshot.version + 1 < u64Limit
  snapshotId_eq : plan.snapshotId = snapshotId
  parent_eq : plan.parent = some snapshot.tableReference
  operation_ne : plan.operation ≠ .imported
  schema_eq : plan.schema = snapshot.schema
  inheritedSourceBytes_eq : plan.inheritedSourceBytes = snapshot.sourceBytes
  newSourceBytes_eq : plan.newSourceBytes = newSourceBytes
  inheritedStorageBytes_eq : plan.inheritedStorageBytes = snapshot.storageBytes
  inheritedSegments_eq : plan.inheritedSegments = snapshot.segments

theorem orExhausted_eq_ok {message : String} {value : Option Nat} {n : Nat} :
    orExhausted message value = .ok n ↔ value = some n := by
  cases value <;> simp [orExhausted]

theorem nextVersion_eq_ok {current version : Nat} :
    nextVersion current = .ok version ↔
      current + 1 < u64Limit ∧ version = current + 1 := by
  rw [nextVersion, orExhausted_eq_ok, checkedAdd_eq_some]

section

variable (hmode : mode = .append ∨ mode = .update ∨ mode = .delete)
include hmode

variable {snapshot : TableSnapshot}

theorem planParts_inheriting {parts : PlanParts}
    (h : planParts name mode (some snapshot) sourceSchema = .ok parts) :
    ∃ operation, operation ≠ .imported ∧
      PlanParts.inheriting snapshot operation sourceSchema = .ok parts := by
  rcases hmode with rfl | rfl | rfl
  · exact ⟨.append, by decide, h⟩
  · exact ⟨.update, by decide, h⟩
  · exact ⟨.delete, by decide, h⟩

/-- `APPEND`, `UPDATE` and `DELETE` extend the snapshot that they start from. -/
theorem planFor_extends (h : planFor s₀ name mode expectedGeneration (some snapshot) sourceSchema
      newSourceBytes schemas = .ok plan) : plan.Extends snapshot s₀.nextUuid newSourceBytes := by
  simp only [planFor, startPlan, PlanParts.finish, bind_eq_ok] at h
  obtain ⟨parts, ⟨-, -, -, -, -, -, hparts⟩, -, -, retained, -, _, -, _, -, ⟨⟩⟩ := h
  obtain ⟨operation, hoperation, hparts⟩ := planParts_inheriting hmode hparts
  simp only [PlanParts.inheriting, bind_eq_ok, nextVersion_eq_ok] at hparts
  obtain ⟨-, -, version, ⟨hroom, rfl⟩, ⟨⟩⟩ := hparts
  exact ⟨rfl, rfl, hroom, rfl, rfl, hoperation, rfl, rfl, rfl, rfl, rfl⟩

end

/-- What `plan_transaction_write` computes from the state. -/
def transactionPlanFor (s₀ : Database) (name : String) (mode : NativeWriteMode)
    (snapshotGeneration : Nat) (existing : Option TableSnapshot) (schemas : NameSet)
    (sourceSchema : Schema) (sourceBytes : Nat) : Except Error NativeWritePlan := do
  s₀.state.rejectExternalTarget name
  let generation := s₀.state.catalog.generation
  rejectIf (generation < snapshotGeneration) (.catalog
    s!"transaction snapshot generation {snapshotGeneration} is ahead of catalog generation {generation}")
  planFor s₀ name mode snapshotGeneration existing sourceSchema sourceBytes (some schemas)

theorem planTransactionWrite_spec {schemas : NameSet} :
    Spec faults (· = s₀)
      (planTransactionWrite name mode expectedGeneration existing schemas sourceSchema
        newSourceBytes)
      (ends
        (fun plan s => Drawn s₀ s ∧ s.nextUuid = plan.snapshotId + 1 ∧
          transactionPlanFor s₀ name mode expectedGeneration existing schemas
            sourceSchema newSourceBytes = .ok plan)
        fun _ s => Drawn s₀ s ∧ (faults ∨ ∀ plan, transactionPlanFor s₀ name mode
          expectedGeneration existing schemas sourceSchema newSourceBytes ≠ .ok plan)) := by
  unfold planTransactionWrite planFromSnapshot
  have hplanFor : ∀ plan, transactionPlanFor s₀ name mode expectedGeneration existing
      schemas sourceSchema newSourceBytes = .ok plan ↔
      s₀.state.rejectExternalTarget name = .ok () ∧
      ¬ s₀.state.catalog.generation < expectedGeneration ∧
      planFor s₀ name mode expectedGeneration existing sourceSchema newSourceBytes
        (some schemas) = .ok plan := by
    intro plan
    unfold transactionPlanFor
    rw [check_bind_eq_ok, check_bind_eq_ok, rejectIf_eq_ok]
  refine get_self (lift_bind (fun _ htarget => ?_) fun e s h hs => ?_)
  swap
  · refine ⟨hs ▸ .refl s₀, .inr fun plan hplan => ?_⟩
    cases ((hplanFor plan).mp hplan).1.symm.trans h
  refine get_self (check (fun hahead s hs => ⟨hs ▸ .refl s₀, .inr fun plan hplan =>
    ((hplanFor plan).mp hplan).2.1 hahead⟩) fun hgen => ?_)
  refine weakenOutcome planWithExisting_spec ?_ ?_
  · exact fun plan s h => ⟨h.1, h.2.1, (hplanFor plan).mpr ⟨htarget, hgen, h.2.2⟩⟩
  · exact fun e s h => ⟨h.1, h.2.imp_right fun hno plan hplan =>
      hno plan ((hplanFor plan).mp hplan).2.2⟩

end Specs

end RustDb.Native
