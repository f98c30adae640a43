import RustDb.Lib.Collections

/-!
# The durable catalog and its validation

The catalog of a native database is one `CatalogState` per generation: the
schema names, the table references and the view references.  This file holds

* the errors of the storage layer, with the texts the code gives them;
* `schemaOf`, the schema part of a storage key;
* `CatalogState` and `validateCatalog`, the check every generation passes
  before it is written and after it is read.

`validateCatalog_eq_ok` turns the check into the structure `CatalogValid`, and
no later proof looks inside the check.

UUIDs and SHA-256 digests are opaque values here: the code only compares them,
and it parses the texts it wrote itself.
-/

namespace RustDb.Native

open Std RustDb.Lib

/-- A UUID: database, table, snapshot, segment and transaction identities. -/
abbrev Uuid := Nat

/-- A SHA-256 digest of a file. -/
abbrev Sha256 := Nat

/-- The Arrow types a native table may have, and one for all others. -/
inductive DataType where
  | boolean
  | int (bits : Nat)
  | uint (bits : Nat)
  | float (bits : Nat)
  | decimal128 (precision : Nat) (scale : Int)
  | utf8
  | largeUtf8
  | binary
  | largeBinary
  | date32
  | date64
  | time32 (unit : Nat)
  | time64 (unit : Nat)
  | timestamp (unit : Nat) (timezone : Option String)
  | interval (unit : Nat)
  | fixedSizeBinary (bytes : Nat)
  | other (name : String)
deriving DecidableEq, Repr

/-- One column of an Arrow schema. -/
structure Field where
  name : String
  dataType : DataType
  nullable : Bool
deriving DecidableEq, Repr

/-- An Arrow schema.  Its stored encoding and fingerprint identify it, so the
model stores the schema itself where the code stores those. -/
abbrev Schema := List Field

/-- A `BTreeMap<String, _>` of the catalog. -/
abbrev NameMap (α : Type) := ExtTreeMap String α compare

/-- A `BTreeSet<String>` of the catalog. -/
abbrev NameSet := ExtTreeSet String compare

/-- The exclusive upper bound of the `u64` counters. -/
def u64Limit : Nat := 2 ^ 64

/-- `u64::checked_add`. -/
def checkedAdd (a b : Nat) : Option Nat :=
  if a + b < u64Limit then some (a + b) else none

/-- `u64::checked_sub`. -/
def checkedSub (a b : Nat) : Option Nat :=
  if b ≤ a then some (a - b) else none

variable {a b c : Nat}

@[simp] theorem checkedAdd_eq_some : checkedAdd a b = some c ↔ a + b < u64Limit ∧ c = a + b := by
  grind [checkedAdd]

@[simp] theorem checkedSub_eq_some : checkedSub a b = some c ↔ b ≤ a ∧ c = a - b := by
  grind [checkedSub]

/-- The version and snapshot id that name a snapshot directory of a table. -/
structure SnapshotLocation where
  version : Nat
  snapshotId : Uuid
deriving DecidableEq, Repr

/-- The derived order of `SnapshotLocation`: by version, then by id. -/
instance : Ord SnapshotLocation :=
  ⟨compareLex (compareOn SnapshotLocation.version)
    (compareOn SnapshotLocation.snapshotId)⟩

instance : TransOrd SnapshotLocation :=
  inferInstanceAs (TransCmp (compareLex (compareOn SnapshotLocation.version)
    (compareOn SnapshotLocation.snapshotId)))

instance : LawfulEqOrd SnapshotLocation where
  eq_of_compare {a b} h := by
    have h := compareLex_eq_eq.mp h
    simp only [compareOn, Std.compare_eq_iff_eq] at h
    cases a
    cases b
    simp_all

/-- The files and directories that the errors of the storage layer name. -/
inductive Path where
  | root
  | current
  | generations
  | generation (generation : Nat)
  | walRecords
  | walRecord (lsn : Nat)
  | walCheckpoint
  | externalSources
  | snapshotDirectory (tableId : Uuid) (location : SnapshotLocation)
  | manifest (tableId : Uuid) (location : SnapshotLocation)
  | marker (tableId : Uuid) (location : SnapshotLocation)
  | segment (tableId : Uuid) (location : SnapshotLocation) (segmentId : Uuid)
  | sidecar (tableId : Uuid) (location : SnapshotLocation) (segmentId : Uuid)
  | deleteVector (tableId : Uuid) (location : SnapshotLocation)
      (segmentId : Uuid)
  | stagedWrite (transactionId : Uuid)
  | label (text : String)
deriving DecidableEq, Repr

/-- The variants of `Error` that the native storage layer produces. -/
inductive Error where
  | io (path : Option Path)
  | invalidArgument (message : String)
  | unsupported (message : String)
  | resourceExhausted (message : String)
  | nativeDiskQuotaExceeded (table : Option String)
  | cancelled
  | catalog (message : String)
  | transactionClosed (transactionId : Uuid) (state : String)
  | transactionConflict (transactionId : Uuid) (message : String)
  | nativeStorage (path : Path) (message : String)
  | commitOutcomeUnknown (path : Path) (transactionId : Uuid)
      (message : String)
  | nativeCommitPostCommitFailure (path : Path) (transactionId : Uuid)
      (generation : Nat) (message : String)
  | internal (message : String)
deriving DecidableEq, Repr

/-- The schema every catalog has. -/
def defaultSchema : String := "main"

/-- `catalog_name::schema_of`: the part of a storage key before its first
dot, or the default schema. -/
def schemaOf (name : String) : String :=
  if '.' ∈ name.toList then
    String.ofList (name.toList.takeWhile (· ≠ '.'))
  else defaultSchema

/-- A reference to one snapshot of a table. -/
structure TableReference where
  tableId : Uuid
  version : Nat
  snapshotId : Uuid
  manifestSha256 : Sha256
deriving DecidableEq, Repr

/-- The snapshot directory a reference names. -/
def TableReference.location (reference : TableReference) : SnapshotLocation :=
  { version := reference.version, snapshotId := reference.snapshotId }

/-- A stored view. -/
structure ViewReference where
  version : Nat
  sql : String
  schema : Schema
deriving DecidableEq, Repr

/-- One catalog generation. -/
structure CatalogState where
  databaseId : Uuid
  formatVersion : Nat
  generation : Nat
  transactionId : Option Uuid
  schemas : NameSet
  tables : NameMap TableReference
  views : NameMap ViewReference
deriving DecidableEq

/-- The catalog format this code writes. -/
def catalogFormatVersion : Nat := 2

/-- The longest name of an object. -/
def maxTableNameBytes : Nat := 255

/-- The longest text of a view. -/
def maxViewSqlBytes : Nat := 1024 * 1024

/-! ## Validation -/

/-- The condition on names that `validate_tables` and `validate_name` share. -/
def nameIsInvalid (name : String) : Bool :=
  name.isEmpty || decide (maxTableNameBytes < name.utf8ByteSize) ||
    name.toList.any (fun c => c.toLower != c) || name.toList.contains '\x00'

/-- The name is normalised and not too long. -/
def validateName (path : Path) (name kind : String) : Except Error Unit :=
  rejectIf (nameIsInvalid name) (.nativeStorage path
    s!"invalid normalized {kind} name '{name}'; names are limited to {maxTableNameBytes} UTF-8 bytes")

/-- Versions begin at one. -/
def TableReference.validate (reference : TableReference) (path : Path)
    (name : String) : Except Error Unit :=
  rejectIf (reference.version = 0)
    (.nativeStorage path s!"invalid zero table version for '{name}'")

/-- The SQL texts a view may not have: empty, too long, or with a NUL. -/
def viewSqlIsInvalid (sql : String) : Bool :=
  sql.isEmpty || decide (maxViewSqlBytes < sql.utf8ByteSize) ||
    sql.toList.contains '\x00'

/-- The version and the text of a view can be true. -/
def ViewReference.validate (view : ViewReference) (path : Path)
    (name : String) : Except Error Unit := do
  rejectIf (view.version = 0)
    (.nativeStorage path s!"persistent view '{name}' has a zero version")
  rejectIf (viewSqlIsInvalid view.sql)
    (.nativeStorage path s!"persistent view '{name}' has invalid SQL text")

/-- The schema of an object exists. -/
def validateObjectSchema (path : Path) (schemas : NameSet) (name : String) :
    Except Error Unit :=
  let schema := schemaOf name
  rejectIf (schema ∉ schemas) (.nativeStorage path
    s!"catalog object '{name}' refers to missing schema '{schema}'")

/-- The default schema exists and every name is a schema's. -/
def validateSchemas (path : Path) (schemas : NameSet) : Except Error Unit := do
  rejectIf (defaultSchema ∉ schemas)
    (.nativeStorage path "catalog is missing the default 'main' schema")
  forM schemas.toList fun schema => do
    validateName path schema "schema"
    rejectIf ('.' ∈ schema.toList)
      (.nativeStorage path s!"invalid schema name '{schema}'")

/-- The name and the entry of every table can be true. -/
def validateTables (path : Path) (tables : NameMap TableReference) :
    Except Error Unit :=
  forM tables.toList fun (name, reference) => do
    validateName path name "table"
    reference.validate path name

/-- `validate_catalog`: what every stored generation satisfies. -/
def validateCatalog (path : Path) (schemas : NameSet)
    (tables : NameMap TableReference) (views : NameMap ViewReference) :
    Except Error Unit := do
  validateSchemas path schemas
  validateTables path tables
  forM tables.keys fun name => validateObjectSchema path schemas name
  forM views.toList fun (name, view) => do
    validateName path name "view"
    validateObjectSchema path schemas name
    rejectIf (name ∈ tables) (.nativeStorage path
      s!"catalog name '{name}' is both a table and a view")
    view.validate path name

/-- What `ViewReference.validate` accepts. -/
def ViewReference.Valid (view : ViewReference) : Prop :=
  view.version ≠ 0 ∧ viewSqlIsInvalid view.sql = false

/-- What `validateCatalog` accepts. -/
structure CatalogValid (schemas : NameSet) (tables : NameMap TableReference)
    (views : NameMap ViewReference) : Prop where
  defaultSchema_mem : defaultSchema ∈ schemas
  schema_name : ∀ schema ∈ schemas,
    nameIsInvalid schema = false ∧ '.' ∉ schema.toList
  table_valid : ∀ name reference, tables[name]? = some reference →
    nameIsInvalid name = false ∧ reference.version ≠ 0
  table_schema : ∀ name ∈ tables, schemaOf name ∈ schemas
  view_valid : ∀ name view, views[name]? = some view →
    nameIsInvalid name = false ∧ schemaOf name ∈ schemas ∧ name ∉ tables ∧
      view.Valid

variable {path : Path} {name : String}

@[simp] theorem validateName_eq_ok {kind : String} :
    validateName path name kind = .ok () ↔ nameIsInvalid name = false := by
  rw [validateName, rejectIf_eq_ok, Bool.not_eq_true]

@[simp] theorem TableReference.validate_eq_ok {reference : TableReference} :
    reference.validate path name = .ok () ↔ reference.version ≠ 0 :=
  rejectIf_eq_ok

@[simp] theorem ViewReference.validate_eq_ok {view : ViewReference} :
    view.validate path name = .ok () ↔ view.Valid := by
  simp [ViewReference.validate, ViewReference.Valid]

variable {schemas : NameSet}

@[simp] theorem validateObjectSchema_eq_ok :
    validateObjectSchema path schemas name = .ok () ↔
      schemaOf name ∈ schemas := by
  simp [validateObjectSchema]

/-- The catalog check accepts exactly the valid catalogs. -/
theorem validateCatalog_eq_ok {tables : NameMap TableReference} {views : NameMap ViewReference} :
    validateCatalog path schemas tables views = .ok () ↔
      CatalogValid schemas tables views := by
  simp only [validateCatalog, validateSchemas, validateTables,
    check_bind_eq_ok, forM_eq_ok, rejectIf_eq_ok, validateName_eq_ok,
    TableReference.validate_eq_ok, ViewReference.validate_eq_ok,
    validateObjectSchema_eq_ok, Prod.forall, ExtTreeMap.mem_toList_iff_getElem?_eq_some,
    ExtTreeMap.mem_keys, ExtTreeSet.mem_toList, not_not]
  constructor
  · rintro ⟨⟨hdef, hschemas⟩, htables, hts, hviews⟩
    exact ⟨hdef, hschemas, htables, hts, hviews⟩
  · rintro ⟨hdef, hschemas, htables, hts, hviews⟩
    exact ⟨⟨hdef, hschemas⟩, htables, hts, hviews⟩

end RustDb.Native
