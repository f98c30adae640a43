import RustDb.Lib.Collections

/-!
# Bound expressions

The expressions of a logical plan, after names and types are resolved.

* `DataType`, `ScalarValue`, `BoundExpr`: the syntax.
* `Scalars`: what the kernels compute on single cells.  Casts, arithmetic, functions and
  patterns may fail; the comparisons and the connectives do not.
* `BoundExpr.eval`: the value of an expression on a row, with the short cuts of `AND`,
  `OR`, `CASE`, `COALESCE` and `NULLIF`.
* `BoundExpr.rewrite`: the rewritings that replace columns and outer references.
-/

namespace RustDb.Sql

open RustDb.Lib List Option List.Subset

/-! ## Types and literals -/

/-- The units of times and timestamps. -/
inductive TimeUnit where
  | second
  | millisecond
  | microsecond
  | nanosecond
deriving DecidableEq, Repr

/-- The kinds of intervals. -/
inductive IntervalUnit where
  | yearMonth
  | dayTime
  | monthDayNano
deriving DecidableEq, Repr

/-- The Arrow types, with all nested ones in `nested`. -/
inductive DataType where
  | null
  | boolean
  | int8
  | int16
  | int32
  | int64
  | uint8
  | uint16
  | uint32
  | uint64
  | float16
  | float32
  | float64
  | decimal128 (precision : UInt8) (scale : Int8)
  | date32
  | date64
  | time32 (unit : TimeUnit)
  | time64 (unit : TimeUnit)
  | timestamp (unit : TimeUnit) (timezone : Option String)
  | duration (unit : TimeUnit)
  | interval (unit : IntervalUnit)
  | utf8
  | largeUtf8
  | binary
  | largeBinary
  | fixedSizeBinary (size : Nat)
  | dictionary (key value : DataType)
  | nested (name : String)
deriving DecidableEq, Repr

/-- The literals.  A float is given by its bits. -/
inductive ScalarValue where
  | null
  | boolean (value : Bool)
  | int64 (value : Int64)
  | uint64 (value : UInt64)
  | float64 (bits : UInt64)
  | decimal128 (value : Int) (precision : UInt8) (scale : Int8)
  | date32 (value : Int32)
  | timestampMicrosecond (value : Int64)
  | timestamp (value : Int64) (unit : TimeUnit) (timezone : Option String)
  | time (value : Int64) (unit : TimeUnit)
  | dayInterval (value : Int32)
  | monthInterval (value : Int32)
  | monthDayNanoInterval (months days : Int32) (nanoseconds : Int64)
  | utf8 (value : String)
  | binary (value : List UInt8)
  | uuid (value : List UInt8)
deriving DecidableEq, Repr

/-- The type of a literal. -/
def ScalarValue.dataType : ScalarValue → DataType
  | .null => .null
  | .boolean _ => .boolean
  | .int64 _ => .int64
  | .uint64 _ => .uint64
  | .float64 _ => .float64
  | .decimal128 _ precision scale => .decimal128 precision scale
  | .date32 _ => .date32
  | .timestampMicrosecond _ => .timestamp .microsecond none
  | .timestamp _ unit timezone => .timestamp unit timezone
  | .time _ unit =>
    match unit with
    | .second | .millisecond => .time32 unit
    | .microsecond | .nanosecond => .time64 unit
  | .dayInterval _ => .interval .dayTime
  | .monthInterval _ => .interval .yearMonth
  | .monthDayNanoInterval .. => .interval .monthDayNano
  | .utf8 _ => .utf8
  | .binary _ => .binary
  | .uuid _ => .fixedSizeBinary 16

/-- The operators between two expressions. -/
inductive BinaryOp where
  | eq
  | notEq
  | lt
  | ltEq
  | gt
  | gtEq
  | and
  | or
  | add
  | subtract
  | multiply
  | divide
  | modulo
deriving DecidableEq, Repr

/-- The operators on one expression. -/
inductive UnaryOp where
  | not
  | negate
deriving DecidableEq, Repr

/-- The parts of a date or a time that functions name. -/
inductive DateTimePart where
  | year
  | month
  | day
  | hour
  | minute
  | second
deriving DecidableEq, Repr

/-- The functions on the cells of one row. -/
inductive ScalarFunction where
  | substring
  | length
  | lower
  | upper
  | trim
  | ltrim
  | rtrim
  | concat
  | replace
  | regexpReplace
  | startsWith
  | endsWith
  | contains
  | coalesce
  | nullIf
  | abs
  | ceil
  | floor
  | round
  | datePart (part : DateTimePart)
  | dateTrunc (part : DateTimePart)
  | toTimestampSeconds
  | atTimeZone (timezone : String) (attach : Bool)
  | distinctTuple
deriving DecidableEq, Repr

/-- The functions on the cells of a group of rows. -/
inductive AggregateFunction where
  | count
  | sum
  | min
  | max
  | avg
deriving DecidableEq, Repr

/-! ## Expressions -/

/-- What every expression carries besides its kind. -/
structure ExprInfo where
  dataType : DataType
  displayName : String
deriving DecidableEq, Repr

/-- An expression: the kinds of the source, each with its type and display name. -/
inductive BoundExpr where
  | column (info : ExprInfo) (index : Nat)
  | outerRef (info : ExprInfo) (depth index : Nat)
  | deferredGroup (info : ExprInfo) (index : Nat)
  | deferredAggregate (info : ExprInfo) (function : AggregateFunction)
      (expr : Option BoundExpr) (distinct : Bool)
  | literal (info : ExprInfo) (value : ScalarValue)
  | binary (info : ExprInfo) (left : BoundExpr) (op : BinaryOp) (right : BoundExpr)
  | unary (info : ExprInfo) (op : UnaryOp) (expr : BoundExpr)
  | isNull (info : ExprInfo) (expr : BoundExpr) (negated : Bool)
  | like (info : ExprInfo) (expr pattern : BoundExpr) (negated : Bool) (escape : Option Char)
  | case (info : ExprInfo) (whenThen : List (BoundExpr × BoundExpr)) (elseExpr : BoundExpr)
  | cast (info : ExprInfo) (expr : BoundExpr)
  | scalarFunction (info : ExprInfo) (function : ScalarFunction) (args : List BoundExpr)

namespace BoundExpr

/-- What every expression carries. -/
def info : BoundExpr → ExprInfo
  | .column info _
  | .outerRef info _ _
  | .deferredGroup info _
  | .deferredAggregate info ..
  | .literal info _
  | .binary info ..
  | .unary info ..
  | .isNull info ..
  | .like info ..
  | .case info ..
  | .cast info _
  | .scalarFunction info .. => info

/-- The type of the cells of an expression. -/
def dataType (expr : BoundExpr) : DataType := expr.info.dataType

/-- The name of an expression as a column. -/
def displayName (expr : BoundExpr) : String := expr.info.displayName

/-- Structural induction, with the arguments of calls and the branches of `CASE`. -/
theorem induction {P : BoundExpr → Prop}
    (column : ∀ info index, P (.column info index))
    (outerRef : ∀ info depth index, P (.outerRef info depth index))
    (deferredGroup : ∀ info index, P (.deferredGroup info index))
    (deferredAggregate : ∀ info function expr distinct,
      P (.deferredAggregate info function expr distinct))
    (literal : ∀ info value, P (.literal info value))
    (binary : ∀ info left op right, P left → P right → P (.binary info left op right))
    (unary : ∀ info op expr, P expr → P (.unary info op expr))
    (isNull : ∀ info expr negated, P expr → P (.isNull info expr negated))
    (like : ∀ info expr pattern negated escape, P expr → P pattern →
      P (.like info expr pattern negated escape))
    (case : ∀ info whenThen elseExpr, (∀ branch ∈ whenThen, P branch.1 ∧ P branch.2) →
      P elseExpr → P (.case info whenThen elseExpr))
    (cast : ∀ info expr, P expr → P (.cast info expr))
    (scalarFunction : ∀ info function args, (∀ arg ∈ args, P arg) →
      P (.scalarFunction info function args)) :
    ∀ expr, P expr := by
  refine @BoundExpr.rec P (fun _ => True)
    (fun branches => ∀ branch ∈ branches, P branch.1 ∧ P branch.2)
    (fun args => ∀ arg ∈ args, P arg) (fun branch => P branch.1 ∧ P branch.2)
    column outerRef deferredGroup
    (fun info function expr distinct _ => deferredAggregate info function expr distinct)
    literal binary unary isNull like case cast scalarFunction trivial (fun _ _ => trivial)
    (forall_mem_nil _) ?_ (forall_mem_nil _) ?_ (fun _ _ hleft hright => ⟨hleft, hright⟩)
  · intro branch branches hbranch hbranches
    exact forall_mem_cons.mpr ⟨hbranch, hbranches⟩
  · intro arg args harg hargs
    exact forall_mem_cons.mpr ⟨harg, hargs⟩

mutual

/-- The columns, references, deferred results and literals of an expression, in order. -/
def leaves : BoundExpr → List BoundExpr
  | .binary _ left _ right => leaves left ++ leaves right
  | .unary _ _ expr => leaves expr
  | .isNull _ expr _ => leaves expr
  | .like _ expr pattern _ _ => leaves expr ++ leaves pattern
  | .case _ whenThen elseExpr => branchLeaves whenThen ++ leaves elseExpr
  | .cast _ expr => leaves expr
  | .scalarFunction _ _ args => argLeaves args
  | leaf => [leaf]

/-- The leaves of arguments. -/
def argLeaves : List BoundExpr → List BoundExpr
  | [] => []
  | arg :: args => leaves arg ++ argLeaves args

/-- The leaves of the branches of a `CASE`. -/
def branchLeaves : List (BoundExpr × BoundExpr) → List BoundExpr
  | [] => []
  | (condition, result) :: branches =>
    leaves condition ++ leaves result ++ branchLeaves branches

end

/-- The column of a reference to one. -/
def columnIndex : BoundExpr → Option Nat
  | .column _ index => some index
  | _ => none

/-- The columns of the row that an expression reads. -/
def referencedColumns (expr : BoundExpr) : List Nat := expr.leaves.filterMap columnIndex

/-- The depth and index of an outer reference. -/
def outerIndex : BoundExpr → Option (Nat × Nat)
  | .outerRef _ depth index => some (depth, index)
  | _ => none

/-- The cells of outer rows that an expression reads. -/
def outerReferences (expr : BoundExpr) : List (Nat × Nat) := expr.leaves.filterMap outerIndex

/-- An outer row is read. -/
def containsOuterRef (expr : BoundExpr) : Bool := !expr.outerReferences.isEmpty

/-- A placeholder for a group key or an aggregate. -/
def isDeferred : BoundExpr → Bool
  | .deferredGroup .. => true
  | .deferredAggregate .. => true
  | _ => false

/-- A placeholder is left. -/
def containsDeferredAggregate (expr : BoundExpr) : Bool := expr.leaves.any isDeferred

end BoundExpr

/-- The operators whose evaluation never fails. -/
def BinaryOp.isInfallible : BinaryOp → Bool
  | .eq | .notEq | .lt | .ltEq | .gt | .gtEq | .and | .or => true
  | .add | .subtract | .multiply | .divide | .modulo => false

/-- The operators that never fail on floats. -/
def BinaryOp.isFloatSafe : BinaryOp → Bool
  | .add | .subtract | .multiply => true
  | _ => false

/-- The types whose arithmetic does not overflow. -/
def DataType.isFloat : DataType → Bool
  | .float32 | .float64 => true
  | _ => false

namespace BoundExpr

mutual

/-- No row makes the expression fail, by its operators alone.  Integer arithmetic, functions and
casts of anything but a null constant can fail. -/
def isStructurallyInfallible : BoundExpr → Bool
  | .column .. => true
  | .literal .. => true
  | .binary info left op right =>
    (op.isInfallible || (op.isFloatSafe && info.dataType.isFloat)) &&
      (isStructurallyInfallible left && isStructurallyInfallible right)
  | .unary _ .not expr => isStructurallyInfallible expr
  | .isNull _ expr _ => isStructurallyInfallible expr
  | .case _ whenThen elseExpr =>
    branchesInfallible whenThen && isStructurallyInfallible elseExpr
  | .cast _ (.literal _ .null) => true
  | _ => false

/-- No branch of a `CASE` can fail. -/
def branchesInfallible : List (BoundExpr × BoundExpr) → Bool
  | [] => true
  | (condition, result) :: branches =>
    isStructurallyInfallible condition && isStructurallyInfallible result &&
      branchesInfallible branches

end

end BoundExpr

/-! ## Cells -/

/-- What the kernels compute on single cells.  `none` is an error.  The kernels are parameters: a
result that names no law of theirs holds for every choice. -/
structure Scalars (V : Type) where
  null : V
  truth : V → Option Bool
  boolean : Option Bool → V
  literal : ScalarValue → V
  compare : BinaryOp → V → V → V
  arithmetic : BinaryOp → DataType → V → V → Option V
  negate : V → Option V
  like : Bool → Option Char → V → V → Option V
  cast : DataType → V → Option V
  function : ScalarFunction → DataType → List V → Option V
  truth_boolean : ∀ b, truth (boolean b) = b
  literal_null : literal .null = null
  cast_null : ∀ dataType, cast dataType null = some null
  arithmetic_float : ∀ {op : BinaryOp} {dataType : DataType}, op.isFloatSafe = true →
    dataType.isFloat = true → ∀ x y, (arithmetic op dataType x y).isSome = true

/-- `AND` of truth values; `none` is unknown. -/
def andKleene : Option Bool → Option Bool → Option Bool
  | some false, _ => some false
  | _, some false => some false
  | some true, some true => some true
  | _, _ => none

/-- `OR` of truth values; `none` is unknown. -/
def orKleene : Option Bool → Option Bool → Option Bool
  | some true, _ => some true
  | _, some true => some true
  | some false, some false => some false
  | _, _ => none

/-! ## Evaluation -/

/-- A row of a relation. -/
abbrev Row (V : Type) := List V

/-- The cell to which an outer reference is bound.  The innermost outer row comes first. -/
def outerCell {V : Type} (outer : List (Row V)) : Nat → Nat → Option V
  | 0, _ => none
  | depth + 1, index => outer[depth]?.bind (·[index]?)

namespace BoundExpr

variable {V : Type} [DecidableEq V] (S : Scalars V) (outer : List (Row V)) (row : Row V)

mutual

/-- The value of an expression on a row; `none` is an error.  `AND`, `OR`, `CASE`, `COALESCE` and
`NULLIF` compute only what they need. -/
def eval : BoundExpr → Option V
  | .column _ index => row[index]?
  | .outerRef _ depth index => outerCell outer depth index
  | .deferredGroup .. => none
  | .deferredAggregate .. => none
  | .literal _ value => some (S.literal value)
  | .binary _ left .and right => do
    let a ← eval left
    if S.truth a = some false then some (S.boolean (some false))
    else do
      let b ← eval right
      some (S.boolean (andKleene (S.truth a) (S.truth b)))
  | .binary _ left .or right => do
    let a ← eval left
    if S.truth a = some true then some (S.boolean (some true))
    else do
      let b ← eval right
      some (S.boolean (orKleene (S.truth a) (S.truth b)))
  | .binary info left op right => do
    let a ← eval left
    let b ← eval right
    if op.isInfallible then some (S.compare op a b) else S.arithmetic op info.dataType a b
  | .unary _ .not expr => do
    let a ← eval expr
    some (S.boolean ((S.truth a).map not))
  | .unary _ .negate expr => do
    let a ← eval expr
    S.negate a
  | .isNull _ expr negated => do
    let a ← eval expr
    some (S.boolean (some ((a = S.null) != negated)))
  | .like _ expr pattern negated escape => do
    let a ← eval expr
    let b ← eval pattern
    S.like negated escape a b
  | .case _ whenThen elseExpr => evalCase whenThen (eval elseExpr)
  | .cast info expr => do
    let a ← eval expr
    S.cast info.dataType a
  | .scalarFunction _ .coalesce args => evalCoalesce args
  | .scalarFunction info .nullIf args => evalNullIf info.dataType args
  | .scalarFunction info function args => do
    let values ← evalArgs args
    S.function function info.dataType values

/-- The values of arguments, all of which are computed. -/
def evalArgs : List BoundExpr → Option (List V)
  | [] => some []
  | arg :: args => do
    let value ← eval arg
    let values ← evalArgs args
    some (value :: values)

/-- The first branch whose condition is true. -/
def evalCase : List (BoundExpr × BoundExpr) → Option V → Option V
  | [], otherwise => otherwise
  | (condition, result) :: branches, otherwise => do
    let a ← eval condition
    if S.truth a = some true then eval result else evalCase branches otherwise

/-- The first argument that is not null. -/
def evalCoalesce : List BoundExpr → Option V
  | [] => some S.null
  | arg :: args => do
    let a ← eval arg
    if a = S.null then evalCoalesce args else some a

/-- The operands of the comparison are evaluated only when the first argument is not null. -/
def evalNullIf (dataType : DataType) : List BoundExpr → Option V
  | [original, left, right] => do
    let a ← eval original
    if a = S.null then some S.null
    else do
      let b ← eval left
      let c ← eval right
      S.function .nullIf dataType [a, b, c]
  | _ => none

end

/-! ## Rewriting -/

/-- What a rewriting puts in the place of columns and outer references, and whether it
keeps deferred results. -/
structure LeafRewrite where
  column : ExprInfo → Nat → Option BoundExpr
  outerRef : ExprInfo → Nat → Nat → Option BoundExpr
  keepsDeferred : Bool

mutual

/-- The expression with its columns and outer references replaced; `none` if one of them has no
replacement. -/
def rewrite (r : LeafRewrite) : BoundExpr → Option BoundExpr
  | .column info index => r.column info index
  | .outerRef info depth index => r.outerRef info depth index
  | .deferredGroup info index =>
    if r.keepsDeferred then some (.deferredGroup info index) else none
  | .deferredAggregate info function expr distinct =>
    if r.keepsDeferred then some (.deferredAggregate info function expr distinct) else none
  | .literal info value => some (.literal info value)
  | .binary info left op right => do
    let left ← rewrite r left
    let right ← rewrite r right
    some (.binary info left op right)
  | .unary info op expr => do
    let expr ← rewrite r expr
    some (.unary info op expr)
  | .isNull info expr negated => do
    let expr ← rewrite r expr
    some (.isNull info expr negated)
  | .like info expr pattern negated escape => do
    let expr ← rewrite r expr
    let pattern ← rewrite r pattern
    some (.like info expr pattern negated escape)
  | .case info whenThen elseExpr => do
    let whenThen ← rewriteBranches r whenThen
    let elseExpr ← rewrite r elseExpr
    some (.case info whenThen elseExpr)
  | .cast info expr => do
    let expr ← rewrite r expr
    some (.cast info expr)
  | .scalarFunction info function args => do
    let args ← rewriteArgs r args
    some (.scalarFunction info function args)

/-- Arguments with their leaves replaced. -/
def rewriteArgs (r : LeafRewrite) : List BoundExpr → Option (List BoundExpr)
  | [] => some []
  | arg :: args => do
    let arg ← rewrite r arg
    let args ← rewriteArgs r args
    some (arg :: args)

/-- Branches with their leaves replaced. -/
def rewriteBranches (r : LeafRewrite) :
    List (BoundExpr × BoundExpr) → Option (List (BoundExpr × BoundExpr))
  | [] => some []
  | (condition, result) :: branches => do
    let condition ← rewrite r condition
    let result ← rewrite r result
    let branches ← rewriteBranches r branches
    some ((condition, result) :: branches)

end

/-- The leaves that `r` replaces have the same values in the new context. -/
def LeafRewrite.Preserves {V : Type} [DecidableEq V] (r : LeafRewrite) (S : Scalars V)
    (outer : List (Row V)) (row : Row V) (outer' : List (Row V)) (row' : Row V)
    (leaves : List BoundExpr) : Prop :=
  (∀ info index, .column info index ∈ leaves → ∀ expr, r.column info index = some expr →
    expr.eval S outer' row' = row[index]?) ∧
  ∀ info depth index, .outerRef info depth index ∈ leaves → ∀ expr,
    r.outerRef info depth index = some expr →
    expr.eval S outer' row' = outerCell outer depth index

section Rewrite

variable {V : Type} [DecidableEq V] {S : Scalars V} {outer outer' : List (Row V)}
  {row row' : Row V} {r : LeafRewrite}

variable (S outer outer' row row') in
/-- Two expressions, each with the same value in its context. -/
def SameValue (expr expr' : BoundExpr) : Prop :=
  expr'.eval S outer' row' = expr.eval S outer row

variable {args args' : List BoundExpr} {branches : List (BoundExpr × BoundExpr)}

section

variable (h : List.Forall₂ (SameValue S outer outer' row row') args args')
include h

theorem evalArgs_congr : evalArgs S outer' row' args' = evalArgs S outer row args := by
  induction h with
  | nil => rfl
  | cons hvalue _ ih => rw [evalArgs, evalArgs, hvalue, ih]

theorem evalCoalesce_congr :
    evalCoalesce S outer' row' args' = evalCoalesce S outer row args := by
  induction h with
  | nil => rfl
  | cons hvalue _ ih => rw [evalCoalesce, evalCoalesce, hvalue, ih]

theorem evalNullIf_congr {dataType : DataType} :
    evalNullIf S outer' row' dataType args' = evalNullIf S outer row dataType args := by
  match h with
  | .nil | .cons _ .nil | .cons _ (.cons _ .nil) | .cons _ (.cons _ (.cons _ (.cons _ _))) => rfl
  | .cons horiginal (.cons hleft (.cons hright .nil)) =>
    rw [evalNullIf, evalNullIf, horiginal, hleft, hright]

end

variable {branches' : List (BoundExpr × BoundExpr)}

theorem evalCase_congr {otherwise : Option V} (h : List.Forall₂ (fun branch branch' =>
      SameValue S outer outer' row row' branch.1 branch'.1 ∧
        SameValue S outer outer' row row' branch.2 branch'.2) branches branches') :
    evalCase S outer' row' branches' otherwise = evalCase S outer row branches otherwise := by
  induction h with
  | nil => rfl
  | cons hvalue _ ih => rw [evalCase, evalCase, hvalue.1, hvalue.2, ih]

variable {info : ExprInfo}

theorem eval_scalarFunction_congr {function : ScalarFunction}
    (h : List.Forall₂ (SameValue S outer outer' row row') args args') :
    SameValue S outer outer' row row' (.scalarFunction info function args)
      (.scalarFunction info function args') := by
  cases function
  case coalesce => simp only [SameValue, eval, evalCoalesce_congr h]
  case nullIf => simp only [SameValue, eval, evalNullIf_congr h]
  all_goals simp only [SameValue, eval, evalArgs_congr h]

theorem argLeaves_eq (args : List BoundExpr) : argLeaves args = args.flatMap leaves := by
  induction args <;> simp_all [argLeaves]

theorem branchLeaves_eq (branches : List (BoundExpr × BoundExpr)) :
    branchLeaves branches = branches.flatMap fun branch => branch.1.leaves ++ branch.2.leaves := by
  induction branches <;> simp_all [branchLeaves]

theorem leaves_subset_argLeaves {arg : BoundExpr} (h : arg ∈ args) :
    arg.leaves ⊆ argLeaves args := by
  intro leaf hleaf
  rw [argLeaves_eq]
  exact mem_flatMap.mpr ⟨arg, h, hleaf⟩

theorem leaves_subset_branchLeaves {branch : BoundExpr × BoundExpr}
    (h : branch ∈ branches) :
    branch.1.leaves ⊆ branchLeaves branches ∧ branch.2.leaves ⊆ branchLeaves branches := by
  rw [branchLeaves_eq, ← append_subset]
  exact fun leaf hleaf => mem_flatMap.mpr ⟨branch, h, hleaf⟩

theorem rewriteArgs_eq_some (h : rewriteArgs r args = some args') :
    List.Forall₂ (fun arg arg' => arg.rewrite r = some arg') args args' := by
  induction args generalizing args' with
  | nil =>
    cases h
    exact .nil
  | cons arg args ih =>
    simp only [rewriteArgs, bind_eq_bind, bind_eq_some_iff, some.injEq] at h
    obtain ⟨arg', harg, rest, hrest, rfl⟩ := h
    exact .cons harg (ih hrest)

theorem rewriteBranches_eq_some (h : rewriteBranches r branches = some branches') :
    List.Forall₂ (fun branch branch' => branch.1.rewrite r = some branch'.1 ∧
      branch.2.rewrite r = some branch'.2) branches branches' := by
  induction branches generalizing branches' with
  | nil =>
    cases h
    exact .nil
  | cons branch branches ih =>
    simp only [rewriteBranches, bind_eq_bind, bind_eq_some_iff, some.injEq] at h
    obtain ⟨condition, hcondition, result, hresult, rest, hrest, rfl⟩ := h
    exact .cons ⟨hcondition, hresult⟩ (ih hrest)

/-- The leaves that a rewriting keeps. -/
def isKept : BoundExpr → Bool
  | .deferredGroup .. | .deferredAggregate .. | .literal .. => true
  | _ => false

variable {expr expr' : BoundExpr}

/-- Induction over an expression together with its rewriting. -/
theorem rewrite_induction {P : BoundExpr → BoundExpr → Prop} {leaves : List BoundExpr}
    (column : ∀ info index expr, .column info index ∈ leaves → r.column info index = some expr →
      P (.column info index) expr)
    (outerRef : ∀ info depth index expr, .outerRef info depth index ∈ leaves →
      r.outerRef info depth index = some expr → P (.outerRef info depth index) expr)
    (kept : ∀ leaf ∈ leaves, leaf.isKept = true → P leaf leaf)
    (binary : ∀ {info op left left' right right'}, P left left' → P right right' →
      P (.binary info left op right) (.binary info left' op right'))
    (unary : ∀ {info op expr expr'}, P expr expr' → P (.unary info op expr) (.unary info op expr'))
    (isNull : ∀ {info negated expr expr'}, P expr expr' →
      P (.isNull info expr negated) (.isNull info expr' negated))
    (like : ∀ {info negated escape expr expr' pattern pattern'}, P expr expr' →
      P pattern pattern' → P (.like info expr pattern negated escape)
        (.like info expr' pattern' negated escape))
    (case : ∀ {info branches branches' expr expr'}, List.Forall₂ (fun branch branch' =>
      P branch.1 branch'.1 ∧ P branch.2 branch'.2) branches branches' → P expr expr' →
      P (.case info branches expr) (.case info branches' expr'))
    (cast : ∀ {info expr expr'}, P expr expr' → P (.cast info expr) (.cast info expr'))
    (scalarFunction : ∀ {info function args args'}, List.Forall₂ P args args' →
      P (.scalarFunction info function args) (.scalarFunction info function args'))
    (h : expr.rewrite r = some expr') (hleaves : expr.leaves ⊆ leaves) : P expr expr' := by
  induction expr using BoundExpr.induction generalizing expr' with
    simp only [rewrite, bind_eq_bind, bind_eq_some_iff, some.injEq, ite_none_right_eq_some] at h
  | column info index => exact column info index expr' (hleaves (mem_singleton_self _)) h
  | outerRef info depth index =>
    exact outerRef info depth index expr' (hleaves (mem_singleton_self _)) h
  | deferredGroup | deferredAggregate =>
    obtain ⟨-, rfl⟩ := h
    exact kept _ (hleaves (mem_singleton_self _)) rfl
  | literal =>
    subst h
    exact kept _ (hleaves (mem_singleton_self _)) rfl
  | binary info left op right ihleft ihright =>
    obtain ⟨left', hleft, right', hright, rfl⟩ := h
    obtain ⟨hsub, hsub'⟩ := append_subset.mp hleaves
    exact binary (ihleft hleft hsub) (ihright hright hsub')
  | unary info op expr ih =>
    obtain ⟨expr', hexpr, rfl⟩ := h
    exact unary (ih hexpr hleaves)
  | isNull info expr negated ih =>
    obtain ⟨expr', hexpr, rfl⟩ := h
    exact isNull (ih hexpr hleaves)
  | like info expr pattern negated escape ihexpr ihpattern =>
    obtain ⟨expr', hexpr, pattern', hpattern, rfl⟩ := h
    obtain ⟨hsub, hsub'⟩ := append_subset.mp hleaves
    exact like (ihexpr hexpr hsub) (ihpattern hpattern hsub')
  | case info whenThen elseExpr ihbranches ihelse =>
    obtain ⟨branches', hbranches, else', helse, rfl⟩ := h
    obtain ⟨hsub, hsub'⟩ := append_subset.mp hleaves
    refine case (forall₂_imp_of_mem (rewriteBranches_eq_some hbranches) ?_) (ihelse helse hsub')
    intro branch hmem branch' hbranch
    obtain ⟨hcondition, hresult⟩ := leaves_subset_branchLeaves hmem
    exact ⟨(ihbranches branch hmem).1 hbranch.1 (List.Subset.trans hcondition hsub),
      (ihbranches branch hmem).2 hbranch.2 (List.Subset.trans hresult hsub)⟩
  | cast info expr ih =>
    obtain ⟨expr', hexpr, rfl⟩ := h
    exact cast (ih hexpr hleaves)
  | scalarFunction info function args ih =>
    obtain ⟨args', hargs, rfl⟩ := h
    refine scalarFunction (forall₂_imp_of_mem (rewriteArgs_eq_some hargs) ?_)
    intro arg hmem arg' harg
    exact ih arg hmem harg (List.Subset.trans (leaves_subset_argLeaves hmem) hleaves)

/-- A rewriting that keeps the values of the leaves keeps the value of the expression. -/
theorem eval_rewrite (h : expr.rewrite r = some expr')
    (hleaves : r.Preserves S outer row outer' row' expr.leaves) :
    SameValue S outer outer' row row' expr expr' := by
  refine rewrite_induction ?column ?outerRef ?kept ?binary ?unary ?isNull ?like ?case ?cast
    eval_scalarFunction_congr h (refl _)
  case column => exact fun info index expr hmem hexpr => hleaves.1 info index hmem expr hexpr
  case outerRef =>
    exact fun info depth index expr hmem hexpr => hleaves.2 info depth index hmem expr hexpr
  case kept =>
    intro leaf _ hkept
    cases leaf <;> first | rfl | cases hkept
  case binary =>
    intro info op left left' right right' hleft hright
    cases op <;> simp only [SameValue, eval] <;> rw [hleft, hright]
  case unary =>
    intro info op expr expr' hexpr
    cases op <;> simp only [SameValue, eval] <;> rw [hexpr]
  case isNull | cast =>
    intros
    simp only [SameValue, eval]
    rw [‹SameValue S outer outer' row row' _ _›]
  case like =>
    intro info negated escape expr expr' pattern pattern' hexpr hpattern
    simp only [SameValue, eval]
    rw [hexpr, hpattern]
  case case =>
    intro info branches branches' expr expr' hbranches hexpr
    simp only [SameValue, eval]
    rw [hexpr, evalCase_congr hbranches]

end Rewrite

/-! ## Rewritings that succeed -/

section Succeeds

variable {r : LeafRewrite}

theorem rewriteArgs_isSome {args : List BoundExpr}
    (h : ∀ arg ∈ args, (arg.rewrite r).isSome = true) : (rewriteArgs r args).isSome = true := by
  induction args with
  | nil => rfl
  | cons arg args ih =>
    obtain ⟨harg, hargs⟩ := forall_mem_cons.mp h
    rw [rewriteArgs]
    exact isSome_bind harg fun _ _ => isSome_bind (ih hargs) fun _ _ => rfl

theorem rewriteBranches_isSome {branches : List (BoundExpr × BoundExpr)}
    (h : ∀ branch ∈ branches, (branch.1.rewrite r).isSome = true ∧
      (branch.2.rewrite r).isSome = true) : (rewriteBranches r branches).isSome = true := by
  induction branches with
  | nil => rfl
  | cons branch branches ih =>
    obtain ⟨hbranch, hbranches⟩ := forall_mem_cons.mp h
    rw [rewriteBranches]
    exact isSome_bind hbranch.1 fun _ _ => isSome_bind hbranch.2 fun _ _ =>
      isSome_bind (ih hbranches) fun _ _ => rfl

/-- The rewriting replaces all columns and outer references, and keeps deferred results. -/
def LeafRewrite.Succeeds (r : LeafRewrite) (leaves : List BoundExpr) : Prop :=
  (∀ info index, .column info index ∈ leaves → (r.column info index).isSome = true) ∧
  (∀ info depth index, .outerRef info depth index ∈ leaves →
    (r.outerRef info depth index).isSome = true) ∧
  r.keepsDeferred = true

theorem LeafRewrite.Succeeds.mono {leaves leaves' : List BoundExpr} (h : r.Succeeds leaves)
    (hsub : leaves' ⊆ leaves) : r.Succeeds leaves' :=
  ⟨fun info index hmem => h.1 info index (hsub hmem),
    fun info depth index hmem => h.2.1 info depth index (hsub hmem), h.2.2⟩

/-- A rewriting succeeds when it succeeds on every leaf. -/
theorem rewrite_isSome {expr : BoundExpr} (h : r.Succeeds expr.leaves) :
    (expr.rewrite r).isSome = true := by
  induction expr using BoundExpr.induction with
  | column info index => exact h.1 info index (mem_singleton_self _)
  | outerRef info depth index => exact h.2.1 info depth index (mem_singleton_self _)
  | deferredGroup | deferredAggregate =>
    rw [rewrite, h.2.2]
    rfl
  | literal => rfl
  | binary info left op right ihleft ihright =>
    rw [rewrite]
    exact isSome_bind (ihleft (h.mono (subset_append_left ..))) fun _ _ =>
      isSome_bind (ihright (h.mono (subset_append_right ..))) fun _ _ => rfl
  | unary info op expr ih | isNull info expr negated ih | cast info expr ih =>
    rw [rewrite]
    exact isSome_bind (ih h) fun _ _ => rfl
  | like info expr pattern negated escape ihexpr ihpattern =>
    rw [rewrite]
    exact isSome_bind (ihexpr (h.mono (subset_append_left ..))) fun _ _ =>
      isSome_bind (ihpattern (h.mono (subset_append_right ..))) fun _ _ => rfl
  | case info whenThen elseExpr ihbranches ihelse =>
    have hbranches := h.mono (subset_append_left (branchLeaves whenThen) elseExpr.leaves)
    have hsome := rewriteBranches_isSome fun branch hmem =>
      ⟨(ihbranches branch hmem).1 (hbranches.mono (leaves_subset_branchLeaves hmem).1),
        (ihbranches branch hmem).2 (hbranches.mono (leaves_subset_branchLeaves hmem).2)⟩
    rw [rewrite]
    exact isSome_bind hsome fun _ _ =>
      isSome_bind (ihelse (h.mono (subset_append_right ..))) fun _ _ => rfl
  | scalarFunction info function args ih =>
    rw [rewrite]
    exact isSome_bind (rewriteArgs_isSome fun arg hmem =>
      ih arg hmem (h.mono (leaves_subset_argLeaves hmem))) fun _ _ => rfl

end Succeeds

/-! ## Columns in range -/

theorem mem_referencedColumns {expr : BoundExpr} {index : Nat} :
    index ∈ expr.referencedColumns ↔ ∃ info, .column info index ∈ expr.leaves := by
  rw [referencedColumns, mem_filterMap]
  constructor
  · rintro ⟨leaf, hmem, hindex⟩
    cases leaf <;> cases hindex
    exact ⟨_, hmem⟩
  · rintro ⟨info, hmem⟩
    exact ⟨_, hmem, rfl⟩

/-- The rewriting that changes nothing. -/
def LeafRewrite.identity : LeafRewrite where
  column info index := some (.column info index)
  outerRef info depth index := some (.outerRef info depth index)
  keepsDeferred := true

theorem rewrite_identity (expr : BoundExpr) : expr.rewrite .identity = some expr := by
  have hsucceeds : LeafRewrite.identity.Succeeds expr.leaves :=
    ⟨fun _ _ _ => rfl, fun _ _ _ _ => rfl, rfl⟩
  obtain ⟨expr', hexpr'⟩ := isSome_iff_exists.mp (rewrite_isSome hsucceeds)
  have hsame : expr' = expr := by
    refine rewrite_induction (P := fun expr expr' => expr' = expr) ?column ?outerRef
      (fun _ _ _ => rfl) ?binary ?unary ?isNull ?like ?case ?cast ?scalarFunction hexpr'
      (refl _)
    case column | outerRef =>
      intros
      exact (some.inj ‹some _ = some _›).symm
    case binary | unary | isNull | like | cast =>
      intros
      simp only [*]
    case case =>
      intro info branches branches' expr expr' hbranches hexpr
      have heq : List.Forall₂ Eq branches' branches :=
        hbranches.flip.imp fun _ _ h => Prod.ext h.1 h.2
      rw [forall₂_eq_eq_eq] at heq
      rw [hexpr, heq]
    case scalarFunction =>
      intro info function args args' hargs
      have heq : List.Forall₂ Eq args' args := hargs.flip
      rw [forall₂_eq_eq_eq] at heq
      rw [heq]
  rw [hexpr', hsame]

section Range

variable {V : Type} [DecidableEq V] {S : Scalars V} {outer : List (Row V)} {row row' : Row V}
  {expr : BoundExpr}

/-- The value depends only on the columns of the expression. -/
theorem eval_congr (h : ∀ index ∈ expr.referencedColumns, row'[index]? = row[index]?) :
    expr.eval S outer row' = expr.eval S outer row := by
  refine eval_rewrite (rewrite_identity expr) ⟨?_, ?_⟩
  · intro info index hmem expr' hexpr'
    cases hexpr'
    exact h index (mem_referencedColumns.mpr ⟨info, hmem⟩)
  · intro info depth index _ expr' hexpr'
    cases hexpr'
    rfl

/-- The columns of the expression are columns of a row of the given width. -/
def InRange (expr : BoundExpr) (width : Nat) : Prop :=
  ∀ index ∈ expr.referencedColumns, index < width

instance (expr : BoundExpr) (width : Nat) : Decidable (expr.InRange width) :=
  inferInstanceAs (Decidable (∀ index ∈ expr.referencedColumns, index < width))

variable {width : Nat}

theorem inRange_iff :
    expr.InRange width ↔ ∀ info index, .column info index ∈ expr.leaves → index < width := by
  constructor
  · intro h info index hmem
    exact h index (mem_referencedColumns.mpr ⟨info, hmem⟩)
  · intro h index hmem
    obtain ⟨info, hmem⟩ := mem_referencedColumns.mp hmem
    exact h info index hmem

theorem InRange.of_subset {expr' : BoundExpr} (h : expr.InRange width)
    (hsub : expr'.leaves ⊆ expr.leaves) : expr'.InRange width :=
  inRange_iff.mpr fun info index hmem => inRange_iff.mp h info index (hsub hmem)

variable {branches : List (BoundExpr × BoundExpr)}

theorem evalCase_isSome {otherwise : Option V}
    (hbranches : ∀ branch ∈ branches, (branch.1.eval S outer row).isSome = true ∧
      (branch.2.eval S outer row).isSome = true) (hotherwise : otherwise.isSome = true) :
    (evalCase S outer row branches otherwise).isSome = true := by
  induction branches with
  | nil => exact hotherwise
  | cons branch branches ih =>
    obtain ⟨hbranch, hbranches⟩ := forall_mem_cons.mp hbranches
    obtain ⟨a, ha⟩ := isSome_iff_exists.mp hbranch.1
    rw [evalCase, ha]
    show (if S.truth a = some true then _ else _ : Option V).isSome = true
    split
    · exact hbranch.2
    · exact ih hbranches

theorem branchesInfallible_iff :
    branchesInfallible branches = true ↔ ∀ branch ∈ branches,
      branch.1.isStructurallyInfallible = true ∧ branch.2.isStructurallyInfallible = true := by
  induction branches with
  | nil => simp [branchesInfallible]
  | cons branch branches ih =>
    rw [branchesInfallible, Bool.and_eq_true, Bool.and_eq_true, ih, forall_mem_cons]

variable {info : ExprInfo}

theorem eq_literal_null_of_cast_infallible
    (h : (BoundExpr.cast info expr).isStructurallyInfallible = true) :
    ∃ info', expr = .literal info' .null := by
  unfold isStructurallyInfallible at h
  split at h
  case h_7 heq =>
    cases heq
    exact ⟨_, rfl⟩
  all_goals simp_all

/-- An operator that the classification takes as infallible. -/
theorem eval_binary_isSome {op : BinaryOp} {left right : BoundExpr}
    (hop : op.isInfallible = true ∨ op.isFloatSafe = true ∧ info.dataType.isFloat = true)
    (hleft : (left.eval S outer row).isSome = true)
    (hright : (right.eval S outer row).isSome = true) :
    ((BoundExpr.binary info left op right).eval S outer row).isSome = true := by
  obtain ⟨a, ha⟩ := isSome_iff_exists.mp hleft
  obtain ⟨b, hb⟩ := isSome_iff_exists.mp hright
  cases op
  case and =>
    simp only [eval, ha, hb, bind_eq_bind, bind_some]
    split <;> rfl
  case or =>
    simp only [eval, ha, hb, bind_eq_bind, bind_some]
    split <;> rfl
  case eq | notEq | lt | ltEq | gt | gtEq => simp [eval, ha, hb, BinaryOp.isInfallible]
  case add | subtract | multiply =>
    obtain hop | ⟨hsafe, hfloat⟩ := hop
    · cases hop
    · simpa [eval, ha, hb, BinaryOp.isInfallible] using S.arithmetic_float hsafe hfloat a b
  case divide | modulo =>
    obtain hop | ⟨hop, -⟩ := hop
    · cases hop
    · cases hop

/-- A structurally infallible expression has a value on every row that has its columns. -/
theorem isSome_eval_of_infallible (h : expr.isStructurallyInfallible = true)
    (hrange : expr.InRange row.length) : (expr.eval S outer row).isSome = true := by
  induction expr using BoundExpr.induction with
  | column info index =>
    have hlt := inRange_iff.mp hrange info index (mem_singleton_self _)
    rw [eval, getElem?_eq_getElem hlt]
    rfl
  | literal info value => rfl
  | outerRef | deferredGroup | deferredAggregate | like | scalarFunction => cases h
  | binary info left op right ihleft ihright =>
    rw [isStructurallyInfallible, Bool.and_eq_true, Bool.or_eq_true, Bool.and_eq_true,
      Bool.and_eq_true] at h
    exact eval_binary_isSome h.1 (ihleft h.2.1 (hrange.of_subset (subset_append_left ..)))
      (ihright h.2.2 (hrange.of_subset (subset_append_right ..)))
  | unary info op expr ih =>
    cases op with
    | not =>
      obtain ⟨a, ha⟩ := isSome_iff_exists.mp (ih h hrange)
      rw [eval, ha]
      rfl
    | negate => cases h
  | isNull info expr negated ih =>
    obtain ⟨a, ha⟩ := isSome_iff_exists.mp (ih h hrange)
    rw [eval, ha]
    rfl
  | case info whenThen elseExpr ihbranches ihelse =>
    rw [isStructurallyInfallible, Bool.and_eq_true, branchesInfallible_iff] at h
    rw [eval]
    refine evalCase_isSome ?_ (ihelse h.2 (hrange.of_subset (subset_append_right ..)))
    intro branch hmem
    have hsub := subset_append_left (branchLeaves whenThen) elseExpr.leaves
    obtain ⟨hcondition, hresult⟩ := leaves_subset_branchLeaves hmem
    exact ⟨(ihbranches branch hmem).1 (h.1 branch hmem).1
        (hrange.of_subset (List.Subset.trans hcondition hsub)),
      (ihbranches branch hmem).2 (h.1 branch hmem).2
        (hrange.of_subset (List.Subset.trans hresult hsub))⟩
  | cast info expr ih =>
    obtain ⟨info', rfl⟩ := eq_literal_null_of_cast_infallible h
    simp only [eval, bind_eq_bind, bind_some, S.literal_null, S.cast_null, isSome_some]

end Range

/-! ## What rewritings keep -/

section Kept

variable {r : LeafRewrite}

variable (r) in
/-- All that `r` puts in the place of some leaves has a property of leaves. -/
def LeafRewrite.Yields (Q : BoundExpr → Prop) (leaves : List BoundExpr) : Prop :=
  (∀ info index, .column info index ∈ leaves → ∀ expr, r.column info index = some expr →
    ∀ leaf ∈ expr.leaves, Q leaf) ∧
  (∀ info depth index, .outerRef info depth index ∈ leaves → ∀ expr,
    r.outerRef info depth index = some expr → ∀ leaf ∈ expr.leaves, Q leaf) ∧
  ∀ leaf ∈ leaves, leaf.columnIndex = none → leaf.outerIndex = none → Q leaf

variable {expr expr' : BoundExpr}

section

variable (h : expr.rewrite r = some expr')
include h

/-- The leaves of a rewritten expression are kept or put in by the rewriting. -/
theorem forall_leaves_rewrite {Q : BoundExpr → Prop} (hleaves : r.Yields Q expr.leaves) :
    ∀ leaf ∈ expr'.leaves, Q leaf := by
  refine rewrite_induction (P := fun _ expr' => ∀ leaf ∈ expr'.leaves, Q leaf) ?column ?outerRef
    ?kept ?binary id id ?like ?case id ?scalarFunction h (refl _)
  case column => exact fun info index expr hmem hexpr => hleaves.1 info index hmem expr hexpr
  case outerRef =>
    exact fun info depth index expr hmem hexpr => hleaves.2.1 info depth index hmem expr hexpr
  case kept =>
    intro leaf hmem hkept
    cases leaf <;> first
      | exact forall_mem_singleton.mpr (hleaves.2.2 _ hmem rfl rfl)
      | cases hkept
  case binary | like => exact fun hleft hright => forall_mem_append.mpr ⟨hleft, hright⟩
  case case =>
    intro info branches branches' expr expr' hbranches hexpr
    refine forall_mem_append.mpr ⟨?_, hexpr⟩
    rw [branchLeaves_eq]
    refine forall_mem_flatMap.mpr fun branch' hbranch' => ?_
    obtain ⟨branch, -, hbranch⟩ := exists_mem_of_forall₂ hbranches hbranch'
    exact forall_mem_append.mpr hbranch
  case scalarFunction =>
    intro info function args args' hargs
    rw [leaves, argLeaves_eq]
    refine forall_mem_flatMap.mpr fun arg' harg' => ?_
    obtain ⟨arg, -, harg⟩ := exists_mem_of_forall₂ hargs harg'
    exact harg

/-- A rewriting to columns in range gives an expression in range. -/
theorem InRange.rewrite {width : Nat}
    (hcolumn : ∀ info index, .column info index ∈ expr.leaves → ∀ leaf,
      r.column info index = some leaf → leaf.InRange width)
    (houter : ∀ info depth index leaf, r.outerRef info depth index = some leaf →
      leaf.InRange width) : expr'.InRange width := by
  refine inRange_iff.mpr fun info index hmem => ?_
  have hleaves : r.Yields (fun leaf => ∀ index, leaf.columnIndex = some index → index < width)
      expr.leaves := by
    refine ⟨?_, ?_, ?_⟩
    · intro info index hmem expr hexpr leaf hleaf index' hindex'
      exact hcolumn info index hmem expr hexpr index' (mem_filterMap.mpr ⟨leaf, hleaf, hindex'⟩)
    · intro info depth index _ expr hexpr leaf hleaf index' hindex'
      exact houter info depth index expr hexpr index' (mem_filterMap.mpr ⟨leaf, hleaf, hindex'⟩)
    · intro leaf _ hnone _ index' hindex'
      rw [hnone] at hindex'
      cases hindex'
  exact forall_leaves_rewrite h hleaves _ hmem index rfl

/-- A rewriting of columns to infallible expressions keeps an expression infallible. -/
theorem isStructurallyInfallible_rewrite (hexpr : expr.isStructurallyInfallible = true)
    (hcolumn : ∀ info index leaf, r.column info index = some leaf →
      leaf.isStructurallyInfallible = true) : expr'.isStructurallyInfallible = true := by
  -- Only a null literal may stand under a cast, and it stays what it is.
  suffices (expr.isStructurallyInfallible = true → expr'.isStructurallyInfallible = true) ∧
      ∀ info, expr = .literal info .null → expr' = expr from this.1 hexpr
  refine rewrite_induction (P := fun expr expr' =>
    (expr.isStructurallyInfallible = true → expr'.isStructurallyInfallible = true) ∧
      ∀ info, expr = .literal info .null → expr' = expr)
    (fun info index leaf _ hleaf => ⟨fun _ => hcolumn info index leaf hleaf, nofun⟩)
    (fun _ _ _ _ _ _ => ⟨nofun, nofun⟩) (fun _ _ _ => ⟨id, fun _ _ => rfl⟩) ?binary ?unary
    (fun h => ⟨h.1, nofun⟩) (fun _ _ => ⟨nofun, nofun⟩) ?case ?cast (fun _ => ⟨nofun, nofun⟩) h
    (refl _)
  case binary =>
    intro info op left left' right right' hleft hright
    refine ⟨fun h => ?_, nofun⟩
    rw [isStructurallyInfallible, Bool.and_eq_true, Bool.and_eq_true] at h ⊢
    exact ⟨h.1, hleft.1 h.2.1, hright.1 h.2.2⟩
  case unary =>
    intro info op expr expr' hexpr
    cases op with
    | not => exact ⟨hexpr.1, nofun⟩
    | negate => exact ⟨nofun, nofun⟩
  case case =>
    intro info branches branches' expr expr' hbranches hexpr
    refine ⟨fun h => ?_, nofun⟩
    rw [isStructurallyInfallible, Bool.and_eq_true, branchesInfallible_iff] at h ⊢
    refine ⟨fun branch' hbranch' => ?_, hexpr.1 h.2⟩
    obtain ⟨branch, hmem, hbranch⟩ := exists_mem_of_forall₂ hbranches hbranch'
    exact ⟨hbranch.1.1 (h.1 branch hmem).1, hbranch.2.1 (h.1 branch hmem).2⟩
  case cast =>
    intro info expr expr' hexpr
    refine ⟨fun h => ?_, nofun⟩
    obtain ⟨info', rfl⟩ := eq_literal_null_of_cast_infallible h
    rw [hexpr.2 info' rfl]
    exact h

end

end Kept

end BoundExpr

end RustDb.Sql
