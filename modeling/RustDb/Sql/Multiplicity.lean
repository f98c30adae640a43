import RustDb.Execution.Repeat
import RustDb.Lib.Bags
import RustDb.Sql.SetOps
import RustDb.Sql.WellFormed

/-!
# Multiplicities of set operations

How often the plan of a set operation outputs a row.

* `CountCells`: the kernels on the results of `COUNT`.
* `evalRow_columnList`: the first columns of a row.
* `aggregateRows_deduplicate`, `aggregateRows_countRows`: the rows of an input without
  duplicates, alone or with their counts.
* `joinRows_keyCondition`: joins on all columns, where null equals null.
* `multiplicity`: how often SQL wants a row.
* `Runs`: the runs of a plan, with the batches in which the input of its `Repeat` comes.
-/

namespace RustDb.Sql.SetOps

open RustDb.Lib RustDb.Execution List LogicalPlan Engine Repeat

variable {V : Type} [DecidableEq V] {E : Engine V} {outer : List (Row V)}

/-! ## Columns -/

/-- The first columns, with the given types and names. -/
def columnList (infos : List ExprInfo) : List BoundExpr :=
  infos.zipIdx.map fun (info, index) => .column info index

/-- The type and the name of a column. -/
def fieldInfo (field : SchemaField) : ExprInfo := ⟨field.dataType, field.name⟩

theorem columns_eq (schema : PlanSchema) :
    columns schema = columnList (schema.fields.map fieldInfo) := by
  rw [columnList, zipIdx_map, map_map]
  rfl

theorem take_columnList (infos : List ExprInfo) (n : Nat) :
    (columnList infos).take n = columnList (infos.take n) := by
  unfold columnList
  generalize 0 = start
  induction infos generalizing n start with
  | nil => simp
  | cons info infos ih =>
    cases n with
    | zero => simp
    | succ n => simp [ih]

/-- Both sides of the keys are the first columns. -/
structure KeyColumns (width : Nat) (keys : List (BoundExpr × BoundExpr)) : Prop where
  left : ∃ infos, infos.length = width ∧ keys.map Prod.fst = columnList infos
  right : ∃ infos, infos.length = width ∧ keys.map Prod.snd = columnList infos

theorem exists_columnList {α : Type} (f : α → SchemaField) (pairs : List α) :
    ∃ infos, infos.length = pairs.length ∧
      (pairs.zipIdx.map fun (pair, index) => .column (fieldInfo (f pair)) index) =
        columnList infos := by
  refine ⟨pairs.map fun pair => fieldInfo (f pair), length_map _, ?_⟩
  rw [columnList, zipIdx_map, map_map]
  rfl

theorem keyColumns_setKeys (left right : PlanSchema) :
    KeyColumns (min left.width right.width) (setKeys left right) := by
  rw [PlanSchema.width, PlanSchema.width, ← length_zip]
  constructor <;> rw [setKeys, map_map]
  · exact exists_columnList Prod.fst _
  · exact exists_columnList Prod.snd _

variable {keys : List (BoundExpr × BoundExpr)} {infos : List ExprInfo} {rows : List (Row V)}
  {schema : PlanSchema} {input : LogicalPlan}

theorem KeyColumns.take {width n : Nat}
    (h : KeyColumns width keys) (hn : n ≤ width) : KeyColumns n (keys.take n) := by
  obtain ⟨⟨lefts, hlefts, hleftKeys⟩, rights, hrights, hrightKeys⟩ := h
  refine ⟨⟨lefts.take n, ?_, ?_⟩, rights.take n, ?_, ?_⟩
  · rw [length_take, hlefts, min_eq_left hn]
  · rw [map_take, hleftKeys, take_columnList]
  · rw [length_take, hrights, min_eq_left hn]
  · rw [map_take, hrightKeys, take_columnList]

theorem mapM_columns (infos : List ExprInfo) (row : Row V) (start : Nat)
    (h : start + infos.length ≤ row.length) :
    ((infos.zipIdx start).map fun (info, index) => BoundExpr.column info index).mapM
      (fun expr => expr.eval E.toScalars outer row) =
        some ((row.drop start).take infos.length) := by
  induction infos generalizing start with
  | nil => simp
  | cons info infos ih =>
    rw [length_cons] at h
    have hstart : start < row.length := by omega
    rw [zipIdx_cons, map_cons, mapM_cons, ih (start + 1) (by omega),
      length_cons, drop_eq_getElem_cons hstart, take_succ_cons]
    simp only [BoundExpr.eval, getElem?_eq_getElem hstart]
    rfl

variable {row : Row V}

theorem evalRow_columnList (h : infos.length ≤ row.length) :
    E.evalRow outer (columnList infos) row = some (row.take infos.length) := by
  have hcolumns := @mapM_columns V _ E outer infos row 0 (by omega)
  rwa [drop_zero] at hcolumns

/-! ## Aggregates -/

omit [DecidableEq V] in
theorem columnList_ne_nil (hpos : infos ≠ []) : columnList infos ≠ [] := by
  simpa [columnList] using hpos

/-- The groups by all columns. -/
theorem groups_columnList (hpos : infos ≠ []) (hrows : HasWidth infos.length rows) :
    E.groups outer (columnList infos) rows =
      some (rows.eraseDups.map fun key => (key, rows.filter fun row => decide (row = key))) := by
  have hkeys : rows.mapM (E.evalRow outer (columnList infos)) = some rows := by
    have hall : rows.mapM (E.evalRow outer (columnList infos)) = some (rows.map id) := by
      apply mapM_eq_some_map
      intro row hrow
      rw [evalRow_columnList (hrows row hrow).ge, take_of_length_le (hrows row hrow).le]
      rfl
    rwa [map_id] at hall
  have hzip : rows.zip rows = rows.map fun row => (row, row) := by
    rw [zip_eq_zipWith, zipWith_self]
  rw [groups, if_neg (columnList_ne_nil hpos), hkeys]
  simp [hzip, filter_map, Function.comp_def]

theorem aggregateRows_deduplicate (hpos : infos ≠ []) (hrows : HasWidth infos.length rows) :
    E.aggregateRows outer (columnList infos) [] rows = some rows.eraseDups := by
  rw [aggregateRows_eq_some]
  refine ⟨.inl (columnList_ne_nil hpos), _, groups_columnList hpos hrows, ?_⟩
  rw [mapM_eq_some_map (g := Prod.fst) (by simp), map_map]
  exact congrArg some (map_id _)

/-- A distinct row with its number. -/
def counted (E : Engine V) (rows : List (Row V)) (key : Row V) : Row V :=
  key ++ [E.count (rows.count key)]

theorem aggregateRows_countRows
    {aggregate : AggregateExpr} (haggregate : aggregate.expr = none) (hpos : infos ≠ [])
    (hrows : HasWidth infos.length rows) :
    E.aggregateRows outer (columnList infos) [aggregate] rows =
      some (rows.eraseDups.map (counted E rows)) := by
  rw [aggregateRows_eq_some]
  refine ⟨.inr (by simp), _, groups_columnList hpos hrows, ?_⟩
  have hvalue : ∀ group : Row V × List (Row V), (do
        let values ← [aggregate].mapM (E.aggregateValue outer group.2)
        some (group.1 ++ values)) = some (group.1 ++ [E.count group.2.length]) := by
    intro group
    simp [aggregateValue, haggregate]
  rw [mapM_eq_some_map fun group _ => hvalue group, map_map]
  congr 2
  funext key
  simp [counted, count_eq_length_filter, ← beq_iff_eq]

/-! ## Joins -/

/-- The row of a join input with its first columns as keys. -/
def probe (width : Nat) (row : Row V) : Probe V := ⟨row, row.take width, none⟩

theorem probes_columnList (hrows : ∀ row ∈ rows, infos.length ≤ row.length) :
    E.probes outer (columnList infos) none rows = some (rows.map (probe infos.length)) := by
  apply mapM_eq_some_map
  intro row hrow
  rw [evalRow_columnList (hrows row hrow)]
  rfl

/-- The right rows that a left row meets are those with the same first columns. -/
theorem tryFilter_qualifies {width : Nat}
    {left : Row V} {rights : List (Row V)} :
    tryFilter (E.qualifies outer (keyCondition keys) (probe width left))
      (rights.map (probe width)) =
    some ((rights.filter fun right => decide (left.take width = right.take width)).map
      (probe width)) := by
  have hqualifies : ∀ right : Row V,
      E.qualifies outer (keyCondition keys) (probe width left) (probe width right) =
        some (decide (left.take width = right.take width)) := by
    intro right
    by_cases h : left.take width = right.take width <;>
      simp [qualifies, keysMatch, keyCondition, probe, h]
  rw [tryFilter_eq_filter, filter_map]
  · congr 2
    apply filter_congr
    intro right _
    simp [hqualifies]
  · intro right hright
    obtain ⟨row, -, rfl⟩ := mem_map.mp hright
    rw [hqualifies]
    rfl

/-- A join on the first columns, without a residual. -/
theorem joinRows_keyCondition {joinType : JoinType}
    {leftWidth rightWidth width : Nat} {lefts rights : List (Row V)} (hkeys : KeyColumns width keys)
    (hlefts : ∀ row ∈ lefts, width ≤ row.length) (hrights : ∀ row ∈ rights, width ≤ row.length)
    (htype : joinType ≠ .right ∧ joinType ≠ .full) :
    E.joinRows outer (keyCondition keys) joinType leftWidth rightWidth lefts rights =
    tryFlatMap (fun left => E.leftOutput joinType rightWidth (probe width left)
      ((rights.filter fun right => decide (left.take width = right.take width)).map
        (probe width))) lefts := by
  have hleft : E.probes outer ((keyCondition keys).on.map Prod.fst)
      ((keyCondition keys).nullAware.map Prod.fst) lefts = some (lefts.map (probe width)) := by
    obtain ⟨infos, rfl, hinfos⟩ := hkeys.left
    rw [keyCondition, hinfos]
    exact probes_columnList hlefts
  have hright : E.probes outer ((keyCondition keys).on.map Prod.snd)
      ((keyCondition keys).nullAware.map Prod.snd) rights = some (rights.map (probe width)) := by
    obtain ⟨infos, rfl, hinfos⟩ := hkeys.right
    rw [keyCondition, hinfos]
    exact probes_columnList hrights
  rw [joinRows, hleft, hright]
  trans E.leftRows outer (keyCondition keys) joinType rightWidth (lefts.map (probe width))
    (rights.map (probe width))
  · cases joinType with
    | right => exact absurd rfl htype.1
    | full => exact absurd rfl htype.2
    | _ => rfl
  · unfold leftRows tryFlatMap
    rw [mapM_map]
    simp only [tryFilter_qualifies]
    rfl

/-- The right row that a key meets, when the right rows have distinct keys. -/
theorem candidates_eq {image : Row V → Row V} {width : Nat}
    (himage : ∀ row ∈ rows, (image row).take width = row) (key : Row V) :
    (rows.eraseDups.map image).filter (fun right => decide (key = right.take width)) =
      if key ∈ rows then [image key] else [] := by
  have hcongr : rows.eraseDups.filter ((fun right => decide (key = right.take width)) ∘ image) =
      rows.eraseDups.filter fun row => decide (key = row) := by
    apply filter_congr
    intro row hrow
    rw [Function.comp, himage row (mem_eraseDups.mp hrow)]
  rw [filter_map, hcongr, filter_eq_of_nodup (nodup_eraseDups rows)]
  simp only [mem_eraseDups]
  split <;> rfl

/-! ## Counts -/

/-- The counts that an `Int64` cell holds. -/
def countLimit : Nat := 2 ^ 63

/-- The kernels on the results of `COUNT`, which are exact and never null as long as the
counts fit their cells. -/
structure CountCells (E : Engine V) where
  /-- The number in an integer cell. -/
  number : V → Option Int
  number_count : ∀ n < countLimit, number (E.count n) = some n
  repeatCount_eq : ∀ value,
    E.repeatCount value = (Repeat.repeatCount .int64 (number value)).toOption
  count_ne_null : ∀ n < countLimit, E.count n ≠ E.null
  truth_less : ∀ a < countLimit, ∀ b < countLimit,
    E.truth (E.compare .lt (E.count a) (E.count b)) = some (decide (a < b))
  truth_greater : ∀ a < countLimit, ∀ b < countLimit,
    E.truth (E.compare .gt (E.count a) (E.count b)) = some (decide (b < a))
  subtract : ∀ a < countLimit, ∀ b ≤ a,
    E.arithmetic .subtract .int64 (E.count a) (E.count b) = some (E.count (a - b))
  literal_zero : E.literal (.int64 0) = E.count 0

omit [DecidableEq V] in
theorem CountCells.repeatCount_count (C : CountCells E) {n : Nat} (h : n < countLimit) :
    E.repeatCount (E.count n) = some n := by
  rw [C.repeatCount_eq, C.number_count n h]
  have hnonneg : ¬ (n : Int) < 0 := by omega
  simp [Repeat.repeatCount, hnonneg, Except.toOption]

variable {count : BoundExpr}

/-- The count of `INTERSECT ALL` is the smaller one. -/
theorem eval_repeatCount_intersect (C : CountCells E) {width : Nat}
    (h : repeatCount width .intersect = .ok count) {a b : Nat} (ha : a < countLimit)
    (hb : b < countLimit) (hleft : row[width]? = some (E.count a)) (hright : row[width * 2 + 1]? = some (E.count b)) :
    count.eval E.toScalars outer row = some (E.count (min a b)) := by
  obtain rfl : BoundExpr.case ⟨.int64, "CASE"⟩
      [(.binary ⟨.boolean, "__rustdb_left_count < __rustdb_right_count"⟩
        (columnExpr width .int64 "__rustdb_left_count") .lt
        (columnExpr (width * 2 + 1) .int64 "__rustdb_right_count"),
        columnExpr width .int64 "__rustdb_left_count")]
      (columnExpr (width * 2 + 1) .int64 "__rustdb_right_count") = count := Except.ok.inj h
  have hcondition := C.truth_less a ha b hb
  have hmin : min a b = if a < b then a else b := by split <;> omega
  by_cases hless : a < b <;>
    simp [BoundExpr.eval, BoundExpr.evalCase, columnExpr, hleft, hright, hcondition, hless,
      BinaryOp.isInfallible, hmin]

/-- The count of `EXCEPT ALL` is the difference.  A missing right count is null. -/
theorem eval_repeatCount_except (C : CountCells E) {width : Nat}
    (h : repeatCount width .except = .ok count) {a b : Nat} {right : V} (ha : a < countLimit)
    (hb : b < countLimit) (hleft : row[width]? = some (E.count a)) (hright : row[width * 2 + 1]? = some right)
    (hvalue : right = E.count b ∨ (right = E.null ∧ b = 0)) :
    count.eval E.toScalars outer row = some (E.count (a - b)) := by
  let coalesced : BoundExpr :=
    .scalarFunction ⟨.int64, "coalesce(__rustdb_right_count, 0)"⟩ .coalesce
      [columnExpr (width * 2 + 1) .int64 "__rustdb_right_count", int64Literal 0]
  obtain rfl : BoundExpr.case ⟨.int64, "CASE"⟩
      [(.binary ⟨.boolean, "__rustdb_left_count > coalesce(__rustdb_right_count, 0)"⟩
        (columnExpr width .int64 "__rustdb_left_count") .gt coalesced,
        .binary ⟨.int64, "__rustdb_left_count - coalesce(__rustdb_right_count, 0)"⟩
          (columnExpr width .int64 "__rustdb_left_count") .subtract coalesced)]
      (int64Literal 0) = count := Except.ok.inj h
  have hcoalesced : coalesced.eval E.toScalars outer row = some (E.count b) := by
    rcases hvalue with rfl | ⟨rfl, rfl⟩
    · simp [coalesced, BoundExpr.eval, BoundExpr.evalCoalesce, columnExpr, hright,
        C.count_ne_null b hb]
    · simp [coalesced, BoundExpr.eval, BoundExpr.evalCoalesce, columnExpr, hright,
        int64Literal, C.literal_zero, C.count_ne_null 0 hb]
  have hcondition := C.truth_greater a ha b hb
  by_cases hgreater : b < a
  · simp [BoundExpr.eval, BoundExpr.evalCase, hcoalesced, columnExpr, hleft, hcondition,
      hgreater, BinaryOp.isInfallible, C.subtract a ha b hgreater.le]
  · have hzero : a - b = 0 := by omega
    simp [BoundExpr.eval, BoundExpr.evalCase, hcoalesced, columnExpr, hleft, hcondition,
      hgreater, BinaryOp.isInfallible, int64Literal, C.literal_zero, hzero]

variable {name : String}

/-- Rows with their counts, repeated. -/
theorem repeatedRows_counted (C : CountCells E) {width : Nat} {keys : List (Row V)}
    {copies : Row V → Nat} (hpos : 0 < width) (hkeys : HasWidth width keys)
    (hcopies : ∀ key ∈ keys, copies key < countLimit) :
    E.repeatedRows outer (columnExpr width .int64 name) width
      (keys.map fun key => key ++ [E.count (copies key)]) =
      some (keys.flatMap fun key => replicate (copies key) key) := by
  unfold repeatedRows tryFlatMap
  rw [mapM_map, mapM_eq_some_map (g := fun key => replicate (copies key) key), flatMap_def]
  · rfl
  · intro key hkey
    have hlength := hkeys key hkey
    simp [hlength, columnExpr, BoundExpr.eval, C.repeatCount_count (hcopies key hkey), hpos.ne']

/-! ## Multiplicities -/

/-- How often a row is in the result, when it is `m` times in the left input and `n` times in
the right one. -/
def multiplicity (operator : SetOperator) (quantifier : SetQuantifier) (m n : Nat) : Nat :=
  match operator, quantifier with
  | .union, .all => m + n
  | .union, _ => min 1 (m + n)
  | .intersect, .all => min m n
  | .intersect, _ => min 1 (min m n)
  | .except, .all => m - n
  | .except, _ => if 0 < m ∧ n = 0 then 1 else 0
  | .minus, _ => 0

/-! ## Plans -/

/-- What alignment makes of the inputs. -/
theorem alignInputs_eq_ok {left right left' right' : LogicalPlan}
    (h : alignInputs left right = .ok (left', right', schema)) :
    left' = alignInput left schema ∧ right' = alignInput right schema ∧
      left.width = schema.width ∧ right.width = schema.width := by
  unfold alignInputs at h
  split at h
  · cases h
  · next hwidth =>
    obtain ⟨fields, hfields, h⟩ := bind_eq_ok.mp h
    cases h
    have hlength := (mapM_eq_ok.mp hfields).length_eq
    have hleft : left.schema.fields.length = right.schema.fields.length := not_not.mp hwidth
    rw [length_zipIdx, length_zip, ← hleft, min_self] at hlength
    exact ⟨rfl, rfl, hlength, hleft.symm.trans hlength⟩

theorem hasWidth_alignInput (hwidth : input.width = schema.width)
    (h : (alignInput input schema).eval E outer = some rows) : HasWidth schema.width rows := by
  simp only [alignInput, eval] at h
  obtain ⟨input', -, h⟩ := Option.bind_eq_some_iff.mp h
  have hrows := hasWidth_projectRows h
  have hlength : input.schema.fields.length = schema.fields.length := hwidth
  rwa [length_map, length_zipIdx, length_zip, hlength, min_self] at hrows

theorem length_fieldInfos (plan : LogicalPlan) :
    (plan.schema.fields.map fieldInfo).length = plan.width := length_map ..

section

variable (hpos : 0 < input.width)
  (h : input.eval E outer = some rows)
  (hrows : HasWidth input.width rows)
include hpos h hrows

theorem eval_deduplicate : (deduplicate input).eval E outer = some rows.eraseDups := by
  rw [deduplicate, eval, h, columns_eq]
  apply aggregateRows_deduplicate
  · exact ne_nil_of_length_pos (by rwa [length_fieldInfos])
  · rwa [length_fieldInfos]

theorem eval_countRows :
    (countRows input name).eval E outer = some (rows.eraseDups.map (counted E rows)) := by
  rw [countRows, eval, h, columns_eq]
  apply aggregateRows_countRows rfl
  · exact ne_nil_of_length_pos (by rwa [length_fieldInfos])
  · rwa [length_fieldInfos]

end

/-- Without columns nothing is deduplicated. -/
theorem eval_deduplicate_of_width_zero (hwidth : input.width = 0) :
    (deduplicate input).eval E outer = none := by
  have hcolumns : columns input.schema = [] := by
    have hnil : input.schema.fields = [] := length_eq_zero_iff.mp hwidth
    rw [columns, hnil]
    rfl
  rw [deduplicate, eval, hcolumns]
  cases input.eval E outer with
  | none => rfl
  | some rows => exact if_pos (refuses_iff.mpr rfl)

/-- The plans of aligned inputs and their rows. -/
structure Inputs (E : Engine V) (outer : List (Row V)) (left right : LogicalPlan)
    (schema : PlanSchema) (lefts rights : List (Row V)) : Prop where
  leftSchema : left.schema = schema
  rightSchema : right.schema = schema
  left : left.eval E outer = some lefts
  right : right.eval E outer = some rights
  leftsFit : lefts.length < countLimit
  rightsFit : rights.length < countLimit
  lefts : HasWidth schema.width lefts
  rights : HasWidth schema.width rights

theorem Inputs.swap {left right : LogicalPlan} {lefts rights : List (Row V)}
    (h : Inputs E outer left right schema lefts rights) :
    Inputs E outer right left schema rights lefts :=
  ⟨h.rightSchema, h.leftSchema, h.right, h.left, h.rightsFit, h.leftsFit, h.rights, h.lefts⟩

section Operations

variable {left right : LogicalPlan} {schema : PlanSchema} {lefts rights : List (Row V)}

section

variable (h : Inputs E outer left right schema lefts rights) (hpos : 0 < schema.width)
include h hpos

theorem Inputs.eval_deduplicate_left :
    (deduplicate left).eval E outer = some lefts.eraseDups := by
  obtain ⟨rfl, -, hleft, -, -, -, hlefts, -⟩ := h
  exact eval_deduplicate hpos hleft hlefts

theorem Inputs.eval_countRows_left (name : String) :
    (countRows left name).eval E outer = some (lefts.eraseDups.map (counted E lefts)) ∧
      (countRows left name).width = schema.width + 1 := by
  obtain ⟨rfl, -, hleft, -, -, -, hlefts, -⟩ := h
  refine ⟨eval_countRows hpos hleft hlefts, ?_⟩
  simp [countRows, width, schema, unqualified, PlanSchema.width]

end

/-- The right row that a key meets in a join on the first columns. -/
theorem joinRows_distinct {keys : List (BoundExpr × BoundExpr)} {joinType : JoinType}
    {leftWidth rightWidth width : Nat} {leftImage rightImage : Row V → Row V}
    (hkeys : KeyColumns width keys) (hlefts : HasWidth width lefts)
    (hrights : HasWidth width rights)
    (hleftImage : ∀ row ∈ lefts, (leftImage row).take width = row)
    (hrightImage : ∀ row ∈ rights, (rightImage row).take width = row)
    (htype : joinType ≠ .right ∧ joinType ≠ .full) :
    E.joinRows outer (keyCondition keys) joinType leftWidth rightWidth
      (lefts.eraseDups.map leftImage) (rights.eraseDups.map rightImage) =
    tryFlatMap (fun key => E.leftOutput joinType rightWidth (probe width (leftImage key))
      (if key ∈ rights then [probe width (rightImage key)] else [])) lefts.eraseDups := by
  have hlength : ∀ (rows : List (Row V)) (image : Row V → Row V), HasWidth width rows →
      (∀ row ∈ rows, (image row).take width = row) →
      ∀ row ∈ rows.eraseDups.map image, width ≤ row.length := by
    intro rows image hrows himage row hrow
    obtain ⟨key, hkey, rfl⟩ := mem_map.mp hrow
    have hkey := mem_eraseDups.mp hkey
    have htake := congrArg length (himage key hkey)
    rw [length_take, hrows key hkey] at htake
    omega
  rw [joinRows_keyCondition hkeys (hlength lefts leftImage hlefts hleftImage)
    (hlength rights rightImage hrights hrightImage) htype]
  unfold tryFlatMap
  rw [mapM_map]
  congr 1
  apply mapM_congr
  intro key hkey
  rw [hleftImage key (mem_eraseDups.mp hkey), candidates_eq hrightImage]
  split <;> rfl

/-- How often the joins of `INTERSECT` and `EXCEPT` keep a key. -/
def distinctCopies (joinType : JoinType) (rights : List (Row V)) (key : Row V) : Nat :=
  if (key ∈ rights) = (joinType = .semi) then 1 else 0

/-- The `Semi` and `Anti` joins of `INTERSECT` and `EXCEPT`. -/
theorem eval_distinctJoin {joinType : JoinType} (hpos : 0 < schema.width)
    (h : Inputs E outer left right schema lefts rights)
    (htype : joinType = .semi ∨ joinType = .anti) :
    (join (deduplicate left) (deduplicate right)
      (keyCondition (setKeys (deduplicate left).schema (deduplicate right).schema)) joinType
      (deduplicate left).schema).eval E outer =
      some (lefts.eraseDups.flatMap fun key =>
        replicate (distinctCopies joinType rights key) key) := by
  have hkeys : KeyColumns schema.width
      (setKeys (deduplicate left).schema (deduplicate right).schema) := by
    show KeyColumns schema.width (setKeys left.schema right.schema)
    rw [h.leftSchema, h.rightSchema]
    have hall := keyColumns_setKeys schema schema
    rwa [min_self] at hall
  have hjoin := @joinRows_distinct V _ E outer lefts rights _ joinType
    (deduplicate left).width (deduplicate right).width schema.width id id hkeys h.lefts h.rights
    (fun row hrow => take_of_length_le (h.lefts row hrow).le)
    (fun row hrow => take_of_length_le (h.rights row hrow).le)
    (by rcases htype with rfl | rfl <;> exact ⟨by simp, by simp⟩)
  rw [map_id, map_id] at hjoin
  rw [eval, h.eval_deduplicate_left hpos, h.swap.eval_deduplicate_left hpos]
  refine Eq.trans hjoin (tryFlatMap_eq_some_flatMap ?_)
  intro key _
  rcases htype with rfl | rfl <;> by_cases hmem : key ∈ rights <;>
    simp [leftOutput, distinctCopies, hmem, probe]

variable {count : BoundExpr}

/-- A projection to the key and its count, and the repetition of the key. -/
theorem eval_repeat_project (C : CountCells E) {joined : LogicalPlan}
    {keys : List (Row V)} {row : Row V → Row V} {copies : Row V → Nat} (hpos : 0 < schema.width)
    (hkeys : HasWidth schema.width keys) (hjoined : joined.eval E outer = some (keys.map row))
    (hrow : ∀ key ∈ keys, (row key).take schema.width = key)
    (hcount : ∀ key ∈ keys, count.eval E.toScalars outer (row key) =
      some (E.count (copies key))) (hcopies : ∀ key ∈ keys, copies key < countLimit) :
    (projectCount joined schema count).eval E outer =
        some (keys.map fun key => key ++ [E.count (copies key)]) ∧
      (repeatRows (projectCount joined schema count)
        (columnExpr schema.width .int64 name) schema).eval E outer =
        some (keys.flatMap fun key => replicate (copies key) key) := by
  have hproject : (projectCount joined schema count).eval E outer =
      some (keys.map fun key => key ++ [E.count (copies key)]) := by
    rw [projectCount, eval, hjoined]
    show (keys.map row).mapM _ = _
    rw [mapM_map]
    apply mapM_eq_some_map
    intro key hkey
    have hlength : (schema.fields.map fieldInfo).length ≤ (row key).length := by
      have htake := congrArg length (hrow key hkey)
      rw [length_take, hkeys key hkey] at htake
      rw [length_map]
      show schema.width ≤ _
      omega
    have hcolumns := @evalRow_columnList V _ E outer _ (row key) hlength
    have htake : (row key).take schema.fields.length = key := hrow key hkey
    rw [length_map, htake] at hcolumns
    unfold evalRow at hcolumns ⊢
    rw [mapM_append, columns_eq, hcolumns]
    simp [hcount key hkey]
  refine ⟨hproject, ?_⟩
  rw [eval, hproject]
  exact repeatedRows_counted C hpos hkeys hcopies

/-- The rows of the counting aggregates that a key brings together. -/
def joinedRow (E : Engine V) (width : Nat) (lefts rights : List (Row V)) (key : Row V) : Row V :=
  counted E lefts key ++ if key ∈ rights then counted E rights key else E.nulls (width + 1)

/-- The keys that the join of the counts keeps. -/
def joinedKeys (operator : SetOperator) (lefts rights : List (Row V)) : List (Row V) :=
  if operator = .intersect then lefts.eraseDups.filter fun key => decide (key ∈ rights)
  else lefts.eraseDups

variable {operator : SetOperator}

/-- The join of the counts of both inputs. -/
theorem eval_countJoin {leftName rightName : String} {joinSchema : PlanSchema}
    (hpos : 0 < schema.width) (h : Inputs E outer left right schema lefts rights) :
    (join (countRows left leftName) (countRows right rightName)
      (keyCondition ((setKeys (countRows left leftName).schema
        (countRows right rightName).schema).take schema.width))
      (if operator = .intersect then .inner else .left) joinSchema).eval E outer =
      some ((joinedKeys operator lefts rights).map
        (joinedRow E schema.width lefts rights)) := by
  have hleft := h.eval_countRows_left hpos leftName
  have hright := h.swap.eval_countRows_left hpos rightName
  have hkeys : KeyColumns schema.width ((setKeys (countRows left leftName).schema
      (countRows right rightName).schema).take schema.width) := by
    apply (keyColumns_setKeys _ _).take
    show _ ≤ min (countRows left leftName).width (countRows right rightName).width
    rw [hleft.2, hright.2]
    omega
  have htake : ∀ rows : List (Row V), HasWidth schema.width rows →
      ∀ row ∈ rows, (counted E rows row).take schema.width = row := by
    intro rows hrows row hrow
    rw [counted, take_left' (hrows row hrow)]
  have htype : (if operator = SetOperator.intersect then JoinType.inner else .left) ≠ .right ∧
      (if operator = SetOperator.intersect then JoinType.inner else .left) ≠ .full := by
    split <;> exact ⟨by simp, by simp⟩
  rw [eval, hleft.1, hright.1]
  refine Eq.trans (joinRows_distinct hkeys h.lefts h.rights (htake lefts h.lefts)
    (htake rights h.rights) htype) ?_
  rw [hright.2]
  by_cases hop : operator = .intersect
  · rw [if_pos hop, joinedKeys, if_pos hop, ← flatMap_ite_singleton]
    apply tryFlatMap_eq_some_flatMap
    intro key _
    by_cases hmem : key ∈ rights <;> simp [leftOutput, hmem, joinedRow, probe]
  · rw [if_neg hop, joinedKeys, if_neg hop, map_eq_flatMap]
    apply tryFlatMap_eq_some_flatMap
    intro key _
    by_cases hmem : key ∈ rights <;> simp [leftOutput, hmem, joinedRow, probe]

theorem mem_of_mem_joinedKeys {key : Row V} (h : key ∈ joinedKeys operator lefts rights) :
    key ∈ lefts := by
  unfold joinedKeys at h
  split at h
  · exact mem_eraseDups.mp (mem_filter.mp h).1
  · exact mem_eraseDups.mp h

/-- The count that the projection computes for a key. -/
theorem eval_repeatCount (C : CountCells E) {width : Nat}
    (hoperator : operator = .intersect ∨ operator = .except)
    (hcount : repeatCount width operator = .ok count) (hlefts : HasWidth width lefts)
    (hleftsFit : lefts.length < countLimit) (hrightsFit : rights.length < countLimit)
    {key : Row V} (hkey : key ∈ joinedKeys operator lefts rights) :
    count.eval E.toScalars outer (joinedRow E width lefts rights key) =
      some (E.count (multiplicity operator .all (lefts.count key) (rights.count key))) := by
  have hlength := hlefts key (mem_of_mem_joinedKeys hkey)
  have ha : lefts.count key < countLimit := count_le_length.trans_lt hleftsFit
  have hb : rights.count key < countLimit := count_le_length.trans_lt hrightsFit
  have hleft : (joinedRow E width lefts rights key)[width]? = some (E.count (lefts.count key)) := by
    simp [joinedRow, counted, ← hlength]
  have hright : (joinedRow E width lefts rights key)[width * 2 + 1]? =
      some (if key ∈ rights then E.count (rights.count key) else E.null) := by
    have hcounted : (counted E lefts key).length = width + 1 := by simp [counted, hlength]
    have hindex : width * 2 + 1 - (width + 1) = width := by omega
    rw [joinedRow, getElem?_append_right (by omega), hcounted, hindex]
    by_cases hin : key ∈ rights
    · simp [hin, counted, ← hlength]
    · simp [hin, nulls]
  rcases hoperator with rfl | rfl
  · have hin : key ∈ rights := by
      rw [joinedKeys, if_pos rfl] at hkey
      simpa using (mem_filter.mp hkey).2
    rw [if_pos hin] at hright
    exact eval_repeatCount_intersect C hcount ha hb hleft hright
  · apply eval_repeatCount_except C hcount ha hb hleft hright
    by_cases hin : key ∈ rights
    · exact .inl (if_pos hin)
    · exact .inr ⟨if_neg hin, count_eq_zero.mpr hin⟩

/-- The plans of `INTERSECT ALL` and `EXCEPT ALL`: the input of the `Repeat` and its rows. -/
theorem eval_planMultisetOperation (C : CountCells E) {plan : LogicalPlan}
    (h : planMultisetOperation left right schema operator = .ok plan) (hpos : 0 < schema.width)
    (hinputs : Inputs E outer left right schema lefts rights) :
    ∃ input, plan = .repeatRows input
        (columnExpr schema.width .int64 "__rustdb_repeat_count") schema ∧
      input.width = schema.width + 1 ∧ (input.eval E outer).isSome = true ∧
      plan.eval E outer = some ((joinedKeys operator lefts rights).flatMap fun key =>
        replicate (multiplicity operator .all (lefts.count key) (rights.count key)) key) := by
  unfold planMultisetOperation at h
  split at h
  · cases h
  · next hoperator =>
    obtain ⟨count, hcount, h⟩ := bind_eq_ok.mp h
    cases h
    have hkeys : HasWidth schema.width (joinedKeys operator lefts rights) :=
      fun key hkey => hinputs.lefts key (mem_of_mem_joinedKeys hkey)
    have hrow : ∀ key ∈ joinedKeys operator lefts rights,
        (joinedRow E schema.width lefts rights key).take schema.width = key := by
      intro key hkey
      rw [joinedRow, counted, append_assoc, take_left' (hkeys key hkey)]
    have hcopies : ∀ key,
        multiplicity operator .all (lefts.count key) (rights.count key) < countLimit := by
      intro key
      have hle : multiplicity operator .all (lefts.count key) (rights.count key) ≤
          lefts.count key := by
        rcases not_and_or.mp hoperator with h | h <;> rw [not_not] at h <;> subst h
        · exact Nat.min_le_left _ _
        · exact Nat.sub_le _ _
      exact (hle.trans count_le_length).trans_lt hinputs.leftsFit
    obtain ⟨hinput, hplan⟩ := eval_repeat_project C hpos hkeys (eval_countJoin hpos hinputs) hrow
      (fun key hkey => eval_repeatCount C (by tauto) hcount hinputs.lefts hinputs.leftsFit
        hinputs.rightsFit hkey) fun key _ => hcopies key
    refine ⟨_, rfl, ?_, by rw [hinput]; rfl, hplan⟩
    simp [projectCount, LogicalPlan.width, LogicalPlan.schema, unqualified, PlanSchema.width]

/-- The rows of `INTERSECT ALL` and `EXCEPT ALL`. -/
theorem count_joinedKeys (hoperator : operator = .intersect ∨ operator = .except) (row : Row V) :
    ((joinedKeys operator lefts rights).flatMap fun key => replicate
      (multiplicity operator .all (lefts.count key) (rights.count key)) key).count row =
      multiplicity operator .all (lefts.count row) (rights.count row) := by
  have hnodup : (joinedKeys operator lefts rights).Nodup := by
    unfold joinedKeys
    split
    · exact (nodup_eraseDups lefts).filter _
    · exact nodup_eraseDups lefts
  rw [count_flatMap_replicate hnodup]
  split
  · rfl
  · next hrow =>
    rcases hoperator with rfl | rfl
    · have hzero : lefts.count row = 0 ∨ rights.count row = 0 := by
        simp only [joinedKeys, if_true, mem_filter, mem_eraseDups, decide_eq_true_eq] at hrow
        rw [count_eq_zero, count_eq_zero]
        tauto
      show 0 = min _ _
      omega
    · have hzero : lefts.count row = 0 := by
        rw [count_eq_zero]
        simpa [joinedKeys] using hrow
      show 0 = _ - _
      omega

end Operations

/-! ## Set operations -/

/-- The plans of all set operations. -/
theorem planSetOperation_eq_ok {left right left' right' plan : LogicalPlan}
    {operator : SetOperator} {quantifier : SetQuantifier}
    (h : planSetOperation left right operator quantifier = .ok plan)
    (halign : alignInputs left right = .ok (left', right', schema)) :
    (operator = .union ∧ plan =
      if quantifier = .all then .append [left', right'] schema
      else deduplicate (.append [left', right'] schema)) ∨
    ((operator = .intersect ∨ operator = .except) ∧
      if quantifier = .all then planMultisetOperation left' right' schema operator = .ok plan
      else plan = .join (deduplicate left') (deduplicate right')
        (keyCondition (setKeys (deduplicate left').schema (deduplicate right').schema))
        (if operator = .intersect then .semi else .anti) (deduplicate left').schema) := by
  unfold planSetOperation at h
  obtain ⟨-, -, hdo⟩ := bind_eq_ok.mp h
  obtain ⟨distinct, hdistinct, haligned⟩ := bind_eq_ok.mp hdo
  rw [halign] at haligned
  have hvalidate : (validateKeys operator distinct schema >>= fun _ =>
      planAligned left' right' schema operator distinct) = .ok plan := haligned
  obtain ⟨-, -, hplan⟩ := bind_eq_ok.mp hvalidate
  clear h hdo haligned hvalidate
  have hquantifier : operator ≠ .minus ∧ (distinct = true ↔ quantifier ≠ .all) := by
    cases operator <;> cases quantifier <;> cases hdistinct <;> simp
  obtain ⟨hminus, hquantifier⟩ := hquantifier
  cases distinct with
  | false =>
    have hall : quantifier = .all := by simpa using hquantifier
    simp only [if_pos hall]
    cases operator with
    | union => exact .inl ⟨rfl, (Except.ok.inj hplan).symm⟩
    | intersect => exact .inr ⟨.inl rfl, hplan⟩
    | except => exact .inr ⟨.inr rfl, hplan⟩
    | minus => exact absurd rfl hminus
  | true =>
    have hall : quantifier ≠ .all := by simpa using hquantifier
    simp only [if_neg hall]
    cases operator with
    | union => exact .inl ⟨rfl, (Except.ok.inj hplan).symm⟩
    | intersect => exact .inr ⟨.inl rfl, (Except.ok.inj hplan).symm⟩
    | except => exact .inr ⟨.inr rfl, (Except.ok.inj hplan).symm⟩
    | minus => exact absurd rfl hminus

/-- The runs of the plan of a set operation.  The rows of each operator come in any order and
in any batches; those of the input of a `Repeat`, else of the result, in `batches`. -/
def Runs (C : CountCells E) (outer : List (Row V)) (plan : LogicalPlan)
    (batches : List (List (Row V))) (result : Except Error (List (Row V))) : Prop :=
  match plan with
  | .repeatRows input count schema => ∃ rows batchSize failure,
    input.eval E outer = some rows ∧ batches.flatten.Perm rows ∧
    result = (repeatBatches E outer
      ⟨count, input.width, schema.width, batchSize, C.number, failure⟩ batches).map flatten
  | plan => ∃ rows, plan.eval E outer = some rows ∧ batches.flatten.Perm rows ∧
    result = .ok batches.flatten

/-- Every run outputs each row as often as SQL wants.  Only an input batch with more rows than
32-bit indices can stop it. -/
def HasMultiplicities (C : CountCells E) (outer : List (Row V)) (plan : LogicalPlan)
    (copies : Row V → Nat) : Prop :=
  (∃ batches result, Runs C outer plan batches result) ∧
  ∀ batches result, Runs C outer plan batches result →
    (∃ rows, result = .ok rows ∧ ∀ row, rows.count row = copies row) ∨
    (result = .error indexError ∧ ∃ batch ∈ batches, 2 ^ 32 < batch.length)

variable {C : CountCells E}

theorem hasMultiplicities_iff {plan : LogicalPlan} {copies : Row V → Nat}
    (hplan : ∀ input count schema, plan ≠ .repeatRows input count schema) :
    HasMultiplicities C outer plan copies ↔
      ∃ rows, plan.eval E outer = some rows ∧ ∀ row, rows.count row = copies row := by
  have hruns : ∀ batches result, Runs C outer plan batches result ↔
      ∃ rows, plan.eval E outer = some rows ∧ batches.flatten.Perm rows ∧
        result = .ok batches.flatten := by
    intro batches result
    unfold Runs
    split
    · exact absurd rfl (hplan _ _ _)
    · rfl
  simp only [HasMultiplicities, hruns]
  constructor
  · rintro ⟨⟨batches, result, rows, heval, -, -⟩, hall⟩
    refine ⟨rows, heval, ?_⟩
    rcases hall [rows] _ ⟨rows, heval, by simp, rfl⟩ with ⟨rows', hrows', hcount⟩ | ⟨herror, -⟩
    · cases hrows'
      simpa using hcount
    · cases herror
  · rintro ⟨rows, heval, hcount⟩
    refine ⟨⟨[rows], _, rows, heval, by simp, rfl⟩, ?_⟩
    rintro batches result ⟨rows', heval', hperm, rfl⟩
    rw [heval, Option.some_inj] at heval'
    subst heval'
    refine .inl ⟨_, rfl, ?_⟩
    intro row
    rw [hperm.count_eq, hcount]

/-- The batches and the batch size of the `Repeat` do not matter. -/
theorem hasMultiplicities_repeatRows {width : Nat} {copies : Row V → Nat}
    (hpos : 0 < schema.width) (hwidth : input.width = schema.width + 1)
    (hinput : (input.eval E outer).isSome = true)
    (heval : (repeatRows input (columnExpr width .int64 name)
      schema).eval E outer = some rows) (hcount : ∀ row, rows.count row = copies row) :
    HasMultiplicities C outer (.repeatRows input (columnExpr width .int64 name) schema) copies := by
  obtain ⟨inputRows, hinputRows⟩ := Option.isSome_iff_exists.mp hinput
  constructor
  · exact ⟨[inputRows], _, inputRows, 1, .cancelled, hinputRows, by simp, rfl⟩
  · rintro batches result ⟨inputRows', batchSize, failure, hinputRows', hperm, rfl⟩
    rw [hinputRows, Option.some_inj] at hinputRows'
    subst hinputRows'
    rw [eval, hinputRows] at heval
    let op : Operator V :=
      ⟨columnExpr width .int64 name, input.width, schema.width, batchSize, C.number, failure⟩
    have hopPos : 0 < op.width := hpos
    have hopWidth : op.width ≤ op.inputWidth := by
      show schema.width ≤ input.width
      omega
    rcases repeatBatches_perm hopPos hopWidth C.repeatCount_eq heval hperm with
      ⟨outputs, hok, houtputs⟩ | ⟨herror, hlong⟩
    · refine .inl ⟨outputs.flatten, by rw [hok]; rfl, ?_⟩
      intro row
      rw [houtputs.count_eq, hcount]
    · exact .inr ⟨by rw [herror]; rfl, hlong⟩

/-- Without columns the `Repeat` fails. -/
theorem not_hasMultiplicities_repeatRows {copies : Row V → Nat} (hzero : schema.width = 0) :
    ¬ HasMultiplicities C outer (.repeatRows input count schema) copies := by
  rintro ⟨⟨-, -, rows, -, -, hrows, -⟩, hall⟩
  let op : Operator V := ⟨count, input.width, schema.width, 1, C.number, .cancelled⟩
  obtain ⟨error, herror, hne⟩ : ∃ error, repeatBatch E outer op rows = .error error ∧
      error ≠ indexError := by
    obtain ⟨message, hsource⟩ : ∃ message,
        outputSource E op.inputWidth op.width rows = .error (.arrow message) := by
      have hrefused : E.batchError 0 ≠ none := fun h =>
        absurd ((E.batchError_eq_none 0).mp h) (lt_irrefl 0)
      obtain ⟨message, hmessage⟩ := Option.ne_none_iff_exists'.mp hrefused
      refine ⟨message, ?_⟩
      show outputSource E input.width schema.width rows = _
      rw [hzero, outputSource, if_neg (Nat.not_lt_zero _), hmessage]
    rw [repeatBatch, hsource]
    cases hcounts : evaluateCounts E outer op rows with
    | ok counts => exact ⟨_, rfl, by simp [indexError]⟩
    | error error =>
      refine ⟨error, rfl, ?_⟩
      unfold evaluateCounts at hcounts
      split at hcounts
      · cases hcounts
      · cases hcounts
        simp [op, indexError]
  have hrun : repeatBatches E outer op [rows] = .error error := by
    rw [repeatBatches_cons, herror]
    rfl
  rcases hall [rows] _ ⟨rows, 1, .cancelled, hrows, by simp, rfl⟩ with ⟨_, hok, -⟩ | ⟨hindex, -⟩
  · rw [hrun] at hok
    cases hok
  · rw [hrun] at hindex
    cases hindex
    exact hne rfl

theorem eval_append {left right : LogicalPlan} {lefts rights : List (Row V)}
    (hleft : left.eval E outer = some lefts) (hright : right.eval E outer = some rights) :
    (append [left, right] schema).eval E outer = some (lefts ++ rights) := by
  simp [eval, evalAll, hleft, hright]

section Aligned

variable {C : CountCells E} {left right : LogicalPlan} {schema : PlanSchema}
  {quantifier : SetQuantifier} {lefts rights : List (Row V)}

theorem multiplicity_union (h : quantifier ≠ .all) (m n : Nat) :
    multiplicity .union quantifier m n = min 1 (m + n) := by
  cases quantifier with
  | all => exact absurd rfl h
  | _ => rfl

theorem hasMultiplicities_union (hquantifier : quantifier ≠ .all)
    (h : Inputs E outer left right schema lefts rights) :
    HasMultiplicities C outer (deduplicate (.append [left, right] schema)) (fun row =>
      multiplicity .union quantifier (lefts.count row) (rights.count row)) ↔
      0 < schema.width := by
  rw [hasMultiplicities_iff (by simp [deduplicate])]
  constructor
  · rintro ⟨rows, heval, -⟩
    by_contra hzero
    have hwidth : (append [left, right] schema).width = 0 :=
      Nat.eq_zero_of_not_pos hzero
    rw [eval_deduplicate_of_width_zero hwidth] at heval
    cases heval
  · intro hpos
    have hrows : HasWidth schema.width (lefts ++ rights) :=
      forall_mem_append.mpr ⟨h.lefts, h.rights⟩
    refine ⟨_, eval_deduplicate hpos (eval_append h.left h.right) hrows, ?_⟩
    intro row
    rw [(nodup_eraseDups _).count, multiplicity_union hquantifier, ← count_append]
    by_cases hmem : row ∈ lefts ++ rights
    · have hcount := count_pos_iff.mpr hmem
      rw [if_pos (mem_eraseDups.mpr hmem)]
      omega
    · rw [if_neg (mt mem_eraseDups.mp hmem), count_eq_zero.mpr hmem]
      rfl

variable {operator : SetOperator}

theorem multiplicity_distinct (h : quantifier ≠ .all)
    (hoperator : operator = .intersect ∨ operator = .except) (row : Row V) :
    multiplicity operator quantifier (lefts.count row) (rights.count row) =
      if row ∈ lefts then
        distinctCopies (if operator = .intersect then .semi else .anti) rights row else 0 := by
  have hcases : multiplicity operator quantifier (lefts.count row) (rights.count row) =
      if operator = .intersect then min 1 (min (lefts.count row) (rights.count row))
      else if 0 < lefts.count row ∧ rights.count row = 0 then 1 else 0 := by
    rcases hoperator with rfl | rfl <;> cases quantifier <;> first | rfl | exact absurd rfl h
  rw [hcases]
  clear hcases
  simp only [distinctCopies, ← count_pos_iff]
  rcases hoperator with rfl | rfl <;> simp only [reduceCtorEq, if_true, if_false, eq_iff_iff,
    iff_true, iff_false] <;> split_ifs <;> omega

theorem hasMultiplicities_distinct (hquantifier : quantifier ≠ .all)
    (hoperator : operator = .intersect ∨ operator = .except)
    (h : Inputs E outer left right schema lefts rights) :
    HasMultiplicities C outer (.join (deduplicate left) (deduplicate right)
        (keyCondition (setKeys (deduplicate left).schema (deduplicate right).schema))
        (if operator = .intersect then .semi else .anti) (deduplicate left).schema) (fun row =>
      multiplicity operator quantifier (lefts.count row) (rights.count row)) ↔
      0 < schema.width := by
  rw [hasMultiplicities_iff (by simp)]
  constructor
  · rintro ⟨rows, heval, -⟩
    by_contra hzero
    have hwidth : left.width = 0 := by
      rw [width, h.leftSchema]
      omega
    rw [eval, eval_deduplicate_of_width_zero hwidth] at heval
    cases heval
  · intro hpos
    refine ⟨_, eval_distinctJoin hpos h (by rcases hoperator with rfl | rfl <;> simp), ?_⟩
    intro row
    rw [count_flatMap_replicate (nodup_eraseDups lefts),
      multiplicity_distinct hquantifier hoperator]
    simp only [mem_eraseDups]

theorem hasMultiplicities_multiset {plan : LogicalPlan}
    (hplan : planMultisetOperation left right schema operator = .ok plan)
    (hoperator : operator = .intersect ∨ operator = .except)
    (h : Inputs E outer left right schema lefts rights) :
    HasMultiplicities C outer plan (fun row =>
      multiplicity operator .all (lefts.count row) (rights.count row)) ↔ 0 < schema.width := by
  constructor
  · intro hall
    by_contra hzero
    unfold planMultisetOperation at hplan
    rw [if_neg (by tauto)] at hplan
    obtain ⟨count, -, hplan⟩ := bind_eq_ok.mp hplan
    cases hplan
    exact not_hasMultiplicities_repeatRows (Nat.eq_zero_of_not_pos hzero) hall
  · intro hpos
    obtain ⟨input, rfl, hwidth, hinput, heval⟩ := eval_planMultisetOperation C hplan hpos h
    exact hasMultiplicities_repeatRows hpos hwidth hinput heval (count_joinedKeys hoperator)

end Aligned

/-- How often SQL wants a row in the result. -/
def copies (operator : SetOperator) (quantifier : SetQuantifier) (lefts rights : List (Row V))
    (row : Row V) : Nat :=
  multiplicity operator quantifier (lefts.count row) (rights.count row)

/-- The plan of a set operation outputs every row as often as SQL wants if and only if the
inputs have a column or the operation is `UNION ALL`, for inputs whose rows an `Int64` counts. -/
theorem set_operation_multiplicities (C : CountCells E)
    {left right left' right' plan : LogicalPlan} {schema : PlanSchema} {operator : SetOperator}
    {quantifier : SetQuantifier} {lefts rights : List (Row V)}
    (hplan : planSetOperation left right operator quantifier = .ok plan)
    (halign : alignInputs left right = .ok (left', right', schema))
    (hleft : left'.eval E outer = some lefts) (hright : right'.eval E outer = some rights)
    (hleftsFit : lefts.length < countLimit) (hrightsFit : rights.length < countLimit) :
    HasMultiplicities C outer plan (copies operator quantifier lefts rights) ↔
      0 < left.width ∨ (operator = .union ∧ quantifier = .all) := by
  obtain ⟨rfl, rfl, hleftWidth, hrightWidth⟩ := alignInputs_eq_ok halign
  have hinputs : Inputs E outer _ _ schema lefts rights := ⟨rfl, rfl, hleft, hright,
    hleftsFit, hrightsFit, hasWidth_alignInput hleftWidth hleft,
    hasWidth_alignInput hrightWidth hright⟩
  rw [hleftWidth]
  rcases planSetOperation_eq_ok hplan halign with ⟨rfl, rfl⟩ | ⟨hoperator, hplan⟩
  · by_cases hall : quantifier = .all
    · subst hall
      simp only [if_true, and_self, or_true, iff_true]
      rw [hasMultiplicities_iff (by simp)]
      exact ⟨_, eval_append hleft hright, fun row => count_append⟩
    · simp only [hall, if_false, and_false, or_false]
      exact hasMultiplicities_union hall hinputs
  · have hunion : operator ≠ .union := by rcases hoperator with rfl | rfl <;> simp
    simp only [hunion, false_and, or_false]
    by_cases hall : quantifier = .all
    · subst hall
      exact hasMultiplicities_multiset hplan hoperator hinputs
    · rw [if_neg hall] at hplan
      subst hplan
      exact hasMultiplicities_distinct hall hoperator hinputs

/-! ## Concrete runs -/

/-- Counts in nullable integers. -/
def integerCounts (tables : String → List (Row (Option Int))) :
    CountCells (Engine.integers tables) where
  number := id
  number_count _ _ := rfl
  repeatCount_eq value := by
    cases value with
    | none => rfl
    | some value =>
      show (if value < 0 then none else some value.toNat) = _
      unfold Repeat.repeatCount
      by_cases hneg : value < 0 <;> simp [hneg, Except.toOption]
  count_ne_null _ _ h := by cases h
  truth_less a _ b _ := by
    show some (decide ((if decide ((a : Int) < b) then (1 : Int) else 0) ≠ 0)) = _
    by_cases hless : a < b <;> simp [hless]
  truth_greater a _ b _ := by
    show some (decide ((if decide ((b : Int) < a) then (1 : Int) else 0) ≠ 0)) = _
    by_cases hless : b < a <;> simp [hless]
  subtract a _ b hle := by
    show some (some ((a : Int) - b)) = some (some ((a - b : Nat) : Int))
    rw [Int.natCast_sub hle]
  literal_zero := rfl

/-- A table with one integer column. -/
def oneColumnScan (name : String) : LogicalPlan :=
  .scan ⟨name, none, none, none, none, .oneField "a" .int64 true⟩

/-- Two tables of one column, with duplicates and nulls. -/
def twoTables : String → List (Row (Option Int))
  | "t" => [[some 1], [none], [some 1], [some 2]]
  | _ => [[none], [some 1], [some 1], [some 1]]

theorem intersect_all_of_two_tables :
    ∃ plan, planSetOperation (oneColumnScan "t") (oneColumnScan "u") .intersect .all = .ok plan ∧
      HasMultiplicities (integerCounts twoTables) [] plan
        (copies .intersect .all (twoTables "t") (twoTables "u")) := by
  let schema : PlanSchema := .oneField "a" .int64 true
  have halign : alignInputs (oneColumnScan "t") (oneColumnScan "u") =
      .ok (alignInput (oneColumnScan "t") schema, alignInput (oneColumnScan "u") schema, schema) :=
    rfl
  have hleft : (alignInput (oneColumnScan "t") schema).eval (integers twoTables) [] =
      some (twoTables "t") := by decide
  have hright : (alignInput (oneColumnScan "u") schema).eval (integers twoTables) [] =
      some (twoTables "u") := by decide
  refine ⟨_, rfl, (set_operation_multiplicities _ rfl halign hleft hright (by decide)
    (by decide)).mpr ?_⟩
  exact .inl (by decide)

/-- `SELECT *` without a table. -/
def selectNothing : LogicalPlan := .projection (.empty true .empty) [] .empty

/-- One row on each side, and an error for their union. -/
theorem union_without_columns :
    multiplicity .union .none 1 1 = 1 ∧
    (alignInput selectNothing .empty).eval (Engine.integers twoTables) [] = some [[]] ∧
    ∃ plan, planSetOperation selectNothing selectNothing .union .none = .ok plan ∧
      plan.eval (Engine.integers twoTables) [] = none :=
  ⟨rfl, rfl, _, rfl, rfl⟩

end RustDb.Sql.SetOps
