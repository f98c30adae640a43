import RustDb.Sql.Coercion
import RustDb.Sql.Plan

/-!
# The `Repeat` operator

`execution/repeat.rs`: every row of the input as often as its count says, in output batches
of a fixed size.

* `repeatCount`: the count in a cell, with its errors.
* `advance`, `fill`, `emit`: the loops over one input batch.  A cursor holds the row and how
  often it is still to be repeated, also between two output batches.
* `pending`: the row indices that a cursor has still to emit.  Every loop keeps what is
  emitted followed by what is pending.
* `repeatBatches`: the operator on a stream of batches.
-/

namespace RustDb.Execution.Repeat

open RustDb.Lib RustDb.Sql List Option

/-! ## Counts -/

/-- The count in a cell of an array of the given type. -/
def repeatCount (dataType : DataType) (value : Option Int) : Except Error Nat :=
  match value with
  | none => .error (.internal "repeat count is NULL")
  | some value =>
    match dataType with
    | .int64 =>
      if value < 0 then .error (.internal "repeat count must not be negative")
      else .ok value.toNat
    | .uint64 => .ok value.toNat
    | other => .error (.internal s!"repeat count must be INT64 or UINT64, got {other.display}")

/-! ## One input batch -/

/-- The row that is repeated and how often it is still to be emitted. -/
structure Cursor where
  row : Nat
  remaining : Nat
deriving DecidableEq, Repr

/-- The error of a batch whose rows a `u32` cannot number. -/
def indexError : Error := .resourceExhausted "repeat input batch exceeds UINT32_MAX rows"

/-- `u32::try_from`. -/
def toIndex (row : Nat) : Except Error Nat :=
  if row < 2 ^ 32 then .ok row else .error indexError

section Loops

variable (count : Nat → Except Error Nat) (rows : Nat)

/-- Skips the rows whose count is zero. -/
def advance (cursor : Cursor) : Except Error Cursor :=
  if cursor.remaining = 0 ∧ cursor.row < rows then
    match count cursor.row with
    | .error error => .error error
    | .ok 0 => advance ⟨cursor.row + 1, 0⟩
    | .ok (more + 1) => .ok ⟨cursor.row, more + 1⟩
  else .ok cursor
termination_by rows - cursor.row

/-- How often the row of a cursor is to be emitted, read from its count at the first time. -/
def remainingCount (cursor : Cursor) : Except Error Nat :=
  if cursor.remaining = 0 then count cursor.row else .ok cursor.remaining

/-- The cursor after `taken` of the `remaining` copies of its row. -/
def take (row remaining taken : Nat) : Cursor :=
  ⟨if remaining - taken = 0 then row + 1 else row, remaining - taken⟩

variable {cursor : Cursor}

theorem remaining_eq_zero (h : remainingCount count cursor = .ok 0) :
    cursor.remaining = 0 := by
  unfold remainingCount at h
  split at h
  · assumption
  · exact Except.ok.inj h

/-- Adds row indices up to the batch size.  A row whose copies do not fit is continued by the cursor
in the next batch. -/
def fill (batchSize : Nat) (cursor : Cursor) (indices : List Nat) :
    Except Error (Cursor × List Nat) :=
  if batchSize ≤ indices.length then .ok (cursor, indices)
  else if cursor.remaining = 0 ∧ rows ≤ cursor.row then .ok (cursor, indices)
  else
    match hremaining : remainingCount count cursor with
    | .error error => .error error
    | .ok 0 => fill batchSize ⟨cursor.row + 1, 0⟩ indices
    | .ok (more + 1) =>
      match toIndex cursor.row with
      | .error error => .error error
      | .ok index =>
        let taken := min (more + 1) (batchSize - indices.length)
        fill batchSize (take cursor.row (more + 1) taken)
          (indices ++ replicate taken index)
termination_by (rows - cursor.row) + (batchSize - indices.length)
decreasing_by
  · have hzero := remaining_eq_zero count hremaining
    show rows - (cursor.row + 1) + _ < _
    omega
  · simp only [take, length_append, length_replicate]
    split <;> omega

/-! ### What is pending -/

/-- How often a row is repeated; not at all when its count is an error. -/
def times (row : Nat) : Nat := (count row).toOption.getD 0

/-- The indices that the rows from `start` on contribute. -/
def fromRow (start : Nat) : List Nat :=
  (range' start (rows - start)).flatMap fun row => replicate (times count row) row

/-- The indices that a cursor has still to emit. -/
def pending (cursor : Cursor) : List Nat :=
  if cursor.remaining = 0 then fromRow count rows cursor.row
  else replicate cursor.remaining cursor.row ++ fromRow count rows (cursor.row + 1)

variable {count rows} {row : Nat}

theorem fromRow_of_le (h : rows ≤ row) : fromRow count rows row = [] := by
  have hzero : rows - row = 0 := by omega
  simp [fromRow, hzero]

theorem fromRow_of_lt (h : row < rows) :
    fromRow count rows row =
      replicate (times count row) row ++ fromRow count rows (row + 1) := by
  have hsucc : rows - row = (rows - (row + 1)) + 1 := by omega
  simp [fromRow, hsucc, range'_succ]

theorem times_of_ok {n : Nat} (h : count row = .ok n) : times count row = n := by
  simp [times, h, Except.toOption]

variable {remaining taken : Nat}

/-- What is left of a row follows the copies that were taken. -/
theorem replicate_append_pending_take (htaken : taken ≤ remaining) :
    replicate taken row ++ pending count rows (take row remaining taken) =
      replicate remaining row ++ fromRow count rows (row + 1) := by
  unfold pending take
  by_cases hall : remaining - taken = 0
  · have heq : taken = remaining := by omega
    simp [heq]
  · have hsum : remaining = taken + (remaining - taken) := by omega
    simp only [hall, if_false]
    rw [← append_assoc, ← replicate_add, ← hsum]

/-- The pending indices begin with the copies of the current row. -/
theorem pending_of_remainingCount {n : Nat}
    (hmore : ¬ (cursor.remaining = 0 ∧ rows ≤ cursor.row))
    (h : remainingCount count cursor = .ok n) :
    pending count rows cursor =
      replicate n cursor.row ++ fromRow count rows (cursor.row + 1) := by
  unfold remainingCount at h
  unfold pending
  by_cases hzero : cursor.remaining = 0
  · rw [if_pos hzero] at h ⊢
    rw [fromRow_of_lt (by omega), times_of_ok h]
  · rw [if_neg hzero] at h ⊢
    cases h
    rfl

variable {cursor' : Cursor}

theorem advance_ok (h : advance count rows cursor = .ok cursor') :
    pending count rows cursor' = pending count rows cursor ∧
      (cursor'.remaining = 0 → rows ≤ cursor'.row) := by
  fun_induction advance count rows cursor with
  | case1 cursor hmore error herror => cases h
  | case2 cursor hmore hcount ih =>
    rw [(ih h).1]
    refine ⟨?_, (ih h).2⟩
    simp [pending, hmore.1, fromRow_of_lt hmore.2, times_of_ok hcount]
  | case3 cursor hmore more hcount =>
    cases h
    simp [pending, hmore.1, fromRow_of_lt hmore.2, times_of_ok hcount]
  | case4 cursor hmore =>
    cases h
    exact ⟨rfl, by omega⟩

variable {batchSize : Nat} {indices indices' : List Nat}

/-- The batch is full, or nothing is pending. -/
theorem fill_ok (h : fill count rows batchSize cursor indices = .ok (cursor', indices')) :
    indices' ++ pending count rows cursor' = indices ++ pending count rows cursor ∧
      (batchSize ≤ indices'.length ∨ pending count rows cursor' = []) := by
  fun_induction fill count rows batchSize cursor indices with
  | case1 cursor indices hfull =>
    cases h
    exact ⟨rfl, .inl hfull⟩
  | case2 cursor indices hfull hend =>
    cases h
    exact ⟨rfl, .inr (by rw [pending, if_pos hend.1, fromRow_of_le hend.2])⟩
  | case3 cursor indices hfull hend error herror => cases h
  | case4 cursor indices hfull hend hcount ih =>
    rw [(ih h).1, pending_of_remainingCount hend hcount]
    refine ⟨?_, (ih h).2⟩
    simp [pending]
  | case5 cursor indices hfull hend more hcount error herror => cases h
  | case6 cursor indices hfull hend more hcount index hindex taken ih =>
    have hrow : index = cursor.row := by
      unfold toIndex at hindex
      split at hindex
      · exact (Except.ok.inj hindex).symm
      · cases hindex
    subst hrow
    rw [(ih h).1, pending_of_remainingCount hend hcount, append_assoc,
      replicate_append_pending_take (Nat.min_le_left _ _)]
    exact ⟨rfl, (ih h).2⟩

variable (count rows) in
/-- The output batches for the indices that are pending.  It ends because every batch takes at least
one of them. -/
def emit (batchSize : Nat) (cursor : Cursor) : Except Error (List (List Nat)) :=
  match _hadvance : advance count rows cursor with
  | .error error => .error error
  | .ok advanced =>
    if advanced.remaining = 0 then .ok []
    else
      match _hfill : fill count rows batchSize advanced [] with
      | .error error => .error error
      | .ok (cursor', indices) =>
        if indices = [] then .ok []
        else
          match emit batchSize cursor' with
          | .error error => .error error
          | .ok batches => .ok (indices :: batches)
termination_by (pending count rows cursor).length
decreasing_by
  rename_i hindices
  have hlength := congrArg length (fill_ok _hfill).1
  have hpos := length_pos_iff.mpr hindices
  rw [length_append, nil_append, (advance_ok _hadvance).1] at hlength
  omega

theorem emit_ok (hsize : 0 < batchSize) {batches : List (List Nat)}
    (h : emit count rows batchSize cursor = .ok batches) :
    batches.flatten = pending count rows cursor := by
  fun_induction emit count rows batchSize cursor generalizing batches with
  | case1 cursor error hadvance => cases h
  | case2 cursor advanced hadvance hzero =>
    cases h
    obtain ⟨hpending, hend⟩ := advance_ok hadvance
    rw [← hpending, pending, if_pos hzero, fromRow_of_le (hend hzero)]
    rfl
  | case3 cursor advanced hadvance hzero error hfill => cases h
  | case4 cursor advanced hadvance hzero cursor' hfill =>
    cases h
    obtain ⟨hpending, hend⟩ := fill_ok hfill
    rcases hend with hfull | hnone
    · simp at hfull
      omega
    · rw [hnone, (advance_ok hadvance).1] at hpending
      exact hpending
  | case5 cursor advanced hadvance hzero cursor' indices hfill hindices error herror ih => cases h
  | case6 cursor advanced hadvance hzero cursor' indices hfill hindices batches' hrest ih =>
    cases h
    rw [flatten_cons, ih hrest, (fill_ok hfill).1, (advance_ok hadvance).1]
    rfl

/-! ### Errors -/

variable (count rows) in
/-- The errors of the loops: a count that cannot be read, or a row index over 32 bits. -/
def Fault (error : Error) : Prop :=
  (∃ row < rows, count row = .error error) ∨ (error = indexError ∧ 2 ^ 32 < rows)

/-- A cursor that has something left is at a row of the batch. -/
def Cursor.Within (rows : Nat) (cursor : Cursor) : Prop :=
  cursor.remaining ≠ 0 → cursor.row < rows

theorem advance_within (hwithin : cursor.Within rows)
    (h : advance count rows cursor = .ok cursor') : cursor'.Within rows := by
  fun_induction advance count rows cursor with
  | case1 cursor hmore error herror => cases h
  | case2 cursor hmore hcount ih => exact ih (fun hne => absurd rfl hne) h
  | case3 cursor hmore more hcount =>
    cases h
    exact fun _ => hmore.2
  | case4 cursor hmore =>
    cases h
    exact hwithin

variable {error : Error}

theorem advance_error (h : advance count rows cursor = .error error) :
    Fault count rows error := by
  fun_induction advance count rows cursor with
  | case1 cursor hmore error' herror =>
    cases h
    exact .inl ⟨cursor.row, hmore.2, herror⟩
  | case2 cursor hmore hcount ih => exact ih h
  | case3 cursor hmore more hcount => cases h
  | case4 cursor hmore => cases h

theorem Cursor.Within.row_lt (hwithin : cursor.Within rows)
    (hmore : ¬ (cursor.remaining = 0 ∧ rows ≤ cursor.row)) : cursor.row < rows := by
  by_cases hzero : cursor.remaining = 0
  · omega
  · exact hwithin hzero

theorem take_within (h : row < rows) : (take row remaining taken).Within rows := by
  intro hne
  have hleft : remaining - taken ≠ 0 := hne
  simpa [take, hleft] using h

theorem fill_within (hwithin : cursor.Within rows)
    (h : fill count rows batchSize cursor indices = .ok (cursor', indices')) :
    cursor'.Within rows := by
  fun_induction fill count rows batchSize cursor indices with
  | case1 cursor indices hfull | case2 cursor indices hfull hend =>
    cases h
    exact hwithin
  | case3 cursor indices hfull hend error herror => cases h
  | case4 cursor indices hfull hend hcount ih => exact ih (fun hne => absurd rfl hne) h
  | case5 cursor indices hfull hend more hcount error herror => cases h
  | case6 cursor indices hfull hend more hcount index hindex taken ih =>
    apply ih _ h
    apply take_within
    exact hwithin.row_lt hend

theorem fill_error (hwithin : cursor.Within rows)
    (h : fill count rows batchSize cursor indices = .error error) : Fault count rows error := by
  fun_induction fill count rows batchSize cursor indices with
  | case1 cursor indices hfull => cases h
  | case2 cursor indices hfull hend => cases h
  | case3 cursor indices hfull hend error' herror =>
    cases h
    unfold remainingCount at herror
    split at herror
    · exact .inl ⟨cursor.row, by omega, herror⟩
    · cases herror
  | case4 cursor indices hfull hend hcount ih => exact ih (fun hne => absurd rfl hne) h
  | case5 cursor indices hfull hend more hcount error' herror =>
    cases h
    have hrow := hwithin.row_lt hend
    unfold toIndex at herror
    split at herror
    · cases herror
    · cases herror
      exact .inr ⟨rfl, by omega⟩
  | case6 cursor indices hfull hend more hcount index hindex taken ih =>
    apply ih _ h
    apply take_within
    exact hwithin.row_lt hend

theorem emit_error (hwithin : cursor.Within rows)
    (h : emit count rows batchSize cursor = .error error) : Fault count rows error := by
  fun_induction emit count rows batchSize cursor with
  | case1 cursor error' hadvance =>
    cases h
    exact advance_error hadvance
  | case2 cursor advanced hadvance hzero => cases h
  | case3 cursor advanced hadvance hzero error' hfill =>
    cases h
    exact fill_error (advance_within hwithin hadvance) hfill
  | case4 cursor advanced hadvance hzero cursor' hfill => cases h
  | case5 cursor advanced hadvance hzero cursor' indices hfill hindices error' herror ih =>
    cases h
    exact ih (fill_within (advance_within hwithin hadvance) hfill) herror
  | case6 cursor advanced hadvance hzero cursor' indices hfill hindices batches hrest ih => cases h

/-- The indices of a whole batch, read in another list of rows. -/
theorem filterMap_fromRow {α β : Type} {l : List α} {n : α → Nat} {image : α → β}
    {read : Nat → Option β} {start : Nat} (hrows : rows = start + l.length)
    (hcount : ∀ i a, l[i]? = some a → count (start + i) = .ok (n a))
    (hread : ∀ i a, l[i]? = some a → read (start + i) = some (image a)) :
    (fromRow count rows start).filterMap read =
      l.flatMap fun a => replicate (n a) (image a) := by
  induction l generalizing start with
  | nil => rw [fromRow_of_le (by simp [hrows])]; rfl
  | cons a l ih =>
    have hfirst : times count start = n a := times_of_ok (by simpa using hcount 0 a rfl)
    have hvalue : read start = some (image a) := by simpa using hread 0 a rfl
    have hrest := @ih (start + 1) (by rw [hrows, length_cons]; omega) (fun i b hb => by
        have hb' := hcount (i + 1) b (by simpa using hb)
        rwa [show start + 1 + i = start + (i + 1) by omega])
      (fun i b hb => by
        have hb' := hread (i + 1) b (by simpa using hb)
        rwa [show start + 1 + i = start + (i + 1) by omega])
    rw [fromRow_of_lt (by rw [hrows, length_cons]; omega), filterMap_append, hrest,
      hfirst, flatMap_cons]
    simp [hvalue]

end Loops

/-! ## The operator -/

section Operator

variable {V : Type}

/-- What the operator is built with. -/
structure Operator (V : Type) where
  /-- The count of a row. -/
  count : BoundExpr
  inputWidth : Nat
  /-- The number of output columns. -/
  width : Nat
  batchSize : Nat
  /-- The number in a cell. -/
  number : V → Option Int
  /-- The error that an evaluation of the count raises when it fails. -/
  failure : Error

variable {width : Nat} {batch : List (Row V)} (E : Engine V) (outer : List (Row V))

/-- The output columns of a batch. -/
def outputSource (inputWidth width : Nat) (batch : List (Row V)) :
    Except Error (List (Row V)) :=
  if inputWidth < width then
    .error (.internal "repeat input is narrower than its output schema")
  else
    match E.batchError width with
    | some error => .error (.arrow error)
    | none => .ok (batch.map (List.take width))

variable [DecidableEq V]

/-- The repeat counts of a batch. -/
def evaluateCounts (op : Operator V) (batch : List (Row V)) : Except Error (List V) :=
  match batch.mapM fun row => op.count.eval E.toScalars outer row with
  | some counts => .ok counts
  | none => .error op.failure

/-- The count of a row of a batch. -/
def countAt (op : Operator V) (counts : List V) (row : Nat) : Except Error Nat :=
  repeatCount op.count.dataType (counts[row]?.bind op.number)

/-- The output batches for an input batch. -/
def repeatBatch (op : Operator V) (batch : List (Row V)) :
    Except Error (List (List (Row V))) := do
  let counts ← evaluateCounts E outer op batch
  let source ← outputSource E op.inputWidth op.width batch
  let outputs ← emit (countAt op counts) batch.length (max op.batchSize 1) ⟨0, 0⟩
  .ok (outputs.map (filterMap (source[·]?)))

/-- The output batches for a stream of input batches. -/
def repeatBatches (op : Operator V) (batches : List (List (Row V))) :
    Except Error (List (List (Row V))) := do
  let outputs ← batches.mapM (repeatBatch E outer op)
  .ok outputs.flatten

variable {E outer} {op : Operator V} {n : Row V → Nat}

/-- The counts of some rows, all of which can be read. -/
def Counts (E : Engine V) (outer : List (Row V)) (op : Operator V) (n : Row V → Nat)
    (rows : List (Row V)) : Prop :=
  ∀ row ∈ rows, ∃ value, op.count.eval E.toScalars outer row = some value ∧
    repeatCount op.count.dataType (op.number value) = .ok (n row)

theorem Counts.evaluate (h : Counts E outer op n batch) :
    ∃ counts, evaluateCounts E outer op batch = .ok counts ∧
      ∀ i row, batch[i]? = some row → countAt op counts i = .ok (n row) := by
  have hsome : (batch.mapM fun row => op.count.eval E.toScalars outer row).isSome = true := by
    rw [mapM_isSome_iff]
    intro row hrow
    obtain ⟨value, hvalue, -⟩ := h row hrow
    rw [hvalue]
    rfl
  obtain ⟨counts, hcounts⟩ := isSome_iff_exists.mp hsome
  refine ⟨counts, by rw [evaluateCounts, hcounts], ?_⟩
  intro i row hrow
  obtain ⟨value, hvalue, hcount⟩ := h row (mem_of_getElem? hrow)
  rw [countAt, getElem?_of_mapM hcounts hrow, hvalue]
  exact hcount

/-- The output of a batch, whatever the size of the output batches. -/
theorem repeatBatch_eq (hpos : 0 < op.width) (hwidth : op.width ≤ op.inputWidth)
    (h : Counts E outer op n batch) :
    (∃ outputs, repeatBatch E outer op batch = .ok outputs ∧
      outputs.flatten = batch.flatMap fun row => replicate (n row) (row.take op.width)) ∨
    (repeatBatch E outer op batch = .error indexError ∧ 2 ^ 32 < batch.length) := by
  obtain ⟨counts, hcounts, hcount⟩ := h.evaluate
  rw [repeatBatch, hcounts, outputSource, if_neg (by omega),
    (E.batchError_eq_none op.width).mpr (by omega)]
  cases hemit : emit (countAt op counts) batch.length (max op.batchSize 1) ⟨0, 0⟩ with
  | ok outputs =>
    let source := batch.map (List.take op.width)
    refine .inl ⟨outputs.map (List.filterMap (source[·]?)), ?_, ?_⟩
    · simp only [bind, Except.bind, hemit]
      rfl
    have hflat := emit_ok (by omega) hemit
    rw [← filterMap_flatten, hflat, pending, if_pos rfl]
    apply filterMap_fromRow (by simp)
    · simpa using hcount
    · intro i row hrow
      simp [source, hrow]
  | error error =>
    refine .inr ?_
    rcases emit_error (fun hne => absurd rfl hne) hemit with ⟨row, hrow, herror⟩ | ⟨rfl, hlong⟩
    · rw [hcount row _ (getElem?_eq_getElem hrow)] at herror
      cases herror
    · exact ⟨by simp only [bind, Except.bind, hemit], hlong⟩

theorem repeatBatches_cons (batch : List (Row V)) (batches : List (List (Row V))) :
    repeatBatches E outer op (batch :: batches) = (do
      let first ← repeatBatch E outer op batch
      let rest ← repeatBatches E outer op batches
      .ok (first ++ rest)) := by
  simp only [repeatBatches, mapM_cons]
  cases repeatBatch E outer op batch with
  | error error => rfl
  | ok first =>
    cases batches.mapM (repeatBatch E outer op) <;> rfl

variable {batches : List (List (Row V))}

/-- The output of a stream, whatever the batches of the input and the output. -/
theorem repeatBatches_eq (hpos : 0 < op.width) (hwidth : op.width ≤ op.inputWidth)
    (h : Counts E outer op n batches.flatten) :
    (∃ outputs, repeatBatches E outer op batches = .ok outputs ∧ outputs.flatten =
      batches.flatten.flatMap fun row => replicate (n row) (row.take op.width)) ∨
    (repeatBatches E outer op batches = .error indexError ∧
      ∃ batch ∈ batches, 2 ^ 32 < batch.length) := by
  induction batches with
  | nil => exact .inl ⟨[], rfl, rfl⟩
  | cons batch batches ih =>
    rw [flatten_cons] at h
    have hfirst : Counts E outer op n batch := fun row hrow => h row (by simp [hrow])
    have hrest : Counts E outer op n batches.flatten :=
      fun row hrow => h row (mem_append_right _ hrow)
    rw [repeatBatches_cons]
    rcases repeatBatch_eq hpos hwidth hfirst with ⟨first, hok, hflat⟩ | ⟨herror, hlong⟩
    · rcases ih hrest with ⟨rest, hokRest, hflatRest⟩ | ⟨herror, long, hmem, hlong⟩
      · refine .inl ⟨first ++ rest, by rw [hok, hokRest]; rfl, ?_⟩
        rw [flatten_append, hflat, hflatRest, flatten_cons, flatMap_append]
      · exact .inr ⟨by rw [hok, herror]; rfl, long, mem_cons_of_mem _ hmem, hlong⟩
    · exact .inr ⟨by rw [herror]; rfl, batch, mem_cons_self, hlong⟩

/-! ### The meaning of `Repeat` -/

/-- How often the engine repeats a row. -/
def repetitions (E : Engine V) (outer : List (Row V)) (count : BoundExpr) (row : Row V) : Nat :=
  ((count.eval E.toScalars outer row).bind E.repeatCount).getD 0

variable {rows rows' : List (Row V)}

theorem repeatedRows_eq_some {count : BoundExpr}
    (h : E.repeatedRows outer count width rows = some rows') :
    (∀ row ∈ rows, ∃ value, count.eval E.toScalars outer row = some value ∧
      E.repeatCount value = some (repetitions E outer count row)) ∧
    rows' = rows.flatMap fun row =>
      replicate (repetitions E outer count row) (row.take width) := by
  induction rows generalizing rows' with
  | nil =>
    cases h
    exact ⟨by simp, rfl⟩
  | cons row rows ih =>
    obtain ⟨part, rest, hpart, hrest, rfl⟩ := tryFlatMap_cons_eq_some.mp h
    obtain ⟨hreads, hrows⟩ := ih hrest
    split at hpart
    · cases hpart
    · simp only [bind_eq_bind, bind_eq_some_iff, some.injEq] at hpart
      obtain ⟨value, hvalue, times, htimes, rfl⟩ := hpart
      have hrepetitions : repetitions E outer count row = times := by
        simp [repetitions, hvalue, htimes]
      refine ⟨?_, by rw [flatMap_cons, hrepetitions, hrows]⟩
      rw [forall_mem_cons]
      exact ⟨⟨value, hvalue, by rw [htimes, hrepetitions]⟩, hreads⟩

/-- The operator computes the rows of `Repeat`, in whatever batches and order they come. -/
theorem repeatBatches_perm (hpos : 0 < op.width) (hwidth : op.width ≤ op.inputWidth)
    (hread : ∀ value, E.repeatCount value =
      (repeatCount op.count.dataType (op.number value)).toOption)
    (hrows : E.repeatedRows outer op.count op.width rows = some rows')
    (hbatches : batches.flatten.Perm rows) :
    (∃ outputs, repeatBatches E outer op batches = .ok outputs ∧ outputs.flatten.Perm rows') ∨
    (repeatBatches E outer op batches = .error indexError ∧
      ∃ batch ∈ batches, 2 ^ 32 < batch.length) := by
  obtain ⟨hreads, rfl⟩ := repeatedRows_eq_some hrows
  have hcounts : Counts E outer op (repetitions E outer op.count) batches.flatten := by
    intro row hrow
    obtain ⟨value, hvalue, htimes⟩ := hreads row (hbatches.mem_iff.mp hrow)
    refine ⟨value, hvalue, ?_⟩
    rw [hread] at htimes
    cases hcount : repeatCount op.count.dataType (op.number value) with
    | error error =>
      rw [hcount] at htimes
      cases htimes
    | ok times =>
      rw [hcount] at htimes
      exact congrArg _ (some.inj htimes)
  rcases repeatBatches_eq hpos hwidth hcounts with ⟨outputs, hok, hflat⟩ | herror
  · refine .inl ⟨outputs, hok, ?_⟩
    rw [hflat]
    exact hbatches.flatMap_right _
  · exact .inr herror

end Operator

end RustDb.Execution.Repeat
