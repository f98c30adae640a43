import RustDb.Native.WalRuns
import RustDb.Native.RebaseSuccess
import RustDb.Native.Operations
import RustDb.Sidecar.Agreement
import RustDb.Sidecar.FileRoundTrip
import RustDb.Sql.EraseOutput
import RustDb.Optimizer.PredicateRelocation
import RustDb.Datasource.CsvMorsel
import RustDb.Execution.Like
import RustDb.Sql.Multiplicity
import RustDb.Native.DeleteVectorCodec
import RustDb.Native.WriteBudget
import RustDb.Datasource.DeleteAwareScan
import RustDb.Datasource.Hive
import RustDb.Runtime.SchedulerRuns
import RustDb.Runtime.SpillQuota
import RustDb.Runtime.MemoryStranding
import RustDb.Execution.AggregateOrder
import RustDb.Optimizer.ColumnPruning
import RustDb.Execution.DenseSums
import RustDb.Execution.DistinctCodec
import RustDb.Execution.NumericRounding
