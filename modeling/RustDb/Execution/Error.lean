import Mathlib.Algebra.Order.Field.Rat

/-!
# Errors of planning and execution

The variants of `error.rs` that planning an expression and running an operator raise.
-/

namespace RustDb.Execution

/-- The errors of the engine that the model distinguishes. -/
inductive Error where
  | arrow (message : String)
  | internal (message : String)
  | invalidArgument (message : String)
  | unsupported (message : String)
  | resourceExhausted (message : String)
  | execution (message : String)
  | cancelled
deriving DecidableEq, Repr

end RustDb.Execution
