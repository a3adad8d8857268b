import Ixion.Address

/-!
# Errors

Formula errors (`FormulaError`) are ordinary values: a formula cell may hold one
as its result.  Exceptions (`Exn`) interrupt a computation; each constructor is
one class that the code throws and carries what its message is made of.  A call
may also fail to come back at all (`Failure`): through a null pointer, because it
blocks on a result that no thread will produce or on a lock that it holds itself,
because the stack is exhausted, or because its behaviour is undefined.
-/

namespace Ixion

/-- Formula error types. -/
inductive FormulaError where
  | noError
  | refResultNotAvailable
  | divisionByZero
  | invalidExpression
  | nameNotFound
  | noRangeIntersection
  | invalidValueType
  | noValueAvailable
  | noResultError
  | stackError
  | generalError
deriving DecidableEq, Repr

namespace FormulaError

/-- The number of an error type.  Numbers from 200 on are internal errors. -/
def code : FormulaError → Nat
  | noError => 0
  | refResultNotAvailable => 1
  | divisionByZero => 2
  | invalidExpression => 3
  | nameNotFound => 4
  | noRangeIntersection => 5
  | invalidValueType => 6
  | noValueAvailable => 7
  | noResultError => 253
  | stackError => 254
  | generalError => 255

end FormulaError

/-- The exceptions thrown by the code, by class. -/
inductive Exn where
  /-- `formula_error` -/
  | formulaError (error : FormulaError)
  /-- `invalid_expression`, private to the formula interpreter -/
  | invalidExpression (msg : String)
  /-- `formula_functions::invalid_arg` -/
  | invalidArg (msg : String)
  /-- `general_error` itself -/
  | generalError (msg : String)
  /-- `not_implemented_error` -/
  | notImplementedError (msg : String)
  /-- `formula_registration_error`, thrown by a function for a cell -/
  | formulaRegistrationError (func : String) (pos : AbsAddress)
  /-- `model_context_error` -/
  | modelContextError (msg : String)
  /-- `formula_parser::parse_error`, or the lexer's -/
  | parseError (msg : String)
  /-- `std::invalid_argument` -/
  | invalidArgument (msg : String)
  /-- `std::out_of_range`, thrown by a container -/
  | outOfRange
  /-- `std::logic_error` -/
  | logicError (msg : String)
deriving DecidableEq, Repr

/-- The ways in which a call does not return normally. -/
inductive Failure where
  /-- An exception leaves the call. -/
  | exception (e : Exn)
  /-- A null pointer is dereferenced. -/
  | nullPointer
  /-- The call waits for a result that is never set. -/
  | wait
  /-- The call locks a mutex that it has locked before. -/
  | deadlock
  /-- The recursion is deeper than the stack. -/
  | stackOverflow
  /-- An assertion fails. -/
  | assertionFailed (expr : String)
  /-- The behaviour is undefined. -/
  | undefined
deriving DecidableEq, Repr

/-- A computation that works on a state and may fail.  What it did to the state
before it failed stays. -/
abbrev Exec (σ α : Type) : Type := EStateM Failure σ α

/-- Throw an exception. -/
def throwExn {σ α : Type} (e : Exn) : Exec σ α := throw (.exception e)

/-- Run a computation that has no state. -/
def liftExcept {σ α : Type} : Except Exn α → Exec σ α
  | .ok a => return a
  | .error e => throwExn e

/-- Run a computation that has no state and may fail in any way. -/
def liftFailure {σ α : Type} : Except Failure α → Exec σ α
  | .ok a => return a
  | .error e => throw e

/-- The state in which a computation ends, whether it returns or fails. -/
def finalState {σ α : Type} (x : Exec σ α) (s : σ) : σ :=
  match x s with
  | .ok _ s' => s'
  | .error _ s' => s'

end Ixion
