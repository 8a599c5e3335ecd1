import Scriptlet.Position
import Scriptlet.Syntax

/-!
# What can go wrong in a running program

A failure is a cause and, once it is known, the position where the program
failed. A failure gets its position from the innermost expression or statement
it passes on its way out.
-/

namespace Scriptlet

/-- Why the host refuses a request for a file. -/
inductive HostError where
  | notFound (path : String)
  | storageUnavailable
  /-- The operating system refused, with the given explanation. -/
  | system (path reason : String)
  deriving DecidableEq, Repr

namespace HostError

/-- The reason alone, in words. -/
def reason : HostError → String
  | notFound _ => "file not found"
  | storageUnavailable => "file storage is not available"
  | system _ reason => reason

/-- The refusal in words. -/
def message : HostError → String
  | notFound path => path ++ ": file not found"
  | storageUnavailable => "file storage is not available"
  | system path reason => path ++ ": " ++ reason

end HostError

/-- An operation on a value of the wrong type. -/
inductive TypeFault where
  | notCallable (type : String)
  | cannotIndex (type key : String)
  | cannotAssignIndexed (type key : String)
  | cannotSetProperty (name type : String)
  | cannotIterate (type : String)
  deriving DecidableEq, Repr

namespace TypeFault

/-- The fault in words. -/
def message : TypeFault → String
  | notCallable type => "`" ++ type ++ "` is not callable"
  | cannotIndex type key => "cannot index `" ++ type ++ "` with `" ++ key ++ "`"
  | cannotAssignIndexed type key => "cannot assign to `" ++ type ++ "` indexed by `" ++ key ++ "`"
  | cannotSetProperty name type => "cannot set property `" ++ name ++ "` on `" ++ type ++ "`"
  | cannotIterate type => "cannot iterate over `" ++ type ++ "`"

end TypeFault

/-- Why a program fails. -/
inductive Cause where
  | undefinedVariable (name : String)
  | immutableBinding (name : String)
  | wrongType (fault : TypeFault)
  | invalidOperands (op : BinaryOp) (left right : String)
  | invalidOperand (op : UnaryOp) (operand : String)
  | arityMismatch (name : String) (expected got : Nat)
  | integerOverflow
  | divisionByZero
  | undefinedField (owner field : String)
  | indexOutOfBounds (index : Int64) (length : Nat)
  | breakOutsideLoop
  | continueOutsideLoop
  | stackOverflow (depth limit : Nat)
  | interrupted
  | hostFailure (error : HostError)
  | builtinFailed (name message : String)
  deriving DecidableEq, Repr

namespace Cause

/-- The cause in words. -/
def message : Cause → String
  | undefinedVariable name => "undefined variable `" ++ name ++ "`"
  | immutableBinding name => "cannot assign to constant `" ++ name ++ "`"
  | wrongType fault => "type error: " ++ fault.message
  | invalidOperands op left right =>
    "cannot apply `" ++ op.text ++ "` to `" ++ left ++ "` and `" ++ right ++ "`"
  | invalidOperand op operand => "cannot apply `" ++ op.text ++ "` to `" ++ operand ++ "`"
  | arityMismatch name expected got =>
    "`" ++ name ++ "` expects " ++ toString expected ++ " argument(s), got " ++ toString got
  | integerOverflow => "integer overflow"
  | divisionByZero => "division by zero"
  | undefinedField owner field => "`" ++ owner ++ "` has no property `" ++ field ++ "`"
  | indexOutOfBounds index length =>
    "index " ++ toString index.toInt ++ " out of bounds for length " ++ toString length
  | breakOutsideLoop => "`break` outside of a loop"
  | continueOutsideLoop => "`continue` outside of a loop"
  | stackOverflow depth limit =>
    "stack overflow: call depth " ++ toString depth ++ " exceeds limit " ++ toString limit
  | interrupted => "evaluation interrupted"
  | hostFailure error => "host I/O failure: " ++ error.message
  | builtinFailed name message => name ++ ": " ++ message

end Cause

/-- A cause and, if it is known, the position where the program failed. -/
structure Failure where
  cause : Cause
  position : Option Position
  deriving DecidableEq, Repr

namespace Failure

/-- The failure in words. -/
def message (f : Failure) : String := f.cause.message

/-- The failure at `p`, unless its position is known already. -/
def located (f : Failure) (p : Position) : Failure :=
  { f with position := some (f.position.getD p) }

end Failure

end Scriptlet
