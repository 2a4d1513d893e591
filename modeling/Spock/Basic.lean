import Mathlib.Algebra.GroupWithZero.Nat
import Mathlib.Data.List.Basic

/-!
# Spock — scalar types shared by the models

The machine-level scalars of the extension and the errors PostgreSQL code raises. A WAL position
(`XLogRecPtr`) and a transaction id (`TransactionId`) is a natural number with `0` as the invalid
value; a timestamp (`TimestampTz`, microseconds since 2000-01-01) is an integer with `0` standing
for "no timestamp". Neither is computed with beyond comparison and, for the logical clock, adding
one, so the widths of the C types play no part.
-/

namespace Spock

/-- Ids 1 and 2 are `BootstrapTransactionId` and `FrozenTransactionId`. -/
abbrev firstNormalTransactionId : Nat := 3

def transactionIdIsValid (xid : Nat) : Bool := xid != 0

def transactionIdIsNormal (xid : Nat) : Bool := firstNormalTransactionId ≤ xid

/-! ## Errors

`ereport(ERROR, ...)` carries an SQLSTATE; a bare `elog(ERROR, ...)` gets
`ERRCODE_INTERNAL_ERROR`. The apply loop tells connection trouble and shutdown from every
other error by this code alone. -/

inductive SqlErrCode where
  | internalError
  | connectionFailure
  | connectionException
  | connectionDoesNotExist
  | adminShutdown
  | protocolViolation
  | invalidParameterValue
  | undefinedTable
  | uniqueViolation
  | datatypeMismatch
  | invalidBinaryRepresentation
  | readOnlySqlTransaction
  | other (code : Nat)
  deriving DecidableEq

structure ErrorData where
  sqlerrcode : SqlErrCode
  message : String
  deriving DecidableEq

/-- `elog(ERROR, message)`. -/
def elogError (message : String) : ErrorData := ⟨.internalError, message⟩

end Spock
