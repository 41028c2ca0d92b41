import RowStore.Address
import RowStore.Summary
import RowStore.Value
/-!
# Faults

Everything an operation can fail with, by cause. `Fault.message` has the wording.
-/

namespace RowStore

/-- What the directory of files can refuse. -/
inductive FileFault where
  | notFound
  | isDirectory
  | notDirectory
  | invalidPath
  | nameTooLong
  | shortRead
deriving DecidableEq

inductive Fault where
  | file (cause : FileFault)
  | pastEnd (page : PageId) (fileName : String)
  | pageFull (page : PageId)
  | corruptPage (page : PageId)
  | rowNotFound (row : RowId)
  | rowWithoutLocation
  | poolFull
  | aborted (txn : TxnId)
  | notOpen
  | noMoreRows
  | unknownTable (table : TableId)
  | schemaMismatch (expected found : Schema)
  | wrongArity (expected : Schema) (found : Nat)
  | typeMismatch (expected : ColType) (found : Value)
  | noSuchField (index : Nat)
  | valueTooLong (length width : Nat)
  | unsupported (summary : Summary) (type : ColType)
  | overflow (summary : Summary)
  | tooManyRows
  | pageTooSmall (pageSize recordSize : Nat)
deriving DecidableEq

def FileFault.name : FileFault → String
  | .notFound => "NotFound"
  | .isDirectory => "IsADirectory"
  | .notDirectory => "NotADirectory"
  | .invalidPath => "InvalidInput"
  | .nameTooLong => "InvalidFilename"
  | .shortRead => "UnexpectedEof"

namespace Fault

def message : Fault → String
  | .file cause => cause.name
  | .pastEnd page fileName => s!"I/O error: {page.text} is past the end of {fileName}"
  | .pageFull page => s!"Page {page.text} is full"
  | .corruptPage page => s!"Page {page.text} is corrupted"
  | .rowNotFound row => s!"Record not found: {row.text}"
  | .rowWithoutLocation => "Record not found: tuple has no record id"
  | .poolFull => "Buffer pool is full, no evictable pages available"
  | .aborted txn => s!"Transaction {txn.text} aborted"
  | .notOpen => "Illegal state: operator is not open"
  | .noMoreRows => "No more tuples"
  | .unknownTable table => s!"Table {table.text} not found"
  | .schemaMismatch expected found =>
      s!"Schema mismatch: expected {expected.describe}, found {found.describe}"
  | .wrongArity expected found =>
      s!"Schema mismatch: expected {expected.describe}, found {found} values"
  | .typeMismatch expected found =>
      s!"Type mismatch: expected {expected.describe}, found {found.kind}"
  | .noSuchField index => s!"Field index {index} out of range"
  | .valueTooLong length width => s!"String of {length} bytes exceeds column width {width}"
  | .unsupported summary type => s!"Aggregate {summary.name} is not supported over {type.describe}"
  | .overflow summary => s!"Integer overflow computing {summary.name}"
  | .tooManyRows => "Integer overflow computing tuple count"
  | .pageTooSmall pageSize recordSize =>
      s!"Page size {pageSize} cannot hold a record of {recordSize} bytes"

end Fault

end RowStore
