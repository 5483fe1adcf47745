import Rollup.Error
import Rollup.Search.Fault

/-! # Errors of a search

An error has a status, a type and a reason, and shows as an object of these.
-/

namespace Rollup.Search

/-- Why a batch cannot be read, or an item of it has no table. -/
inductive BatchFault where
  | notText (fault : Utf8.Fault)
  | unpaired
  | header (fault : Fault)
  | body (fault : Fault)
  | noTable
  | stated (reason : String)
  deriving DecidableEq, Repr

def BatchFault.message : BatchFault → String
  | .notText fault => fault.message
  | .unpaired => "msearch body must have header/body pairs"
  | .header fault => s!"Invalid header: {fault.message}"
  | .body fault => s!"Invalid body: {fault.message}"
  | .noTable => "msearch item has no index and the request path names none"
  | .stated reason => reason

/-- Why a body makes no request. -/
inductive BodyFault where
  | unreadable (fault : Fault)
  | fieldNotString (aggregation value : String)
  | script (aggregation : String)
  | stated (reason : String)
  deriving DecidableEq, Repr

def BodyFault.message : BodyFault → String
  | .unreadable fault => fault.message
  | .fieldNotString aggregation value =>
      s!"[field] of aggregation [{aggregation}] must be a string, got {value}"
  | .script aggregation => s!"scripts are not supported in aggregation [{aggregation}]"
  | .stated reason => reason

/-- Why a search fails. -/
inductive Error where
  | indexNotFound (index : String)
  | invalidBatch (fault : BatchFault)
  | invalidBody (fault : BodyFault)
  | engine (error : Rollup.Error)
  deriving DecidableEq, Repr

namespace Error

def message : Error → String
  | .indexNotFound index => s!"no such index [{index}]"
  | .invalidBatch fault => s!"Invalid request body: {fault.message}"
  | .invalidBody fault => s!"Parse error: {fault.message}"
  | .engine error => error.message

/-- Whether the work breaks down, so that there is no answer. -/
def isBreakdown : Error → Bool
  | .engine .breakdown => true
  | _ => false

/-- The name under which an error is known. -/
def typeName : Error → String
  | .indexNotFound _ => "index_not_found_exception"
  | .invalidBatch _ => "parse_exception"
  | .invalidBody _ => "parse_exception"
  | .engine error => match error with
    | .tableNotFound _ => "index_not_found_exception"
    | .unsupportedType .. => "unknown_named_object_exception"
    | .unsupportedTypeForField .. => "unknown_named_object_exception"
    | .invalidDependency .. => "illegal_argument_exception"
    | .invalidAggregation .. => "illegal_argument_exception"
    | .invalidQuery _ => "parsing_exception"
    | .invalidValue .. => "aggregation_execution_exception"
    | .tooManyBuckets _ => "too_many_buckets_exception"
    | .timeout _ => "timeout_exception"
    | .cancelled => "task_cancelled_exception"
    | _ => "search_phase_execution_exception"

/-- The status of an answer that tells of an error: what lies in the request is the asker's fault. -/
def status : Error → Nat
  | .indexNotFound _ => 404
  | .invalidBatch _ => 400
  | .invalidBody _ => 400
  | .engine error => match error with
    | .tableNotFound _ => 404
    | .invalidQuery _ => 400
    | .invalidValue .. => 400
    | .tooManyBuckets _ => 400
    | .timeout _ => 504
    | error => if error.isValidation then 400 else 500

/-- Type and reason. -/
def causeMembers (error : Error) : Entries Json :=
  [("type", .string error.typeName), ("reason", .string error.message)]

/-- The answer that tells of an error. -/
def json (error : Error) : Json :=
  .object
    [("error", .object (("root_cause", .array [.object error.causeMembers]) :: error.causeMembers)),
     ("status", .ofNat error.status)]

/-- The answer to one search of a batch. -/
def itemJson (error : Error) : Json :=
  .object [("error", .object error.causeMembers), ("status", .ofNat error.status)]

end Error

end Rollup.Search
