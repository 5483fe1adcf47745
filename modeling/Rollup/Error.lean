import Rollup.Json.Raw

/-! # Errors

An error says what went wrong; its wording is in `message` alone. Faults of a request are found
before any row is read, except for those that only the rows can show. When the work breaks down,
whoever asked for it gets no answer at all.
-/

namespace Rollup

/-- The three kinds of aggregation: into buckets of rows, into a value of rows, and into a value of
the results beside it. -/
inductive Kind where
  | bucketing
  | metric
  | pipeline
  deriving DecidableEq, Repr, Inhabited

def Kind.label : Kind → String
  | .bucketing => "Bucketing"
  | .metric => "Metric"
  | .pipeline => "Pipeline"

/-- What is wrong with a parameter. -/
inductive ParamFault where
  | notCount
  | notNumber
  | notString
  | notObject
  | required
  | notPositive
  | badDirection
  | emptyOrder
  | notPath
  | unreadablePath (path : String)
  | badBound (side : String)
  | boundsReversed
  | outOfRange
  | boundOutOfRange (side : String)
  | unknownUnit (unit : String)
  | unreadableInterval (interval : String)
  | noInterval
  | manyIntervals
  | percentsNotList
  | badPercent
  | unknownPolicy (policy : String)
  deriving DecidableEq, Repr

def ParamFault.message : ParamFault → String
  | .notCount => "expected a non-negative integer"
  | .notNumber => "expected a number"
  | .notString => "expected a string"
  | .notObject => "expected an object"
  | .required => "is required"
  | .notPositive => "must be greater than 0"
  | .badDirection => "direction must be asc or desc"
  | .emptyOrder => "must name at least one key"
  | .notPath => "expected a string naming one sibling"
  | .unreadablePath path => s!"cannot parse path \"{path}\""
  | .badBound side => s!"invalid [{side}]"
  | .boundsReversed => "min must not exceed max"
  | .outOfRange => "is out of range"
  | .boundOutOfRange side => s!"{side} is out of range"
  | .unknownUnit unit => s!"unknown calendar unit [{unit}]"
  | .unreadableInterval interval => s!"cannot parse interval [{interval}]"
  | .noInterval => "one of [calendar_interval, fixed_interval, interval] is required"
  | .manyIntervals => "only one of [calendar_interval, fixed_interval, interval] may be set"
  | .percentsNotList => "expected a non-empty array"
  | .badPercent => "each percent must be a number in [0, 100]"
  | .unknownPolicy policy => s!"unknown policy [{policy}], expected skip or insert_zeros"

/-- Why a property cannot be read from a value. -/
inductive PropertyFault where
  | single (property : String)
  | stats
  | percentiles
  deriving DecidableEq, Repr

def PropertyFault.message : PropertyFault → String
  | .single property => s!"single-value aggregation has no property [{property}]"
  | .stats => "a stats value must be read as one of [count, min, max, sum, avg]"
  | .percentiles => "a percentiles value must be read by percent, e.g. [99]"

/-- What is wrong with an aggregation. -/
inductive NodeFault where
  | duplicateName
  | kindMismatch (kind : Kind) (typeName : String)
  | childrenNotAllowed (typeName : String)
  | fieldRequired (typeName : String)
  | fieldNotAllowed (typeName field : String)
  | parameter (name : String) (fault : ParamFault)
  | orderPath (child : String)
  | orderProperty (fault : PropertyFault)
  | sequenceRequired (typeName : String)
  | notBuiltFromRows
  | stated (reason : String)
  deriving DecidableEq, Repr

def NodeFault.message : NodeFault → String
  | .duplicateName => "an aggregation with this name already exists at this level"
  | .kindMismatch kind typeName => s!"kind {kind.label} does not match type [{typeName}]"
  | .childrenNotAllowed typeName => s!"[{typeName}] cannot have sub-aggregations"
  | .fieldRequired typeName => s!"[{typeName}] requires a field"
  | .fieldNotAllowed typeName field =>
      s!"pipeline aggregation [{typeName}] reads [buckets_path], not field [{field}]"
  | .parameter name fault => s!"parameter [{name}]: {fault.message}"
  | .orderPath child => s!"order path [{child}] does not name a metric sub-aggregation"
  | .orderProperty fault => s!"order path: {fault.message}"
  | .sequenceRequired typeName => s!"[{typeName}] needs a bucket sequence, not a single value"
  | .notBuiltFromRows =>
      "pipeline aggregations are resolved from siblings, not built from rows"
  | .stated reason => reason

/-- What is wrong with the result that a pipeline names. -/
inductive DependencyFault where
  | itself
  | ancestor
  | noSibling
  | bucketingProperty
  | notMetricChild (child : String)
  | notBucketing
  | declaredLater
  | singleValue (typeName : String)
  | property (fault : PropertyFault)
  | unresolved
  | shapeMismatch
  | stated (reason : String)
  deriving DecidableEq, Repr

def DependencyFault.message : DependencyFault → String
  | .itself => "an aggregation cannot depend on itself"
  | .ancestor => "buckets_path cannot reference an ancestor aggregation"
  | .noSibling => "no sibling aggregation with this name"
  | .bucketingProperty => "a bucketing sibling is read as [sibling>metric] or [sibling>_count]"
  | .notMetricChild child =>
      s!"path target [{child}] is not a metric sub-aggregation of the sibling"
  | .notBucketing => "only a bucketing sibling can be read through [>]"
  | .declaredLater => "a pipeline can only depend on pipelines declared before it"
  | .singleValue typeName =>
      s!"[{typeName}] needs a bucket sequence but the sibling yields a single value"
  | .property fault => fault.message
  | .unresolved => "no resolved sibling aggregation with this name"
  | .shapeMismatch => "buckets_path does not match the shape of the sibling"
  | .stated reason => reason

/-- What is wrong with a filter. -/
inductive QueryFault where
  | notObject
  | notOneClause
  | notOneField (kind : String)
  | termsNotList
  | existsWithoutField
  | unsupported (kind : String)
  | stated (reason : String)
  deriving DecidableEq, Repr

def QueryFault.message : QueryFault → String
  | .notObject => "filter query must be an object"
  | .notOneClause => "filter query must have exactly one clause"
  | .notOneField kind => s!"{kind} query expects a single field"
  | .termsNotList => "terms query expects an array"
  | .existsWithoutField => "exists query requires a field"
  | .unsupported kind => s!"unsupported filter query type [{kind}]"
  | .stated reason => reason

/-- Why a request, or the work around it, fails. -/
inductive Error where
  | unsupportedType (typeName : String) (supported : List String)
  | unsupportedTypeForField (typeName field : String) (supported : List String)
  | invalidDependency (aggregation dependency : String) (fault : DependencyFault)
  | missingColumn (aggregation column : String)
  | invalidAggregation (aggregation : String) (fault : NodeFault)
  | invalidValue (aggregation field value : String)
  | tooManyBuckets (limit : Nat)
  | cancelled
  | timeout (millis : Nat)
  | tableNotFound (table : String)
  | invalidQuery (fault : QueryFault)
  | source (reason : String)
  | config (reason : String)
  | io (reason : String)
  | json (fault : Json.Fault)
  /-- The work ends where it stands for want of memory. No answer tells of it. -/
  | breakdown
  deriving DecidableEq, Repr

namespace Error

def message : Error → String
  | .unsupportedType typeName supported =>
      s!"Unsupported aggregation type [{typeName}], supported types: [" ++
        ", ".intercalate supported ++ "]"
  | .unsupportedTypeForField typeName field supported =>
      s!"Unsupported aggregation type [{typeName}] requested on field [{field}], supported types: [" ++
        ", ".intercalate supported ++ "]"
  | .invalidDependency aggregation dependency fault =>
      s!"Invalid pipeline dependency in [{aggregation}] on [{dependency}]: {fault.message}"
  | .missingColumn aggregation column =>
      s!"Row is missing column [{column}] required by aggregation [{aggregation}]"
  | .invalidAggregation aggregation fault =>
      s!"Invalid aggregation [{aggregation}]: {fault.message}"
  | .invalidValue aggregation field value =>
      s!"Invalid value {value} in field [{field}] for aggregation [{aggregation}]"
  | .tooManyBuckets limit =>
      s!"Too many buckets: request would create more than {limit} buckets"
  | .cancelled => "Aggregation request cancelled"
  | .timeout millis => s!"Aggregation request timed out after {millis}ms"
  | .tableNotFound table => s!"Table not found: {table}"
  | .invalidQuery fault => s!"Invalid filter query: {fault.message}"
  | .source reason => s!"Row source error: {reason}"
  | .config reason => s!"Config error: {reason}"
  | .io reason => s!"IO error: {reason}"
  | .json fault => s!"JSON error: {fault.message}"
  | .breakdown => "capacity overflow"

/-- Whether an error is found in the request itself, before any row is read. -/
def isValidation : Error → Bool
  | .unsupportedType .. => true
  | .unsupportedTypeForField .. => true
  | .invalidDependency .. => true
  | .invalidAggregation .. => true
  | _ => false

end Error

end Rollup
