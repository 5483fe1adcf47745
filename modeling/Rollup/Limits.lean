/-! # Limits of a request -/

namespace Rollup

/-- What one request may use. -/
structure Limits where
  /-- How many siblings are built at the same time. Settings may name any positive number. A scheduler
  holds fewer than `2 ^ 61` permits and breaks down when it is set up with more; that is left out. -/
  concurrentBuilds : Nat := 8
  /-- How many buckets one request may create. -/
  buckets : Nat := 65536
  /-- How many buckets a terms aggregation keeps unless it says so itself. -/
  termsSize : Nat := 10
  /-- Milliseconds that a request may take; zero means any number of them. -/
  timeout : Nat := 30000
  deriving DecidableEq, Repr

end Rollup
