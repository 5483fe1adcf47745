import Rollup.Aggregation.Order

/-! # Bucket paths

A path names the sibling whose result a pipeline reads, and what to read from it: `sibling`,
`sibling.property`, `sibling>_count`, `sibling>metric` or `sibling>metric.property`.
-/

namespace Rollup

/-- What a path reads from a sibling. -/
inductive PathTarget where
  /-- The sibling itself: the counts of its buckets, or its value. -/
  | itself (property : Option String)
  /-- The counts of its buckets. -/
  | count
  /-- A metric in each of its buckets. -/
  | metric (path : PropertyPath)
  deriving DecidableEq, Repr

structure BucketsPath where
  sibling : String
  target : PathTarget
  deriving DecidableEq, Repr

namespace BucketsPath

/-- Pieces of a text between separators; there is one more of them than separators. -/
def pieces (separator : Char) : List Char → List (List Char)
  | [] => [[]]
  | c :: rest =>
      if c = separator then [] :: pieces separator rest
      else match pieces separator rest with
        | [] => [[c]]
        | piece :: others => (c :: piece) :: others

/-- Read a path. Every name in it holds a character at least. -/
def ofText? (text : String) : Option BucketsPath :=
  match (pieces '>' text.toList).map String.ofList with
  | [whole] =>
      let path := PropertyPath.ofText whole
      if path.name.isEmpty then none else some ⟨path.name, .itself path.property⟩
  | [sibling, inner] =>
      if sibling.isEmpty then none
      else if inner = "_count" then some ⟨sibling, .count⟩
      else
        let path := PropertyPath.ofText inner
        if path.name.isEmpty then none else some ⟨sibling, .metric path⟩
  | _ => none

/-- The text of a node's path: a string, or an object with a string as its only member. -/
def textOfNode (node : Node) : Except Error String :=
  match node.params.lookup "buckets_path" with
  | some (.string text) => .ok text
  | some (.object [(_, member)]) => match member with
    | .string text => .ok text
    | _ => .error (node.badParam "buckets_path" .notString)
  | some _ => .error (node.badParam "buckets_path" .notPath)
  | none => .error (node.badParam "buckets_path" .required)

/-- The path that a node names. -/
def ofNode (node : Node) : Except Error BucketsPath := do
  let text ← textOfNode node
  match ofText? text with
  | some path => return path
  | none => throw (node.badParam "buckets_path" (.unreadablePath text))

end BucketsPath

end Rollup
