import CodeSystemGraph.Text
import CodeSystemGraph.Model

/-! Route templates: the classification of one path segment, the shape of a
path, and the comparison of a literal-and-parameter segment with a concrete one. -/

namespace CodeSystemGraph.Routes
open Model Text

inductive RouteSegment
  | static (value : String)
  | param
  | mixed (literals : List String)
  | catchAll
deriving DecidableEq

structure RouteShape where
  segments : List RouteSegment
deriving DecidableEq

/-- The loop over `{`; it fails on braces that do not pair up. -/
def mixedLiteralsFrom (literals : List String) (remaining : List Char) : Option (List String) :=
  match _outer : splitOnce '{' remaining with
  | (_, none) =>
    if literals.isEmpty || remaining.contains '}' then none
    else some (literals ++ [String.ofList remaining])
  | (before, some parameter) =>
    match _inner : splitOnce '}' parameter with
    | (_, none) => none
    | (name, some after) =>
      if name.contains '{' || before.contains '}' then none
      else
        -- `${name}` is the interpolation of the same parameter
        mixedLiteralsFrom
          (literals ++ [String.ofList ((stripSuffix ['$'] before).getD before)]) after
termination_by remaining.length
decreasing_by exact (splitOnce_length _inner).trans (splitOnce_length _outer)

section Loop

variable {literals : List String} {remaining before parameter : List Char}

theorem mixedLiteralsFrom_last (outer : splitOnce '{' remaining = (before, none)) :
    mixedLiteralsFrom literals remaining =
      if literals.isEmpty || remaining.contains '}' then none
      else some (literals ++ [String.ofList remaining]) := by
  unfold mixedLiteralsFrom
  split
  · rfl
  · next opened => simp [outer] at opened

theorem mixedLiteralsFrom_open (outer : splitOnce '{' remaining = (before, some parameter))
    {name : List Char} (inner : splitOnce '}' parameter = (name, none)) :
    mixedLiteralsFrom literals remaining = none := by
  unfold mixedLiteralsFrom
  split
  · next closed => simp [outer] at closed
  · next opened =>
    rw [outer] at opened
    cases opened
    split
    · rfl
    · next closed => simp [inner] at closed

theorem mixedLiteralsFrom_next (outer : splitOnce '{' remaining = (before, some parameter))
    {name after : List Char} (inner : splitOnce '}' parameter = (name, some after)) :
    mixedLiteralsFrom literals remaining =
      if name.contains '{' || before.contains '}' then none
      else mixedLiteralsFrom
        (literals ++ [String.ofList ((stripSuffix ['$'] before).getD before)]) after := by
  rw [mixedLiteralsFrom]
  split
  · next closed => simp [outer] at closed
  · next opened =>
    rw [outer] at opened
    cases opened
    split
    · next opened => simp [inner] at opened
    · next closed =>
      rw [inner] at closed
      cases closed
      rfl

end Loop

def mixedSegmentLiterals (segment : List Char) : Option (List String) :=
  mixedLiteralsFrom [] segment

def startsWith (text : List Char) (head : String) : Bool := head.toList.isPrefixOf text

def endsWith (text : List Char) (tail : String) : Bool := tail.toList.isSuffixOf text

def between (opening closing : Char) (segment : List Char) : Option (List Char) :=
  (stripPrefix [opening] segment).bind (stripSuffix [closing])

def braced (segment : List Char) : Option (List Char) :=
  (between '{' '}' segment).filter fun inner => !inner.contains '{' && !inner.contains '}'

-- Lengths are in characters; the tests that use them also fix ASCII ends.
def classifySegment (segment : List Char) : RouteSegment :=
  if segment = "*".toList ∨ segment = "**".toList then .catchAll
  else
    match braced segment with
    | some inner =>
      if startsWith inner "*" || endsWith inner "..." || endsWith inner ":path" ||
          endsWith inner ":.*" || endsWith inner ":.+" then .catchAll
      else .param
    | none =>
      if (startsWith segment "[..." && endsWith segment "]") ||
          (startsWith segment "[[..." && endsWith segment "]]") then .catchAll
      else if 2 < segment.length && startsWith segment "[" && endsWith segment "]" then .param
      else
        match between '<' '>' segment with
        | some inner => if startsWith inner "path:" then .catchAll else .param
        | none =>
          match (stripPrefix [':'] segment).filter (· ≠ []) with
          | some name => if endsWith name "*" || endsWith name "+" then .catchAll else .param
          | none =>
            if 1 < segment.length && startsWith segment "*" then .catchAll
            else
              match mixedSegmentLiterals segment with
              | some literals => if literals = ["", ""] then .param else .mixed literals
              | none => .static (String.ofList segment)

/-- The segments up to the first catch-all. -/
def classifyAll : List (List Char) → List RouteSegment
  | [] => []
  | segment :: rest =>
    if classifySegment segment = .catchAll then [.catchAll]
    else classifySegment segment :: classifyAll rest

def RouteShape.parse (path : String) : RouteShape where
  segments :=
    classifyAll (((path.toList.takeWhile fun c => c ≠ '?' && c ≠ '#').splitOnP (· == '/')).filter
      (· ≠ []))

example : (RouteShape.parse "/a/{id}/x{n}.json/{*rest}/z?q").segments =
    [.static "a", .param, .mixed ["x", ".json"], .catchAll] := by decide +kernel

def consumeMiddle : List String → List Char → Bool
  | [], remaining => !remaining.isEmpty
  | _ :: _, [] => false
  | literal :: middle, _ :: remaining =>
    match afterFirst literal.toList remaining with
    | none => false
    | some rest => consumeMiddle middle rest

def mixedSegmentMatches (literals : List String) (value : String) : Bool :=
  match literals with
  | first :: second :: rest =>
    let middle := (second :: rest).dropLast
    let last := (second :: rest).getLast (by simp)
    match (stripPrefix first.toList value.toList).bind (stripSuffix last.toList) with
    | none => false
    | some remaining => consumeMiddle middle remaining
  | _ => false

example : mixedSegmentMatches ["", ".json"] "42.json" = true := by decide
example : mixedSegmentMatches ["", ".json"] ".json" = false := by decide

end CodeSystemGraph.Routes
